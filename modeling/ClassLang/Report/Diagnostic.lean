import ClassLang.Types.Error
/-!
# Reports — diagnostics in one line

A diagnostic is a message with a line and a column. Every fault also has a
code, shared by the faults of one kind, and a short label for the place
that it is reported at.
-/


namespace ClassLang

/-- A message and where it belongs. -/
structure Diagnostic where
  message : String
  line : Nat
  column : Nat
deriving DecidableEq, Repr

/-- The diagnostic of an error. -/
def TypeError.diagnostic (e : TypeError) : Diagnostic := ⟨e.message, e.pos.line, e.pos.column⟩

/-- A diagnostic in one line. -/
def Diagnostic.text (d : Diagnostic) : String :=
  "Error in line " ++ toString d.line ++ ":" ++ toString d.column ++ ": " ++ d.message

/-- The code of a fault. -/
def TypeFault.code : TypeFault → String
  | missingMain | mainReturnType | mainHasParams | mainMissingReturn => "E0001"
  | duplicateFunction _ _ | duplicateClass _ _ => "E0002"
  | duplicateParam _ | duplicateVariable _ => "E0003"
  | duplicateField _ _ | duplicateMethod _ _ => "E0004"
  | incompatibleOverride _ _ => "E0005"
  | inheritanceCycle _ => "E0006"
  | unknownSuperclass _ _ | unresolvedType _ _ => "E0007"
  | returnMismatch _ _ | assignMismatch _ _ | conditionNotBool _ _ | mismatch _ _ => "E0008"
  | notAnArray _ | indexNotArray _ => "E0009"
  | notComparable _ _ => "E0010"
  | thisOutsideMethod => "E0011"
  | notAClassObject | noSuchMethod _ _ | noSuchField _ _ => "E0012"
  | arityMismatch _ _ => "E0013"
  | unknownFunction _ | unknownVariable _ => "E0014"

/-- What is written under the place that a fault is reported at. -/
def TypeFault.label : TypeFault → String
  | returnMismatch _ found | mismatch _ found | conditionNotBool _ found =>
    "this has type " ++ found
  | assignMismatch _ value => "value has type " ++ value
  | duplicateField _ previous | duplicateMethod _ previous | duplicateClass _ previous
  | incompatibleOverride _ previous => "first declared at " ++ previous.text
  | _ => "here"

end ClassLang
