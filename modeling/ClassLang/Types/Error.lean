import ClassLang.Text.Span
/-!
# Types — semantic errors

What can be wrong with a program that parses: one constructor for each
kind of fault, with what its message tells. Types are stored as they are
written, so an error can be shown without the tables that led to it.
-/


namespace ClassLang

/-- The declaration that a type which cannot be resolved belongs to. -/
inductive TypeRole
  /-- A local variable, a field or a new object or array. -/
  | plain
  | parameter
  | return_
deriving DecidableEq, Repr

/-- The statement that a condition belongs to. -/
inductive ConditionOf
  | if_
  | while_
deriving DecidableEq, Repr

/-- What is wrong. -/
inductive TypeFault
  | missingMain
  | mainReturnType
  | mainHasParams
  | mainMissingReturn
  /-- The earlier function is a built-in if it has no position. -/
  | duplicateFunction (name : String) (previous : Option Pos)
  | duplicateClass (name : String) (previous : Pos)
  | duplicateParam (name : String)
  | duplicateVariable (name : String)
  | duplicateField (name : String) (previous : Pos)
  | duplicateMethod (name : String) (previous : Pos)
  /-- A method whose signature differs from the one it overrides. -/
  | incompatibleOverride (name : String) (previous : Pos)
  | inheritanceCycle (class_ : String)
  | unknownSuperclass (superclass class_ : String)
  | unresolvedType (ty : String) (role : TypeRole)
  | returnMismatch (expected found : String)
  | assignMismatch (target value : String)
  | conditionNotBool (of : ConditionOf) (found : String)
  | mismatch (expected found : String)
  | notAnArray (found : String)
  | indexNotArray (found : String)
  | notComparable (lhs rhs : String)
  | thisOutsideMethod
  | notAClassObject
  | noSuchMethod (method class_ : String)
  | noSuchField (field class_ : String)
  | arityMismatch (expected found : Nat)
  | unknownFunction (name : String)
  | unknownVariable (name : String)
deriving DecidableEq, Repr

/-- How messages start that speak of a type with this role. -/
def TypeRole.describe : TypeRole → String
  | plain => "Type "
  | parameter => "Parameter type "
  | return_ => "Return type "

/-- How messages name the statement of a condition. -/
def ConditionOf.describe : ConditionOf → String
  | if_ => "if"
  | while_ => "while"

/-- The wording of a fault. -/
def TypeFault.message : TypeFault → String
  | missingMain => "Method int main() must be present"
  | mainReturnType => "Return type of the main method must be int"
  | mainHasParams => "Main method does not take parameters"
  | mainMissingReturn => "Main method does not have a return statement as the last statement"
  | duplicateFunction name (some previous) =>
    "There already is a global function with name " ++ name ++ " defined in " ++ previous.text
  | duplicateFunction name none => "There already is a built-in function with name " ++ name
  | duplicateClass name previous =>
    "A class with name " ++ name ++ " is already defined in " ++ previous.text ++ "."
  | duplicateParam name => "Parameter with name " ++ name ++ " already exists."
  | duplicateVariable name => "A variable with name " ++ name ++ " is already defined."
  | duplicateField name previous =>
    "A field with name " ++ name ++ " is already defined in " ++ previous.text ++ "."
  | duplicateMethod name previous =>
    "A method with name " ++ name ++ " is already defined in " ++ previous.text ++ "."
  | incompatibleOverride name previous =>
    "A method with name " ++ name ++ " and different type is already defined in "
      ++ previous.text ++ "."
  | inheritanceCycle class_ => "Class " ++ class_ ++ " is part of an inheritance cycle."
  | unknownSuperclass superclass class_ =>
    "Superclass " ++ superclass ++ " cannot be found for class " ++ class_
  | unresolvedType ty role => role.describe ++ ty ++ " cannot be resolved."
  | returnMismatch expected found =>
    "Should return value of type " ++ expected ++ ", but found " ++ found ++ "."
  | assignMismatch target value =>
    "Cannot assign value of type " ++ value ++ " to " ++ target ++ "."
  | conditionNotBool of found =>
    "Condition of " ++ of.describe ++ "-statement must be of type boolean, but this is of type "
      ++ found ++ "."
  | mismatch expected found =>
    "Expected expression of type " ++ expected ++ " but found " ++ found ++ "."
  | notAnArray found => "Expected expression of array type, but found " ++ found ++ "."
  | indexNotArray found => "Expected an array for array-lookup, but found " ++ found
  | notComparable lhs rhs => "Cannot compare types " ++ lhs ++ " and " ++ rhs ++ "."
  | thisOutsideMethod => "Keyword 'this' is only valid in class methods."
  | notAClassObject => "Receiver is not a class object."
  | noSuchMethod method class_ => "No such method " ++ method ++ " in class " ++ class_
  | noSuchField field class_ => "No such field " ++ field ++ " in class " ++ class_
  | arityMismatch expected found =>
    if found < expected then "Not enough arguments." else "Too many arguments."
  | unknownFunction name => "Function " ++ name ++ " does not exist."
  | unknownVariable name => "Variable " ++ name ++ " is not defined."

/-- A fault and where it is reported. -/
structure TypeError where
  fault : TypeFault
  pos : Pos
deriving DecidableEq, Repr

/-- The wording of an error. -/
def TypeError.message (e : TypeError) : String := e.fault.message

end ClassLang
