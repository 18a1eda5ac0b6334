import ClassLang.Ir.Program
import ClassLang.Types.Hierarchy
/-!
# Lowering — faults

What can keep a program from being lowered. A program with semantic
errors is refused; every other fault means that the analysis at hand was
made for another program.
-/


namespace ClassLang.Lowering

open Source (NodeId)

/-- What may lack a layout. -/
inductive Part
  | class_ (id : ClassId)
  | function (index : Nat)
  | field (ref : MemberRef)
  | method (ref : MemberRef)
  /-- The first parameter of a method. -/
  | receiver (method : String)
deriving DecidableEq, Repr

/-- How messages call it. -/
def Part.describe : Part → String
  | class_ id => "class #" ++ toString id
  | function index => "function #" ++ toString index
  | field ref => "field #" ++ toString ref.index ++ " of class #" ++ toString ref.class_
  | method ref => "method #" ++ toString ref.index ++ " of class #" ++ toString ref.class_
  | receiver name => "receiver of `" ++ name ++ "`"

/-- Why a program cannot be lowered. -/
inductive Error
  | uncheckedProgram (errors : Nat)
  | missingType (id : NodeId)
  | missingCallee (id : NodeId)
  | missingBinding (id : NodeId)
  | missingField (id : NodeId)
  | missingLocal (id : NodeId)
  | unresolvedType (ty : String)
  | noRepresentation (ty : String)
  | noLayout (what : Part)
  | unknownClass (name : String)
  | inheritanceCycle (class_ : String)
  | notAClass (ty : String)
  | unknownMethod (class_ method : String)
  | thisOutsideMethod
  | intrinsicArity (name : String) (found : Nat)
  | notAFunction (name : String)
  | ir (error : Ir.Error)
  /-- A superclass that is none of the classes of the program. -/
  | classOutOfRange (id : ClassId) (count : Nat)
deriving DecidableEq, Repr

/-- How messages show the identity of a node. -/
def nodeText (id : NodeId) : String := "NodeId(" ++ toString id ++ ")"

/-- The wording of a fault. -/
def Error.message : Error → String
  | uncheckedProgram errors =>
    "cannot translate a program with " ++ toString errors ++ " semantic error(s)"
  | missingType id => "no type recorded for node " ++ nodeText id
  | missingCallee id => "no callee recorded for call " ++ nodeText id
  | missingBinding id => "no declaration recorded for variable " ++ nodeText id
  | missingField id => "no field recorded for access " ++ nodeText id
  | missingLocal id => "no storage for local " ++ nodeText id
  | unresolvedType ty => "type `" ++ ty ++ "` does not resolve"
  | noRepresentation ty => "type `" ++ ty ++ "` has no runtime representation"
  | noLayout what => "no layout for " ++ what.describe
  | unknownClass name => "class `" ++ name ++ "` does not exist"
  | inheritanceCycle class_ => "class `" ++ class_ ++ "` inherits from itself"
  | notAClass ty => "receiver of type `" ++ ty ++ "` is not a class object"
  | unknownMethod class_ method => "class `" ++ class_ ++ "` has no method `" ++ method ++ "`"
  | thisOutsideMethod => "`this` used outside of a method"
  | intrinsicArity name found =>
    "built-in `" ++ name ++ "` takes one argument, found " ++ toString found
  | notAFunction name => "`" ++ name ++ "` cannot be called as a free function"
  | ir error => error.message
  | classOutOfRange id count =>
    "index out of bounds: the len is " ++ toString count ++ " but the index is " ++ toString id

end ClassLang.Lowering
