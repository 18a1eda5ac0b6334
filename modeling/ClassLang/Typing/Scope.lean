import ClassLang.Types.Hierarchy
/-!
# Typing — scopes

Names of variables and names of fields live apart, so a local variable
may hide a field. Entering a block pushes a frame, leaving it pops the
frame with all that was declared in it; the frame of the function or class
itself is never popped.
-/


namespace ClassLang.Typing

open Source (NodeId)

/-- Where a name was declared. -/
inductive DeclRef
  /-- A parameter or a local variable. -/
  | local_ (id : NodeId)
  /-- A field of the object that the method was called on. -/
  | field (ref : MemberRef)
deriving DecidableEq, Repr

/-- The type of a name and its declaration. -/
structure VarInfo where
  ty : Ty
  decl : DeclRef
deriving DecidableEq, Repr

/-- The names declared in one block. -/
structure Frame where
  vars : Table String VarInfo
  fields : Table String VarInfo
deriving DecidableEq, Repr

/-- A frame without names. -/
def Frame.empty : Frame := ⟨[], []⟩

/-- The names in scope, and the types that statements refer to. -/
structure Scope where
  /-- The frame that takes declarations. -/
  inner : Frame
  /-- The frames around it, innermost first. -/
  outer : List Frame
  returnTy : Ty
  thisTy : Ty
deriving DecidableEq, Repr

namespace Scope

/-- A scope without names, outside of every class. -/
def empty : Scope := ⟨.empty, [], .any, .any⟩

/-- Enters a block. -/
def push (s : Scope) : Scope := { s with inner := .empty, outer := s.inner :: s.outer }

/-- Leaves a block. -/
def pop (s : Scope) : Scope :=
  match s.outer with
  | [] => s
  | frame :: rest => { s with inner := frame, outer := rest }

/-- The variable of a name; the innermost counts. -/
def lookupVar (s : Scope) (name : String) : Option VarInfo :=
  (s.inner :: s.outer).findSome? (·.vars.get? name)

/-- The field of a name; the innermost counts. -/
def lookupField (s : Scope) (name : String) : Option VarInfo :=
  (s.inner :: s.outer).findSome? (·.fields.get? name)

/-- The variable of a name, or else the field. -/
def lookup (s : Scope) (name : String) : Option VarInfo :=
  s.lookupVar name <|> s.lookupField name

/-- Declares a variable. -/
def putVar (s : Scope) (name : String) (info : VarInfo) : Scope :=
  { s with inner := { s.inner with vars := s.inner.vars.insert name info } }

/-- Declares a field. -/
def putField (s : Scope) (name : String) (info : VarInfo) : Scope :=
  { s with inner := { s.inner with fields := s.inner.fields.insert name info } }

/-- Sets the type that a return has to have. -/
def setReturn (s : Scope) (ty : Ty) : Scope := { s with returnTy := ty }

/-- Sets the type of `this`. -/
def setThis (s : Scope) (ty : Ty) : Scope := { s with thisTy := ty }

end Scope

end ClassLang.Typing
