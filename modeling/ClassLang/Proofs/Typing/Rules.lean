import ClassLang.Proofs.Hierarchy.Description
/-!
# Typing — the rules of the language

The type system as a judgement, apart from the procedure that checks it.
A type is one that can be written, or the type of `null`; there is no type
for what failed and none that fits everything. `HasType` gives expressions
their types, `PlaceType` places, `StmtOk` says that a statement is well
typed and which names are in scope behind it, and `WellTyped` what a whole
program has to satisfy.
-/


namespace ClassLang

open Source (TypeExpr Expr Place Stmt Block VarDecl FunctionDecl ClassDecl Program)

/-! ## What declarations say -/

namespace Source.Program

variable (p : Program)

/-- Every class in the type is there. -/
def Resolves : TypeExpr → Prop
  | .int | .bool => True
  | .class_ name => (p.classId? name).isSome
  | .array elem => Resolves elem

/-- The index of the first function of a name. -/
def functionIndex? (name : String) : Option Nat := (p.functions.map (·.name)).idxOf? name

/-- The nearest field of a name in the class of a name. -/
def visibleField? (class_ name : String) : Option VarDecl :=
  ((p.classId? class_).bind (p.fieldRef? · name)).bind (fieldDecl? p)

/-- The nearest method of a name in the class of a name. -/
def visibleMethod? (class_ name : String) : Option FunctionDecl :=
  ((p.classId? class_).bind (p.methodRef? · name)).bind (methodDecl? p)

theorem function?_eq (p : Program) (name : String) :
    p.function? name = (p.functionIndex? name).bind (p.functions[·]?) := by
  unfold function? functionIndex?
  induction p.functions with
  | nil => rfl
  | cons f rest ih =>
    rw [List.find?_cons, List.map_cons, List.idxOf?_cons]
    by_cases hname : f.name = name
    · simp [hname]
    · have hne : (f.name == name) = false := by simpa using hname
      simp only [hne, Bool.false_eq_true, if_false, ih]
      cases (List.map (·.name) rest).idxOf? name <;> simp

theorem getElem?_of_functionIndex? {p : Program} {name : String} {index : Nat}
    (h : p.functionIndex? name = some index) : ∃ f, p.functions[index]? = some f := by
  obtain ⟨hlt, -, -⟩ := List.idxOf?_eq_some_iff.1 h
  exact ⟨_, List.getElem?_eq_getElem (show index < p.functions.length by simpa using hlt)⟩

end Source.Program

namespace Typing

/-- The type of an expression: one that can be written, or that of
`null`. -/
inductive ExprTy
  | null
  | written (ty : TypeExpr)
deriving DecidableEq, Repr

/-- What names mean at a point of a program. -/
structure Names where
  /-- The class whose method the point belongs to, if it belongs to one. -/
  this? : Option String
  /-- The parameters and local variables in scope, innermost first. -/
  vars : List VarDecl

/-- The variable of a name. -/
def Names.var? (names : Names) (name : String) : Option VarDecl :=
  names.vars.find? (·.name == name)

/-- The names with another variable in scope. -/
def Names.declare (names : Names) (var : VarDecl) : Names :=
  { names with vars := var :: names.vars }

/-- A value of the first type fits where the second is expected. -/
inductive Fits (p : Program) : ExprTy → ExprTy → Prop
  | refl (ty : ExprTy) : Fits p ty ty
  /-- An object of a class is an object of the classes above it. -/
  | class_ {sub sup : String} {a b : ClassId} :
      p.classId? sub = some a → p.classId? sup = some b → p.Inherits a b →
      Fits p (.written (.class_ sub)) (.written (.class_ sup))
  | nullClass (name : String) : Fits p .null (.written (.class_ name))
  | nullArray (elem : TypeExpr) : Fits p .null (.written (.array elem))

mutual

/-- **Expressions.** `printName` names the built-in that prints. -/
inductive HasType (p : Program) (printName : String) (names : Names) : Expr → ExprTy → Prop
  | int {m value} : HasType p printName names (.int m value) (.written .int)
  | bool {m value} : HasType p printName names (.bool m value) (.written .bool)
  | null {m} : HasType p printName names (.null m) .null
  /-- There is no `this` outside of methods. -/
  | this {m class_} : names.this? = some class_ →
      HasType p printName names (.this m) (.written (.class_ class_))
  | read {m place ty} : PlaceType p printName names place ty →
      HasType p printName names (.read m place) (.written ty)
  | arrayLength {m array elem} : HasType p printName names array (.written (.array elem)) →
      HasType p printName names (.arrayLength m array) (.written .int)
  | minus {m operand} : HasType p printName names operand (.written .int) →
      HasType p printName names (.unary m .minus operand) (.written .int)
  | negate {m operand} : HasType p printName names operand (.written .bool) →
      HasType p printName names (.unary m .negate operand) (.written .bool)
  | arithmetic {m op lhs rhs} : op = .plus ∨ op = .minus ∨ op = .times ∨ op = .div →
      HasType p printName names lhs (.written .int) →
      HasType p printName names rhs (.written .int) →
      HasType p printName names (.binary m op lhs rhs) (.written .int)
  | less {m lhs rhs} : HasType p printName names lhs (.written .int) →
      HasType p printName names rhs (.written .int) →
      HasType p printName names (.binary m .less lhs rhs) (.written .bool)
  | and {m lhs rhs} : HasType p printName names lhs (.written .bool) →
      HasType p printName names rhs (.written .bool) →
      HasType p printName names (.binary m .and lhs rhs) (.written .bool)
  /-- One of the two types fits the other. -/
  | equals {m lhs rhs left right} : HasType p printName names lhs left →
      HasType p printName names rhs right → Fits p left right ∨ Fits p right left →
      HasType p printName names (.binary m .equals lhs rhs) (.written .bool)
  | print {m args} : ArgsFit p printName names args [.int] →
      HasType p printName names (.call m printName args) (.written .int)
  | call {m name args f} : p.function? name = some f →
      ArgsFit p printName names args (f.params.map (·.ty)) →
      HasType p printName names (.call m name args) (.written f.returnType)
  | methodCall {m receiver method args class_ f} :
      HasType p printName names receiver (.written (.class_ class_)) →
      p.visibleMethod? class_ method = some f →
      ArgsFit p printName names args (f.params.map (·.ty)) →
      HasType p printName names (.methodCall m receiver method args) (.written f.returnType)
  | newObject {m class_} : p.Resolves (.class_ class_) →
      HasType p printName names (.newObject m class_) (.written (.class_ class_))
  | newArray {m elem size} : p.Resolves elem →
      HasType p printName names size (.written .int) →
      HasType p printName names (.newArray m elem size) (.written (.array elem))

/-- **Places.** -/
inductive PlaceType (p : Program) (printName : String) (names : Names) :
    Place → TypeExpr → Prop
  | variable_ {m name var} : names.var? name = some var →
      PlaceType p printName names (.var m name) var.ty
  /-- A name that is no variable is a field of `this`. -/
  | ownField {m name class_ field} : names.var? name = none → names.this? = some class_ →
      p.visibleField? class_ name = some field →
      PlaceType p printName names (.var m name) field.ty
  | field {m receiver name class_ field} :
      HasType p printName names receiver (.written (.class_ class_)) →
      p.visibleField? class_ name = some field →
      PlaceType p printName names (.field m receiver name) field.ty
  | index {m array index elem} : HasType p printName names array (.written (.array elem)) →
      HasType p printName names index (.written .int) →
      PlaceType p printName names (.index m array index) elem

/-- **Arguments** fit parameters of these types, one each. -/
inductive ArgsFit (p : Program) (printName : String) (names : Names) :
    List Expr → List TypeExpr → Prop
  | nil : ArgsFit p printName names [] []
  | cons {arg args ty found tys} : HasType p printName names arg found →
      Fits p found (.written ty) → ArgsFit p printName names args tys →
      ArgsFit p printName names (arg :: args) (ty :: tys)

end

mutual

/-- **Statements** of a function with return type `ret`: the names before
and behind. -/
inductive StmtOk (p : Program) (printName : String) (ret : TypeExpr) :
    Names → Stmt → Names → Prop
  | block {names pos stmts bodyPos} : StmtsOk p printName ret names stmts →
      StmtOk p printName ret names (.block pos (.mk stmts bodyPos)) names
  /-- The name is none of a variable in scope; it may be that of a field. -/
  | decl {names pos var} : p.Resolves var.ty → names.var? var.name = none →
      StmtOk p printName ret names (.decl pos var) (names.declare var)
  | assign {names pos target value ty found} : PlaceType p printName names target ty →
      HasType p printName names value found → Fits p found (.written ty) →
      StmtOk p printName ret names (.assign pos target value) names
  | expr {names pos value found} : HasType p printName names value found →
      StmtOk p printName ret names (.expr pos value) names
  | ifThen {names inner pos cond body} : HasType p printName names cond (.written .bool) →
      StmtOk p printName ret names body inner →
      StmtOk p printName ret names (.ifThen pos cond body) names
  | ifElse {names inner inner' pos cond yes no} :
      HasType p printName names cond (.written .bool) →
      StmtOk p printName ret names yes inner → StmtOk p printName ret names no inner' →
      StmtOk p printName ret names (.ifElse pos cond yes no) names
  | loop {names inner pos cond body} : HasType p printName names cond (.written .bool) →
      StmtOk p printName ret names body inner →
      StmtOk p printName ret names (.loop pos cond body) names
  | ret {names pos value found} : HasType p printName names value found →
      Fits p found (.written ret) → StmtOk p printName ret names (.ret pos value) names

/-- **Statements in turn**: each sees what was declared before it. -/
inductive StmtsOk (p : Program) (printName : String) (ret : TypeExpr) :
    Names → List Stmt → Prop
  | nil {names} : StmtsOk p printName ret names []
  | cons {names behind s rest} : StmtOk p printName ret names s behind →
      StmtsOk p printName ret behind rest → StmtsOk p printName ret names (s :: rest)

end

/-- **Functions**, or methods of the class `this?`. -/
structure FunctionOk (p : Program) (printName : String) (this? : Option String)
    (f : FunctionDecl) : Prop where
  returnType : p.Resolves f.returnType
  paramTypes : ∀ param ∈ f.params, p.Resolves param.ty
  paramNames : (f.params.map (·.name)).Nodup
  body : StmtsOk p printName f.returnType ⟨this?, f.params.reverse⟩ f.body.stmts

/-- There is a function `main` that takes nothing, returns an integer and
ends with a return. -/
def HasMain (p : Program) : Prop :=
  ∃ main, p.function? "main" = some main ∧ main.returnType = .int ∧ main.params = [] ∧
    ∃ s, main.body.stmts.getLast? = some s ∧ s.isReturn

/-- **Programs.** -/
structure WellTyped (p : Program) (printName : String) : Prop where
  /-- No function has the name of another or of the built-in. -/
  functionNames : (printName :: p.functions.map (·.name)).Nodup
  /-- No class is declared twice and no class declares a member twice;
  superclasses are there, no class is above itself, and overriding methods
  keep the signature. -/
  classes : p.SoundClasses
  fieldTypes : ∀ c ∈ p.classes, ∀ field ∈ c.fields, p.Resolves field.ty
  main : HasMain p
  functions : ∀ f ∈ p.functions, FunctionOk p printName none f
  methods : ∀ c ∈ p.classes, ∀ m ∈ c.methods, FunctionOk p printName (some c.name) m

end Typing

end ClassLang
