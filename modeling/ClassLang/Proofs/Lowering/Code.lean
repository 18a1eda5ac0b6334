import ClassLang.Proofs.Ir.Emissions
import ClassLang.Proofs.Lowering.Sessions
import ClassLang.Proofs.Source.Semantics
/-!
# Lowering — what code stands for the tree

Which code of a procedure stands for an expression, a place or a
statement: `ExprCode` relates an expression of a type to the code between
two points and the operand that then has the value, `PlaceCode` does so
for the address of a place, and `StmtCode` for statements. The relations
speak of the finished program only; that lowering produces such code is
proved where it is lowered, and that such code does what the tree says
where it is run.
-/


namespace ClassLang

open Source (NodeId TypeExpr Expr Place Stmt Block BinaryOp VarDecl FunctionDecl Program)
open Semantics (Fault lineOf lineAfter accessed?)
open Typing (Analysis Denotes ExprTy Names Fits)
open Lowering (Session defaultValue)

/-! ## Pieces -/

namespace Ir.Proc

variable (q : Proc)

/-- An instruction gives the operand its value. -/
def Defines (i : TempId → Instr) (pt : Point) (v : Operand) (pt' : Point) : Prop :=
  q.At pt (i pt.temps) ∧ v = .temp pt.temps ∧ pt' = pt.define

/-- The value is written to the address. -/
def Stores (addr value : Operand) (pt pt' : Point) : Prop :=
  q.At pt (.store addr value) ∧ pt' = pt.next

/-- The value, read as another type or not. -/
def Casts (value : Operand) (pt : Point) (v : Operand) (pt' : Point) : Prop :=
  (v = value ∧ pt' = pt) ∨ q.Defines (.bitcast · value) pt v pt'

/-- The code halts if the condition holds. -/
inductive HaltsIf (cond : Operand) (message : String) : Point → Point → Prop
  | mk {pt fail ok} : q.Ends pt (.branch cond fail ok) → q.Ends (pt.enter fail) (.halt message) →
      fail ≠ 0 → ok ≠ 0 → HaltsIf cond message pt (pt.enter ok)

/-- The code halts if the value is null. -/
inductive HaltsIfNull (value : Operand) (message : String) : Point → Point → Prop
  | mk {pt isNull pt₁ pt₂} : q.Defines (.binary · .eq value .null) pt isNull pt₁ →
      q.HaltsIf isNull message pt₁ pt₂ → HaltsIfNull value message pt pt₂

/-- The address of the member of a struct. -/
def Member (base : Operand) (index : Nat) : Point → Operand → Point → Prop :=
  q.Defines (.elementPtr · base [.int 0, .int (.ofNat index)])

/-- The length of an array. -/
inductive Length (array : Operand) : Point → Operand → Point → Prop
  | mk {pt addr pt₁ v pt₂} : q.Member array 0 pt addr pt₁ → q.Defines (.load · addr) pt₁ v pt₂ →
      Length array pt v pt₂

/-- The address of an element; the code halts if there is none of the
index. -/
inductive Element (array index : Operand) (message : String) : Point → Operand → Point → Prop
  | mk {pt length pt₁ below pt₂ last pt₃ above pt₄ outside pt₅ pt₆ v pt₇} :
      q.Length array pt length pt₁ →
      q.Defines (.binary · .lt index (.int 0)) pt₁ below pt₂ →
      q.Defines (.binary · .sub length (.int 1)) pt₂ last pt₃ →
      q.Defines (.binary · .lt last index) pt₃ above pt₄ →
      q.Defines (.binary · .or below above) pt₄ outside pt₅ →
      q.HaltsIf outside message pt₅ pt₆ →
      q.Defines (.elementPtr · array [.int 0, .int 1, index]) pt₆ v pt₇ →
      Element array index message pt v pt₇

/-- The quotient; the code halts if the divisor is zero. -/
inductive Quotient (left right : Operand) (message : String) : Point → Operand → Point → Prop
  | mk {pt isZero pt₁ pt₂ pt₃ pt₄ isMinusOne pt₅ isMin pt₆ overflow pt₇ division done quotient pt₈
      pt₉ v pt₁₀} :
      q.Defines (.binary · .eq right (.int 0)) pt isZero pt₁ →
      q.HaltsIf isZero message pt₁ pt₂ →
      q.HasSlot .int pt₂ pt₃ →
      q.Stores (.temp pt₂.temps) (.int Int32.minValue) pt₃ pt₄ →
      q.Defines (.binary · .eq right (.int (-1))) pt₄ isMinusOne pt₅ →
      q.Defines (.binary · .eq left (.int Int32.minValue)) pt₅ isMin pt₆ →
      q.Defines (.binary · .and isMin isMinusOne) pt₆ overflow pt₇ →
      q.Ends pt₇ (.branch overflow done division) → division ≠ 0 → done ≠ 0 →
      q.Defines (.binary · .div left right) (pt₇.enter division) quotient pt₈ →
      q.Stores (.temp pt₂.temps) quotient pt₈ pt₉ →
      q.Ends pt₉ (.jump done) →
      q.Defines (.load · (.temp pt₂.temps)) (pt₉.enter done) v pt₁₀ →
      Quotient left right message pt v pt₁₀

/-- Whether two values are equal, one of them perhaps read as the type of
the other. -/
inductive Equality (left right : Operand) : Point → Operand → Point → Prop
  | castLeft {pt left' pt₁ v pt₂} : q.Casts left pt left' pt₁ →
      q.Defines (.binary · .eq left' right) pt₁ v pt₂ → Equality left right pt v pt₂
  | castRight {pt right' pt₁ v pt₂} : q.Casts right pt right' pt₁ →
      q.Defines (.binary · .eq left right') pt₁ v pt₂ → Equality left right pt v pt₂

/-- A call through the slot of a vtable. -/
inductive Dispatch (object : Operand) (slot : Nat) (args : List Operand) :
    Point → Operand → Point → Prop
  | mk {pt header pt₁ vtable pt₂ entry pt₃ target pt₄ v pt₅} :
      q.Member object 0 pt header pt₁ → q.Defines (.load · header) pt₁ vtable pt₂ →
      q.Member vtable slot pt₂ entry pt₃ → q.Defines (.load · entry) pt₃ target pt₄ →
      q.Defines (.call · target args) pt₄ v pt₅ → Dispatch object slot args pt v pt₅

end Ir.Proc

namespace Lowering

/-- The operation of an operator that is an instruction of its own. -/
def plainOp? : BinaryOp → Option Ir.BinOp
  | .plus => some .add
  | .minus => some .sub
  | .times => some .mul
  | .less => some .lt
  | .div | .equals | .and => none

/-- The first value of a variable of a written type. -/
def defaultOperand : TypeExpr → Ir.Operand
  | .int => .int 0
  | .bool => .bool false
  | _ => .null

theorem Represents.default {p : Program} {a : Analysis} {s : Session} {ty : TypeExpr}
    {target : Ir.Ty} (h : Represents p a s ty target) : defaultValue target = defaultOperand ty := by
  cases h <;> rfl

open Ir (Operand Point Proc)

variable (p : Program) (printName : String) (a : Analysis) (S : Session) (q : Proc)
variable (slots : Table NodeId Operand)

/-! ## Expressions -/

section Expressions

variable (names : Names) (line : Nat)

mutual

/-- **The code of an expression**: its type, the points before and behind,
and the operand that has its value. -/
inductive ExprCode : Expr → ExprTy → Point → Operand → Point → Prop
  | int {m value pt} : ExprCode (.int m value) (.written .int) pt (.int value) pt
  | bool {m value pt} : ExprCode (.bool m value) (.written .bool) pt (.bool value) pt
  | null {m pt} : ExprCode (.null m) .null pt .null pt
  | this {m class_ pt} : names.this? = some class_ →
      ExprCode (.this m) (.written (.class_ class_)) pt (.param 0) pt
  | read {m place ty pt addr pt₁ v pt₂} : PlaceCode place ty pt addr pt₁ →
      q.Defines (.load · addr) pt₁ v pt₂ → ExprCode (.read m place) (.written ty) pt v pt₂
  | arrayLength {m array elem pt base pt₁ pt₂ v pt₃} :
      ExprCode array (.written (.array elem)) pt base pt₁ →
      q.HaltsIfNull base (Fault.nullPointer (lineOf line m.pos)).message pt₁ pt₂ →
      q.Length base pt₂ v pt₃ → ExprCode (.arrayLength m array) (.written .int) pt v pt₃
  | minus {m operand pt value pt₁ v pt₂} : ExprCode operand (.written .int) pt value pt₁ →
      q.Defines (.binary · .sub (.int 0) value) pt₁ v pt₂ →
      ExprCode (.unary m .minus operand) (.written .int) pt v pt₂
  | negate {m operand pt value pt₁ v pt₂} : ExprCode operand (.written .bool) pt value pt₁ →
      q.Defines (.binary · .eq (.bool false) value) pt₁ v pt₂ →
      ExprCode (.unary m .negate operand) (.written .bool) pt v pt₂
  | plain {m op op' lhs rhs pt left pt₁ right pt₂ v pt₃ ty} : plainOp? op = some op' →
      ty = (if op = .less then .bool else .int) →
      ExprCode lhs (.written .int) pt left pt₁ → ExprCode rhs (.written .int) pt₁ right pt₂ →
      q.Defines (.binary · op' left right) pt₂ v pt₃ →
      ExprCode (.binary m op lhs rhs) (.written ty) pt v pt₃
  | div {m lhs rhs pt left pt₁ right pt₂ v pt₃} :
      ExprCode lhs (.written .int) pt left pt₁ → ExprCode rhs (.written .int) pt₁ right pt₂ →
      q.Quotient left right (Fault.divisionByZero (lineOf line m.pos)).message pt₂ v pt₃ →
      ExprCode (.binary m .div lhs rhs) (.written .int) pt v pt₃
  | and {m lhs rhs pt pt₁ left pt₂ pt₃ more done right pt₄ pt₅ v pt₆} :
      q.HasSlot .bool pt pt₁ → ExprCode lhs (.written .bool) pt₁ left pt₂ →
      q.Stores (.temp pt.temps) left pt₂ pt₃ → q.Ends pt₃ (.branch left more done) →
      more ≠ 0 → done ≠ 0 → ExprCode rhs (.written .bool) (pt₃.enter more) right pt₄ →
      pt₃.temps ≤ pt₄.temps → q.Stores (.temp pt.temps) right pt₄ pt₅ → q.Ends pt₅ (.jump done) →
      q.Defines (.load · (.temp pt.temps)) (pt₅.enter done) v pt₆ →
      ExprCode (.binary m .and lhs rhs) (.written .bool) pt v pt₆
  | equals {m lhs rhs left right pt l pt₁ r pt₂ v pt₃} : ExprCode lhs left pt l pt₁ →
      ExprCode rhs right pt₁ r pt₂ → q.Equality l r pt₂ v pt₃ →
      ExprCode (.binary m .equals lhs rhs) (.written .bool) pt v pt₃
  | print {m arg pt value pt₁} : ExprCode arg (.written .int) pt value pt₁ →
      q.At pt₁ (.print value) →
      ExprCode (.call m printName [arg]) (.written .int) pt (.int 0) pt₁.next
  | call {m name args index g proc pt values pt₁ v pt₂} : name ≠ printName →
      p.functionIndex? name = some index → p.functions[index]? = some g →
      S.functionProcs[index]? = some proc → ArgsCode args (g.params.map (·.ty)) pt values pt₁ →
      q.Defines (.call · (.proc proc) values) pt₁ v pt₂ →
      ExprCode (.call m name args) (.written g.returnType) pt v pt₂
  | methodCall {m receiver method args class_ id ref g slot pt object pt₁ pt₂ this pt₃ values pt₄ v
      pt₅} :
      ExprCode receiver (.written (.class_ class_)) pt object pt₁ →
      q.HaltsIfNull object (Fault.nullPointer (lineOf line m.pos)).message pt₁ pt₂ →
      p.classId? class_ = some id → p.methodRef? id method = some ref →
      methodDecl? p ref = some g → (p.slotNames id)[slot]? = some method → slot < 2 ^ 31 →
      q.Casts object pt₂ this pt₃ → ArgsCode args (g.params.map (·.ty)) pt₃ values pt₄ →
      q.Dispatch object slot (this :: values) pt₄ v pt₅ →
      ExprCode (.methodCall m receiver method args) (.written g.returnType) pt v pt₅
  | newObject {m class_ id proc pt v pt₁} : p.classId? class_ = some id →
      S.classAllocators.get? id = some proc → q.Defines (.call · (.proc proc) []) pt v pt₁ →
      ExprCode (.newObject m class_) (.written (.class_ class_)) pt v pt₁
  | newArray {m elem size ty proc pt value pt₁ v pt₂} : Denotes p a.findings.table ty elem →
      ExprCode size (.written .int) pt value pt₁ → S.arrayAllocators.get? ty = some proc →
      q.Defines (.call · (.proc proc) [value]) pt₁ v pt₂ →
      ExprCode (.newArray m elem size) (.written (.array elem)) pt v pt₂

/-- **The code of a place**; the operand has its address. -/
inductive PlaceCode : Place → TypeExpr → Point → Operand → Point → Prop
  | variable_ {m name var pt addr} : names.var? name = some var →
      slots.get? var.id = some addr → PlaceCode (.var m name) var.ty pt addr pt
  | ownField {m name class_ id ref field i pt v pt₁} : names.var? name = none →
      names.this? = some class_ → p.classId? class_ = some id → p.fieldRef? id name = some ref →
      fieldDecl? p ref = some field → (p.fieldRefs id)[i]? = some ref → i + 1 < 2 ^ 31 →
      q.Member (.param 0) (i + 1) pt v pt₁ → PlaceCode (.var m name) field.ty pt v pt₁
  | field {m receiver name class_ id ref field i pt object pt₁ pt₂ v pt₃} :
      ExprCode receiver (.written (.class_ class_)) pt object pt₁ →
      q.HaltsIfNull object (Fault.nullPointer (lineOf line m.pos)).message pt₁ pt₂ →
      accessed? p printName names receiver name = some ref → p.classId? class_ = some id →
      fieldDecl? p ref = some field → (p.fieldRefs id)[i]? = some ref → i + 1 < 2 ^ 31 →
      q.Member object (i + 1) pt₂ v pt₃ → PlaceCode (.field m receiver name) field.ty pt v pt₃
  | index {m array index elem pt base pt₁ pt₂ i pt₃ v pt₄} :
      ExprCode array (.written (.array elem)) pt base pt₁ →
      q.HaltsIfNull base (Fault.nullPointer (lineOf line m.pos)).message pt₁ pt₂ →
      ExprCode index (.written .int) pt₂ i pt₃ →
      q.Element base i (Fault.outOfBounds (lineOf line m.pos)).message pt₃ v pt₄ →
      PlaceCode (.index m array index) elem pt v pt₄

/-- **The code of arguments** for parameters of these types. -/
inductive ArgsCode : List Expr → List TypeExpr → Point → List Operand → Point → Prop
  | nil {pt} : ArgsCode [] [] pt [] pt
  | cons {arg args ty found tys pt value pt₁ v pt₂ values pt₃} : ExprCode arg found pt value pt₁ →
      Fits p found (.written ty) → q.Casts value pt₁ v pt₂ → ArgsCode args tys pt₂ values pt₃ →
      ArgsCode (arg :: args) (ty :: tys) pt (v :: values) pt₃

end

end Expressions

/-! ## Statements -/

/-- A comment or nothing. -/
def Commented (pt pt' : Point) : Prop :=
  pt' = pt ∨ ((∃ text, q.At pt (.comment text)) ∧ pt' = pt.next)

/-- From where the code of a branch ends, if it does, a jump leads on. -/
def Leaves (pt? : Option Point) (target : Ir.BlockId) : Prop :=
  ∀ pt, pt? = some pt → q.Ends pt (.jump target)

section Statements

variable (ret : TypeExpr)

mutual

/-- **The code of a statement** at a line: the names in scope before and
behind, and the points before and behind, the latter only where the
statement can be left. -/
inductive StmtCode : Names → Nat → Stmt → Names → Point → Option Point → Prop
  | block {names line pos stmts bodyPos pt pt₁ out} : Commented q pt pt₁ →
      StmtsCode names (lineOf line pos) stmts pt₁ out →
      StmtCode names line (.block pos (.mk stmts bodyPos)) names pt out
  | decl {names line pos var slot pt pt₁ pt₂} : Commented q pt pt₁ →
      names.var? var.name = none → slots.get? var.id = some slot →
      q.Stores slot (defaultOperand var.ty) pt₁ pt₂ →
      StmtCode names line (.decl pos var) (names.declare var) pt (some pt₂)
  | assign {names line pos target value ty found pt pt₁ addr pt₂ v pt₃ v' pt₄ pt₅} :
      Commented q pt pt₁ →
      PlaceCode p printName a S q slots names (lineOf line pos) target ty pt₁ addr pt₂ →
      ExprCode p printName a S q slots names (lineOf line pos) value found pt₂ v pt₃ →
      Fits p found (.written ty) → q.Casts v pt₃ v' pt₄ → q.Stores addr v' pt₄ pt₅ →
      StmtCode names line (.assign pos target value) names pt (some pt₅)
  | expr {names line pos value found pt pt₁ v pt₂} : Commented q pt pt₁ →
      ExprCode p printName a S q slots names (lineOf line pos) value found pt₁ v pt₂ →
      StmtCode names line (.expr pos value) names pt (some pt₂)
  | ifThen {names inner line pos cond body pt pt₁ v pt₂ yes no out join n} : Commented q pt pt₁ →
      ExprCode p printName a S q slots names (lineOf line pos) cond (.written .bool) pt₁ v pt₂ →
      q.Ends pt₂ (.branch v yes no) → yes ≠ 0 → no ≠ 0 → join ≠ 0 →
      StmtCode names (lineOf line pos) body inner (pt₂.enter yes) out →
      Leaves q out join → q.Ends ⟨n, no, 0⟩ (.jump join) → pt₂.temps ≤ n →
      StmtCode names line (.ifThen pos cond body) names pt (some ⟨n, join, 0⟩)
  | ifElse {names inner inner' line pos cond yes no pt pt₁ v pt₂ first second out n out' join n'} :
      Commented q pt pt₁ →
      ExprCode p printName a S q slots names (lineOf line pos) cond (.written .bool) pt₁ v pt₂ →
      q.Ends pt₂ (.branch v first second) → first ≠ 0 → second ≠ 0 → join ≠ 0 →
      StmtCode names (lineOf line pos) yes inner (pt₂.enter first) out →
      Leaves q out join → pt₂.temps ≤ n →
      StmtCode names (lineAfter (lineOf line pos) yes) no inner' ⟨n, second, 0⟩ out' →
      Leaves q out' join → pt₂.temps ≤ n' →
      StmtCode names line (.ifElse pos cond yes no) names pt (some ⟨n', join, 0⟩)
  | loop {names inner line pos cond body pt pt₁ head v pt₂ inside exit out n} : Commented q pt pt₁ →
      q.Ends pt₁ (.jump head) → head ≠ 0 → inside ≠ 0 → exit ≠ 0 →
      ExprCode p printName a S q slots names (lineOf line pos) cond (.written .bool)
        (pt₁.enter head) v pt₂ →
      q.Ends pt₂ (.branch v inside exit) →
      StmtCode names (lineOf line pos) body inner (pt₂.enter inside) out →
      Leaves q out head → pt₂.temps ≤ n →
      StmtCode names line (.loop pos cond body) names pt (some ⟨n, exit, 0⟩)
  | ret {names line pos value found pt pt₁ v pt₂ v' pt₃} : Commented q pt pt₁ →
      ExprCode p printName a S q slots names (lineOf line pos) value found pt₁ v pt₂ →
      Fits p found (.written ret) → q.Casts v pt₂ v' pt₃ → q.Ends pt₃ (.ret v') →
      StmtCode names line (.ret pos value) names pt none

/-- **The code of statements in turn.** What stands behind a statement that
cannot be left does not matter. -/
inductive StmtsCode : Names → Nat → List Stmt → Point → Option Point → Prop
  | nil {names line pt} : StmtsCode names line [] pt (some pt)
  | cons {names behind line s rest pt pt₁ out} : StmtCode names line s behind pt (some pt₁) →
      StmtsCode behind (lineAfter line s) rest pt₁ out → StmtsCode names line (s :: rest) pt out
  | dead {names behind line s rest pt out} : StmtCode names line s behind pt none →
      StmtsCode names line (s :: rest) pt out

end

end Statements

/-! ## Functions -/

/-- A slot is made for a variable. -/
structure VarCode (var : VarDecl) (pt : Point) (slot : Operand) (pt' : Point) : Prop where
  made : ∃ ty, Represents p a S var.ty ty ∧ q.Defines (.alloca · ty) pt slot pt'
  slot : slots.get? var.id = some slot

/-- Parameters are copied to slots; the first has the index given. -/
inductive ParamsCode : Nat → List VarDecl → Point → Point → Prop
  | nil {index pt} : ParamsCode index [] pt pt
  | cons {index param rest slot pt pt₁ pt₂ pt₃} : VarCode p a S q slots param pt slot pt₁ →
      q.Stores slot (.param index) pt₁ pt₂ → ParamsCode (index + 1) rest pt₂ pt₃ →
      ParamsCode index (param :: rest) pt pt₃

/-- Slots are made for local variables. -/
inductive LocalsCode : List VarDecl → Point → Point → Prop
  | nil {pt} : LocalsCode [] pt pt
  | cons {var rest slot pt pt₁ pt₂} : VarCode p a S q slots var pt slot pt₁ →
      LocalsCode rest pt₁ pt₂ → LocalsCode (var :: rest) pt pt₂

/-- The index of the first parameter, which stands behind the receiver. -/
def firstParam (this? : Option String) : Nat := if this?.isSome then 1 else 0

/-- **The code of a function**, or of a method of the class `this?`; what
falls off its end halts. -/
inductive FunctionCode (this? : Option String) (name : String) (f : FunctionDecl) : Prop
  | mk {slots pt₁ pt₂ out} : ParamsCode p a S q slots (firstParam this?) f.params ⟨0, 0, 0⟩ pt₁ →
      LocalsCode p a S q slots f.body.varDecls pt₁ pt₂ →
      StmtsCode p printName a S q slots f.returnType ⟨this?, f.params.reverse⟩ (lineOf 0 f.pos)
        f.body.stmts pt₂ out →
      (∀ pt, out = some pt → q.Ends pt (.halt (Fault.missingReturn name).message)) →
      FunctionCode this? name f

end Lowering

end ClassLang
