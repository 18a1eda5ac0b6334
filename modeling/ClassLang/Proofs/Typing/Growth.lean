import ClassLang.Typing.Analysis
import ClassLang.Proofs.Typing.Denotation
import ClassLang.Proofs.Source.Nodes
/-!
# Typing — what checking leaves alone

Checking only adds: errors and interned types at the end of their lists,
and notes at the nodes that are checked. `Check.Within nodes` says so of a
check, and every check of a part of a program is within the nodes of that
part.
-/


namespace ClassLang.Typing

open Source (NodeId TypeExpr Mark BinaryOp Expr Place Stmt Block VarDecl FunctionDecl ClassDecl)

/-- Two tables agree but for some keys. -/
def AgreeOff {ν : Type} (nodes : List NodeId) (t t' : Table NodeId ν) : Prop :=
  ∀ id ∉ nodes, t'.get? id = t.get? id

/-- The second findings are the first and more, with notes for the nodes
only. -/
structure Findings.Grows (nodes : List NodeId) (f f' : Findings) : Prop where
  errors : f.errors <+: f'.errors
  elems : f.table.elems <+: f'.table.elems
  classNames : f'.table.classNames = f.table.classNames
  types : AgreeOff nodes f.types f'.types
  calls : AgreeOff nodes f.calls f'.calls
  vars : AgreeOff nodes f.vars f'.vars
  fields : AgreeOff nodes f.fields f'.fields

namespace AgreeOff

variable {ν : Type} {nodes nodes' : List NodeId} {t t' t'' : Table NodeId ν}

theorem refl (t : Table NodeId ν) : AgreeOff nodes t t := fun _ _ => rfl

theorem trans (h : AgreeOff nodes t t') (h' : AgreeOff nodes t' t'') : AgreeOff nodes t t'' :=
  fun id hid => (h' id hid).trans (h id hid)

/-- Tables that agree but for some keys agree but for more. -/
theorem weaken (hle : nodes ⊆ nodes') (h : AgreeOff nodes t t') : AgreeOff nodes' t t' :=
  fun id hid => h id fun hmem => hid (hle hmem)

/-- A value for one of the keys is none of the others'. -/
theorem insert {id : NodeId} (hid : id ∈ nodes) (t : Table NodeId ν) (value : ν) :
    AgreeOff nodes t (t.insert id value) := fun _ hother =>
  Table.get?_insert_of_ne t value fun heq => hother (heq ▸ hid)

end AgreeOff

namespace Findings.Grows

variable {nodes nodes' : List NodeId} {f f' f'' : Findings}

theorem refl (f : Findings) : Grows nodes f f :=
  ⟨List.prefix_rfl, List.prefix_rfl, rfl, .refl _, .refl _, .refl _, .refl _⟩

/-- What was added first is still there when more is added. -/
theorem trans (h : Grows nodes f f') (h' : Grows nodes f' f'') : Grows nodes f f'' :=
  ⟨h.errors.trans h'.errors, h.elems.trans h'.elems, h'.classNames.trans h.classNames,
    h.types.trans h'.types, h.calls.trans h'.calls, h.vars.trans h'.vars, h.fields.trans h'.fields⟩

theorem weaken (hle : nodes ⊆ nodes') (h : Grows nodes f f') : Grows nodes' f f' :=
  ⟨h.errors, h.elems, h.classNames, h.types.weaken hle, h.calls.weaken hle, h.vars.weaken hle,
    h.fields.weaken hle⟩

/-- No errors afterwards means none before. -/
theorem errors_eq_nil (h : Grows nodes f f') (herr : f'.errors = []) : f.errors = [] :=
  List.prefix_nil.1 (herr ▸ h.errors)

end Findings.Grows

/-! ## The ends of checks

What a check does when the parts were checked goes by the types found for them.
Every property of checking is proved of these ends first, and then along the tree. -/

section Found

variable (ctx : Context)

/-- The end of the check of the length of an array. -/
def lengthFound (pos : Pos) : Ty → Check Ty
  | .array _ | .any => return .int
  | found => do
    report pos (.notAnArray (← shown found))
    return .int

/-- The end of the check of a comparison. -/
def comparableFound (here : Pos) (l r : Ty) : Check Ty := do
  unless (← isSubtype ctx l r) || (← isSubtype ctx r l) do
    report here (.notComparable (← shown l) (← shown r))
  return .bool

/-- The end of the check of a call of a function. -/
def callFound (m : Mark) (here : Pos) (name : String) (args : List (Option Pos × Ty)) : Check Ty :=
  match ctx.functions.lookup name with
  | some callee => do
    noteCall m.id callee
    apply ctx here callee args
  | none => do
    report here (.unknownFunction name)
    return .any

/-- The end of the check of a method call. -/
def methodFound (m : Mark) (here : Pos) (method : String) (args : List (Option Pos × Ty)) :
    Ty → Check Ty
  | .any => return .any
  | .class_ id =>
    match (ctx.classes.info id).bind (·.method? method) with
    | some ref => do
      noteCall m.id (.method ref)
      apply ctx here (.method ref) args
    | none => do
      report here (.noSuchMethod method (← shown (.class_ id)))
      return .any
  | _ => do
    report here .notAClassObject
    return .any

/-- The end of the check of a field access. -/
def fieldFound (m : Mark) (pos : Pos) (name : String) : Ty → Check Ty
  | .any => return .any
  | .class_ id =>
    match (ctx.classes.info id).bind (·.field? name) with
    | some ref => do
      noteField m.id ref
      fieldType ctx ref
    | none => do
      report pos (.noSuchField name (← shown (.class_ id)))
      return .any
  | _ => do
    report pos .notAClassObject
    return .any

/-- The end of the check of an index into an array. -/
def indexFound (here : Pos) : Ty → Check Ty
  | .array id => do return (← get).table.elem id
  | .any => return .any
  | found => do
    report here (.indexNotArray (← shown found))
    return .any

/-- The end of the check of a condition. -/
def conditionFound (pos : Pos) (of : ConditionOf) (found : Ty) : Check Unit := do
  unless ← isSubtype ctx found .bool do
    report pos (.conditionNotBool of (← shown found))

/-- The end of the check of a statement whose value has to fit. -/
def valueFound (scope : Scope) (pos : Pos) (fault : String → String → TypeFault)
    (expected found : Ty) : Check Scope := do
  unless ← isSubtype ctx found expected do
    report pos (fault (← shown expected) (← shown found))
  return scope

/-- A length is that of what was found for the array. -/
theorem checkExpr_arrayLength (scope : Scope) (outer : Pos) (m : Mark) (array : Expr) :
    checkExpr ctx scope outer (.arrayLength m array) = typed m outer (fun here => do
      lengthFound (array.mark.pos.getD here) (← checkExpr ctx scope here array)) := by
  rw [checkExpr]
  exact congrArg (typed m outer) (funext fun here => bind_congr fun found => by cases found <;> rfl)

/-- An operator that wants operands of one type reports each that is of another, the
left one first. -/
theorem checkExpr_operands {op : BinaryOp} {operand result : Ty}
    (hop : binaryTypes? op = some (operand, result)) (scope : Scope) (outer : Pos) (m : Mark)
    (lhs rhs : Expr) :
    checkExpr ctx scope outer (.binary m op lhs rhs) = typed m outer (fun here => do
      let l ← checkExpr ctx scope here lhs
      require ctx operand l (lhs.mark.pos.getD here)
      let r ← checkExpr ctx scope here rhs
      require ctx operand r (rhs.mark.pos.getD here)
      return result) := by
  rw [checkExpr, hop]

/-- Both sides of a comparison are checked before it is known if they compare. -/
theorem checkExpr_equals (scope : Scope) (outer : Pos) (m : Mark) (lhs rhs : Expr) :
    checkExpr ctx scope outer (.binary m .equals lhs rhs) = typed m outer (fun here => do
      let l ← checkExpr ctx scope here lhs
      let r ← checkExpr ctx scope here rhs
      comparableFound ctx here l r) := by
  rw [checkExpr]
  rfl

/-- The arguments of a call are checked before its name is looked up, so that they are
checked in any case. -/
theorem checkExpr_call (scope : Scope) (outer : Pos) (m : Mark) (name : String)
    (args : List Expr) :
    checkExpr ctx scope outer (.call m name args) = typed m outer (fun here => do
      callFound ctx m here name (← checkArgs ctx scope here args)) := by
  rw [checkExpr]
  rfl

/-- So are those of a method call, between the receiver and the method. -/
theorem checkExpr_methodCall (scope : Scope) (outer : Pos) (m : Mark) (receiver : Expr)
    (method : String) (args : List Expr) :
    checkExpr ctx scope outer (.methodCall m receiver method args) = typed m outer (fun here => do
      let found ← checkExpr ctx scope here receiver
      let args ← checkArgs ctx scope here args
      methodFound ctx m here method args found) := by
  rw [checkExpr]
  exact congrArg (typed m outer) (funext fun here => bind_congr fun found => bind_congr fun args => by
    cases found <;> rfl)

/-- The object is checked before the field is looked for. -/
theorem checkPlace_field (scope : Scope) (outer : Pos) (m : Mark) (receiver : Expr)
    (name : String) :
    checkPlace ctx scope outer (.field m receiver name) = typed m outer (fun here => do
      fieldFound ctx m (receiver.mark.pos.getD here) name (← checkExpr ctx scope here receiver)) := by
  rw [checkPlace]
  exact congrArg (typed m outer) (funext fun here => bind_congr fun found => by cases found <;> rfl)

/-- An index has to be a number also where what it is into is no array. -/
theorem checkPlace_index (scope : Scope) (outer : Pos) (m : Mark) (array index : Expr) :
    checkPlace ctx scope outer (.index m array index) = typed m outer (fun here => do
      let found ← checkExpr ctx scope here array
      let i ← checkExpr ctx scope here index
      require ctx .int i (index.mark.pos.getD here)
      indexFound here found) := by
  rw [checkPlace]
  exact congrArg (typed m outer) (funext fun here => bind_congr fun found => bind_congr fun i =>
    bind_congr fun _ => by cases found <;> rfl)

/-- A condition is reported where it stands, or else where the statement does. -/
theorem checkCondition_eq (scope : Scope) (outer : Pos) (of : ConditionOf) (cond : Expr) :
    checkCondition ctx scope outer of cond = (do
      conditionFound ctx (cond.mark.pos.getD outer) of (← checkExpr ctx scope outer cond)) :=
  rfl

/-- The target of an assignment is checked first, and the value has to fit it. -/
theorem checkStmt_assign (scope : Scope) (outer : Pos) (pos : Option Pos) (target : Place)
    (value : Expr) :
    checkStmt ctx scope outer (.assign pos target value) = (do
      let expected ← checkPlace ctx scope (pos.getD outer) target
      let found ← checkExpr ctx scope (pos.getD outer) value
      valueFound ctx scope (pos.getD outer) .assignMismatch expected found) := by
  rw [checkStmt]
  rfl

/-- What is returned has to fit what the function returns. -/
theorem checkStmt_ret (scope : Scope) (outer : Pos) (pos : Option Pos) (value : Expr) :
    checkStmt ctx scope outer (.ret pos value) = (do
      valueFound ctx scope (pos.getD outer) .returnMismatch scope.returnTy
        (← checkExpr ctx scope (pos.getD outer) value)) := by
  rw [checkStmt]
  rfl

end Found

/-- The check only adds, and makes notes for the nodes only. -/
def Check.Within {α : Type} (nodes : List NodeId) (x : Check α) : Prop :=
  ∀ f, Findings.Grows nodes f (x.run f).2

namespace Check.Within

variable {α β : Type} {nodes nodes' : List NodeId}

theorem pure (a : α) : Within nodes (pure a : Check α) := fun f => .refl f

/-- **Checks in turn** are within the nodes if each of them is. -/
theorem bind {x : Check α} {k : α → Check β} (hx : Within nodes x)
    (hk : ∀ a, Within nodes (k a)) : Within nodes (x >>= k) := fun f =>
  (hx f).trans (hk _ _)

/-- A check within some nodes is within more. -/
theorem weaken {x : Check α} (hx : Within nodes x) (hle : nodes ⊆ nodes') : Within nodes' x :=
  fun f => (hx f).weaken hle

/-- A check that adds errors and types and makes no notes is within any nodes. -/
theorem of_prefix {x : Check α} (hx : ∀ f, ∃ errors table,
    f.errors <+: errors ∧ f.table.elems <+: table.elems ∧
      table.classNames = f.table.classNames ∧ (x.run f).2 = { f with errors := errors, table := table }) : Within nodes x := fun f => by
  obtain ⟨errors, table, herrors, htable, hnames, heq⟩ := hx f
  rw [heq]
  exact ⟨herrors, htable, hnames, .refl _, .refl _, .refl _, .refl _⟩

theorem report (pos : Pos) (fault : TypeFault) : Within nodes (report pos fault) :=
  of_prefix fun f => ⟨_, f.table, List.prefix_append _ _, List.prefix_rfl, rfl, rfl⟩

theorem get : Within nodes (get : Check Findings) := fun f => .refl f

theorem shown (ty : Ty) : Within nodes (shown ty) := bind get fun _ => pure _

/-- A note at one of the nodes is within them. -/
theorem noteType {id : NodeId} (hid : id ∈ nodes) (ty : Ty) : Within nodes (noteType id ty) :=
  fun _ => ⟨List.prefix_rfl, List.prefix_rfl, rfl, .insert hid _ _, .refl _, .refl _, .refl _⟩

theorem noteCall {id : NodeId} (hid : id ∈ nodes) (callee : Callee) :
    Within nodes (noteCall id callee) :=
  fun _ => ⟨List.prefix_rfl, List.prefix_rfl, rfl, .refl _, .insert hid _ _, .refl _, .refl _⟩

theorem noteVar {id : NodeId} (hid : id ∈ nodes) (decl : DeclRef) :
    Within nodes (noteVar id decl) :=
  fun _ => ⟨List.prefix_rfl, List.prefix_rfl, rfl, .refl _, .refl _, .insert hid _ _, .refl _⟩

theorem noteField {id : NodeId} (hid : id ∈ nodes) (ref : MemberRef) :
    Within nodes (noteField id ref) :=
  fun _ => ⟨List.prefix_rfl, List.prefix_rfl, rfl, .refl _, .refl _, .refl _, .insert hid _ _⟩

theorem ite {c : Prop} [Decidable c] {x y : Check α} (hx : Within nodes x)
    (hy : Within nodes y) : Within nodes (if c then x else y) := by
  split
  · exact hx
  · exact hy

/-- A report that may not be made. -/
theorem unless_report {c : Bool} {x : Check Unit} (hx : Within nodes x) :
    Within nodes (unless c do x) := ite (pure _) hx

/-! ## Expressions -/

variable (ctx : Context)

/-- Resolving a type may intern types of arrays, and makes no notes. -/
theorem resolveType (ty : TypeExpr) : Within nodes (resolveType ctx ty) :=
  of_prefix fun f =>
    ⟨f.errors, _, List.prefix_rfl, prefix_resolve ctx.classes ty f.table,
      classNames_resolve ctx.classes ty f.table, rfl⟩

theorem arrayOf (elem : Ty) : Within nodes (arrayOf elem) :=
  of_prefix fun f => ⟨f.errors, _, List.prefix_rfl, prefix_arrayOf f.table elem,
    classNames_arrayOf f.table elem, rfl⟩

theorem isSubtype (sub sup : Ty) : Within nodes (isSubtype ctx sub sup) :=
  bind get fun _ => pure _

theorem resolveReported (ty : TypeExpr) (role : TypeRole) (pos : Pos) :
    Within nodes (resolveReported ctx ty role pos) :=
  bind (resolveType ctx ty) fun _ => ite (bind (report _ _) fun _ => pure _) (pure _)

/-- The type of a field is resolved when it is asked for. -/
theorem fieldType (ref : MemberRef) : Within nodes (fieldType ctx ref) := by
  unfold Typing.fieldType
  split
  · exact bind (resolveType ctx _) fun _ => pure _
  · exact pure _

theorem require (expected found : Ty) (pos : Pos) : Within nodes (require ctx expected found pos) :=
  bind (isSubtype ctx _ _) fun _ => unless_report <|
    bind (shown _) fun _ => bind (shown _) fun _ => report _ _

/-- Arguments are compared with parameters in pairs, for as long as there are both. -/
theorem requireArgs (here : Pos) (args : List (Option Pos × Ty)) (params : List TypeExpr) :
    Within nodes (requireArgs ctx here args params) := by
  induction args, params using requireArgs.induct with
  | case1 pos found args param params ih =>
    exact bind (resolveType ctx _) fun _ => bind (require ctx _ _ _) fun _ => ih
  | case2 args params hne =>
    rw [Typing.requireArgs]
    · exact pure _
    · exact hne

/-- A callee is applied without a note: that it is called is noted before. -/
theorem apply (here : Pos) (callee : Callee) (args : List (Option Pos × Ty)) :
    Within nodes (apply ctx here callee args) := by
  unfold Typing.apply
  split
  · exact pure _
  · have hret (ty : TypeExpr) : Within nodes (do return (← Typing.resolveType ctx ty).gracious) :=
      bind (resolveType ctx ty) fun _ => pure _
    exact ite (bind (report _ _) fun _ => hret _) (bind (requireArgs ctx _ _ _) fun _ => hret _)

/-- The type of a node is noted behind the notes of its parts. -/
theorem typed {m : Mark} (hm : m.id ∈ nodes) (outer : Pos) {infer : Pos → Check Ty}
    (h : ∀ here, Within nodes (infer here)) : Within nodes (typed m outer infer) :=
  bind (h _) fun _ => bind (noteType hm _) fun _ => pure _

theorem lengthFound (pos : Pos) (found : Ty) : Within nodes (lengthFound pos found) := by
  unfold Typing.lengthFound
  split
  · exact pure _
  · exact pure _
  · exact bind (shown _) fun _ => bind (report _ _) fun _ => pure _

theorem comparableFound (here : Pos) (l r : Ty) : Within nodes (comparableFound ctx here l r) :=
  bind (isSubtype ctx _ _) fun _ => bind (isSubtype ctx _ _) fun _ => ite (pure _) <|
    bind (shown _) fun _ => bind (shown _) fun _ => bind (report _ _) fun _ => pure _

/-- A function that is found is noted at the call. -/
theorem callFound {m : Mark} (hm : m.id ∈ nodes) (here : Pos) (name : String)
    (args : List (Option Pos × Ty)) : Within nodes (callFound ctx m here name args) := by
  unfold Typing.callFound
  split
  · exact bind (noteCall hm _) fun _ => apply ctx _ _ _
  · exact bind (report _ _) fun _ => pure _

/-- A method is noted at the call if the class of the receiver has it. -/
theorem methodFound {m : Mark} (hm : m.id ∈ nodes) (here : Pos) (method : String)
    (args : List (Option Pos × Ty)) (found : Ty) :
    Within nodes (methodFound ctx m here method args found) := by
  unfold Typing.methodFound
  split
  · exact pure _
  · split
    · exact bind (noteCall hm _) fun _ => apply ctx _ _ _
    · exact bind (shown _) fun _ => bind (report _ _) fun _ => pure _
  · exact bind (report _ _) fun _ => pure _

/-- A field is noted at the access if the class of the object has it. -/
theorem fieldFound {m : Mark} (hm : m.id ∈ nodes) (pos : Pos) (name : String) (found : Ty) :
    Within nodes (fieldFound ctx m pos name found) := by
  unfold Typing.fieldFound
  split
  · exact pure _
  · split
    · exact bind (noteField hm _) fun _ => fieldType ctx _
    · exact bind (shown _) fun _ => bind (report _ _) fun _ => pure _
  · exact bind (report _ _) fun _ => pure _

theorem indexFound (here : Pos) (found : Ty) : Within nodes (indexFound here found) := by
  unfold Typing.indexFound
  split
  · exact bind get fun _ => pure _
  · exact pure _
  · exact bind (shown _) fun _ => bind (report _ _) fun _ => pure _

mutual

/-- **The check of an expression** is within its nodes. -/
theorem checkExpr (scope : Scope) (outer : Pos) : (e : Expr) →
    Within e.nodes (checkExpr ctx scope outer e)
  | .int m _ => typed (by simp [Expr.nodes]) _ fun _ => pure _
  | .bool m _ => typed (by simp [Expr.nodes]) _ fun _ => pure _
  | .null m => typed (by simp [Expr.nodes]) _ fun _ => pure _
  | .this m => typed (by simp [Expr.nodes]) _ fun _ =>
      ite (bind (report _ _) fun _ => pure _) (pure _)
  | .read m place => typed (by simp [Expr.nodes]) _ fun here =>
      (checkPlace scope here place).weaken (by simp [Expr.nodes])
  | .arrayLength m array => by
    rw [checkExpr_arrayLength]
    exact typed (by simp [Expr.nodes]) _ fun here => bind
      ((checkExpr scope here array).weaken (by simp [Expr.nodes])) fun _ => lengthFound _ _
  | .unary m op operand => typed (by simp [Expr.nodes]) _ fun here => bind
      ((checkExpr scope here operand).weaken (by simp [Expr.nodes])) fun _ =>
      bind (require ctx _ _ _) fun _ => pure _
  | .binary m op lhs rhs => by
    rw [Typing.checkExpr]
    refine typed (by simp [Expr.nodes]) _ fun here => ?_
    have hl := (checkExpr scope here lhs).weaken
      (show lhs.nodes ⊆ (Expr.binary m op lhs rhs).nodes by intro; simp +contextual [Expr.nodes])
    have hr := (checkExpr scope here rhs).weaken
      (show rhs.nodes ⊆ (Expr.binary m op lhs rhs).nodes by intro; simp +contextual [Expr.nodes])
    split
    · exact bind hl fun _ => bind (require ctx _ _ _) fun _ => bind hr fun _ =>
        bind (require ctx _ _ _) fun _ => pure _
    · exact bind hl fun _ => bind hr fun _ => comparableFound ctx _ _ _
  | .call m name args => by
    rw [checkExpr_call]
    exact typed (by simp [Expr.nodes]) _ fun here => bind
      ((checkArgs scope here args).weaken (by simp [Expr.nodes])) fun _ =>
      callFound ctx (by simp [Expr.nodes]) _ _ _
  | .methodCall m receiver method args => by
    rw [checkExpr_methodCall]
    have hr (here : Pos) := (checkExpr scope here receiver).weaken
      (show receiver.nodes ⊆ (Expr.methodCall m receiver method args).nodes by
        intro; simp +contextual [Expr.nodes])
    have ha (here : Pos) := (checkArgs scope here args).weaken
      (show Source.argNodes args ⊆ (Expr.methodCall m receiver method args).nodes by
        intro; simp +contextual [Expr.nodes])
    exact typed (by simp [Expr.nodes]) _ fun here => bind (hr here) fun _ =>
      bind (ha here) fun _ => methodFound ctx (by simp [Expr.nodes]) _ _ _ _
  | .newObject m name => by
    rw [Typing.checkExpr]
    refine typed (by simp [Expr.nodes]) _ fun here => ?_
    split
    · exact pure _
    · exact bind (report _ _) fun _ => pure _
  | .newArray m elem size => typed (by simp [Expr.nodes]) _ fun here => bind
      ((checkExpr scope here size).weaken (by simp [Expr.nodes])) fun _ =>
      bind (require ctx _ _ _) fun _ => bind (resolveReported ctx _ _ _) fun _ => arrayOf _

/-- **The check of a place** is within its nodes. -/
theorem checkPlace (scope : Scope) (outer : Pos) : (place : Place) →
    Within place.nodes (checkPlace ctx scope outer place)
  | .var m name => by
    rw [Typing.checkPlace]
    refine typed (by simp [Place.nodes]) _ fun here => ?_
    split
    · exact bind (noteVar (by simp [Place.nodes]) _) fun _ => pure _
    · exact bind (report _ _) fun _ => pure _
  | .field m receiver name => by
    rw [checkPlace_field]
    exact typed (by simp [Place.nodes]) _ fun here => bind
      ((checkExpr scope here receiver).weaken (by simp [Place.nodes])) fun _ =>
      fieldFound ctx (by simp [Place.nodes]) _ _ _
  | .index m array index => by
    rw [checkPlace_index]
    have ha (here : Pos) := (checkExpr scope here array).weaken
      (show array.nodes ⊆ (Place.index m array index).nodes by
        intro; simp +contextual [Place.nodes])
    have hi (here : Pos) := (checkExpr scope here index).weaken
      (show index.nodes ⊆ (Place.index m array index).nodes by
        intro; simp +contextual [Place.nodes])
    exact typed (by simp [Place.nodes]) _ fun here => bind (ha here) fun _ =>
      bind (hi here) fun _ => bind (require ctx _ _ _) fun _ => indexFound _ _

theorem checkArgs (scope : Scope) (outer : Pos) : (args : List Expr) →
    Within (Source.argNodes args) (checkArgs ctx scope outer args)
  | [] => pure _
  | e :: rest => bind ((checkExpr scope outer e).weaken (by simp [Source.argNodes])) fun _ =>
      bind ((checkArgs scope outer rest).weaken (by simp [Source.argNodes])) fun _ => pure _

end

/-! ## Statements -/

theorem conditionFound (pos : Pos) (of : ConditionOf) (found : Ty) :
    Within nodes (conditionFound ctx pos of found) :=
  bind (isSubtype ctx _ _) fun _ => unless_report <| bind (shown _) fun _ => report _ _

theorem valueFound (scope : Scope) (pos : Pos) (fault : String → String → TypeFault)
    (expected found : Ty) : Within nodes (valueFound ctx scope pos fault expected found) :=
  bind (isSubtype ctx _ _) fun _ => ite (pure _) <| bind (shown _) fun _ =>
    bind (shown _) fun _ => bind (report _ _) fun _ => pure _

theorem checkCondition (scope : Scope) (outer : Pos) (of : ConditionOf) (cond : Expr) :
    Within cond.nodes (checkCondition ctx scope outer of cond) :=
  bind (checkExpr ctx scope outer cond) fun _ => conditionFound ctx _ _ _

/-- A variable is declared in the scope and noted nowhere. -/
theorem declareVar (scope : Scope) (outer : Pos) (role : TypeRole) (taken : String → TypeFault)
    (var : VarDecl) : Within nodes (declareVar ctx scope outer role taken var) := by
  refine bind (resolveReported ctx _ _ _) fun ty => ?_
  split
  · exact bind (report _ _) fun _ => pure _
  · exact pure _

mutual

/-- **The check of a statement** is within its nodes. -/
theorem checkStmt (scope : Scope) (outer : Pos) : (s : Stmt) →
    Within s.nodes (checkStmt ctx scope outer s)
  | .block pos (.mk stmts bodyPos) => by
    rw [Typing.checkStmt, checkBlock]
    refine bind ?_ fun _ => pure _
    rw [Stmt.nodes]
    exact checkStmts scope.push _ stmts
  | .decl pos var => declareVar ctx _ _ _ _ _
  | .assign pos target value => by
    rw [checkStmt_assign]
    exact bind ((checkPlace ctx scope _ target).weaken (by simp [Stmt.nodes])) fun _ =>
      bind ((checkExpr ctx scope _ value).weaken (by simp [Stmt.nodes])) fun _ =>
      valueFound ctx _ _ _ _ _
  | .expr pos value => bind (checkExpr ctx scope _ value) fun _ => pure _
  | .ifThen pos cond body =>
    bind ((checkCondition ctx scope _ _ cond).weaken (by simp [Stmt.nodes])) fun _ =>
      bind ((checkStmt scope.push _ body).weaken (by simp [Stmt.nodes])) fun _ => pure _
  | .ifElse pos cond yes no => by
    rw [Typing.checkStmt]
    have hyes (here : Pos) := (checkStmt scope.push here yes).weaken
      (show yes.nodes ⊆ (Stmt.ifElse pos cond yes no).nodes by
        intro; simp +contextual [Stmt.nodes])
    have hno (here : Pos) := (checkStmt scope.push here no).weaken
      (show no.nodes ⊆ (Stmt.ifElse pos cond yes no).nodes by
        intro; simp +contextual [Stmt.nodes])
    exact bind ((checkCondition ctx scope _ _ cond).weaken (by simp [Stmt.nodes])) fun _ =>
      bind (hyes _) fun _ => bind (hno _) fun _ => pure _
  | .loop pos cond body =>
    bind ((checkCondition ctx scope _ _ cond).weaken (by simp [Stmt.nodes])) fun _ =>
      bind ((checkStmt scope.push _ body).weaken (by simp [Stmt.nodes])) fun _ => pure _
  | .ret pos value => by
    rw [checkStmt_ret]
    exact bind (checkExpr ctx scope _ value) fun _ => valueFound ctx _ _ _ _ _

theorem checkStmts (scope : Scope) (outer : Pos) : (stmts : List Stmt) →
    Within (Source.stmtNodes stmts) (checkStmts ctx scope outer stmts)
  | [] => pure _
  | s :: rest => bind ((checkStmt scope outer s).weaken (by simp [Source.stmtNodes])) fun scope =>
      (checkStmts scope outer rest).weaken (by simp [Source.stmtNodes])

end

/-! ## Declarations -/

theorem declareParams (scope : Scope) (outer : Pos) (params : List VarDecl) :
    Within nodes (declareParams ctx scope outer params) := by
  induction params generalizing scope with
  | nil => exact pure _
  | cons param rest ih => exact bind (declareVar ctx _ _ _ _ _) fun scope => ih scope

/-- **The check of a function** is within the nodes of its body. -/
theorem checkFunction (scope : Scope) (outer : Pos) (f : FunctionDecl) :
    Within f.nodes (checkFunction ctx scope outer f) := by
  refine bind (resolveReported ctx _ _ _) fun _ => bind (declareParams ctx _ _ _) fun scope => ?_
  obtain ⟨_, _, _, _, ⟨stmts, pos⟩, _⟩ := f
  exact checkStmts ctx scope.push _ stmts

theorem checkFunctions (scope : Scope) (outer : Pos) (fs : List FunctionDecl) :
    Within (Source.bodyNodes fs) (checkFunctions ctx scope outer fs) := by
  induction fs with
  | nil => exact pure _
  | cons f rest ih =>
    exact bind ((checkFunction ctx scope outer f).weaken (by simp [Source.bodyNodes])) fun _ =>
      ih.weaken (by simp [Source.bodyNodes])

theorem declareFields (scope : Scope) (fields : List (String × MemberRef)) :
    Within nodes (declareFields ctx scope fields) := by
  induction fields generalizing scope with
  | nil => exact pure _
  | cons field rest ih => exact bind (fieldType ctx _) fun _ => ih _

/-- **The check of a class** is within the bodies of its methods: fields are declared
without notes. -/
theorem checkClass (outer : Pos) (id : ClassId) (c : ClassDecl) :
    Within (Source.bodyNodes c.methods) (checkClass ctx outer id c) :=
  bind (declareFields ctx _ _) fun _ => checkFunctions ctx _ _ _

theorem checkClasses (outer : Pos) (classes : List (ClassDecl × Nat)) :
    Within (classes.flatMap fun c => Source.bodyNodes c.1.methods)
      (checkClasses ctx outer classes) := by
  induction classes with
  | nil => exact pure _
  | cons c rest ih =>
    exact bind ((checkClass ctx outer c.2 c.1).weaken (by simp)) fun _ => ih.weaken (by simp)

theorem checkFields (outer : Pos) (seen : Table String Pos) (fields : List VarDecl) :
    Within nodes (checkFields ctx outer seen fields) := by
  induction fields generalizing seen with
  | nil => exact pure _
  | cons field rest ih =>
    refine bind (resolveReported ctx _ _ _) fun _ => ?_
    split
    · exact bind (report _ _) fun _ => ih _
    · exact ih _

theorem checkMethodNames (outer : Pos) (seen : Table String Pos) (methods : List FunctionDecl) :
    Within nodes (checkMethodNames outer seen methods) := by
  induction methods generalizing seen with
  | nil => exact pure _
  | cons method rest ih =>
    rw [Typing.checkMethodNames]
    split
    · exact bind (report _ _) fun _ => ih _
    · exact ih _

/-- What is checked of members before the bodies makes no notes. -/
theorem checkMembers (outer : Pos) (classes : List ClassDecl) :
    Within nodes (checkMembers ctx outer classes) := by
  induction classes with
  | nil => exact pure _
  | cons c rest ih =>
    exact bind (checkFields ctx _ _ _) fun _ => bind (checkMethodNames _ _ _) fun _ => ih

/-- Nor does what is checked of the main function. -/
theorem checkMain (fallback : Pos) : Within nodes (checkMain ctx fallback) := by
  unfold Typing.checkMain
  dsimp only
  split
  next main hmain => exact report _ _
  next main _ =>
    refine bind (resolveType ctx _) fun ty => ?_
    have hlast : Within nodes (if main.body.stmts.getLast?.any Stmt.isReturn = true then
        Pure.pure () else Typing.report (main.pos.getD fallback) .mainMissingReturn) :=
      ite (pure _) (report _ _)
    split
    all_goals split
    · exact hlast
    · exact bind (report _ _) fun _ => hlast
    · exact bind (report _ _) fun _ => hlast
    · exact bind (report _ _) fun _ => bind (report _ _) fun _ => hlast

end Check.Within

end ClassLang.Typing
