import ClassLang.Proofs.Typing.Interning
/-!
# Typing — in which order fields are enumerated

The visible fields of a class may be kept in a table that is enumerated in any
order. No order of enumeration makes a difference to an analysis
(`ordered_analyze`): where a class is checked the types of all fields were
resolved before, so nothing is interned there, and names that do not repeat
come into scope the same in every order.
-/


namespace ClassLang

/-- **A table without repetitions finds the same in every order.** -/
theorem Table.get?_of_perm {κ ν : Type} [DecidableEq κ] {t t' : Table κ ν} (h : t.Perm t')
    (hnodup : (t.map (·.1)).Nodup) (key : κ) : t.get? key = t'.get? key := by
  have hnodup' : (t'.map (·.1)).Nodup := (h.map _).nodup_iff.1 hnodup
  by_cases hkey : key ∈ t.map (·.1)
  · obtain ⟨entry, hentry, rfl⟩ := List.mem_map.1 hkey
    rw [Table.get?_of_mem hnodup hentry, Table.get?_of_mem hnodup' (h.mem_iff.1 hentry)]
  · rw [Table.get?_eq_none_of_not_mem hkey,
      Table.get?_eq_none_of_not_mem fun hkey' => hkey ((h.map _).mem_iff.2 hkey')]

namespace Typing

open Source (TypeExpr Expr Place Stmt Block VarDecl FunctionDecl ClassDecl Program)

/-! ## Orders -/

/-- In which order the visible fields of each class are enumerated. -/
structure FieldOrder where
  list : ClassId → Table String MemberRef → List (String × MemberRef)
  perm : ∀ id fields, (list id fields).Perm fields

section Ordered

variable (ctx : Context) (order : FieldOrder)

/-- The scope around the methods of a class, with its visible fields. -/
def classScope (id : ClassId) : Check Scope :=
  declareFields ctx (Scope.empty.setThis (.class_ id)) <|
    order.list id (((ctx.classes.info id).map (·.fields)).getD [])

/-- Checks the methods of a class, with its fields in the order. -/
def checkClassIn (outer : Pos) (id : ClassId) (c : ClassDecl) : Check Unit := do
  let scope ← classScope ctx order id
  checkFunctions ctx scope.push (c.pos.getD outer) c.methods

/-- Checks classes in turn, each with its fields in the order. -/
def checkClassesIn (outer : Pos) : List (ClassDecl × Nat) → Check Unit
  | [] => return
  | (c, id) :: rest => do
    checkClassIn ctx order outer id c
    checkClassesIn outer rest

end Ordered

/-- The checks of a program up to its first classes, so many of them, with the
fields of each in the order. -/
def checkUpTo (order : FieldOrder) (p : Program) (printName : String) (fallback : Pos) (n : Nat) :
    Check Unit := do
  checkMembers (programContext p printName fallback) fallback p.classes
  checkMain (programContext p printName fallback) fallback
  checkFunctions (programContext p printName fallback) .empty fallback p.functions
  checkClassesIn (programContext p printName fallback) order fallback (p.classes.zipIdx.take n)

/-- Analyses a program, with the fields of each class in the order. -/
def analyzeIn (order : FieldOrder) (p : Program) (options : Options) : Analysis :=
  let fallback := p.pos.getD .origin
  let ctx := programContext p options.printName fallback
  ⟨((checkUpTo order p options.printName fallback p.classes.length).run
      (programFindings p options.printName fallback)).2, ctx.classes, ctx.functions⟩

/-- The order in which the members became visible. -/
def FieldOrder.declared : FieldOrder := ⟨fun _ fields => fields, fun _ _ => .refl _⟩

theorem checkClassesIn_declared (ctx : Context) (outer : Pos) (classes : List (ClassDecl × Nat)) :
    checkClassesIn ctx .declared outer classes = checkClasses ctx outer classes := by
  induction classes with
  | nil => rfl
  | cons c rest ih =>
    rw [checkClassesIn, checkClasses, ih]
    rfl

/-- The analysis is the one in the order of declarations. -/
theorem analyzeIn_declared (p : Program) (options : Options) :
    analyzeIn .declared p options = analyze p options := by
  rw [analyzeIn, checkUpTo, List.take_of_length_le (by simp), checkClassesIn_declared]
  rfl

/-! ## Scopes that bind the same -/

/-- The scopes bind every name to the same, as variable and as field. -/
structure Scope.Same (s s' : Scope) : Prop where
  var : ∀ name, s.lookupVar name = s'.lookupVar name
  field : ∀ name, s.lookupField name = s'.lookupField name
  returnTy : s.returnTy = s'.returnTy
  thisTy : s.thisTy = s'.thisTy

namespace Scope.Same

variable {s s' : Scope}

theorem lookup (h : s.Same s') (name : String) : s.lookup name = s'.lookup name := by
  rw [Scope.lookup, Scope.lookup, h.var, h.field]

theorem push (h : s.Same s') : s.push.Same s'.push :=
  ⟨fun name => h.var name, fun name => h.field name, h.returnTy, h.thisTy⟩

theorem setReturn (h : s.Same s') (ty : Ty) : (s.setReturn ty).Same (s'.setReturn ty) :=
  ⟨fun name => h.var name, fun name => h.field name, rfl, h.thisTy⟩

theorem putVar (h : s.Same s') (name : String) (info : VarInfo) :
    (s.putVar name info).Same (s'.putVar name info) := by
  refine ⟨fun other => ?_, fun other => h.field other, h.returnTy, h.thisTy⟩
  by_cases heq : name = other
  · rw [← heq, lookupVar_putVar_self, lookupVar_putVar_self]
  · rw [lookupVar_putVar_of_ne _ _ heq, lookupVar_putVar_of_ne _ _ heq, h.var]

end Scope.Same

/-- Two checks find the same, and give scopes that bind the same. -/
def Check.Alike (x x' : Check Scope) : Prop :=
  ∀ f, (x.run f).2 = (x'.run f).2 ∧ (x.run f).1.Same (x'.run f).1

namespace Check.Alike

variable {α : Type} {x x' : Check Scope} {s s' : Scope}

theorem pure (h : s.Same s') : Alike (pure s) (pure s') := fun _ => ⟨rfl, h⟩

/-- After the same check in both. -/
theorem behind (y : Check α) {k k' : α → Check Scope} (h : ∀ a, Alike (k a) (k' a)) :
    Alike (y >>= k) (y >>= k') := fun f => h (y.run f).1 (y.run f).2

/-- What comes next may go on from either scope. -/
theorem bind {k k' : Scope → Check Scope} (hx : Alike x x')
    (h : ∀ s s', s.Same s' → Alike (k s) (k' s')) : Alike (x >>= k) (x' >>= k') := fun f => by
  obtain ⟨hfound, hsame⟩ := hx f
  rw [run_bind, run_bind, hfound]
  exact h _ _ hsame _

/-- What comes next finds the same from either scope. -/
theorem bind_eq {k k' : Scope → Check α} (hx : Alike x x')
    (h : ∀ s s', s.Same s' → k s = k' s') : x >>= k = x' >>= k' := by
  funext f
  obtain ⟨hfound, hsame⟩ := hx f
  have hrun : (x >>= k).run f = (x' >>= k').run f := by
    rw [run_bind, run_bind, hfound, h _ _ hsame]
  exact hrun

end Check.Alike

section Same

variable (ctx : Context) {s s' : Scope}

mutual

theorem checkExpr_same (h : s.Same s') : (e : Expr) → (outer : Pos) →
    checkExpr ctx s outer e = checkExpr ctx s' outer e
  | .int _ _, _ | .bool _ _, _ | .null _, _ | .newObject _ _, _ => rfl
  | .this _, _ => by rw [checkExpr, checkExpr, h.thisTy]
  | .read m place, _ => by
    rw [checkExpr, checkExpr]
    simp only [checkPlace_same h place]
  | .arrayLength m array, _ => by
    rw [checkExpr, checkExpr]
    simp only [checkExpr_same h array]
  | .unary m op operand, _ => by
    rw [checkExpr, checkExpr]
    simp only [checkExpr_same h operand]
  | .binary m op lhs rhs, _ => by
    rw [checkExpr, checkExpr]
    simp only [checkExpr_same h lhs, checkExpr_same h rhs]
  | .call m name args, _ => by
    rw [checkExpr, checkExpr]
    simp only [checkArgs_same h args]
  | .methodCall m receiver method args, _ => by
    rw [checkExpr, checkExpr]
    simp only [checkExpr_same h receiver, checkArgs_same h args]
  | .newArray m elem size, _ => by
    rw [checkExpr, checkExpr]
    simp only [checkExpr_same h size]

theorem checkPlace_same (h : s.Same s') : (place : Place) → (outer : Pos) →
    checkPlace ctx s outer place = checkPlace ctx s' outer place
  | .var _ name, _ => by rw [checkPlace, checkPlace, h.lookup]
  | .field m receiver name, _ => by
    rw [checkPlace, checkPlace]
    simp only [checkExpr_same h receiver]
  | .index m array index, _ => by
    rw [checkPlace, checkPlace]
    simp only [checkExpr_same h array, checkExpr_same h index]

theorem checkArgs_same (h : s.Same s') : (args : List Expr) → (outer : Pos) →
    checkArgs ctx s outer args = checkArgs ctx s' outer args
  | [], _ => rfl
  | e :: rest, _ => by
    rw [checkArgs, checkArgs]
    simp only [checkExpr_same h e, checkArgs_same h rest]

end

theorem checkCondition_same (h : s.Same s') (outer : Pos) (of : ConditionOf) (cond : Expr) :
    checkCondition ctx s outer of cond = checkCondition ctx s' outer of cond := by
  rw [checkCondition, checkCondition, checkExpr_same ctx h]

theorem declareVar_same (h : s.Same s') (outer : Pos) (role : TypeRole)
    (taken : String → TypeFault) (var : VarDecl) :
    Check.Alike (declareVar ctx s outer role taken var) (declareVar ctx s' outer role taken var) := by
  refine .behind _ fun ty => ?_
  rw [h.var]
  split
  · exact .behind _ fun _ => .pure h
  · exact .pure (h.putVar _ _)

mutual

theorem checkStmt_same : (stmt : Stmt) → {s s' : Scope} → s.Same s' → (outer : Pos) →
    Check.Alike (checkStmt ctx s outer stmt) (checkStmt ctx s' outer stmt)
  | .block pos (.mk stmts bodyPos), s, s', h, outer => by
    rw [checkStmt, checkStmt, checkBlock, checkBlock, checkStmts_same stmts h.push]
    exact .behind _ fun _ => .pure h
  | .decl _ var, _, _, h, outer => declareVar_same ctx h _ _ _ var
  | .assign pos target value, s, s', h, outer => by
    rw [checkStmt, checkStmt]
    simp only [checkPlace_same ctx h, checkExpr_same ctx h]
    refine .behind _ fun _ => .behind _ fun _ => .behind _ fun b => ?_
    split
    · exact .pure h
    · exact .behind _ fun _ => .behind _ fun _ => .behind _ fun _ => .pure h
  | .expr pos value, s, s', h, outer => by
    rw [checkStmt, checkStmt, checkExpr_same ctx h]
    exact .behind _ fun _ => .pure h
  | .ifThen pos cond body, s, s', h, outer => by
    rw [checkStmt, checkStmt, checkCondition_same ctx h]
    exact .behind _ fun _ => (checkStmt_same body h.push _).bind fun _ _ _ => .pure h
  | .ifElse pos cond yes no, s, s', h, outer => by
    rw [checkStmt, checkStmt, checkCondition_same ctx h]
    exact .behind _ fun _ => (checkStmt_same yes h.push _).bind fun _ _ _ =>
      (checkStmt_same no h.push _).bind fun _ _ _ => .pure h
  | .loop pos cond body, s, s', h, outer => by
    rw [checkStmt, checkStmt, checkCondition_same ctx h]
    exact .behind _ fun _ => (checkStmt_same body h.push _).bind fun _ _ _ => .pure h
  | .ret pos value, s, s', h, outer => by
    rw [checkStmt, checkStmt]
    simp only [checkExpr_same ctx h, h.returnTy]
    refine .behind _ fun _ => .behind _ fun b => ?_
    split
    · exact .pure h
    · exact .behind _ fun _ => .behind _ fun _ => .behind _ fun _ => .pure h

theorem checkStmts_same : (stmts : List Stmt) → {s s' : Scope} → s.Same s' → (outer : Pos) →
    checkStmts ctx s outer stmts = checkStmts ctx s' outer stmts
  | [], _, _, _, _ => rfl
  | stmt :: rest, s, s', h, outer => by
    rw [checkStmts, checkStmts]
    exact (checkStmt_same stmt h outer).bind_eq fun _ _ h => checkStmts_same rest h outer

end

theorem declareParams_same (h : s.Same s') (outer : Pos) (params : List VarDecl) :
    Check.Alike (declareParams ctx s outer params) (declareParams ctx s' outer params) := by
  induction params generalizing s s' with
  | nil => exact .pure h
  | cons param rest ih => exact (declareVar_same ctx h _ _ _ param).bind fun _ _ h => ih h

/-- **Functions are checked the same where every name is bound the same.** -/
theorem checkFunctions_same (h : s.Same s') (outer : Pos) (gs : List FunctionDecl) :
    checkFunctions ctx s outer gs = checkFunctions ctx s' outer gs := by
  have hfunction (g : FunctionDecl) : checkFunction ctx s outer g = checkFunction ctx s' outer g := by
    rw [checkFunction, checkFunction]
    refine congrArg (resolveReported ctx g.returnType .return_ _ >>= ·) (funext fun ty => ?_)
    refine (declareParams_same ctx (h.setReturn ty) _ g.params).bind_eq fun _ _ h => ?_
    cases g.body with
    | mk stmts pos => exact checkStmts_same ctx stmts h.push _
  induction gs with
  | nil => rfl
  | cons g rest ih => rw [checkFunctions, checkFunctions, hfunction, ih]

end Same

/-! ## Fields whose types were resolved before -/

/-- Nothing is interned where the type of a field is resolved. -/
def FieldsSettled (ctx : Context) (f : Findings) : Prop :=
  ∀ ref field, fieldDecl? ctx.program ref = some field →
    (resolve ctx.classes field.ty f.table).2 = f.table

/-- The type of a field over a table. -/
def fieldTyIn (ctx : Context) (t : TypeTable) (ref : MemberRef) : Ty :=
  (fieldDecl? ctx.program ref).elim .any fun field => (resolve ctx.classes field.ty t).1.gracious

section Fields

variable {ctx : Context} {f f' : Findings}

/-- Field types stay settled when more is found. -/
theorem FieldsSettled.mono (h : FieldsSettled ctx f) (hle : f.table.elems <+: f'.table.elems) :
    FieldsSettled ctx f' := fun ref field hfield => by
  rw [resolve_of_grown (t := f.table) (by rw [h ref field hfield]; exact hle)]

/-- **Checking the members of all classes settles the types of all fields.** -/
theorem settled_checkMembers (ctx : Context) (outer : Pos) (f : Findings) :
    FieldsSettled ctx ((checkMembers ctx outer ctx.program.classes).run f).2 := by
  intro ref field hfield
  obtain ⟨c, hc, hindex⟩ := Option.bind_eq_some_iff.1 hfield
  have hwritten : field.ty ∈ ctx.program.classes.flatMap fun c => c.fields.map (·.ty) :=
    List.mem_flatMap.2 ⟨c, List.mem_of_getElem? hc,
      List.mem_map_of_mem (List.mem_of_getElem? hindex)⟩
  obtain ⟨found, htakes⟩ :=
    (Check.Resolves.checkMembers ctx outer ctx.program.classes).takes f _ hwritten
  exact settled_of_takes htakes

/-- A settled field has its type, and asking for it finds nothing new. -/
theorem run_fieldType (h : FieldsSettled ctx f) (ref : MemberRef) :
    (fieldType ctx ref).run f = (fieldTyIn ctx f.table ref, f) := by
  unfold fieldType fieldTyIn
  cases hfield : fieldDecl? ctx.program ref with
  | none => rfl
  | some field =>
    have hrun : (resolveType ctx field.ty).run f = ((resolve ctx.classes field.ty f.table).1, f) := by
      change (_, { f with table := (resolve ctx.classes field.ty f.table).2 }) = _
      rw [h ref field hfield]
    dsimp only
    rw [Check.run_bind, hrun]
    rfl

/-- The scope with the fields, over a table in which their types are settled. -/
def Scope.withFields (ctx : Context) (t : TypeTable) (scope : Scope)
    (fields : List (String × MemberRef)) : Scope :=
  fields.foldl (fun scope field => scope.putField field.1 ⟨fieldTyIn ctx t field.2, .field field.2⟩)
    scope

/-- Declaring settled fields brings them into scope, and finds nothing new. -/
theorem run_declareFields (h : FieldsSettled ctx f) (scope : Scope)
    (fields : List (String × MemberRef)) :
    (declareFields ctx scope fields).run f = (scope.withFields ctx f.table fields, f) := by
  induction fields generalizing scope with
  | nil => rfl
  | cons field rest ih =>
    obtain ⟨name, ref⟩ := field
    rw [declareFields, Check.run_bind, run_fieldType h]
    exact ih _

variable (ctx) (t : TypeTable)

theorem lookupField_withFields {fields : List (String × MemberRef)}
    (hnodup : (fields.map (·.1)).Nodup) (scope : Scope) (name : String) :
    (scope.withFields ctx t fields).lookupField name =
      (Table.get? fields name).elim (scope.lookupField name) fun ref =>
        some ⟨fieldTyIn ctx t ref, .field ref⟩ := by
  induction fields generalizing scope with
  | nil => rfl
  | cons field rest ih =>
    obtain ⟨other, ref⟩ := field
    rw [List.map_cons, List.nodup_cons] at hnodup
    have hrest := ih hnodup.2 (scope.putField other ⟨fieldTyIn ctx t ref, .field ref⟩)
    rw [lookupField_putField] at hrest
    by_cases h : other = name
    · subst h
      rw [Table.get?_eq_none_of_not_mem hnodup.1, if_pos rfl] at hrest
      rw [Table.get?, if_pos rfl]
      exact hrest
    · rw [if_neg h] at hrest
      rw [Table.get?, if_neg h]
      exact hrest

theorem lookupVar_withFields (scope : Scope) (fields : List (String × MemberRef)) (name : String) :
    (scope.withFields ctx t fields).lookupVar name = scope.lookupVar name := by
  induction fields generalizing scope with
  | nil => rfl
  | cons field rest ih => exact ih _

theorem types_withFields (scope : Scope) (fields : List (String × MemberRef)) :
    (scope.withFields ctx t fields).returnTy = scope.returnTy ∧
      (scope.withFields ctx t fields).thisTy = scope.thisTy := by
  induction fields generalizing scope with
  | nil => exact ⟨rfl, rfl⟩
  | cons field rest ih => exact ih _

/-- **Fields without repetitions bind the same in every order.** -/
theorem same_withFields {fields fields' : List (String × MemberRef)} (hperm : fields.Perm fields')
    (hnodup : (fields.map (·.1)).Nodup) (scope : Scope) :
    (scope.withFields ctx t fields).Same (scope.withFields ctx t fields') := by
  have hnodup' : (fields'.map (·.1)).Nodup := (hperm.map _).nodup_iff.1 hnodup
  obtain ⟨hreturn, hthis⟩ := types_withFields ctx t scope fields
  obtain ⟨hreturn', hthis'⟩ := types_withFields ctx t scope fields'
  refine ⟨fun name => ?_, fun name => ?_, hreturn.trans hreturn'.symm, hthis.trans hthis'.symm⟩
  · rw [lookupVar_withFields, lookupVar_withFields]
  · rw [lookupField_withFields ctx t hnodup, lookupField_withFields ctx t hnodup',
      Table.get?_of_perm hperm hnodup]

end Fields

/-! ## Classes -/

section Classes

variable {ctx : Context} {f : Findings}

/-- The fields of a class come into scope without anything being found. -/
theorem run_classScope (h : FieldsSettled ctx f) (order : FieldOrder) (id : ClassId) :
    (classScope ctx order id).run f = ((Scope.empty.setThis (.class_ id)).withFields ctx f.table
      (order.list id (((ctx.classes.info id).map (·.fields)).getD [])), f) :=
  run_declareFields h _ _

theorem growing_checkClassIn (ctx : Context) (order : FieldOrder) (outer : Pos) (id : ClassId)
    (c : ClassDecl) : Check.Growing (checkClassIn ctx order outer id c) :=
  .bind (.of_within (.declareFields ctx _ _ : Check.Within [] _)) fun _ =>
    .of_within (.checkFunctions ctx _ _ _)

theorem growing_checkClassesIn (ctx : Context) (order : FieldOrder) (outer : Pos)
    (classes : List (ClassDecl × Nat)) : Check.Growing (checkClassesIn ctx order outer classes) := by
  induction classes with
  | nil => exact .of_within (.pure () : Check.Within [] _)
  | cons c rest ih => exact (growing_checkClassIn ctx order outer c.2 c.1).bind fun _ => ih

variable (hkeys : ctx.classes.Every fun _ info => (info.fields.map (·.1)).Nodup)
include hkeys

/-- Whatever the order, the names of a class are bound the same. -/
theorem same_classScope (h : FieldsSettled ctx f) (order order' : FieldOrder) (id : ClassId) :
    ((classScope ctx order id).run f).1.Same ((classScope ctx order' id).run f).1 := by
  rw [run_classScope h, run_classScope h]
  have hperm := (order.perm id (((ctx.classes.info id).map (·.fields)).getD [])).trans
    (order'.perm id _).symm
  refine same_withFields ctx f.table hperm ?_ _
  refine ((order.perm id _).map _).nodup_iff.2 ?_
  cases hinfo : ctx.classes.info id with
  | none => exact List.nodup_nil
  | some info => exact hkeys id info hinfo

theorem run_checkClassIn (h : FieldsSettled ctx f) (order order' : FieldOrder) (outer : Pos)
    (id : ClassId) (c : ClassDecl) :
    (checkClassIn ctx order outer id c).run f = (checkClassIn ctx order' outer id c).run f := by
  rw [checkClassIn, checkClassIn, Check.run_bind, Check.run_bind,
    checkFunctions_same ctx (same_classScope hkeys h order order' id).push, run_classScope h,
    run_classScope h]

/-- **Classes are checked the same in every order of their fields.** -/
theorem run_checkClassesIn (h : FieldsSettled ctx f) (order order' : FieldOrder) (outer : Pos)
    (classes : List (ClassDecl × Nat)) :
    (checkClassesIn ctx order outer classes).run f =
      (checkClassesIn ctx order' outer classes).run f := by
  induction classes generalizing f with
  | nil => rfl
  | cons c rest ih =>
    obtain ⟨nodes, hgrows⟩ := growing_checkClassIn ctx order' outer c.2 c.1 f
    rw [checkClassesIn, checkClassesIn, Check.run_bind, Check.run_bind,
      run_checkClassIn hkeys h order order']
    exact ih (h.mono hgrows.elems)

end Classes

/-! ## Programs -/

section Programs

variable (order : FieldOrder) (p : Program) (printName : String) (fallback : Pos) (n : Nat)

/-- The types of all fields are settled before any class is checked. -/
theorem settled_beforeClasses (f : Findings) :
    FieldsSettled (programContext p printName fallback) (StateT.run (do
      checkMembers (programContext p printName fallback) fallback p.classes
      checkMain (programContext p printName fallback) fallback
      checkFunctions (programContext p printName fallback) .empty fallback p.functions) f).2 := by
  have hrest : Check.Growing (do
      checkMain (programContext p printName fallback) fallback
      checkFunctions (programContext p printName fallback) .empty fallback p.functions) :=
    .bind (.of_within (.checkMain _ _ : Check.Within [] _)) fun _ =>
      .of_within (.checkFunctions _ _ _ _)
  obtain ⟨nodes, hgrows⟩ := hrest
    ((checkMembers (programContext p printName fallback) fallback p.classes).run f).2
  exact (settled_checkMembers (programContext p printName fallback) fallback f).mono hgrows.elems

/-- And they stay so while the classes are checked. -/
theorem settled_checkUpTo (f : Findings) : FieldsSettled (programContext p printName fallback)
    ((checkUpTo order p printName fallback n).run f).2 := by
  obtain ⟨nodes, hgrows⟩ := growing_checkClassesIn (programContext p printName fallback) order
    fallback (p.classes.zipIdx.take n) _
  exact (settled_beforeClasses p printName fallback f).mono hgrows.elems

/-- The checks up to a class find the same in every order. -/
theorem run_checkUpTo (f : Findings) : (checkUpTo order p printName fallback n).run f =
    (checkUpTo .declared p printName fallback n).run f :=
  run_checkClassesIn (ClassTable.keyed_resolveAll p fallback)
    (settled_beforeClasses p printName fallback f) order .declared fallback _

end Programs

/-- **The order makes no difference** to the analysis: errors, interned types
and the notes on nodes are the same, after each class as in the end. Where the
turn of a class comes, bringing its fields into scope finds nothing new, and
every name is bound the same. -/
structure FieldOrder.Agrees (order : FieldOrder) (p : Program) (printName : String)
    (fallback : Pos) : Prop where
  analysis : analyzeIn order p ⟨printName⟩ = analyze p ⟨printName⟩
  findings : ∀ n, (checkUpTo order p printName fallback n).run (programFindings p printName fallback) =
    (checkUpTo .declared p printName fallback n).run (programFindings p printName fallback)
  settled : ∀ id f,
    ((checkUpTo order p printName fallback id).run (programFindings p printName fallback)).2 = f →
    ((classScope (programContext p printName fallback) order id).run f).2 = f
  scopes : ∀ id f,
    ((checkUpTo order p printName fallback id).run (programFindings p printName fallback)).2 = f →
    ((classScope (programContext p printName fallback) order id).run f).1.Same
      ((classScope (programContext p printName fallback) .declared id).run f).1

/-- **An analysis does not depend on the order in which fields are
enumerated.** -/
theorem ordered_analyze (order : FieldOrder) (p : Program) (printName : String) :
    order.Agrees p printName (p.pos.getD .origin) := by
  have hfindings (n : Nat) := run_checkUpTo order p printName (p.pos.getD .origin) n
    (programFindings p printName (p.pos.getD .origin))
  have hsettled (id : Nat) (f : Findings)
      (hf : ((checkUpTo order p printName (p.pos.getD .origin) id).run
        (programFindings p printName (p.pos.getD .origin))).2 = f) :
      FieldsSettled (programContext p printName (p.pos.getD .origin)) f :=
    hf ▸ settled_checkUpTo order p printName _ id _
  refine ⟨?_, hfindings, fun id f hf => ?_, fun id f hf => ?_⟩
  · rw [← analyzeIn_declared, analyzeIn, analyzeIn, hfindings]
  · rw [run_classScope (hsettled id f hf)]
  · exact same_classScope (ClassTable.keyed_resolveAll p _) (hsettled id f hf) order .declared id

end Typing

end ClassLang
