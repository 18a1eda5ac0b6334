import ClassLang.Proofs.Hierarchy.Reordering
import ClassLang.Proofs.Typing.Bindings
import ClassLang.Proofs.Typing.Tables
/-!
# Typing — the order of declarations does not matter

The rules speak of declarations by name, so they say the same of programs that
agree on what names mean (`Program.Agrees`), and programs whose declarations
stand in another order do. So one is accepted exactly if the other is, and what
is noted of each node differs in the indices of functions and classes only
(`reordered_analyze`).
-/


namespace ClassLang.Typing

open Source (NodeId TypeExpr Mark Expr Place Part Stmt Block VarDecl FunctionDecl ClassDecl Program)

/-! ## Programs that agree -/

/-- The names of functions, members and types mean the same in the second
program as in the first. -/
structure Program.Agrees (p p' : Program) : Prop where
  function : ∀ name, p'.function? name = p.function? name
  field : ∀ class_ name, p'.visibleField? class_ name = p.visibleField? class_ name
  method : ∀ class_ name, p'.visibleMethod? class_ name = p.visibleMethod? class_ name
  resolves : ∀ {ty}, p.Resolves ty → p'.Resolves ty
  fits : ∀ {sub sup}, Fits p sub sup → Fits p' sub sup

section Agrees

variable {p p' : Program} {printName : String} {names : Names}

mutual

/-- **Expressions keep their types** where names mean the same. -/
theorem HasType.agrees (h : Program.Agrees p p') : (e : Expr) → {τ : ExprTy} →
    HasType p printName names e τ → HasType p' printName names e τ
  | .int _ _, _, ht => by cases ht; exact .int
  | .bool _ _, _, ht => by cases ht; exact .bool
  | .null _, _, ht => by cases ht; exact .null
  | .this _, _, ht => by cases ht with | this hthis => exact .this hthis
  | .read _ place, _, ht => by cases ht with | read ht => exact .read (PlaceType.agrees h place ht)
  | .arrayLength _ array, _, ht => by
    cases ht with | arrayLength ht => exact .arrayLength (HasType.agrees h array ht)
  | .unary _ _ operand, _, ht => by
    cases ht with
    | minus ht => exact .minus (HasType.agrees h operand ht)
    | negate ht => exact .negate (HasType.agrees h operand ht)
  | .binary _ _ lhs rhs, _, ht => by
    cases ht with
    | arithmetic hop hl hr =>
      exact .arithmetic hop (HasType.agrees h lhs hl) (HasType.agrees h rhs hr)
    | less hl hr => exact .less (HasType.agrees h lhs hl) (HasType.agrees h rhs hr)
    | and hl hr => exact .and (HasType.agrees h lhs hl) (HasType.agrees h rhs hr)
    | equals hl hr hfits =>
      exact .equals (HasType.agrees h lhs hl) (HasType.agrees h rhs hr) (hfits.imp h.fits h.fits)
  | .call _ _ args, _, ht => by
    cases ht with
    | print hargs => exact .print (ArgsFit.agrees h args hargs)
    | call hfunction hargs =>
      exact .call ((h.function _).trans hfunction) (ArgsFit.agrees h args hargs)
  | .methodCall _ receiver _ args, _, ht => by
    cases ht with
    | methodCall hreceiver hmethod hargs =>
      exact .methodCall (HasType.agrees h receiver hreceiver) ((h.method _ _).trans hmethod)
        (ArgsFit.agrees h args hargs)
  | .newObject _ _, _, ht => by
    cases ht with | newObject hclass => exact .newObject (h.resolves hclass)
  | .newArray _ _ size, _, ht => by
    cases ht with
    | newArray helem hsize => exact .newArray (h.resolves helem) (HasType.agrees h size hsize)

theorem PlaceType.agrees (h : Program.Agrees p p') : (place : Place) → {ty : TypeExpr} →
    PlaceType p printName names place ty → PlaceType p' printName names place ty
  | .var _ _, _, ht => by
    cases ht with
    | variable_ hvar => exact .variable_ hvar
    | ownField hvar hthis hfield => exact .ownField hvar hthis ((h.field _ _).trans hfield)
  | .field _ receiver _, _, ht => by
    cases ht with
    | field hreceiver hfield =>
      exact .field (HasType.agrees h receiver hreceiver) ((h.field _ _).trans hfield)
  | .index _ array index, _, ht => by
    cases ht with
    | index harray hindex => exact .index (HasType.agrees h array harray) (HasType.agrees h index hindex)

theorem ArgsFit.agrees (h : Program.Agrees p p') : (args : List Expr) → {tys : List TypeExpr} →
    ArgsFit p printName names args tys → ArgsFit p' printName names args tys
  | [], _, ht => by cases ht; exact .nil
  | e :: rest, _, ht => by
    cases ht with
    | cons he hfits hrest =>
      exact .cons (HasType.agrees h e he) (h.fits hfits) (ArgsFit.agrees h rest hrest)

end

mutual

/-- **Statements stay well typed** where names mean the same. -/
theorem StmtOk.agrees (h : Program.Agrees p p') {ret : TypeExpr} {names behind : Names} :
    (s : Stmt) → StmtOk p printName ret names s behind → StmtOk p' printName ret names s behind
  | .block _ (.mk stmts _), hs => by
    cases hs with | block hs => exact .block (StmtsOk.agrees h stmts hs)
  | .decl _ _, hs => by cases hs with | decl hty hvar => exact .decl (h.resolves hty) hvar
  | .assign _ target value, hs => by
    cases hs with
    | assign ht hv hfits => exact .assign (ht.agrees h target) (hv.agrees h value) (h.fits hfits)
  | .expr _ value, hs => by cases hs with | expr hv => exact .expr (hv.agrees h value)
  | .ifThen _ cond body, hs => by
    cases hs with
    | ifThen hcond hbody => exact .ifThen (hcond.agrees h cond) (StmtOk.agrees h body hbody)
  | .ifElse _ cond yes no, hs => by
    cases hs with
    | ifElse hcond hyes hno =>
      exact .ifElse (hcond.agrees h cond) (StmtOk.agrees h yes hyes) (StmtOk.agrees h no hno)
  | .loop _ cond body, hs => by
    cases hs with
    | loop hcond hbody => exact .loop (hcond.agrees h cond) (StmtOk.agrees h body hbody)
  | .ret _ value, hs => by
    cases hs with | ret hv hfits => exact .ret (hv.agrees h value) (h.fits hfits)

theorem StmtsOk.agrees (h : Program.Agrees p p') {ret : TypeExpr} {names : Names} :
    (stmts : List Stmt) → StmtsOk p printName ret names stmts → StmtsOk p' printName ret names stmts
  | [], hs => by cases hs; exact .nil
  | s :: rest, hs => by
    cases hs with
    | cons hs hrest => exact .cons (StmtOk.agrees h s hs) (StmtsOk.agrees h rest hrest)

end

theorem FunctionOk.agrees (h : Program.Agrees p p') {this? : Option String} {g : FunctionDecl}
    (hg : FunctionOk p printName this? g) : FunctionOk p' printName this? g :=
  ⟨h.resolves hg.returnType, fun param hparam => h.resolves (hg.paramTypes param hparam),
    hg.paramNames, hg.body.agrees h g.body.stmts⟩

theorem PartType.agrees (h : Program.Agrees p p') {part : Part} {τ : ExprTy}
    (hpart : PartType p printName names part τ) : PartType p' printName names part τ := by
  cases hpart with
  | @expr e τ ht => exact .expr (ht.agrees h e)
  | @place pl ty ht => exact .place (ht.agrees h pl)

end Agrees

/-! ## Programs in another order -/

section Reordering

open Source.Program (Reordering)

variable {p p' : Program} (r : p.Reordering p') {printName : String}
include r

theorem Reordering.functionIndex? (hnames : (p.functions.map (·.name)).Nodup) (name : String) :
    p'.functionIndex? name = (p.functionIndex? name).map r.function :=
  idxOf?_of_renumbered r.function (fun i => by simp [r.functions])
    ((r.functions_perm.map _).nodup_iff.2 hnames) name

theorem Reordering.function? (hnames : (p.functions.map (·.name)).Nodup) (name : String) :
    p'.function? name = p.function? name := by
  rw [Program.function?_eq, Program.function?_eq, Reordering.functionIndex? r hnames]
  cases p.functionIndex? name with
  | none => rfl
  | some i => exact r.functions i

section Classes

variable (hnames : (p.classes.map (·.name)).Nodup)
include hnames

theorem Reordering.visibleField? (class_ name : String) :
    p'.visibleField? class_ name = p.visibleField? class_ name := by
  rw [Program.visibleField?, Program.visibleField?, r.classId? hnames]
  cases p.classId? class_ with
  | none => rfl
  | some id =>
    simp only [Option.map_some, Option.bind_some, r.fieldRef? hnames, Option.bind_map]
    exact congrArg _ (funext r.fieldDecl?)

theorem Reordering.visibleMethod? (class_ name : String) :
    p'.visibleMethod? class_ name = p.visibleMethod? class_ name := by
  rw [Program.visibleMethod?, Program.visibleMethod?, r.classId? hnames]
  cases p.classId? class_ with
  | none => rfl
  | some id =>
    simp only [Option.map_some, Option.bind_some, r.methodRef? hnames, Option.bind_map]
    exact congrArg _ (funext r.methodDecl?)

theorem Reordering.resolves {ty : TypeExpr} (h : p.Resolves ty) : p'.Resolves ty := by
  induction ty with
  | int | bool => exact trivial
  | class_ name =>
    rw [Program.Resolves, r.classId? hnames, Option.isSome_map]
    exact h
  | array elem ih => exact ih h

theorem Reordering.fits {sub sup : ExprTy} (h : Fits p sub sup) : Fits p' sub sup := by
  cases h with
  | refl => exact .refl _
  | class_ ha hb hab =>
    refine .class_ ?_ ?_ (r.inherits hnames hab)
    · rw [r.classId? hnames, ha, Option.map_some]
    · rw [r.classId? hnames, hb, Option.map_some]
  | nullClass name => exact .nullClass name
  | nullArray elem => exact .nullArray elem

end Classes

/-- **Names mean the same in every order.** -/
theorem Reordering.agrees (hfunctions : (p.functions.map (·.name)).Nodup)
    (hclasses : (p.classes.map (·.name)).Nodup) : Program.Agrees p p' where
  function := Reordering.function? r hfunctions
  field := Reordering.visibleField? r hclasses
  method := Reordering.visibleMethod? r hclasses
  resolves := Reordering.resolves r hclasses
  fits := Reordering.fits r hclasses

theorem WellTyped.agrees_of_reordering (h : WellTyped p printName) : Program.Agrees p p' :=
  Reordering.agrees r (List.nodup_cons.1 h.functionNames).2 h.classes.names

/-- **A program that is well typed is so in every order.** -/
theorem WellTyped.reordered (h : WellTyped p printName) : WellTyped p' printName := by
  have hagrees := h.agrees_of_reordering r
  refine ⟨((r.functions_perm.map _).cons _).nodup_iff.2 h.functionNames, r.soundClasses h.classes,
    fun c hc field hfield => hagrees.resolves (h.fieldTypes c (r.mem_classes.1 hc) field hfield), ?_,
    fun f hf => (h.functions f (r.mem_functions.1 hf)).agrees hagrees,
    fun c hc m hm => (h.methods c (r.mem_classes.1 hc) m hm).agrees hagrees⟩
  obtain ⟨main, hmain, hrest⟩ := h.main
  exact ⟨main, (hagrees.function _).trans hmain, hrest⟩

/-- **A program is accepted exactly if it is in every order.** -/
theorem ok_reordered : (analyze p' ⟨printName⟩).ok = true ↔ (analyze p ⟨printName⟩).ok = true := by
  rw [analyze_ok_iff, analyze_ok_iff]
  exact ⟨.reordered r.symm, .reordered r⟩

theorem nodes_nodup_reordered (h : p.nodes.Nodup) : p'.nodes.Nodup :=
  (List.Perm.append (r.functions_perm.flatMap_right _)
    (r.classes_perm.flatMap_right _)).nodup_iff.2 h

theorem mem_programScopedParts_reordered {entry : Names × Part} :
    entry ∈ programScopedParts p' ↔ entry ∈ programScopedParts p :=
  (List.Perm.append (r.functions_perm.flatMap_right _)
    (r.classes_perm.flatMap_right _)).mem_iff

end Reordering

/-! ## What is noted, by the rules -/

/-- **What a call means**: the built-in, a function or the nearest method of the
class of the receiver. -/
inductive CalleeOf (p : Program) (printName : String) (names : Names) : Expr → Callee → Prop
  | print {m args} : CalleeOf p printName names (.call m printName args) (.builtin .printInt)
  | function {m name args index} : name ≠ printName → p.functionIndex? name = some index →
      CalleeOf p printName names (.call m name args) (.function index)
  | method {m receiver method args class_ id ref} :
      HasType p printName names receiver (.written (.class_ class_)) →
      p.classId? class_ = some id → p.methodRef? id method = some ref →
      CalleeOf p printName names (.methodCall m receiver method args) (.method ref)

/-- **What an access selects**: the nearest field of the class of the
receiver. -/
inductive FieldOf (p : Program) (printName : String) (names : Names) : Place → MemberRef → Prop
  | field {m receiver name class_ id ref} :
      HasType p printName names receiver (.written (.class_ class_)) →
      p.classId? class_ = some id → p.fieldRef? id name = some ref →
      FieldOf p printName names (.field m receiver name) ref

section Notes

variable {ctx : Context} {printName : String} {f : Findings} {names : Names}

/-- A call that is typed means something. -/
theorem exists_calleeOf (hctx : ctx.Sound printName) {part : Part} {τ : ExprTy} {callee : Callee}
    (h : PartType ctx.program printName names part τ) (hcalls : Calls ctx.program part callee) :
    ∃ e found, part = .expr e ∧ CalleeOf ctx.program printName names e found := by
  cases h with
  | place h => exact hcalls.elim
  | @expr e τ h =>
    refine (?_ : ∃ found, CalleeOf ctx.program printName names e found).elim
      fun found hfound => ⟨e, found, rfl, hfound⟩
    cases h with
    | print _ => exact ⟨_, .print⟩
    | @call m name args g hg _ =>
      have hname : name ≠ printName := fun heq => hctx.notPrint g (List.mem_of_find?_eq_some hg) <| by
        simpa [heq] using List.find?_some hg
      rw [Program.function?_eq] at hg
      obtain ⟨index, hindex, -⟩ := Option.bind_eq_some_iff.1 hg
      exact ⟨_, .function hname hindex⟩
    | methodCall hreceiver hmethod _ =>
      obtain ⟨ref, hvisible, -⟩ := Option.bind_eq_some_iff.1 hmethod
      obtain ⟨id, hid, href⟩ := Option.bind_eq_some_iff.1 hvisible
      exact ⟨_, .method hreceiver hid href⟩
    | _ => exact hcalls.elim

/-- **The callee of a call that was checked is noted.** -/
theorem Checked.callee (hctx : ctx.Sound printName) {e : Expr} {callee : Callee}
    (h : Checked ctx names f (.expr e)) (hcallee : CalleeOf ctx.program printName names e callee) :
    f.calls.get? e.id = some callee := by
  obtain ⟨scope, outer, f₁, nodes, -, hf₁, hscope, -, hafter, hout⟩ := h
  refine (hafter.calls e.id (hout _ (Part.id_mem_nodes (.expr e)))).trans ?_
  cases hcallee with
  | @print m args => exact (noted_call scope outer f₁ m args hctx.print).2
  | @function m name args index hname hindex =>
    have hlookup : ctx.functions.lookup name = some (.function index) := by
      rw [hctx.function name hname, hindex, Option.map_some]
    exact (noted_call scope outer f₁ m args hlookup).2
  | @method m receiver method args class_ id ref hreceiver hid href =>
    exact (noted_methodCall outer args (found_class hctx hf₁ hscope _ hid hreceiver)
      ((hctx.classes.method id method).trans href)).2

/-- An access that is typed selects something. -/
theorem exists_fieldOf {part : Part} {τ : ExprTy} {ref : MemberRef} {p : Program}
    (h : PartType p printName names part τ) (hselects : Selects p part ref) :
    ∃ pl found, part = .place pl ∧ FieldOf p printName names pl found := by
  cases h with
  | expr h => exact hselects.elim
  | place h =>
    cases h with
    | field hreceiver hfield =>
      obtain ⟨ref, hvisible, -⟩ := Option.bind_eq_some_iff.1 hfield
      obtain ⟨id, hid, href⟩ := Option.bind_eq_some_iff.1 hvisible
      exact ⟨_, ref, rfl, .field hreceiver hid href⟩
    | _ => exact hselects.elim

/-- **The field of an access that was checked is noted.** -/
theorem Checked.field (hctx : ctx.Sound printName) {pl : Place} {ref : MemberRef}
    (h : Checked ctx names f (.place pl)) (hfield : FieldOf ctx.program printName names pl ref) :
    f.fields.get? pl.id = some ref := by
  obtain ⟨scope, outer, f₁, nodes, -, hf₁, hscope, -, hafter, hout⟩ := h
  refine (hafter.fields pl.id (hout _ (Part.id_mem_nodes (.place pl)))).trans ?_
  cases hfield with
  | @field m receiver name class_ id ref hreceiver hid href =>
    exact (noted_field outer name (found_class hctx hf₁ hscope _ hid hreceiver)
      ((hctx.classes.field id name).trans href)).2

end Notes

/-! ## How types are written -/

/-- How the type of an expression is written. -/
def ExprTy.text : ExprTy → String
  | .null => "null"
  | .written ty => ty.text

section Texts

variable {p : Program} {t : TypeTable}

theorem textWithin_of_denotes (ht : TableOk p t) (hnames : t.classNames = p.classes.map (·.name))
    {ty : Ty} {written : TypeExpr} (hd : Denotes p t ty written) (n : Nat)
    (hn : ∀ id, ty = .array id → id < n) : t.textWithin n ty = written.text := by
  induction hd generalizing n with
  | int => cases n <;> rfl
  | bool => cases n <;> rfl
  | class_ hid =>
    obtain ⟨c, hc, rfl⟩ := Program.name_of_classId? hid
    cases n <;> simp [TypeTable.textWithin, TypeTable.className, hnames, hc, TypeExpr.text]
  | @array id elem written helem hd ih =>
    cases n with
    | zero => exact absurd (hn id rfl) (Nat.not_lt_zero _)
    | succ n =>
      have helem' : t.elem id = elem := by simp [TypeTable.elem, helem]
      rw [TypeTable.textWithin, helem', ih n fun inner heq => ?_, TypeExpr.text]
      exact Nat.lt_of_lt_of_le (ht.older id inner (heq ▸ helem)) (Nat.lt_succ_iff.1 (hn id rfl))

/-- **A type is shown as it is written.** -/
theorem text_of_denotesExpr (ht : TableOk p t) (hnames : t.classNames = p.classes.map (·.name))
    {ty : Ty} {τ : ExprTy} (hd : DenotesExpr p t ty τ) : t.text ty = τ.text := by
  cases hd with
  | null => rfl
  | written hd =>
    refine textWithin_of_denotes ht hnames hd _ fun id heq => ?_
    subst heq
    cases hd with
    | array helem _ => exact Nat.lt_succ_of_lt (List.getElem?_eq_some_iff.1 helem).1

end Texts

/-! ## What is noted, in another order -/

section Renumbered

open Source.Program (Reordering)

variable {p p' : Program} (r : p.Reordering p') {printName : String}

/-- Where a callee has gone. -/
def renumberCallee : Callee → Callee
  | .builtin b => .builtin b
  | .function index => .function (r.function index)
  | .method ref => .method (r.member ref)

/-- Where the declaration of a name has gone: that of a field with its class. -/
def renumberDecl : DeclRef → DeclRef
  | .local_ id => .local_ id
  | .field ref => .field (r.member ref)

/-- **The analyses agree up to the renumbering**: of every node they show the
same type, and have the same callee, declaration and field where it has
gone. -/
structure Analysis.Renumbers (a a' : Analysis) : Prop where
  types : ∀ id, (a'.type? id).map a'.text = (a.type? id).map a.text
  calls : ∀ id, a'.callee? id = (a.callee? id).map (renumberCallee r)
  vars : ∀ id, a'.decl? id = (a.decl? id).map (renumberDecl r)
  fields : ∀ id, a'.field? id = (a.field? id).map r.member

theorem CalleeOf.reordered (h : WellTyped p printName) {names : Names} {e : Expr} {callee : Callee}
    (hcallee : CalleeOf p printName names e callee) :
    CalleeOf p' printName names e (renumberCallee r callee) := by
  cases hcallee with
  | print => exact .print
  | function hname hindex =>
    refine .function hname ?_
    rw [Reordering.functionIndex? r (List.nodup_cons.1 h.functionNames).2, hindex, Option.map_some]
  | @method m receiver method args class_ id ref hreceiver hid href =>
    have hid' : p'.classId? class_ = some (r.class_ id) := by
      rw [r.classId? h.classes.names, hid, Option.map_some]
    refine .method (hreceiver.agrees (h.agrees_of_reordering r) receiver) hid' ?_
    rw [r.methodRef? h.classes.names, href, Option.map_some]

theorem FieldOf.reordered (h : WellTyped p printName) {names : Names} {pl : Place} {ref : MemberRef}
    (hfield : FieldOf p printName names pl ref) :
    FieldOf p' printName names pl (r.member ref) := by
  cases hfield with
  | @field m receiver name class_ id ref hreceiver hid href =>
    have hid' : p'.classId? class_ = some (r.class_ id) := by
      rw [r.classId? h.classes.names, hid, Option.map_some]
    refine .field (hreceiver.agrees (h.agrees_of_reordering r) receiver) hid' ?_
    rw [r.fieldRef? h.classes.names, href, Option.map_some]

/-- A name that is bound is bound to the same declaration in both orders. -/
theorem NameBound.reordered (hclasses : (p.classes.map (·.name)).Nodup) {f f' : Findings}
    {names : Names} {m : Mark} {name : String} (h : NameBound p f names m name)
    (h' : NameBound p' f' names m name) {decl : DeclRef} (hdecl : f.vars.get? m.id = some decl) :
    f'.vars.get? m.id = some (renumberDecl r decl) := by
  cases h with
  | local_ hvar hnoted _ _ =>
    obtain rfl := Option.some.inj (hnoted.symm.trans hdecl)
    cases h' with
    | local_ hvar' hnoted' _ _ =>
      obtain rfl := Option.some.inj (hvar.symm.trans hvar')
      exact hnoted'
    | field hvar' _ _ _ _ => cases hvar.symm.trans hvar'
  | @field class_ id ref hvar hthis hid href hnoted =>
    obtain rfl := Option.some.inj (hnoted.symm.trans hdecl)
    cases h' with
    | local_ hvar' _ _ _ => cases hvar.symm.trans hvar'
    | @field class_' id' ref' _ hthis' hid' href' hnoted' =>
      obtain rfl := Option.some.inj (hthis.symm.trans hthis')
      rw [r.classId? hclasses, hid, Option.map_some] at hid'
      obtain rfl := Option.some.inj hid'
      rw [r.fieldRef? hclasses, href, Option.map_some] at href'
      obtain rfl := Option.some.inj href'
      exact hnoted'

/-- A note that is there exactly if another one is, and then is the other one
renumbered. -/
theorem eq_map_of_forall {α β : Type} {x : Option α} {y : Option β} {e : α → β}
    (h : ∀ a, x = some a → y = some (e a)) (h' : ∀ b, y = some b → ∃ a, x = some a) :
    y = x.map e := by
  cases hx : x with
  | some a => exact h a hx
  | none =>
    refine Option.eq_none_iff_forall_ne_some.2 fun b hb => ?_
    obtain ⟨a, ha⟩ := h' b hb
    cases hx.symm.trans ha

section Analyses

variable (hnodup : p.nodes.Nodup) (hok : (analyze p ⟨printName⟩).ok = true)
include r hnodup hok

/-- **Every part is checked in both orders**, with the same names in scope. -/
theorem exists_checked_reordered {part : Part} (hpart : part ∈ p.parts) : ∃ names,
    Checked (programContext p printName (p.pos.getD .origin)) names
        (analyze p ⟨printName⟩).findings part ∧
      Checked (programContext p' printName (p'.pos.getD .origin)) names
        (analyze p' ⟨printName⟩).findings part := by
  rw [← map_part_programScopedParts] at hpart
  obtain ⟨⟨names, part⟩, hentry, rfl⟩ := List.mem_map.1 hpart
  exact ⟨names, checked_analyze hnodup hok _ hentry,
    checked_analyze (nodes_nodup_reordered r hnodup) ((ok_reordered r).2 hok) _
      ((mem_programScopedParts_reordered r).2 hentry)⟩

theorem type?_reordered (id : NodeId) {text : String}
    (h : ((analyze p ⟨printName⟩).type? id).map (analyze p ⟨printName⟩).text = some text) :
    ((analyze p' ⟨printName⟩).type? id).map (analyze p' ⟨printName⟩).text = some text := by
  have hwell := WellTyped.of_ok hok
  obtain ⟨ty, hty, rfl⟩ := Option.map_eq_some_iff.1 h
  obtain ⟨part, hpart, rfl⟩ := List.mem_map.1
    (Program.map_id_parts p ▸ (type?_isSome_iff p printName id).1 (by rw [hty]; rfl))
  obtain ⟨names, hchecked, hchecked'⟩ := exists_checked_reordered r hnodup hok hpart
  have hctx := hwell.sound_programContext (p.pos.getD .origin)
  obtain ⟨τ, hτ⟩ := hchecked.exists_type hctx
  obtain ⟨found, hfound, hd⟩ := hchecked.typeNoted hctx hτ
  obtain ⟨ty', hty', hd'⟩ := hchecked'.typeNoted ((hwell.reordered r).sound_programContext _)
    (hτ.agrees (hwell.agrees_of_reordering r))
  obtain rfl := Option.some.inj (hfound.symm.trans hty)
  have htext : (analyze p ⟨printName⟩).text found = τ.text :=
    text_of_denotesExpr (tableOk_analyze hok) (classNames_analyze _ _) hd
  have htext' : (analyze p' ⟨printName⟩).text ty' = τ.text :=
    text_of_denotesExpr (tableOk_analyze ((ok_reordered r).2 hok)) (classNames_analyze _ _) hd'
  rw [show (analyze p' ⟨printName⟩).type? part.id = some ty' from hty', Option.map_some, htext',
    htext]

theorem callee?_reordered (id : NodeId) {callee : Callee}
    (h : (analyze p ⟨printName⟩).callee? id = some callee) :
    (analyze p' ⟨printName⟩).callee? id = some (renumberCallee r callee) := by
  have hwell := WellTyped.of_ok hok
  obtain ⟨part, hpart, rfl, hcalls⟩ := (exact_findings p printName).calls id callee h
  obtain ⟨names, hchecked, hchecked'⟩ := exists_checked_reordered r hnodup hok hpart
  have hctx := hwell.sound_programContext (p.pos.getD .origin)
  obtain ⟨τ, hτ⟩ := hchecked.exists_type hctx
  obtain ⟨e, found, rfl, hfound⟩ := exists_calleeOf hctx hτ hcalls
  obtain rfl := Option.some.inj ((hchecked.callee hctx hfound).symm.trans h)
  exact hchecked'.callee ((hwell.reordered r).sound_programContext _) (hfound.reordered r hwell)

theorem decl?_reordered (id : NodeId) {decl : DeclRef}
    (h : (analyze p ⟨printName⟩).decl? id = some decl) :
    (analyze p' ⟨printName⟩).decl? id = some (renumberDecl r decl) := by
  have hwell := WellTyped.of_ok hok
  obtain ⟨part, hpart, rfl, hbinds⟩ := (exact_findings p printName).vars id decl h
  obtain ⟨names, hchecked, hchecked'⟩ := exists_checked_reordered r hnodup hok hpart
  unfold Binds at hbinds
  split at hbinds
  · exact NameBound.reordered r hwell.classes.names hchecked.nameBound hchecked'.nameBound h
  · exact hbinds.elim

theorem field?_reordered (id : NodeId) {ref : MemberRef}
    (h : (analyze p ⟨printName⟩).field? id = some ref) :
    (analyze p' ⟨printName⟩).field? id = some (r.member ref) := by
  have hwell := WellTyped.of_ok hok
  obtain ⟨part, hpart, rfl, hselects⟩ := (exact_findings p printName).fields id ref h
  obtain ⟨names, hchecked, hchecked'⟩ := exists_checked_reordered r hnodup hok hpart
  have hctx := hwell.sound_programContext (p.pos.getD .origin)
  obtain ⟨τ, hτ⟩ := hchecked.exists_type hctx
  obtain ⟨pl, found, rfl, hfound⟩ := exists_fieldOf hτ hselects
  obtain rfl := Option.some.inj ((hchecked.field hctx hfound).symm.trans h)
  exact hchecked'.field ((hwell.reordered r).sound_programContext _) (hfound.reordered r hwell)

/-- **What is noted of a node is the same in every order**, up to the
renumbering. -/
theorem renumbers_reordered :
    (analyze p ⟨printName⟩).Renumbers r (analyze p' ⟨printName⟩) := by
  -- What is noted in the one order is noted in the other, so nothing is noted in one only.
  have hnodup' := nodes_nodup_reordered r hnodup
  have hok' := (ok_reordered r).2 hok
  refine ⟨fun id => ?_, fun id => ?_, fun id => ?_, fun id => ?_⟩
  · exact (eq_map_of_forall (e := fun text => text)
      (fun _ h => type?_reordered r hnodup hok id h)
      fun _ h => ⟨_, type?_reordered r.symm hnodup' hok' id h⟩).trans Option.map_id'
  · exact eq_map_of_forall (fun _ h => callee?_reordered r hnodup hok id h)
      fun _ h => ⟨_, callee?_reordered r.symm hnodup' hok' id h⟩
  · exact eq_map_of_forall (fun _ h => decl?_reordered r hnodup hok id h)
      fun _ h => ⟨_, decl?_reordered r.symm hnodup' hok' id h⟩
  · exact eq_map_of_forall (fun _ h => field?_reordered r hnodup hok id h)
      fun _ h => ⟨_, field?_reordered r.symm hnodup' hok' id h⟩

end Analyses

/-- **The order of declarations does not matter.** However the functions and the
classes of a program are put in order, it is accepted or not; and if it is, and
its nodes have identities of their own as in every program that was read, then
what is noted of each node is the same up to the renumbering of functions and
classes. -/
theorem reordered_analyze (p : Program) (functions : Equiv.Perm (Fin p.functions.length))
    (classes : Equiv.Perm (Fin p.classes.length)) (printName : String) :
    ((analyze (p.reorder functions classes) ⟨printName⟩).ok = true ↔
        (analyze p ⟨printName⟩).ok = true) ∧
      (p.nodes.Nodup → (analyze p ⟨printName⟩).ok = true →
        (analyze p ⟨printName⟩).Renumbers (p.reordering functions classes)
          (analyze (p.reorder functions classes) ⟨printName⟩)) :=
  ⟨ok_reordered (p.reordering functions classes),
    renumbers_reordered (p.reordering functions classes)⟩

/-- Classes and functions that refer to later ones. -/
def forward : String :=
  "class B extends A { int get() { return x; } } class A { int x; } " ++
    "int main() { return f(new B()); } int f(A a) { return a.x; }"

set_option maxRecDepth 100000 in
theorem reordered_forward : (Source.parse forward).program.nodes.Nodup ∧
    (analyze (Source.parse forward).program ⟨"print"⟩).ok = true ∧
    (analyze ((Source.parse forward).program.reorder Fin.revPerm Fin.revPerm)
      ⟨"print"⟩).ok = true ∧
    (analyze (Source.parse forward).program ⟨"print"⟩).Renumbers
      ((Source.parse forward).program.reordering Fin.revPerm Fin.revPerm)
      (analyze ((Source.parse forward).program.reorder Fin.revPerm Fin.revPerm) ⟨"print"⟩) := by
  obtain ⟨hread, hok⟩ : (Source.parse forward).error? = none ∧
      (analyze (Source.parse forward).program ⟨"print"⟩).ok = true := by
    rw [Source.parse_eq_of_chars forward (Source.toList_ofList_append _ _)]
    decide +kernel
  have hnodup := (Source.sane_parse
    (by rw [Source.Parsed.toExcept, hread] : (Source.parse forward).toExcept = .ok _)).nodes
  have hreordered := reordered_analyze (Source.parse forward).program Fin.revPerm Fin.revPerm
    "print"
  exact ⟨hnodup, hok, hreordered.1.2 hok, hreordered.2 hnodup hok⟩

end Renumbered

end ClassLang.Typing
