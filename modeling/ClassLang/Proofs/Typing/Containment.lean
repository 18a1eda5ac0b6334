import ClassLang.Proofs.Typing.Coverage
import ClassLang.Proofs.Typing.Tables
/-!
# Typing — what failed does not leak

`invalid` is never recorded, and where `any` is recorded of a node or an array
type, or a declaration has it, something was reported: so lowering never meets
either. Every index that the analysis hands out is in range of its table, also
where something was reported (`contained_analyze`).
-/


namespace ClassLang

/-- The variables of a program: the parameters and local variables of all
functions and methods. -/
def Source.Program.variables (p : Source.Program) : List Source.VarDecl :=
  (p.functions ++ p.classes.flatMap (·.methods)).flatMap fun g => g.params ++ g.body.varDecls

/-- All classes that are mentioned are among the first `size`. -/
structure ClassInfo.InRange (size : Nat) (info : ClassInfo) : Prop where
  id : info.id < size
  superclass : ∀ id, info.superclass = some id → id < size
  fields : ∀ entry ∈ info.fields, entry.2.class_ < size
  methods : ∀ entry ∈ info.methods, entry.2.class_ < size

namespace Typing

open Source (NodeId TypeExpr Part Stmt Block VarDecl FunctionDecl ClassDecl Program)

/-- The array type or the class that a type speaks of is in its table. -/
def Analysis.Has (a : Analysis) : Ty → Prop
  | .array id => id < a.findings.table.elems.length
  | .class_ id => id < a.classes.size
  | .int | .bool | .null | .any | .invalid => True

/-- **Every index is in range.** The tables of classes have an entry for each
class of the program, and no index of an array type or a class goes beyond its
table. -/
structure Analysis.InRange (p : Program) (a : Analysis) : Prop where
  size : a.classes.size = p.classes.length
  names : a.classes.names.length = a.classes.size
  classNames : a.findings.table.classNames.length = a.classes.size
  types : ∀ id ty, a.type? id = some ty → a.Has ty
  elems : ∀ ty ∈ a.findings.table.elems, a.Has ty
  calls : ∀ id ref, a.callee? id = some (.method ref) → ref.class_ < a.classes.size
  vars : ∀ id ref, a.decl? id = some (.field ref) → ref.class_ < a.classes.size
  fields : ∀ id ref, a.field? id = some ref → ref.class_ < a.classes.size
  lookup : ∀ name id, a.classes.lookup name = some id → id < a.classes.size
  callees : ∀ name ref, a.functions.lookup name = some (.method ref) →
    ref.class_ < a.classes.size
  infos : ∀ id info, a.classes.info id = some info →
    id < a.classes.size ∧ info.InRange a.classes.size

/-- **Something is of type `any`**: a node, the elements of an array type, or a
parameter, a local variable or a visible field as it is declared. -/
inductive Analysis.HasAny (p : Program) (a : Analysis) : Prop
  | node (id : NodeId) : a.type? id = some .any → HasAny p a
  | elem : .any ∈ a.findings.table.elems → HasAny p a
  | variable_ (var : VarDecl) (role : TypeRole) (pos : Pos) (f : Findings) : var ∈ p.variables →
      ((resolveReported ⟨p, a.classes, a.functions⟩ var.ty role pos).run f).1 = .any → HasAny p a
  | field (id : ClassId) (info : ClassInfo) (name : String) (ref : MemberRef) (f : Findings) :
      a.classes.info id = some info → info.field? name = some ref →
      ((fieldType ⟨p, a.classes, a.functions⟩ ref).run f).1 = .any → HasAny p a

/-- **What failed is contained**: `invalid` is not recorded, `any` is not
without a report, and every index is in range. -/
structure Analysis.Contained (p : Program) (a : Analysis) : Prop where
  types : ∀ id, a.type? id ≠ some .invalid
  elems : .invalid ∉ a.findings.table.elems
  reported : a.HasAny p → a.errors ≠ []
  inRange : a.InRange p

/-! ## Declared types -/

section Declared

variable {p : Program} {ctx : Context} {classes : ClassTable}

/-- A type that resolves is neither invalid nor one that fits everywhere. -/
theorem resolve_valid (hlookup : ∀ name, classes.lookup name = p.classId? name) {written : TypeExpr}
    (h : p.Resolves written) (t : TypeTable) :
    (resolve classes written t).1 ≠ .invalid ∧ (resolve classes written t).1 ≠ .any := by
  cases written with
  | int | bool => simp [resolve]
  | class_ name =>
    obtain ⟨id, hid⟩ := Option.isSome_iff_exists.1 h
    simp [resolve, hlookup, hid]
  | array elem =>
    have helem := (resolve_valid hlookup (show p.Resolves elem from h) t).1
    rw [resolve]
    split
    next t' heq => simp [heq] at helem
    next found t' _ heq =>
      obtain ⟨id, hty, -⟩ := getElem?_arrayOf t' found
      simp [hty]

theorem gracious_ne_any {ty : Ty} (h : ty ≠ .invalid ∧ ty ≠ .any) : ty.gracious ≠ .any := by
  cases ty <;> simp_all [Ty.gracious]

theorem resolveReported_ne_any (hlookup : ∀ name, ctx.classes.lookup name = p.classId? name)
    {written : TypeExpr} (h : p.Resolves written) (role : TypeRole) (pos : Pos) (f : Findings) :
    ((resolveReported ctx written role pos).run f).1 ≠ .any := by
  have hvalid := resolve_valid hlookup h f.table
  have hfound : ((resolveReported ctx written role pos).run f).1 =
      (resolve ctx.classes written f.table).1.gracious := by
    unfold resolveReported
    rw [Check.run_bind]
    split <;> rfl
  rw [hfound]
  exact gracious_ne_any hvalid

theorem fieldType_ne_any (hlookup : ∀ name, ctx.classes.lookup name = p.classId? name)
    {ref : MemberRef} {field : VarDecl} (hfield : fieldDecl? ctx.program ref = some field)
    (h : p.Resolves field.ty) (f : Findings) : ((fieldType ctx ref).run f).1 ≠ .any := by
  unfold fieldType
  rw [hfield]
  exact gracious_ne_any (resolve_valid hlookup h f.table)

end Declared

mutual

/-- The types of local variables of a well-typed statement resolve. -/
theorem StmtOk.resolves {p : Program} {printName : String} {ret : TypeExpr} {names behind : Names} :
    (s : Stmt) → StmtOk p printName ret names s behind → ∀ var ∈ s.varDecls, p.Resolves var.ty
  | .block _ (.mk stmts _), h => by
    cases h with
    | block h => exact StmtsOk.resolves stmts h
  | .decl _ var, h => by
    cases h with
    | decl hty _ => simpa [Stmt.varDecls] using hty
  | .ifThen _ _ body, h => by
    cases h with
    | ifThen _ hbody => exact StmtOk.resolves body hbody
  | .loop _ _ body, h => by
    cases h with
    | loop _ hbody => exact StmtOk.resolves body hbody
  | .ifElse _ _ yes no, h => by
    cases h with
    | ifElse _ hyes hno =>
      exact List.forall_mem_append.2 ⟨StmtOk.resolves yes hyes, StmtOk.resolves no hno⟩
  | .assign _ _ _, _ | .expr _ _, _ | .ret _ _, _ => by simp [Stmt.varDecls]

theorem StmtsOk.resolves {p : Program} {printName : String} {ret : TypeExpr} {names : Names} :
    (stmts : List Stmt) → StmtsOk p printName ret names stmts →
    ∀ var ∈ Source.listVarDecls stmts, p.Resolves var.ty
  | [], _ => by simp [Source.listVarDecls]
  | s :: rest, h => by
    cases h with
    | cons hs hrest =>
      exact List.forall_mem_append.2 ⟨StmtOk.resolves s hs, StmtsOk.resolves rest hrest⟩

end

section Programs

variable {p : Program} {printName : String}

theorem FunctionOk.resolves {this? : Option String} {g : FunctionDecl}
    (h : FunctionOk p printName this? g) : ∀ var ∈ g.params ++ g.body.varDecls, p.Resolves var.ty :=
  List.forall_mem_append.2 ⟨h.paramTypes, h.body.resolves g.body.stmts⟩

/-- In a well-typed program the types of all variables resolve. -/
theorem WellTyped.variables (h : WellTyped p printName) : ∀ var ∈ p.variables, p.Resolves var.ty := by
  intro var hvar
  obtain ⟨g, hg, hvar⟩ := List.mem_flatMap.1 hvar
  rcases List.mem_append.1 hg with hg | hg
  · exact (h.functions g hg).resolves var hvar
  · obtain ⟨c, hc, hg⟩ := List.mem_flatMap.1 hg
    exact (h.methods c hc g hg).resolves var hvar

theorem WellTyped.fieldDecl (h : WellTyped p printName) {ref : MemberRef} {field : VarDecl}
    (hfield : fieldDecl? p ref = some field) : p.Resolves field.ty := by
  obtain ⟨c, hc, hindex⟩ := Option.bind_eq_some_iff.1 hfield
  exact h.fieldTypes c (List.mem_of_getElem? hc) field (List.mem_of_getElem? hindex)

/-! ## Where nothing is reported -/

/-- **Without a report nothing is of type `any`.** -/
theorem not_hasAny_of_ok (hnodup : p.nodes.Nodup) (hok : (analyze p ⟨printName⟩).ok = true) :
    ¬ (analyze p ⟨printName⟩).HasAny p := by
  have hwell := WellTyped.of_ok hok
  have hctx := hwell.sound_programContext (p.pos.getD .origin)
  have hlookup := hctx.classes.lookup
  intro h
  cases h with
  | node id hany =>
    -- The node is one of the parts, and the type noted of it stands for a written one.
    obtain ⟨part, hpart, rfl⟩ := List.mem_map.1
      (Program.map_id_parts p ▸ (type?_isSome_iff p printName id).1 (by rw [hany]; rfl))
    rw [← map_part_programScopedParts] at hpart
    obtain ⟨entry, hentry, rfl⟩ := List.mem_map.1 hpart
    have hchecked := checked_analyze hnodup hok entry hentry
    obtain ⟨τ, hτ⟩ := hchecked.exists_type hctx
    obtain ⟨ty, hty, hd⟩ := hchecked.typeNoted hctx hτ
    exact hd.ne_any (Option.some.inj (hty.symm.trans hany))
  | elem hmem =>
    obtain ⟨id, helem⟩ := List.mem_iff_getElem?.1 hmem
    obtain ⟨ty, hd⟩ := (tableOk_analyze hok).denotes id _ helem
    exact hd.ne_any rfl
  | variable_ var role pos f hvar hany =>
    exact resolveReported_ne_any hlookup (hwell.variables var hvar) role pos f hany
  | field id info name ref f hinfo href hany =>
    obtain ⟨field, hfield⟩ := Option.isSome_iff_exists.1
      ((ClassTable.declared_resolveAll p _ id info hinfo).fields _ (Table.mem_of_get? href))
    exact fieldType_ne_any hlookup hfield (hwell.fieldDecl hfield) f hany

/-! ## Indices -/

theorem Analysis.has_of_known {a : Analysis} (hsize : a.classes.size = p.classes.length) {ty : Ty}
    (h : Known p a.findings.table ty) : a.Has ty := by
  cases ty with
  | class_ id => exact lt_of_lt_of_eq h hsize.symm
  | array id => exact h
  | int | bool | null | any | invalid => exact trivial

theorem class_lt_of_fieldDecl {ref : MemberRef} (h : (fieldDecl? p ref).isSome) :
    ref.class_ < p.classes.length := by
  obtain ⟨field, hfield⟩ := Option.isSome_iff_exists.1 h
  obtain ⟨c, hc, -⟩ := Option.bind_eq_some_iff.1 hfield
  exact (List.getElem?_eq_some_iff.1 hc).1

theorem class_lt_of_methodDecl {ref : MemberRef} (h : (methodDecl? p ref).isSome) :
    ref.class_ < p.classes.length := by
  obtain ⟨method, hmethod⟩ := Option.isSome_iff_exists.1 h
  obtain ⟨c, hc, -⟩ := Option.bind_eq_some_iff.1 hmethod
  exact (List.getElem?_eq_some_iff.1 hc).1

/-- What is known of a class mentions classes that are there. -/
theorem inRange_resolveAll (p : Program) (fallback : Pos) {id : ClassId} {info : ClassInfo}
    (h : ((ClassTable.ofProgram p).resolveAll p fallback).1.info id = some info) :
    id < p.classes.length ∧ info.InRange p.classes.length := by
  have hfaithful := ClassTable.faithful_resolveAll p fallback
  have hdeclared := ClassTable.declared_resolveAll p fallback id info h
  have hid : id < p.classes.length := by
    rw [ClassTable.info, Option.join_eq_some_iff] at h
    exact lt_of_lt_of_eq (List.getElem?_eq_some_iff.1 h).1 hfaithful.size
  refine ⟨hid, (ClassTable.indexed_resolveAll p fallback id info h).symm ▸ hid, fun s hs => ?_,
    fun entry hentry => class_lt_of_fieldDecl (hdeclared.fields entry hentry),
    fun entry hentry => class_lt_of_methodDecl (hdeclared.methods entry hentry)⟩
  exact Program.superOf_lt ((hfaithful.superclass id info h).symm.trans hs)

/-- **Every index is in range**, whatever was reported. -/
theorem inRange_analyze (p : Program) (printName : String) :
    (analyze p ⟨printName⟩).InRange p := by
  have hfaithful := ClassTable.faithful_resolveAll p (p.pos.getD .origin)
  have hsize : (analyze p ⟨printName⟩).classes.size = p.classes.length := hfaithful.size
  have hnames : (analyze p ⟨printName⟩).classes.names = p.classes.map (·.name) := hfaithful.names
  have hrefers := refers_programContext p printName (p.pos.getD .origin)
  -- The notes of an analysis are exact, also with errors: what they name is declared.
  have hexact := exact_findings p printName
  constructor
  case size => exact hsize
  case names => rw [hsize, hnames, List.length_map]
  case classNames => rw [hsize, classNames_analyze, List.length_map]
  case types => exact fun id ty hty => Analysis.has_of_known hsize (hexact.types id ty hty)
  case elems => exact fun ty hty => Analysis.has_of_known hsize (hexact.elems ty hty)
  all_goals rw [hsize]
  case calls =>
    intro id ref hcall
    obtain ⟨part, -, -, h⟩ := hexact.calls id _ hcall
    unfold Calls at h
    split at h
    next heq => cases heq
    next heq => cases heq
    next heq =>
      cases heq
      exact class_lt_of_methodDecl h
    next => exact h.elim
  case vars =>
    intro id ref hvar
    obtain ⟨part, -, -, h⟩ := hexact.vars id _ hvar
    unfold Binds at h
    split at h
    · exact class_lt_of_fieldDecl h
    · exact h.elim
  case fields =>
    intro id ref hfield
    obtain ⟨part, -, -, h⟩ := hexact.fields id _ hfield
    unfold Selects at h
    split at h
    · exact class_lt_of_fieldDecl h
    · exact h.elim
  case lookup => exact hrefers.lookup
  case callees =>
    intro name ref hcallee
    rcases hrefers.callee name _ hcallee with ⟨b, heq⟩ | ⟨index, -, heq⟩
    · cases heq
    · cases heq
  case infos => exact fun id info hinfo => inRange_resolveAll p _ hinfo

/-- **What failed is contained**, in every program that was read. -/
theorem contained_analyze {source : String} (printName : String)
    (hread : (Source.parse source).toExcept = .ok p) : (analyze p ⟨printName⟩).Contained p := by
  have hexact := exact_findings p printName
  refine ⟨fun id hinvalid => hexact.types id _ hinvalid, fun hinvalid => hexact.elems _ hinvalid,
    fun hany herr => ?_, inRange_analyze p printName⟩
  refine not_hasAny_of_ok (Source.sane_parse hread).nodes ?_ hany
  rw [Analysis.ok, herr, List.isEmpty_nil]

/-- A field whose class is not there, in an array of objects with that field. -/
def leaky : String :=
  "class A { B b; } int main() { A[] all; all = new A[2]; return all[0].b; }"

set_option maxRecDepth 100000 in
theorem contained_leaky : (Source.parse leaky).error? = none ∧
    (∃ id, (analyze (Source.parse leaky).program ⟨"print"⟩).type? id = some .any) ∧
    (analyze (Source.parse leaky).program ⟨"print"⟩).errors ≠ [] ∧
    (analyze (Source.parse leaky).program ⟨"print"⟩).Contained (Source.parse leaky).program := by
  obtain ⟨hread, hany⟩ : (Source.parse leaky).error? = none ∧
      (analyze (Source.parse leaky).program ⟨"print"⟩).type? 13 = some .any := by
    rw [Source.parse_eq_of_chars leaky String.toList_ofList]
    decide +kernel
  have hcontained := contained_analyze "print" (by rw [Source.Parsed.toExcept, hread])
  exact ⟨hread, ⟨_, hany⟩, hcontained.reported (.node _ hany), hcontained⟩

end Programs

end Typing

end ClassLang
