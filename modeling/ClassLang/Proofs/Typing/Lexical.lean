import Mathlib
import ClassLang.Proofs.Source.Programs
import ClassLang.Proofs.Typing.Bindings
/-!
# Typing — bare names are bound by lexical scoping

No two variables in scope have one name, so the variable that the rules find
for a bare name is the only one of the name that can be seen from there. This
carries what checking binds over to declarations and regions: in a program
without errors a bare name is bound to the one variable that can be seen, and
to a field of the class around it only if there is none.
-/


namespace ClassLang.Typing

open Source (Mark Part Stmt VarDecl FunctionDecl Program Occurrence InSight)

/-! ## Names in scope are distinct -/

/-- The variables in scope have different names. -/
def Names.Distinct (names : Names) : Prop := (names.vars.map (·.name)).Nodup

section Distinct

variable {p : Program} {printName : String} {ret : Source.TypeExpr} {names : Names}

/-- **The variable of a name** is the only one that has it. -/
theorem Names.Distinct.eq_of_name (h : names.Distinct) {var other : VarDecl}
    (hvar : names.var? var.name = some other) (hmem : var ∈ names.vars) : var = other := by
  have hname : other.name = var.name := by simpa using List.find?_some hvar
  exact List.inj_on_of_nodup_map h hmem (List.mem_of_find?_eq_some hvar) hname.symm

theorem StmtOk.distinct {s : Stmt} {behind : Names} (h : StmtOk p printName ret names s behind)
    (hnames : names.Distinct) : behind.Distinct := by
  cases h with
  | decl hty hvar =>
    refine List.nodup_cons.2 ⟨fun hmem => ?_, hnames⟩
    obtain ⟨var, hvar', hname⟩ := List.mem_map.1 hmem
    simpa [hname] using List.find?_eq_none.1 hvar var hvar'
  | _ => exact hnames

mutual

/-- **Within a well-typed statement** no two variables in scope have one name,
and the class around it stays. -/
theorem distinct_scopedParts {names : Names} (hnames : names.Distinct) : (s : Stmt) →
    {behind : Names} → StmtOk p printName ret names s behind →
    ∀ entry ∈ scopedParts names s, entry.1.Distinct ∧ entry.1.this? = names.this?
  | .block _ (.mk stmts _), _, h, entry, hmem => by
    cases h with
    | block h => exact distinct_scopedPartsIn hnames stmts h entry hmem
  | .decl _ _, _, _, _, hmem => by cases hmem
  | .assign _ _ _, _, _, entry, hmem | .expr _ _, _, _, entry, hmem
  | .ret _ _, _, _, entry, hmem => by
    obtain ⟨_, -, rfl⟩ := List.mem_map.1 hmem
    exact ⟨hnames, rfl⟩
  | .ifThen _ cond body, _, h, entry, hmem => by
    cases h with
    | ifThen _ hbody =>
      rcases List.mem_append.1 hmem with hmem | hmem
      · obtain ⟨_, -, rfl⟩ := List.mem_map.1 hmem
        exact ⟨hnames, rfl⟩
      · exact distinct_scopedParts hnames body hbody entry hmem
  | .loop _ cond body, _, h, entry, hmem => by
    cases h with
    | loop _ hbody =>
      rcases List.mem_append.1 hmem with hmem | hmem
      · obtain ⟨_, -, rfl⟩ := List.mem_map.1 hmem
        exact ⟨hnames, rfl⟩
      · exact distinct_scopedParts hnames body hbody entry hmem
  | .ifElse _ cond yes no, _, h, entry, hmem => by
    cases h with
    | ifElse _ hyes hno =>
      rcases List.mem_append.1 hmem with hmem | hmem
      · obtain ⟨_, -, rfl⟩ := List.mem_map.1 hmem
        exact ⟨hnames, rfl⟩
      · rcases List.mem_append.1 hmem with hmem | hmem
        · exact distinct_scopedParts hnames yes hyes entry hmem
        · exact distinct_scopedParts hnames no hno entry hmem

theorem distinct_scopedPartsIn {names : Names} (hnames : names.Distinct) : (stmts : List Stmt) →
    StmtsOk p printName ret names stmts →
    ∀ entry ∈ scopedPartsIn names stmts, entry.1.Distinct ∧ entry.1.this? = names.this?
  | [], _, _, hmem => by cases hmem
  | s :: rest, h, entry, hmem => by
    cases h with
    | cons hs hrest =>
      rcases List.mem_append.1 hmem with hmem | hmem
      · exact distinct_scopedParts hnames s hs entry hmem
      · have hthis : (names.behind s).this? = names.this? := by cases s <;> rfl
        have hbehind := hs.distinct hnames
        rw [hs.eq_behind] at hrest hbehind
        rw [← hthis]
        exact distinct_scopedPartsIn hbehind rest hrest entry hmem

end

theorem FunctionOk.distinct {this? : Option String} {g : FunctionDecl}
    (h : FunctionOk p printName this? g) : Names.Distinct ⟨this?, g.params.reverse⟩ := by
  rw [Names.Distinct, List.map_reverse, List.nodup_reverse]
  exact h.paramNames

end Distinct

/-! ## Bindings -/

/-- **What a bare name is bound to**: the one variable that can be seen, with
its declared type, or, if none can be seen, the field of the class around it. -/
inductive BoundTo (a : Analysis) (owner : Option ClassId) (before : List Occurrence)
    (region : List Nat) (m : Mark) (name : String) : Prop
  | local_ {var ty} : InSight before region name var →
      (∀ other, InSight before region name other → other = var) →
      a.decl? m.id = some (.local_ var.id) → a.type? m.id = some ty →
      a.lookupType var.ty = some ty → BoundTo a owner before region m name
  | field {id info ref} : (∀ var, ¬ InSight before region name var) → owner = some id →
      a.classes.info id = some info → info.field? name = some ref →
      a.decl? m.id = some (.field ref) → BoundTo a owner before region m name

/-- **Names are resolved by lexical scoping** in a function, or in a method of
the class `owner`. -/
structure Lexical (a : Analysis) (owner : Option ClassId) (g : FunctionDecl) : Prop where
  /-- All expressions and places of the body stand in the function. -/
  parts : g.sights.filterMap (·.sight.part?) = g.parts
  /-- All variables of the function are declared in it. -/
  decls : g.sights.filterMap (·.sight.decl?) = g.params ++ g.body.varDecls
  /-- A binding to a local variable tells which one. -/
  declIds : ((g.params ++ g.body.varDecls).map (·.id)).Nodup
  bare : ∀ before after region m name,
    g.sights = before ++ ⟨region, .part (.place (.var m name))⟩ :: after →
    BoundTo a owner before region m name
  local_ : ∀ m name id, .place (.var m name) ∈ g.parts → a.decl? m.id = some (.local_ id) →
    ∃ var ∈ g.params ++ g.body.varDecls, var.id = id ∧ var.name = name ∧
      ∃ ty, a.type? m.id = some ty ∧ a.lookupType var.ty = some ty

section Lexical

variable {p : Program} {a : Analysis} {before after : List Occurrence} {region : List Nat}

/-- What is bound by the rules is bound to what can be seen. -/
theorem NameBound.boundTo (hdescribes : a.classes.Describes p) (ht : TableOk p a.findings.table)
    {owner : Option ClassId} {names : Names}
    (howner : ∀ class_ id, names.this? = some class_ → p.classId? class_ = some id →
      owner = some id)
    (hdistinct : names.Distinct) (htracks : Tracks before region names) {m : Mark} {name : String}
    (h : NameBound p a.findings names m name) : BoundTo a owner before region m name := by
  cases h with
  | @local_ var ty hvar hnoted hty hd =>
    have hname : var.name = name := by simpa using List.find?_some hvar
    refine .local_ ⟨hname, (htracks var).1 (List.mem_of_find?_eq_some hvar)⟩ ?_ hnoted hty
      (lookupType_of_denotes ht hdescribes.lookup hd)
    rintro other ⟨rfl, hother⟩
    exact hdistinct.eq_of_name hvar ((htracks other).2 hother)
  | @field class_ id ref hvar hthis hid href hnoted =>
    obtain ⟨info, hinfo, hfield⟩ := Option.bind_eq_some_iff.1 ((hdescribes.field id name).trans href)
    refine .field ?_ (howner class_ id hthis hid) hinfo hfield hnoted
    rintro var ⟨hname, hvisible⟩
    simpa [hname] using List.find?_eq_none.1 hvar var ((htracks var).2 hvisible)

theorem BoundTo.exists_decl {owner : Option ClassId} {m : Mark} {name : String} {id : Source.NodeId}
    (h : BoundTo a owner before region m name) (hid : a.decl? m.id = some (.local_ id)) :
    ∃ var, InSight before region name var ∧ var.id = id ∧
      ∃ ty, a.type? m.id = some ty ∧ a.lookupType var.ty = some ty := by
  cases h with
  | @local_ var ty hsight _ hdecl hty hlookup =>
    obtain rfl : var.id = id := by simpa using hdecl.symm.trans hid
    exact ⟨var, hsight, rfl, ty, hty, hlookup⟩
  | field _ _ _ _ hdecl => cases hdecl.symm.trans hid

theorem FunctionBound.lexical (hdescribes : a.classes.Describes p)
    (ht : TableOk p a.findings.table) {owner : Option ClassId} {this? : Option String}
    (howner : ∀ class_ id, this? = some class_ → p.classId? class_ = some id → owner = some id)
    {printName : String} {g : FunctionDecl} (hsane : g.Sane)
    (hok : FunctionOk p printName this? g) (h : FunctionBound p this? g a.findings) :
    Lexical a owner g := by
  have hbare : ∀ before after region m name,
      g.sights = before ++ ⟨region, .part (.place (.var m name))⟩ :: after →
      BoundTo a owner before region m name := by
    intro before after region m name heq
    obtain ⟨names, hmem, htracks⟩ := scoped_of_functionSights this? heq
    obtain ⟨hdistinct, hthis⟩ := distinct_scopedPartsIn hok.distinct g.body.stmts hok.body _ hmem
    exact (h names m name hmem).boundTo hdescribes ht
      (fun class_ id hclass => howner class_ id (hthis.symm.trans hclass)) hdistinct htracks
  refine ⟨g.parts_sights, g.decls_sights, hsane.vars, hbare, fun m name id hmem hid => ?_⟩
  rw [← g.parts_sights] at hmem
  obtain ⟨⟨region, sight⟩, hsight, hpart⟩ := List.mem_filterMap.1 hmem
  obtain ⟨before, after, heq⟩ := List.append_of_mem hsight
  cases sight with
  | decl var => cases hpart
  | part found =>
    obtain rfl := Option.some.inj hpart
    obtain ⟨var, ⟨hname, around, -, hbefore⟩, hvar⟩ :=
      (hbare before after region m name heq).exists_decl hid
    refine ⟨var, ?_, hvar.1, hname, hvar.2⟩
    rw [← g.decls_sights, heq]
    exact List.mem_filterMap.2 ⟨_, List.mem_append_left _ hbefore, rfl⟩

end Lexical

/-- **Name resolution is lexical scoping** in every program that has been read
and analysed without errors. -/
theorem lexical_analyze {source : String} {p : Program} (printName : String)
    (hread : (Source.parse source).toExcept = .ok p) (hok : (analyze p ⟨printName⟩).ok = true) :
    (∀ g ∈ p.functions, Lexical (analyze p ⟨printName⟩) none g) ∧
      ∀ id c, p.classes[id]? = some c → ∀ g ∈ c.methods,
        Lexical (analyze p ⟨printName⟩) (some id) g := by
  have hsane := Source.sane_parse hread
  have h := WellTyped.of_ok hok
  have hdescribes := (h.sound_programContext (p.pos.getD .origin)).classes
  obtain ⟨hfunctions, hmethods⟩ := bound_analyze hsane.nodes hok
  constructor
  · intro g hg
    exact (hfunctions g hg).lexical hdescribes (tableOk_analyze hok)
      (fun _ _ hnone => by cases hnone) (hsane.functions g hg) (h.functions g hg)
  · intro id c hc g hg
    have hmem := List.mem_of_getElem? hc
    refine (hmethods c hmem g hg).lexical hdescribes (tableOk_analyze hok) ?_
      (hsane.methods c hmem g hg) (h.methods c hmem g hg)
    intro class_ found hclass hfound
    obtain rfl := Option.some.inj hclass
    exact (Source.Program.classId?_name h.classes.names hc).symm.trans hfound

/-- A field that is shadowed in two blocks next to each other. -/
def shadowed : String :=
  "class A { int x; int f(boolean b) { { int x; x = 1; } if (b) { boolean x; x = b; } return x; } } " ++
    "int main() { return 0; }"

set_option maxRecDepth 100000 in
theorem lexical_shadowed : (Source.parse shadowed).error? = none ∧
    (analyze (Source.parse shadowed).program ⟨"print"⟩).ok = true ∧
    (∀ g ∈ (Source.parse shadowed).program.functions,
      Lexical (analyze (Source.parse shadowed).program ⟨"print"⟩) none g) ∧
    ∀ id c, (Source.parse shadowed).program.classes[id]? = some c → ∀ g ∈ c.methods,
      Lexical (analyze (Source.parse shadowed).program ⟨"print"⟩) (some id) g := by
  obtain ⟨hread, hok⟩ : (Source.parse shadowed).error? = none ∧
      (analyze (Source.parse shadowed).program ⟨"print"⟩).ok = true := by
    rw [Source.parse_eq_of_chars shadowed (Source.toList_ofList_append _ _)]
    decide +kernel
  exact ⟨hread, hok, lexical_analyze "print" (by rw [Source.Parsed.toExcept, hread]) hok⟩

end ClassLang.Typing
