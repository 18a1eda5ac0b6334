import ClassLang.Proofs.Typing.Expressions
/-!
# Typing — checking declarations

What the analysis does before it looks at bodies: it names the functions
(`ofProgram_errors_eq_nil_iff`), looks for classes that are declared twice
(`duplicates_eq_nil_iff`), checks the members of classes
(`decides_checkMembers`) and looks for the main function
(`decides_checkMain`).
-/


namespace ClassLang

open Source (NodeId TypeExpr Stmt VarDecl FunctionDecl ClassDecl Program)

/-! ## The names of functions -/

namespace FunctionTable

variable (p : Program) (fallback : Pos)

theorem lookup_insert (t : FunctionTable) (name other : String) (callee : Callee) :
    ({ t with callees := t.callees.insert name callee } : FunctionTable).lookup other =
      if name = other then some callee else t.lookup other := by
  by_cases h : name = other
  · simp [lookup, h]
  · simp [lookup, Table.get?_insert_of_ne _ _ h, h]

/-- Declaring functions reports nothing exactly if no name is taken. -/
theorem declare_errors_eq_nil_iff (fs : List FunctionDecl) (k : Nat) (t : FunctionTable) :
    (declare p fallback (fs.zipIdx k) t).2 = [] ↔
      (fs.map (·.name)).Nodup ∧ ∀ f ∈ fs, t.lookup f.name = none := by
  induction fs generalizing k t with
  | nil => simp [declare]
  | cons f rest ih =>
    rw [List.zipIdx_cons, declare, List.map_cons, List.nodup_cons, List.forall_mem_cons]
    cases hlookup : t.lookup f.name with
    | some earlier => simp
    | none =>
      have hput (g : FunctionDecl) :
          ({ t with callees := t.callees.insert f.name (.function k) } : FunctionTable).lookup
            g.name = none ↔ g.name ≠ f.name ∧ t.lookup g.name = none := by
        rw [lookup_insert]
        by_cases hname : f.name = g.name
        · simp [hname]
        · simp [hname, Ne.symm hname]
      simp only [ih, hput]
      constructor
      · rintro ⟨hnodup, hall⟩
        refine ⟨⟨fun hmem => ?_, hnodup⟩, trivial, fun g hg => (hall g hg).2⟩
        obtain ⟨g, hg, hname⟩ := List.mem_map.1 hmem
        exact (hall g hg).1 hname
      · rintro ⟨⟨hmem, hnodup⟩, -, hall⟩
        exact ⟨hnodup, fun g hg => ⟨fun hname => hmem (List.mem_map.2 ⟨g, hg, hname⟩), hall g hg⟩⟩

/-- The first function of a name is found, unless the name was taken. -/
theorem lookup_declare (fs : List FunctionDecl) (k : Nat) (t : FunctionTable) (name : String) :
    (declare p fallback (fs.zipIdx k) t).1.lookup name =
      (t.lookup name).or (((fs.map (·.name)).idxOf? name).map fun i => .function (k + i)) := by
  induction fs generalizing k t with
  | nil => simp [declare]
  | cons f rest ih =>
    have hshift : ((List.map (·.name) rest).idxOf? name).map (fun i => Callee.function (k + 1 + i)) =
        (((List.map (·.name) rest).idxOf? name).map (· + 1)).map fun i => .function (k + i) := by
      cases (List.map (·.name) rest).idxOf? name with
      | none => rfl
      | some i => simp; omega
    rw [List.zipIdx_cons, declare, List.map_cons, List.idxOf?_cons]
    by_cases hname : f.name = name
    · subst hname
      cases hlookup : t.lookup f.name with
      | some earlier =>
        dsimp only
        rw [ih, hlookup]
        rfl
      | none =>
        dsimp only
        rw [ih, lookup_insert, if_pos rfl]
        simp
    · have hne : (f.name == name) = false := by simpa using hname
      rw [hne, if_neg Bool.false_ne_true, ← hshift]
      cases hlookup : t.lookup f.name with
      | some earlier => exact ih _ _
      | none =>
        dsimp only
        rw [ih, lookup_insert, if_neg hname]

/-- **Naming the functions reports nothing exactly if no name repeats**,
that of the built-in among them. -/
theorem ofProgram_errors_eq_nil_iff (printName : String) :
    (ofProgram p printName fallback).2 = [] ↔
      (printName :: p.functions.map (·.name)).Nodup := by
  rw [ofProgram, declare_errors_eq_nil_iff, List.nodup_cons, and_comm]
  refine and_congr_left fun _ => ⟨fun h hmem => ?_, fun h f hf => ?_⟩
  · obtain ⟨f, hf, hname⟩ := List.mem_map.1 hmem
    simpa [lookup, Table.get?, hname] using h f hf
  · have hname : printName ≠ f.name := fun heq => h (List.mem_map.2 ⟨f, hf, heq.symm⟩)
    simp [lookup, Table.get?, hname]

theorem lookup_ofProgram (printName name : String) :
    (ofProgram p printName fallback).1.lookup name = if printName = name then
      some (.builtin .printInt) else (p.functionIndex? name).map .function := by
  rw [ofProgram, lookup_declare]
  by_cases h : printName = name
  · simp [lookup, Table.get?, h]
  · simp [lookup, Table.get?, Program.functionIndex?, h]

end FunctionTable

/-! ## The names of classes -/

/-- A class is a duplicate of the first earlier one of its name. -/
theorem ClassTable.duplicate_eq_nil_iff (fallback : Pos) (earlier : List ClassDecl) (c : ClassDecl) :
    (match earlier.find? (·.name == c.name) with
      | some first => [(⟨.duplicateClass c.name (first.pos.getD fallback),
          c.pos.getD fallback⟩ : TypeError)]
      | none => []) = [] ↔ ∀ e ∈ earlier, e.name ≠ c.name := by
  cases hfind : earlier.find? (·.name == c.name) with
  | some first =>
    have hname : first.name = c.name := by simpa using List.find?_some hfind
    simpa using ⟨first, List.mem_of_find?_eq_some hfind, hname⟩
  | none => simpa using hfind

theorem ClassTable.duplicates_eq_nil_iff (fallback : Pos) (earlier cs : List ClassDecl) :
    ClassTable.duplicates fallback earlier cs = [] ↔
      (cs.map (·.name)).Nodup ∧ ∀ c ∈ cs, ∀ e ∈ earlier, e.name ≠ c.name := by
  induction cs generalizing earlier with
  | nil => simp [duplicates]
  | cons c rest ih =>
    have hfirst := duplicate_eq_nil_iff fallback earlier c
    rw [duplicates, List.append_eq_nil_iff]
    refine (and_congr hfirst (ih _)).trans ?_
    rw [List.map_cons, List.nodup_cons, List.forall_mem_cons]
    simp only [List.mem_append, List.mem_singleton, or_imp, forall_and, forall_eq, List.mem_map,
      not_exists, not_and]
    constructor
    · rintro ⟨hc, hnodup, hrest, hne⟩
      exact ⟨⟨fun d hd heq => hne d hd heq.symm, hnodup⟩, hc, hrest⟩
    · rintro ⟨⟨hne, hnodup⟩, hc, hrest⟩
      exact ⟨hc, hnodup, hrest, fun d hd heq => hne d hd heq.symm⟩

namespace Typing

/-! ## Members -/

section Members

variable {ctx : Context} {f : Findings}

/-- **Fields are reported exactly if a type does not resolve or a name
repeats**; then their types are interned. -/
theorem decides_checkFields (hlookup : ∀ name, ctx.classes.lookup name = ctx.program.classId? name)
    (hf : Clean ctx.program f) (outer : Pos) (seen : Table String Pos) (fields : List VarDecl) :
    Decides ctx.program (checkFields ctx outer seen fields) f
      ((∀ field ∈ fields, ctx.program.Resolves field.ty) ∧ (fields.map (·.name)).Nodup ∧
        ∀ field ∈ fields, seen.get? field.name = none)
      fun _ t => ∀ field ∈ fields, ∃ ty, Denotes ctx.program t ty field.ty := by
  induction fields generalizing seen f with
  | nil => exact (Decides.pure hf (by simp)).congr (by simp)
  | cons field rest ih =>
    have hadds (seen : Table String Pos) : Check.Adds (checkFields ctx outer seen rest) :=
      .of_within (Check.Within.checkFields ctx outer seen rest : Check.Within [] _)
    refine ((decides_resolveReported hlookup hf _ _ _).bind ?_ fun hty ty f' hf' _ hd => ?_).congr
      (show ctx.program.Resolves field.ty ∧ (∀ field ∈ rest, ctx.program.Resolves field.ty) ∧
        ((field :: rest).map (·.name)).Nodup ∧
        (∀ f ∈ field :: rest, seen.get? f.name = none) ↔ _ from ?_)
    · intro _
      split
      · exact .bind (.report _ _) fun _ => hadds _
      · exact hadds _
    · cases hseen : seen.get? field.name with
      | some previous =>
        exact (Decides.report_bind _ _ fun _ => hadds _).congr (by simp [hseen])
      | none =>
        refine ((ih hf' _).congr ?_).mono fun _ _ t hle htypes =>
          List.forall_mem_cons.2 ⟨⟨ty, hd.mono hle⟩, htypes⟩
        have hput (g : VarDecl) : (seen.insert field.name (field.pos.getD outer)).get? g.name =
            none ↔ g.name ≠ field.name ∧ seen.get? g.name = none := by
          by_cases hname : field.name = g.name
          · simp [hname]
          · simp [Table.get?_insert_of_ne _ _ hname, Ne.symm hname]
        simp only [hput, List.map_cons, List.nodup_cons, List.forall_mem_cons, hseen, List.mem_map,
          not_exists, not_and, forall_and, true_and]
        constructor
        · rintro ⟨hr, hn, hne, hs⟩
          exact ⟨hr, ⟨hne, hn⟩, hs⟩
        · rintro ⟨hr, ⟨hne, hn⟩, hs⟩
          exact ⟨hr, hn, hne, hs⟩
    · rw [List.forall_mem_cons (p := fun field : VarDecl => ctx.program.Resolves field.ty), and_assoc]

/-- **Methods are reported exactly if a name repeats.** -/
theorem decides_checkMethodNames {p : Program} (hf : Clean p f) (outer : Pos)
    (seen : Table String Pos) (methods : List FunctionDecl) :
    Decides p (checkMethodNames outer seen methods) f
      ((methods.map (·.name)).Nodup ∧ ∀ method ∈ methods, seen.get? method.name = none)
      fun _ _ => True := by
  induction methods generalizing seen with
  | nil => exact (Decides.pure hf trivial).congr (by simp)
  | cons method rest ih =>
    have hadds (seen : Table String Pos) : Check.Adds (checkMethodNames outer seen rest) :=
      .of_within (Check.Within.checkMethodNames outer seen rest : Check.Within [] _)
    rw [checkMethodNames]
    cases hseen : seen.get? method.name with
    | some previous =>
      exact (Decides.report_bind _ _ fun _ => hadds _).congr (by simp [hseen])
    | none =>
      refine (ih _).congr ?_
      have hput (g : FunctionDecl) : (seen.insert method.name (method.pos.getD outer)).get? g.name =
          none ↔ g.name ≠ method.name ∧ seen.get? g.name = none := by
        by_cases hname : method.name = g.name
        · simp [hname]
        · simp [Table.get?_insert_of_ne _ _ hname, Ne.symm hname]
      simp only [hput, List.map_cons, List.nodup_cons, List.forall_mem_cons, hseen, List.mem_map,
        not_exists, not_and, forall_and, true_and]
      constructor
      · rintro ⟨hn, hne, hs⟩
        exact ⟨⟨hne, hn⟩, hs⟩
      · rintro ⟨⟨hne, hn⟩, hs⟩
        exact ⟨hn, hne, hs⟩

/-- The members of a class are in order: no name repeats and the types of
fields resolve. -/
structure MembersOk (p : Program) (c : ClassDecl) : Prop where
  fieldTypes : ∀ field ∈ c.fields, p.Resolves field.ty
  fields : (c.fields.map (·.name)).Nodup
  methods : (c.methods.map (·.name)).Nodup

/-- **Checking members reports nothing exactly if they are in order**; then
the types of fields are interned. -/
theorem decides_checkMembers (hlookup : ∀ name, ctx.classes.lookup name = ctx.program.classId? name)
    (hf : Clean ctx.program f) (outer : Pos) (classes : List ClassDecl) :
    Decides ctx.program (checkMembers ctx outer classes) f
      (∀ c ∈ classes, MembersOk ctx.program c)
      fun _ t => ∀ c ∈ classes, ∀ field ∈ c.fields, ∃ ty, Denotes ctx.program t ty field.ty := by
  induction classes generalizing f with
  | nil => exact (Decides.pure hf (by simp)).congr (by simp)
  | cons c rest ih =>
    have hadds : Check.Adds (checkMembers ctx outer rest) :=
      .of_within (Check.Within.checkMembers ctx outer rest : Check.Within [] _)
    have hadds' (outer : Pos) : Check.Adds (checkMethodNames outer [] c.methods) :=
      .of_within (Check.Within.checkMethodNames outer [] c.methods : Check.Within [] _)
    refine ((decides_checkFields hlookup hf _ [] c.fields).bind
      (fun _ => .bind (hadds' _) fun _ => hadds) fun _ _ f₁ hf₁ _ htypes =>
        (decides_checkMethodNames hf₁ _ [] c.methods).bind (fun _ => hadds)
          fun _ _ f₂ hf₂ hle _ => (ih hf₂).mono fun _ _ t hle' hrest => ?_).congr ?_
    · refine List.forall_mem_cons.2 ⟨fun field hfield => ?_, hrest⟩
      obtain ⟨ty, hd⟩ := htypes field hfield
      exact ⟨ty, hd.mono (hle.trans hle')⟩
    rw [List.forall_mem_cons]
    exact ⟨fun ⟨⟨hty, hfields, _⟩, ⟨hmethods, _⟩, hrest⟩ => ⟨⟨hty, hfields, hmethods⟩, hrest⟩,
      fun ⟨⟨hty, hfields, hmethods⟩, hrest⟩ =>
        ⟨⟨hty, hfields, fun _ _ => rfl⟩, ⟨hmethods, fun _ _ => rfl⟩, hrest⟩⟩

end Members

/-! ## The main function -/

section Main

variable {ctx : Context} {printName : String} {f : Findings}

/-- The context of a program whose functions have names of their own. -/
theorem named_ofProgram {p : Program} (classes : ClassTable) (fallback : Pos)
    (hnodup : (printName :: p.functions.map (·.name)).Nodup) :
    Context.Named ⟨p, classes, (FunctionTable.ofProgram p printName fallback).1⟩ printName := by
  rw [List.nodup_cons] at hnodup
  refine ⟨by rw [FunctionTable.lookup_ofProgram, if_pos rfl], fun name hname => ?_,
    fun g hg heq => hnodup.1 (List.mem_map.2 ⟨g, hg, heq⟩)⟩
  rw [FunctionTable.lookup_ofProgram, if_neg (Ne.symm hname)]

/-- What is found for the name of the main function. -/
theorem lookup_main (hctx : ctx.Named printName) :
    (match ctx.functions.lookup "main" with
      | some (.function i) => ctx.program.functions[i]?
      | _ => none) = if printName = "main" then none else ctx.program.function? "main" := by
  by_cases hname : printName = "main"
  · rw [if_pos hname, ← hname, hctx.print]
  · rw [if_neg hname]
    rw [hctx.function "main" (Ne.symm hname), Program.function?_eq]
    cases ctx.program.functionIndex? "main" <;> rfl

/-- **The main function is reported exactly if there is none that is as it
has to be.** -/
theorem decides_checkMain (hctx : ctx.Named printName)
    (hlookup : ∀ name, ctx.classes.lookup name = ctx.program.classId? name)
    (hf : Clean ctx.program f) (fallback : Pos) :
    Decides ctx.program (checkMain ctx fallback) f (HasMain ctx.program) fun _ _ => True := by
  have hmain := lookup_main hctx
  have hnotPrint {main : FunctionDecl} (hg : ctx.program.function? "main" = some main) :
      printName ≠ "main" := fun heq =>
    hctx.notPrint main (List.mem_of_find?_eq_some hg) (heq ▸ by simpa using List.find?_some hg)
  unfold checkMain
  dsimp only
  split
  next heq =>
    refine (Decides.report _ _).congr ⟨False.elim, ?_⟩
    rintro ⟨main, hg, -⟩
    have h := hmain.symm.trans heq
    rw [if_neg (hnotPrint hg), hg] at h
    cases h
  next main heq =>
    have hg : ctx.program.function? "main" = some main := by
      have h := hmain.symm.trans heq
      split at h
      · cases h
      · exact h
    have hlast (f' : Findings) (hf' : Clean ctx.program f') : Decides ctx.program
        (if main.body.stmts.getLast?.any Stmt.isReturn = true then pure ()
          else report (main.pos.getD fallback) .mainMissingReturn) f'
        (∃ s, main.body.stmts.getLast? = some s ∧ s.isReturn) fun _ _ => True := by
      refine .unless_ (fun _ => .pure hf' trivial) ?_ (.report _ _)
      cases main.body.stmts.getLast? <;> simp
    have hadds (pos : Pos) : Check.Adds (if main.body.stmts.getLast?.any Stmt.isReturn = true then
        pure () else report pos .mainMissingReturn) := .ite (.pure _) (.report _ _)
    refine ((decides_findType hlookup hf main.returnType).bind ?_ fun _ found f' hf' _ hfound =>
      ?_).congr (show True ∧ main.returnType = .int ∧ main.params = [] ∧
        (∃ s, main.body.stmts.getLast? = some s ∧ s.isReturn) ↔ _ from
          ⟨fun h => ⟨main, hg, h.2⟩, ?_⟩)
    · intro found
      split
      all_goals split
      · exact hadds _
      · exact .bind (.report _ _) fun _ => hadds _
      · exact .bind (.report _ _) fun _ => hadds _
      · exact .bind (.report _ _) fun _ => .bind (.report _ _) fun _ => hadds _
    -- The three conditions on `main` are checked one after the other and each reports, so it
    -- is silent only if all hold.
    · cases hparams : main.params with
      | nil =>
        split
        next hint => exact (hlast f' hf').congr (by simp [hfound.1 hint])
        next hint =>
          exact (Decides.report_bind _ _ fun _ => hadds _).congr (by simp [hfound.not.1 hint])
      | cons first rest =>
        split
        next hint => exact (Decides.report_bind _ _ fun _ => hadds _).congr (by simp)
        next hint =>
          exact (Decides.report_bind _ _ fun _ => .bind (.report _ _) fun _ => hadds _).congr
            (by simp)
    · rintro ⟨main', hg', h⟩
      obtain rfl := Option.some.inj (hg.symm.trans hg')
      exact ⟨trivial, h⟩

end Main

end Typing

end ClassLang
