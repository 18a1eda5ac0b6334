import ClassLang.Proofs.Typing.Coverage
/-!
# Typing — bare names are bound by lexical scoping

Checking a bare name notes it as the scope has it. In a program without errors
the scope holds what is in scope by the rules, so the bare names of all
functions and methods are bound to that in the end (`bound_analyze`).
-/


namespace ClassLang.Typing

open Source (NodeId Part Mark Place FunctionDecl Program)

/-- A bare name is bound to the variable of the name, with its declared type;
and to a field of the class around it if no variable has the name. -/
inductive NameBound (p : Program) (f : Findings) (names : Names) (m : Mark) (name : String) : Prop
  | local_ {var ty} : names.var? name = some var → f.vars.get? m.id = some (.local_ var.id) →
      f.types.get? m.id = some ty → Denotes p f.table ty var.ty → NameBound p f names m name
  | field {class_ id ref} : names.var? name = none → names.this? = some class_ →
      p.classId? class_ = some id → p.fieldRef? id name = some ref →
      f.vars.get? m.id = some (.field ref) → NameBound p f names m name

/-- All bare names among the parts are bound. -/
def NamesBound (p : Program) (f : Findings) (parts : List (Names × Part)) : Prop :=
  ∀ names m name, (names, .place (.var m name)) ∈ parts → NameBound p f names m name

section Names

variable {ctx : Context} {f f' : Findings} {nodes : List NodeId} {names : Names} {scope : Scope}
variable {m : Mark} {name : String}

theorem NameBound.mono {p : Program} (hgrows : Findings.Grows nodes f f') (hid : m.id ∉ nodes)
    (h : NameBound p f names m name) : NameBound p f' names m name := by
  cases h with
  | local_ hvar hnoted hty hd =>
    exact .local_ hvar ((hgrows.vars m.id hid).trans hnoted) ((hgrows.types m.id hid).trans hty)
      (hd.mono hgrows.elems)
  | field hvar hthis hclass href hnoted =>
    exact .field hvar hthis hclass href ((hgrows.vars m.id hid).trans hnoted)

/-- A bare name that is reported means nothing in the scope; every other is
noted as the scope has it. -/
theorem noted_checkVar (ctx : Context) (scope : Scope) (outer : Pos) (m : Mark) (name : String)
    (herr : ((checkPlace ctx scope outer (.var m name)).run f).2.errors = []) :
    ∃ info, scope.lookup name = some info ∧
      ((checkPlace ctx scope outer (.var m name)).run f).2.vars.get? m.id = some info.decl ∧
      ((checkPlace ctx scope outer (.var m name)).run f).2.types.get? m.id = some info.ty := by
  rw [checkPlace] at herr ⊢
  cases hlookup : scope.lookup name with
  | none =>
    rw [hlookup] at herr
    exact absurd herr (show f.errors ++ [_] ≠ [] by simp)
  | some info => exact ⟨info, rfl, Table.get?_insert_self _ _ _, Table.get?_insert_self _ _ _⟩

/-- **A bare name that was checked is bound**, where nothing is reported. -/
theorem Checked.nameBound (h : Checked ctx names f (.place (.var m name))) :
    NameBound ctx.program f names m name := by
  obtain ⟨scope, outer, f₁, nodes, -, -, hscope, hclean, hafter, hout⟩ := h
  refine NameBound.mono hafter (hout m.id (by simp [Part.nodes, Place.nodes])) ?_
  have hscope := hscope.mono (Check.Within.checkPlace ctx scope outer (.var m name) f₁).elems
  obtain ⟨info, hlookup, hnoted, hty⟩ :=
    noted_checkVar ctx scope outer m name hclean.errors
  cases hvar : names.var? name with
  | some var =>
    obtain ⟨ty, hfound, hd⟩ := hscope.var name var hvar
    obtain rfl : (⟨ty, .local_ var.id⟩ : VarInfo) = info := by
      simpa [Scope.lookup, hfound] using hlookup
    exact .local_ hvar hnoted hty hd
  | none =>
    have hfield : scope.lookupField name = some info := by
      simpa [Scope.lookup, hscope.noVar name hvar] using hlookup
    cases hthis : names.this? with
    | none => rw [(hscope.outside hthis).2 name] at hfield; cases hfield
    | some class_ =>
      obtain ⟨id, hid, -, hnone, hsome⟩ := hscope.this class_ hthis
      cases href : ctx.program.fieldRef? id name with
      | none => rw [hnone name href] at hfield; cases hfield
      | some ref =>
        obtain ⟨_, ty, -, hfound, -⟩ := hsome name ref href
        obtain rfl := Option.some.inj (hfound.symm.trans hfield)
        exact .field hvar hthis hid href hnoted

end Names

/-- The bare names in the body of a function are bound. -/
def FunctionBound (p : Program) (this? : Option String) (g : FunctionDecl) (f : Findings) : Prop :=
  NamesBound p f (scopedPartsIn ⟨this?, g.params.reverse⟩ g.body.stmts)

/-- **In a program without errors all bare names are bound.** -/
theorem bound_analyze {p : Program} {printName : String} (hnodup : p.nodes.Nodup)
    (hok : (analyze p ⟨printName⟩).ok = true) :
    (∀ g ∈ p.functions, FunctionBound p none g (analyze p ⟨printName⟩).findings) ∧
      ∀ c ∈ p.classes, ∀ m ∈ c.methods,
        FunctionBound p (some c.name) m (analyze p ⟨printName⟩).findings := by
  have hbound : NamesBound p (analyze p ⟨printName⟩).findings (programScopedParts p) :=
    fun names m name hmem => (checked_analyze hnodup hok _ hmem).nameBound
  refine ⟨fun g hg names m name hmem => hbound names m name (List.mem_append_left _ ?_),
    fun c hc g hg names m name hmem => hbound names m name (List.mem_append_right _ ?_)⟩
  · exact List.mem_flatMap.2 ⟨g, hg, hmem⟩
  · exact List.mem_flatMap.2 ⟨c, hc, List.mem_flatMap.2 ⟨g, hg, hmem⟩⟩

end ClassLang.Typing
