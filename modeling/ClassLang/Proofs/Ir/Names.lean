import ClassLang.Proofs.Ir.Bodies
/-!
# Intermediate form — names

Within a procedure, parameters and temporaries are told apart by how they
are written (`nodup_localNames`), as long as no name of a parameter looks
like a numbered one. What is found by the name of a procedure has that name,
and stands no earlier (`exists_findProc?`).
-/


namespace ClassLang.Ir

/-! ## Parameters and temporaries -/

/-- How the parameters and the temporaries of a procedure are written. -/
def localNames (p : Program) (q : Proc) : List String :=
  (List.range q.params.length).map (fun i => (Operand.param i).text p q) ++
    (List.range q.temps.length).map fun i => (Operand.temp i).text p q

/-- The name has no dot and does not start with a digit. -/
def Undotted (name : String) : Prop :=
  '.' ∉ name.toList ∧ ∃ c, name.toList.head? = some c ∧ c.isDigit = false

theorem tempText_eq {q : Proc} {i : TempId} (hi : i < q.temps.length) :
    tempText q i = "%" ++ toString i ∨ ∃ name, tempText q i = name ++ "." ++ toString i := by
  unfold tempText
  rw [List.getElem?_eq_getElem hi]
  dsimp only
  split
  · exact .inl rfl
  · exact .inr ⟨"%" ++ q.temps[i].name, rfl⟩

theorem dot_not_mem_number (n : Nat) : '.' ∉ ("%" ++ toString n).toList := by
  rw [String.toList_append, List.mem_append, not_or]
  refine ⟨by decide, fun hdot => ?_⟩
  have hdigit := isDigit_of_mem_toString hdot
  exact absurd hdigit (by decide)

theorem dot_mem_numbered (name : String) (n : Nat) : '.' ∈ (name ++ "." ++ toString n).toList := by
  simp

/-- **Temporaries are told apart by their numbers.** -/
theorem tempText_inj {q : Proc} {i j : TempId} (hi : i < q.temps.length) (hj : j < q.temps.length)
    (h : tempText q i = tempText q j) : i = j := by
  rcases tempText_eq hi with hi | ⟨name, hi⟩ <;> rcases tempText_eq hj with hj | ⟨name', hj⟩ <;>
    rw [hi, hj] at h
  · exact eq_of_toString (by simpa using h)
  · exact absurd (h ▸ dot_mem_numbered name' j) (dot_not_mem_number i)
  · exact absurd (h ▸ dot_mem_numbered name i) (dot_not_mem_number j)
  · exact eq_of_numbered h

theorem Undotted.ne_tempText {name : String} (h : Undotted name) {q : Proc} {i : TempId}
    (hi : i < q.temps.length) : "%" ++ name ≠ tempText q i := by
  obtain ⟨hdot, c, hc, hdigit⟩ := h
  intro heq
  rcases tempText_eq hi with hi | ⟨name', hi⟩ <;> rw [hi] at heq
  · have hname : name = toString i := by simpa using heq
    have hmem : c ∈ (toString i).toList := by
      rw [← hname]
      exact List.mem_of_mem_head? hc
    rw [isDigit_of_mem_toString hmem] at hdigit
    cases hdigit
  · have hmem := dot_mem_numbered name' i
    rw [← heq, String.toList_append, List.mem_append] at hmem
    exact hmem.elim (absurd · (by decide)) hdot

/-- **Parameters and temporaries of a procedure are told apart** by how they are
written. -/
theorem nodup_localNames (p : Program) {q : Proc} (hnodup : (q.params.map (·.name)).Nodup)
    (hnames : ∀ param ∈ q.params, Undotted param.name) : (localNames p q).Nodup := by
  have hparams : (List.range q.params.length).map (fun i => (Operand.param i).text p q) =
      q.params.map ("%" ++ ·.name) := by
    refine List.ext_getElem (by simp) fun i hi hi' => ?_
    rw [List.length_map] at hi'
    simp [Operand.text, List.getElem?_eq_getElem hi']
  unfold localNames
  rw [hparams]
  refine List.nodup_append'.2 ⟨?_, ?_, ?_⟩
  · refine List.Nodup.of_map (fun text => text.toList.drop 1) ?_
    rw [List.map_map]
    have heq : ((fun text : String => text.toList.drop 1) ∘ fun param : Field => "%" ++ param.name) =
        String.toList ∘ Field.name := by
      funext param
      simp
    rw [heq, ← List.map_map]
    exact hnodup.map fun _ _ => String.toList_inj.1
  · refine List.Nodup.map_on (fun i hi j hj h => ?_) List.nodup_range
    exact tempText_inj (List.mem_range.1 hi) (List.mem_range.1 hj) h
  · intro text htext htext'
    obtain ⟨param, hparam, rfl⟩ := List.mem_map.1 htext
    obtain ⟨i, hi, htemp⟩ := List.mem_map.1 htext'
    exact (hnames param hparam).ne_tempText (List.mem_range.1 hi) htemp.symm

/-! ## Looking for a procedure -/

/-- **By the name of a procedure one of that name is found**: itself or a later one. -/
theorem exists_findProc? {p : Program} {id : ProcId} {q : Proc} (hq : p.procs[id]? = some q) :
    ∃ other q', p.findProc? q.name = some other ∧ p.procs[other]? = some q' ∧ q'.name = q.name ∧
      (other = id ∨ id < other) := by
  unfold Program.findProc?
  have hmem : (q, id) ∈ p.procs.zipIdx.reverse :=
    List.mem_reverse.2 (List.mk_mem_zipIdx_iff_getElem?.2 hq)
  cases hfind : p.procs.zipIdx.reverse.find? (·.1.name == q.name) with
  | none => exact absurd (List.find?_eq_none.1 hfind _ hmem) (by simp)
  | some found =>
    obtain ⟨q', j⟩ := found
    have hname : q'.name = q.name := by simpa using List.find?_some hfind
    obtain ⟨as, bs, hsplit, hnone⟩ := (List.find?_eq_some_iff_append.1 hfind).2
    have hj : p.procs[j]? = some q' :=
      List.mk_mem_zipIdx_iff_getElem?.1 (List.mem_reverse.1 (List.mem_of_find?_eq_some hfind))
    refine ⟨j, q', rfl, hj, hname, ?_⟩
    -- What stands before the found one in the reversed list has a greater number.
    have hsorted : (p.procs.zipIdx.reverse.map (·.2)).Pairwise (· > ·) := by
      rw [List.map_reverse, List.pairwise_reverse]
      simpa using List.pairwise_lt_range'
    rw [hsplit] at hmem hsorted
    rcases List.mem_append.1 hmem with hbefore | hbehind
    · exact absurd (hnone _ hbefore) (by simp)
    · rcases List.mem_cons.1 hbehind with heq | hbehind
      · exact .inl (Prod.mk.inj heq).2.symm
      · rw [List.map_append, List.map_cons] at hsorted
        exact .inr ((List.pairwise_cons.1 (List.pairwise_append.1 hsorted).2.1).1 id
          (List.mem_map.2 ⟨_, hbehind, rfl⟩))

end ClassLang.Ir
