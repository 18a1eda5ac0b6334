import ClassLang.Proofs.Source.Nodes
import ClassLang.Source.Parse.Program
/-!
# Source — what reading leaves behind

`Reads.All` is what is proved of a reading routine: whenever it succeeds,
its value and the cursor behind it satisfy a property. Expressions and
statements that are read are `BodyRead`: their nodes have positions and
identities that were not given before, and their variables have
identities of their own.
-/


namespace ClassLang.Source

/-! ## Properties of what is read -/

/-- Whenever something is read, it satisfies the property. -/
def Reads.All {α : Type} {n : Nat} (r : Reads α n) (P : α → Cursor → Prop) : Prop :=
  ∀ s : Step α n, r = .ok s → P s.value s.cursor

namespace Reads.All

variable {α β : Type} {m n : Nat} {P : α → Cursor → Prop} {Q : β → Cursor → Prop}

theorem ok {s : Step α n} (h : P s.value s.cursor) : All (.ok s) P := by
  rintro _ ⟨⟩
  exact h

theorem pure {s : Step α n} (h : P s.value s.cursor) : All (pure s : Reads α n) P := ok h

/-- Of nothing that is read, everything holds. -/
theorem error (e : ParseError) : All (.error e : Reads α n) P := fun _ h => nomatch h

/-- **Reading in turn.** -/
theorem bind {r : Reads α n} {k : Step α n → Reads β m} (hr : All r P)
    (hk : ∀ s : Step α n, P s.value s.cursor → All (k s) Q) : All (r >>= k) Q := by
  cases r with
  | error e => exact error e
  | ok s => exact hk s (hr s rfl)

/-- A property that is weaker. -/
theorem mono {r : Reads α n} {P' : α → Cursor → Prop} (hr : All r P)
    (h : ∀ a c, P a c → P' a c) : All r P' := fun s hs => h _ _ (hr s hs)

end Reads.All

/-- What is read without an error is the program of the text. -/
theorem eq_program_of_read {source : String} {p : Program} (h : (parse source).toExcept = .ok p) :
    p = (parse source).program := by
  unfold Parsed.toExcept at h
  split at h
  · cases h
  · exact (Except.ok.inj h).symm

/-! ## Identities -/

/-- The identities are distinct and were given between two moments. -/
structure Fresh (lo hi : Nat) (ids : List Nat) : Prop where
  le : lo ≤ hi
  nodup : ids.Nodup
  range : ∀ id ∈ ids, lo ≤ id ∧ id < hi

namespace Fresh

variable {lo mid hi : Nat} {ids ids' : List Nat}

theorem nil (h : lo ≤ hi) : Fresh lo hi [] := ⟨h, List.nodup_nil, by simp⟩

/-- Identities that were given later are others. -/
theorem append (h : Fresh lo mid ids) (h' : Fresh mid hi ids') : Fresh lo hi (ids ++ ids') := by
  refine ⟨Nat.le_trans h.le h'.le, ?_, fun id hid => ?_⟩
  · refine List.nodup_append.2 ⟨h.nodup, h'.nodup, fun a ha b hb heq => ?_⟩
    have := h.range a ha
    have := h'.range b hb
    omega
  · rcases List.mem_append.1 hid with hid | hid
    · have := h.range id hid
      have := h'.le
      omega
    · have := h'.range id hid
      have := h.le
      omega

/-- The identity that is given last is not among them. -/
theorem cons (h : Fresh lo hi ids) : Fresh lo (hi + 1) (hi :: ids) := by
  refine ⟨Nat.le_succ_of_le h.le, List.nodup_cons.2 ⟨fun hmem => ?_, h.nodup⟩, fun id hid => ?_⟩
  · exact absurd (h.range hi hmem).2 (Nat.lt_irrefl hi)
  · rcases List.mem_cons.1 hid with rfl | hid
    · exact ⟨h.le, Nat.lt_succ_self _⟩
    · have := h.range id hid
      omega

theorem weaken {lo' hi' : Nat} (h : Fresh lo hi ids) (hlo : lo' ≤ lo) (hhi : hi ≤ hi') :
    Fresh lo' hi' ids :=
  ⟨by have := h.le; omega, h.nodup, fun id hid => by have := h.range id hid; omega⟩

end Fresh

/-- Every mark has a position, and their identities are distinct and were
given between two moments. -/
structure Marked (lo hi : Nat) (marks : List Mark) : Prop where
  fresh : Fresh lo hi (marks.map (·.id))
  placed : ∀ m ∈ marks, m.pos.isSome

namespace Marked

variable {lo mid hi : Nat} {marks marks' : List Mark}

theorem nil (h : lo ≤ hi) : Marked lo hi [] := ⟨.nil h, by simp⟩

/-- Marks of what is read in turn. -/
theorem append (h : Marked lo mid marks) (h' : Marked mid hi marks') :
    Marked lo hi (marks ++ marks') := by
  refine ⟨?_, fun m hm => ?_⟩
  · rw [List.map_append]
    exact h.fresh.append h'.fresh
  · rcases List.mem_append.1 hm with hm | hm
    · exact h.placed m hm
    · exact h'.placed m hm

/-- A node takes its identity behind its parts. -/
theorem node (h : Marked lo hi marks) (pos : Pos) :
    Marked lo (hi + 1) (⟨hi, some pos⟩ :: marks) := by
  refine ⟨h.fresh.cons, fun m hm => ?_⟩
  rcases List.mem_cons.1 hm with rfl | hm
  · rfl
  · exact h.placed m hm

end Marked

/-! ## Tokens and types -/

/-- Tokens are taken without an identity. -/
theorem all_expect (kind : Token.Kind) (c : Cursor) :
    (c.expect kind).All fun _ c' => c'.next = c.next := by
  unfold Cursor.expect Cursor.take?
  obtain ⟨tokens, next⟩ := c
  cases tokens with
  | nil => exact .error _
  | cons t rest =>
    dsimp only [Cursor.take]
    split
    next step heq =>
      refine .ok ?_
      split at heq
      · obtain rfl := Option.some.inj heq
        rfl
      · cases heq
    · exact .error _

theorem all_ident (c : Cursor) : c.ident.All fun _ c' => c'.next = c.next := by
  unfold Cursor.ident
  split
  · exact .ok rfl
  · exact .error _

/-- Taking a token gives no identity. -/
theorem next_of_take {c : Cursor} {s : Step Located c.left} (h : c.take = some s) :
    s.cursor.next = c.next := by
  obtain ⟨tokens, next⟩ := c
  cases tokens with
  | nil => cases h
  | cons t rest => cases h; rfl

theorem next_of_take? {kind : Token.Kind} {c : Cursor} {s : Step Pos c.left}
    (h : c.take? kind = some s) : s.cursor.next = c.next := by
  unfold Cursor.take? at h
  cases hs : c.take with
  | none => rw [hs] at h; cases h
  | some t =>
    rw [hs] at h
    dsimp only at h
    split at h
    · cases h; exact next_of_take hs
    · cases h

theorem next_of_takeSome? {α : Type} {f : Token.Kind → Option α} {c : Cursor}
    {s : Step (α × Pos) c.left} (h : c.takeSome? f = some s) : s.cursor.next = c.next := by
  unfold Cursor.takeSome? at h
  cases hs : c.take with
  | none => rw [hs] at h; cases h
  | some t =>
    rw [hs] at h
    obtain ⟨a, -, rfl⟩ := Option.map_eq_some_iff.1 h
    exact next_of_take hs

theorem next_of_takeCallee? {c : Cursor} {s : Step String c.left} (h : c.takeCallee? = some s) :
    s.cursor.next = c.next := by
  unfold Cursor.takeCallee? at h
  split at h
  · cases h; rfl
  · cases h

/-- Types have no identities. -/
theorem all_parseBaseType (c : Cursor) : (parseBaseType c).All fun _ c' => c'.next = c.next := by
  unfold parseBaseType
  cases hs : c.take with
  | none => exact .error _
  | some s =>
    obtain ⟨t, c₁, h₁⟩ := s
    have hnext : c₁.next = c.next := next_of_take hs
    dsimp only
    split
    · exact .ok hnext
    · exact .ok hnext
    · exact .ok hnext
    · exact .error _

theorem Marked.leaf {lo hi : Nat} (h : lo ≤ hi) (pos : Pos) : Marked lo (hi + 1) [⟨hi, some pos⟩] :=
  (Marked.nil h).node pos

/-! ## Expressions -/

mutual

/-- **An expression that is read** has marks that were not given before. -/
theorem marked_parseBinary (level : Nat) (c : Cursor) :
    (parseBinary level c).All fun e c' => Marked c.next c'.next e.marks := by
  rw [parseBinary]
  refine (marked_parseUnary c).bind fun ⟨lhs, c₁, h₁⟩ hlhs => ?_
  exact (marked_parseOperators level lhs c₁ hlhs).bind fun s hs => .pure hs
termination_by (c.left, 2)

/-- The operators behind an operand mark what comes behind its marks. -/
theorem marked_parseOperators (level : Nat) (lhs : Expr) (c : Cursor) {lo : Nat}
    (hlhs : Marked lo c.next lhs.marks) :
    (parseOperators level lhs c).All fun e c' => Marked lo c'.next e.marks := by
  rw [parseOperators]
  split
  next => exact .pure hlhs
  next op pos c₁ h₁ heq =>
    have hnext : c₁.next = c.next := next_of_takeSome? heq
    refine (marked_parseBinary (op.level + 1) c₁).bind fun s hrhs => ?_
    have hlt : (⟨s.cursor.tokens, s.cursor.next + 1⟩ : Cursor).left < c.left :=
      Nat.lt_trans s.lt h₁
    refine (marked_parseOperators level _ _ ?_).bind fun s hs => .pure hs
    rw [hnext] at hrhs
    exact (hlhs.append hrhs).node pos
termination_by (c.left, 2)

theorem marked_parseUnary (c : Cursor) :
    (parseUnary c).All fun e c' => Marked c.next c'.next e.marks := by
  rw [parseUnary]
  split
  next op pos c₁ h₁ heq =>
    have hnext : c₁.next = c.next := next_of_takeSome? heq
    split
    next digits hdigits =>
      have hdigits : digits.cursor.next = c₁.next := by
        split at hdigits
        · exact next_of_take? hdigits
        · cases hdigits
      refine .pure ?_
      exact .leaf (Nat.le_of_eq (hdigits.trans hnext).symm) pos
    next =>
      refine (marked_parseBinary UnaryOp.level c₁).bind fun s hs => .pure ?_
      rw [hnext] at hs
      exact hs.node pos
  next =>
    refine (marked_parseAtom c).bind fun ⟨e, c₁, h₁⟩ he => ?_
    exact (marked_parsePostfix e c₁ he).bind fun s hs => .pure hs
termination_by (c.left, 1)

/-- A variable that is read takes two identities: its place has one of its own. -/
theorem marked_parseAtom (c : Cursor) :
    (parseAtom c).All fun e c' => Marked c.next c'.next e.marks := by
  rw [parseAtom]
  split
  next => exact .error _
  next t c₁ h₁ heq =>
    have hnext : c₁.next = c.next := next_of_take heq
    -- Taking a token gives no identity away; an atom takes its own behind those of its parts.
    have hleaf := Marked.leaf (Nat.le_of_eq hnext.symm) t.pos
    split
    next digits _ =>
      split
      · exact .pure hleaf
      · exact .error _
    next => exact .pure hleaf
    next => exact .pure hleaf
    next => exact .pure hleaf
    next => exact .pure hleaf
    next name _ =>
      split
      · refine (marked_parseArgs c₁).bind fun s hs => .pure ?_
        rw [hnext] at hs
        exact hs.node t.pos
      · exact .pure (hleaf.node t.pos)
    next =>
      refine (marked_parseBinary 0 c₁).bind fun ⟨e, c₂, h₂⟩ he => ?_
      refine (all_expect _ c₂).bind fun s hs => .pure ?_
      show Marked c.next s.cursor.next e.marks
      rw [hs, ← hnext]
      exact he
    next =>
      split
      next class_ c₂ h₂ hcallee =>
        have hc₂ : c₂.next = c₁.next := next_of_takeCallee? hcallee
        refine (all_expect _ c₂).bind fun s hs => .pure ?_
        exact .leaf (Nat.le_of_eq ((hs.trans hc₂).trans hnext).symm) t.pos
      next =>
        refine (all_parseBaseType c₁).bind fun ⟨base, c₂, h₂⟩ hc₂ => ?_
        refine (all_expect _ c₂).bind fun ⟨_, c₃, h₃⟩ hc₃ => ?_
        refine (marked_parseBinary 0 c₃).bind fun ⟨size, c₄, h₄⟩ hsize => ?_
        refine (all_expect _ c₄).bind fun ⟨_, c₅, h₅⟩ hc₅ => .pure ?_
        have hc₃ : c₃.next = c.next := (hc₃.trans hc₂).trans hnext
        have hc₅ : c₅.next = c₄.next := hc₅
        show Marked c.next (c₅.next + 1) (⟨c₅.next, some t.pos⟩ :: size.marks)
        rw [hc₅, ← hc₃]
        exact hsize.node t.pos
    next => exact .error _
termination_by (c.left, 0)

/-- What follows an expression marks what comes behind its marks. -/
theorem marked_parsePostfix (lhs : Expr) (c : Cursor) {lo : Nat}
    (hlhs : Marked lo c.next lhs.marks) :
    (parsePostfix lhs c).All fun e c' => Marked lo c'.next e.marks := by
  rw [parsePostfix]
  split
  next pos₀ c₁ h₁ heq =>
    have hnext : c₁.next = c.next := next_of_take? heq
    refine (all_ident c₁).bind fun ⟨(name, pos), c₂, h₂⟩ hc₂ => ?_
    have hc₂ : c₂.next = c.next := hc₂.trans hnext
    rw [← hc₂] at hlhs
    dsimp only
    split
    next =>
      refine (marked_parseArgs c₂).bind fun s hargs => ?_
      have hlt : (⟨s.cursor.tokens, s.cursor.next + 1⟩ : Cursor).left < c.left :=
        Nat.lt_trans s.lt (Nat.lt_trans h₂ h₁)
      exact (marked_parsePostfix _ _ ((hlhs.append hargs).node pos)).bind fun s hs => .pure hs
    next =>
      split
      next =>
        have hlt : (⟨c₂.tokens, c₂.next + 1⟩ : Cursor).left < c.left := Nat.lt_trans h₂ h₁
        exact (marked_parsePostfix _ _ (hlhs.node pos)).bind fun s hs => .pure hs
      next =>
        have hlt : (⟨c₂.tokens, c₂.next + 1 + 1⟩ : Cursor).left < c.left := Nat.lt_trans h₂ h₁
        exact (marked_parsePostfix _ _ ((hlhs.node pos).node pos)).bind fun s hs => .pure hs
  next =>
    split
    next pos c₁ h₁ heq =>
      have hnext : c₁.next = c.next := next_of_take? heq
      refine (marked_parseBinary 0 c₁).bind fun ⟨index, c₂, h₂⟩ hindex => ?_
      rw [hnext] at hindex
      refine (all_expect _ c₂).bind fun s hs => ?_
      have hlt : (⟨s.cursor.tokens, s.cursor.next + 1 + 1⟩ : Cursor).left < c.left :=
        Nat.lt_trans s.lt (Nat.lt_trans h₂ h₁)
      have hboth := hlhs.append hindex
      rw [← hs] at hboth
      exact (marked_parsePostfix _ _ ((hboth.node pos).node pos)).bind fun s hs => .pure hs
    next => exact .pure hlhs
termination_by (c.left, 2)

/-- Arguments have their marks one after the other. -/
theorem marked_parseArgs (c : Cursor) :
    (parseArgs c).All fun args c' => Marked c.next c'.next (argMarks args) := by
  rw [parseArgs]
  refine (all_expect _ c).bind fun ⟨_, c₁, h₁⟩ hc₁ => ?_
  have hc₁ : c₁.next = c.next := hc₁
  dsimp only
  split
  next closed hclosed =>
    refine .pure (.nil ?_)
    have := next_of_take? hclosed
    exact Nat.le_of_eq (hc₁.symm.trans this.symm)
  next =>
    refine (marked_parseArgList c₁).bind fun s hs => .pure ?_
    rwa [hc₁] at hs
termination_by (c.left, 3)

theorem marked_parseArgList (c : Cursor) :
    (parseArgList c).All fun args c' => Marked c.next c'.next (argMarks args) := by
  rw [parseArgList]
  refine (marked_parseBinary 0 c).bind fun ⟨e, c₁, h₁⟩ he => ?_
  dsimp only
  split
  next pos c₂ h₂ heq =>
    have hc₂ : c₂.next = c₁.next := next_of_take? heq
    refine (marked_parseArgList c₂).bind fun s hs => .pure ?_
    rw [hc₂] at hs
    exact he.append hs
  next =>
    refine (all_expect _ c₁).bind fun s hs => .pure ?_
    show Marked c.next s.cursor.next (argMarks [e])
    rw [hs, argMarks, argMarks, List.append_nil]
    exact he
termination_by (c.left, 3)

end

/-! ## Statements -/

/-- What reading a statement or a body leaves behind: marks, and variables
with identities of their own. -/
structure BodyRead (lo hi : Nat) (marks : List Mark) (vars : List VarDecl) : Prop where
  marked : Marked lo hi marks
  vars : Fresh lo hi (vars.map (·.id))

namespace BodyRead

variable {lo mid hi : Nat} {marks marks' : List Mark} {vars vars' : List VarDecl}

theorem of_marked (h : Marked lo hi marks) : BodyRead lo hi marks [] := ⟨h, .nil h.fresh.le⟩

theorem append (h : BodyRead lo mid marks vars) (h' : BodyRead mid hi marks' vars') :
    BodyRead lo hi (marks ++ marks') (vars ++ vars') := by
  refine ⟨h.marked.append h'.marked, ?_⟩
  rw [List.map_append]
  exact h.vars.append h'.vars

theorem behind (h : Marked lo mid marks) (h' : BodyRead mid hi marks' vars') :
    BodyRead lo hi (marks ++ marks') vars' := (of_marked h).append h'

end BodyRead

theorem all_parseType (c : Cursor) : (parseType c).All fun _ c' => c'.next = c.next := by
  unfold parseType
  exact (all_parseBaseType c).bind fun ⟨_, c₁, _⟩ h => .pure h

/-- A variable has the identity that was free. -/
theorem all_parseVarDecl (c : Cursor) :
    (parseVarDecl c).All fun var c' => var.id = c.next ∧ c'.next = c.next + 1 := by
  unfold parseVarDecl
  refine (all_parseType c).bind fun ⟨ty, c₁, h₁⟩ hc₁ => ?_
  have hc₁ : c₁.next = c.next := hc₁
  refine (all_ident ⟨c₁.tokens, c₁.next + 1⟩).bind fun s hs => .pure ⟨hc₁, ?_⟩
  exact hs.trans (congrArg (· + 1) hc₁)

theorem Fresh.singleton {lo : Nat} : Fresh lo (lo + 1) [lo] := (Fresh.nil (Nat.le_refl lo)).cons

theorem marked_parseClosed (close : Token.Kind) (c : Cursor) :
    (parseClosed close c).All fun e c' => Marked c.next c'.next e.marks := by
  unfold parseClosed parseExpr
  refine (marked_parseBinary 0 c).bind fun ⟨e, c₁, h₁⟩ he => ?_
  refine (all_expect close c₁).bind fun s hs => .pure ?_
  show Marked c.next s.cursor.next e.marks
  rw [hs]
  exact he

theorem marked_parseCondition (c : Cursor) :
    (parseCondition c).All fun e c' => Marked c.next c'.next e.marks := by
  unfold parseCondition
  refine (all_expect _ c).bind fun ⟨_, c₁, h₁⟩ hc₁ => ?_
  refine (marked_parseClosed _ c₁).bind fun s hs => .pure ?_
  rwa [show c₁.next = c.next from hc₁] at hs

/-- **A simple statement**: a declaration, an assignment or an expression. -/
theorem read_parseSimple (c : Cursor) :
    (parseSimple c).All fun s c' => BodyRead c.next c'.next s.marks s.varDecls := by
  unfold parseSimple
  dsimp only
  split
  next =>
    refine (all_parseVarDecl c).bind fun ⟨var, c₁, h₁⟩ hvar => ?_
    refine (all_expect _ c₁).bind fun s hs => .pure ?_
    have hnext : s.cursor.next = c.next + 1 := hs.trans hvar.2
    refine ⟨.nil (Nat.le_of_lt (hnext ▸ Nat.lt_succ_self _)), ?_⟩
    show Fresh c.next s.cursor.next [var.id]
    rw [hnext, show var.id = c.next from hvar.1]
    exact .singleton
  next =>
    refine (marked_parseBinary 0 c).bind fun ⟨lhs, c₁, h₁⟩ hlhs => ?_
    dsimp only
    split
    next pos c₂ h₂ heq =>
      have hc₂ : c₂.next = c₁.next := next_of_take? heq
      split
      next m target =>
        refine (marked_parseClosed _ c₂).bind fun s hs => .pure (.of_marked ?_)
        have htarget : Marked c.next c₁.next target.marks :=
          ⟨⟨hlhs.fresh.le, (List.nodup_cons.1 hlhs.fresh.nodup).2,
            fun id hid => hlhs.fresh.range id (List.mem_cons_of_mem _ hid)⟩,
            fun m hm => hlhs.placed m (List.mem_cons_of_mem _ hm)⟩
        rw [hc₂] at hs
        exact htarget.append hs
      next => exact .error _
    next =>
      refine (all_expect _ c₁).bind fun s hs => .pure (.of_marked ?_)
      show Marked c.next s.cursor.next lhs.marks
      rw [hs]
      exact hlhs

mutual

/-- **A statement that is read** has marks and variables that were not given before. -/
theorem read_parseStmt (c : Cursor) :
    (parseStmt c).All fun s c' => BodyRead c.next c'.next s.marks s.varDecls := by
  rw [parseStmt]
  split
  next => exact read_parseSimple c
  next t c₁ h₁ heq =>
    have hnext : c₁.next = c.next := next_of_take heq
    split
    next => exact (read_parseBlock c).bind fun ⟨⟨stmts, pos⟩, c', h'⟩ hs => .pure hs
    next =>
      refine (marked_parseCondition c₁).bind fun ⟨cond, c₂, h₂⟩ hcond => ?_
      rw [hnext] at hcond
      refine (read_parseStmt c₂).bind fun ⟨yes, c₃, h₃⟩ hyes => ?_
      dsimp only
      split
      next pos c₄ h₄ heq =>
        have hc₄ : c₄.next = c₃.next := next_of_take? heq
        refine (read_parseStmt c₄).bind fun s hno => .pure ?_
        rw [hc₄] at hno
        exact .behind hcond (hyes.append hno)
      next => exact .pure (.behind hcond hyes)
    next =>
      refine (marked_parseCondition c₁).bind fun ⟨cond, c₂, h₂⟩ hcond => ?_
      rw [hnext] at hcond
      exact (read_parseStmt c₂).bind fun s hs => .pure (.behind hcond hs)
    next =>
      refine (marked_parseClosed _ c₁).bind fun s hs => .pure (.of_marked ?_)
      rwa [hnext] at hs
    next => exact read_parseSimple c
termination_by (c.left, 1)

theorem read_parseBlock (c : Cursor) :
    (parseBlock c).All fun b c' => BodyRead c.next c'.next (stmtMarks b.stmts) b.varDecls := by
  rw [parseBlock]
  refine (all_expect _ c).bind fun ⟨_, c₁, h₁⟩ hc₁ => ?_
  refine (read_parseStmts c₁).bind fun s hs => .pure ?_
  rwa [show c₁.next = c.next from hc₁] at hs
termination_by (c.left, 0)

theorem read_parseStmts (c : Cursor) :
    (parseStmts c).All fun stmts c' =>
      BodyRead c.next c'.next (stmtMarks stmts) (listVarDecls stmts) := by
  rw [parseStmts]
  split
  next closed hclosed =>
    exact .pure (.of_marked (.nil (Nat.le_of_eq (next_of_take? hclosed).symm)))
  next =>
    split
    · exact .error _
    · refine (read_parseStmt c).bind fun ⟨s, c₁, h₁⟩ hs => ?_
      exact (read_parseStmts c₁).bind fun rest hrest => .pure (hs.append hrest)
termination_by (c.left, 2)

end

end ClassLang.Source
