import ClassLang.Proofs.Source.Bare
import ClassLang.Proofs.Source.Printed
/-!
# Source — no parentheses are printed in vain

Printed trees are short: no phrase of an expression has fewer tokens than what
is printed for the expression where the phrase stands (`BinaryPhrase.length_le`), and so for
statements and programs (`StmtPhrase.length_le`, `length_ofItems_le`). Only names, operators and
literals count for what is printed, not identities and positions
(`Program.kinds_of_bare`).
-/


namespace ClassLang.Source

open Token (Kind)

/-! ## Expressions -/

/-- A phrase that binds as tightly as wanted gets no parentheses. -/
theorem enclosed_of_le {wanted level : Nat} (h : wanted ≤ level) (w : List Kind) :
    enclosed wanted level w = w :=
  if_neg (Nat.not_lt.2 h)

/-- A place that asks for more takes no fewer tokens. -/
theorem length_enclosed_mono {wanted wanted' : Nat} (h : wanted ≤ wanted') (level : Nat)
    (w : List Kind) : (enclosed wanted level w).length ≤ (enclosed wanted' level w).length := by
  unfold enclosed
  by_cases hlevel : level < wanted
  · have hlevel' : level < wanted' := Nat.lt_of_lt_of_le hlevel h
    exact Nat.le_of_eq (by rw [if_pos hlevel, if_pos hlevel'])
  · rw [if_neg hlevel]
    split
    · simp
      omega
    · exact Nat.le_refl _

/-- No place takes more than a pair of parentheses. -/
theorem length_enclosed_le (wanted level : Nat) (w : List Kind) :
    (enclosed wanted level w).length ≤ w.length + 2 := by
  unfold enclosed
  split
  · simp
  · omega

theorem Expr.length_le_of_level {wanted n : Nat} {e : Expr} (hlevel : wanted ≤ e.level)
    (h : e.kinds.length ≤ n) : (enclosed wanted e.level e.kinds).length ≤ n := by
  rw [enclosed_of_le hlevel]
  exact h

theorem length_argKinds_cons_le (e : Expr) (args : List Expr) :
    (argKinds (e :: args)).length ≤ e.kinds.length + (argKinds args).length + 1 := by
  cases args with
  | nil => simp [argKinds]
  | cons next rest =>
    simp [argKinds]
    omega

/-- A literal is one token where a suffix may follow: it is never negative. -/
theorem length_int_le {m : Mark} {value : Int32} (h : 0 ≤ value) :
    (enclosed suffixedLevel (Expr.int m value).level (Expr.int m value).kinds).length ≤ 1 := by
  rw [Expr.level, Expr.kinds, intKinds]
  rw [if_pos h, if_pos h, enclosed_of_le (Nat.le_refl _)]
  exact Nat.le_refl 1

theorem BinaryOp.level_lt (op : BinaryOp) : op.level < UnaryOp.level := by
  cases op <;> decide

mutual

/-- **No phrase of an expression is shorter** than what is printed for it in the
place of the phrase. -/
theorem BinaryPhrase.length_le {level : Nat} {w : List Kind} {e : Expr} :
    BinaryPhrase level w e → level ≤ UnaryOp.level →
    (enclosed level e.level e.kinds).length ≤ w.length
  | .unary h, hlevel => Nat.le_trans (length_enclosed_mono hlevel _ _) h.length_le
  | .binary op hle hl hr, _ => by
    have hl := hl.length_le (Nat.le_of_lt op.level_lt)
    have hr := hr.length_le op.level_lt
    refine Expr.length_le_of_level hle ?_
    simp only [Expr.kinds, List.length_append, List.length_cons]
    omega

/-- No unary phrase is shorter than the print of its expression as an operand. -/
theorem UnaryPhrase.length_le {w : List Kind} {e : Expr} :
    UnaryPhrase w e → (enclosed UnaryOp.level e.level e.kinds).length ≤ w.length
  | .suffixed h => Nat.le_trans (length_enclosed_mono (Nat.le_succ _) _ _) h.length_le
  | .unary op h => by
    have h := h.length_le
    refine Expr.length_le_of_level (Nat.le_refl _) ?_
    simp only [Expr.kinds, List.length_cons]
    omega
  | .least => Nat.le_refl 2

theorem PostfixPhrase.length_le {w : List Kind} {e : Expr} :
    PostfixPhrase w e → (enclosed suffixedLevel e.level e.kinds).length ≤ w.length
  | .atom h => h.length_le
  | .call he hargs => by
    have he := he.length_le
    have hargs := hargs.length_le
    refine Expr.length_le_of_level (Nat.le_refl _) ?_
    simp only [Expr.kinds, List.length_append, List.length_cons, List.length_nil]
    omega
  | .length he => by
    have he := he.length_le
    refine Expr.length_le_of_level (Nat.le_refl _) ?_
    simp only [Expr.kinds, List.length_append, List.length_cons, List.length_nil]
    omega
  | .field he _ => by
    have he := he.length_le
    refine Expr.length_le_of_level (Nat.le_refl _) ?_
    simp only [Expr.kinds, Place.kinds, List.length_append, List.length_cons, List.length_nil]
    omega
  | .index he hi => by
    have he := he.length_le
    have hi := hi.length_le (Nat.zero_le _)
    rw [enclosed_of_le (Nat.zero_le _)] at hi
    refine Expr.length_le_of_level (Nat.le_refl _) ?_
    simp only [Expr.kinds, Place.kinds, List.length_append, List.length_cons, List.length_nil]
    omega

/-- No atom is shorter than the print of its expression before an access. -/
theorem AtomPhrase.length_le {w : List Kind} {e : Expr} :
    AtomPhrase w e → (enclosed suffixedLevel e.level e.kinds).length ≤ w.length
  | .int hvalue => length_int_le (literal?_nonneg hvalue)
  | .true_ | .false_ | .null | .this | .var => Nat.le_refl 1
  | .call hargs => by
    have hargs := hargs.length_le
    refine Expr.length_le_of_level (Nat.le_refl _) ?_
    simp only [Expr.kinds, List.length_append, List.length_cons, List.length_nil]
    omega
  | .parens h => by
    have h := h.length_le (Nat.zero_le _)
    rw [enclosed_of_le (Nat.zero_le _)] at h
    refine Nat.le_trans (length_enclosed_le _ _ _) ?_
    simp only [List.length_append, List.length_cons, List.length_nil]
    omega
  | .newObject => Nat.le_refl 4
  | .newArray elem hsize => by
    have hsize := hsize.length_le (Nat.zero_le _)
    rw [enclosed_of_le (Nat.zero_le _)] at hsize
    refine Expr.length_le_of_level (Nat.le_refl _) ?_
    simp only [Expr.kinds, List.length_append, List.length_cons]
    omega

theorem ArgsPhrase.length_le {w : List Kind} {args : List Expr} :
    ArgsPhrase w args → (argKinds args).length + 2 ≤ w.length
  | .nil => Nat.le_refl 2
  | .list h => Nat.succ_le_succ h.length_le

theorem ArgListPhrase.length_le {w : List Kind} {args : List Expr} :
    ArgListPhrase w args → (argKinds args).length + 1 ≤ w.length
  | .one h => by
    have h := h.length_le (Nat.zero_le _)
    rw [enclosed_of_le (Nat.zero_le _)] at h
    simpa [argKinds] using h
  | .cons h hrest => by
    have h := h.length_le (Nat.zero_le _)
    have hrest := hrest.length_le
    rw [enclosed_of_le (Nat.zero_le _)] at h
    refine Nat.le_trans (Nat.succ_le_succ (length_argKinds_cons_le _ _)) ?_
    simp only [List.length_append, List.length_cons]
    omega

end

/-! ## Statements -/

/-- In a place that takes every expression no parentheses are printed. -/
theorem BinaryPhrase.length_kinds_le {w : List Kind} {e : Expr} (h : BinaryPhrase 0 w e) :
    e.kinds.length ≤ w.length := by
  have h := h.length_le (Nat.zero_le _)
  rwa [enclosed_of_le (Nat.zero_le _)] at h

theorem Stmt.kinds_block {pos : Option Pos} {b : Block} : (Stmt.block pos b).kinds = b.kinds := by
  cases b
  rfl

mutual

/-- **No phrase of a statement is shorter** than what is printed for it. -/
theorem StmtPhrase.length_le {w : List Kind} {s : Stmt} :
    StmtPhrase w s → s.kinds.length ≤ w.length
  | .block h => by
    rw [Stmt.kinds_block]
    exact h.length_le
  | .decl var => Nat.le_refl _
  | .assign htarget hvalue => by
    have htarget := htarget.length_kinds_le
    have hvalue := hvalue.length_kinds_le
    simp only [Expr.kinds] at htarget
    simp only [Stmt.kinds, List.length_append, List.length_cons, List.length_nil]
    omega
  | .expr h => by
    have h := h.length_kinds_le
    simp only [Stmt.kinds, List.length_append]
    omega
  | .ifThen hcond hbody => by
    have hcond := hcond.length_kinds_le
    have hbody := hbody.length_le
    simp only [Stmt.kinds, List.length_append, List.length_cons]
    omega
  | .ifElse hcond hyes _ hno => by
    have hcond := hcond.length_kinds_le
    have hyes := hyes.length_le
    have hno := hno.length_le
    simp only [Stmt.kinds, List.length_append, List.length_cons]
    omega
  | .loop hcond hbody => by
    have hcond := hcond.length_kinds_le
    have hbody := hbody.length_le
    simp only [Stmt.kinds, List.length_append, List.length_cons]
    omega
  | .ret h => by
    have h := h.length_kinds_le
    simp only [Stmt.kinds, List.length_append, List.length_cons]
    omega

theorem BlockPhrase.length_le {w : List Kind} {b : Block} :
    BlockPhrase w b → b.kinds.length ≤ w.length
  | .mk h => by
    have h := h.length_le
    simp only [Block.kinds, Block.stmts, List.length_append, List.length_cons]
    omega

theorem StmtsPhrase.length_le {w : List Kind} {stmts : List Stmt} :
    StmtsPhrase w stmts → (stmtKinds stmts).length ≤ w.length
  | .nil => Nat.le_refl 0
  | .cons h hrest => by
    have h := h.length_le
    have hrest := hrest.length_le
    simp only [stmtKinds, List.length_append]
    omega

end

/-! ## Declarations -/

theorem FunctionPhrase.length_le {w : List Kind} {f : FunctionDecl} :
    FunctionPhrase w f → f.kinds.length ≤ w.length := by
  rintro ⟨hbody⟩
  have hbody := hbody.length_le
  simp only [FunctionDecl.kinds, List.length_append, List.length_cons]
  omega

/-- The tokens of a member. -/
def Member.kinds : Member → List Kind
  | field var => var.kinds ++ [.symbol .semicolon]
  | method f => f.kinds

/-- The tokens of an item. -/
def Item.kinds : Item → List Kind
  | function f => f.kinds
  | class_ c => c.kinds

/-- Where no phrase is shorter than its print, no row of phrases is. -/
theorem Phrases.length_le {α : Type} {R : List Kind → α → Prop} {print : α → List Kind}
    (hR : ∀ {u a}, R u a → (print a).length ≤ u.length) {w : List Kind} {as : List α}
    (h : Phrases R w as) : (as.flatMap print).length ≤ w.length := by
  induction h with
  | nil => exact Nat.le_refl 0
  | cons ha _ ih =>
    have ha := hR ha
    simp only [List.flatMap_cons, List.length_append]
    omega

theorem MemberPhrase.length_le {w : List Kind} {m : Member} :
    MemberPhrase w m → m.kinds.length ≤ w.length
  | .field _ => Nat.le_refl _
  | .method h => h.length_le

/-- The order of members does not count. -/
theorem length_memberKinds (members : List Member) :
    ((members.filterMap Member.field?).flatMap fun var => var.kinds ++ [.symbol .semicolon]).length +
      ((members.filterMap Member.method?).flatMap FunctionDecl.kinds).length =
      (members.flatMap Member.kinds).length := by
  induction members with
  | nil => rfl
  | cons m rest ih =>
    cases m <;>
      simp only [List.filterMap_cons, Member.field?, Member.method?, Member.kinds,
        List.flatMap_cons, List.length_append] at ih ⊢ <;>
      omega

theorem ClassPhrase.length_le {w : List Kind} {c : ClassDecl} :
    ClassPhrase w c → c.kinds.length ≤ w.length := by
  rintro ⟨hmembers, hfields, hmethods⟩
  have hlength := hmembers.length_le fun h => MemberPhrase.length_le h
  rw [← length_memberKinds, ← hfields, ← hmethods] at hlength
  simp only [ClassDecl.kinds, List.length_append, List.length_cons]
  omega

/-- No phrase of an item is shorter than its print. -/
theorem ItemPhrase.length_le {w : List Kind} {item : Item} :
    ItemPhrase w item → item.kinds.length ≤ w.length
  | .function h => h.length_le
  | .class_ h => h.length_le

/-- The order of functions and classes does not count. -/
theorem length_ofItems (items : List Item) (pos : Option Pos) :
    (Program.ofItems items pos).kinds.length = (items.flatMap Item.kinds).length := by
  induction items with
  | nil => rfl
  | cons item rest ih =>
    cases item <;>
      simp only [Program.ofItems, Program.kinds, List.filterMap_cons, Item.function?, Item.class?,
        Item.kinds, List.flatMap_cons, List.length_append] at ih ⊢ <;>
      omega

/-- **No text of a program is shorter** than what is printed for it. -/
theorem length_ofItems_le {w : List Kind} {items : List Item} (h : Phrases ItemPhrase w items)
    (pos : Option Pos) : (Program.ofItems items pos).kinds.length ≤ w.length := by
  rw [length_ofItems]
  exact h.length_le fun h => ItemPhrase.length_le h

/-! ## Bare trees -/

/-- How tightly an expression binds does not depend on its marks. -/
theorem Expr.level_bare (e : Expr) : e.bare.level = e.level := by
  cases e <;> rfl

mutual

/-- The print of an expression does not show its marks. -/
theorem Expr.kinds_bare : (e : Expr) → e.bare.kinds = e.kinds
  | .int _ _ | .bool _ _ | .null _ | .this _ | .newObject _ _ => rfl
  | .read _ place => place.kinds_bare
  | .arrayLength _ array => by simp only [Expr.bare, Expr.kinds, array.level_bare, array.kinds_bare]
  | .unary _ _ operand => by
    simp only [Expr.bare, Expr.kinds, operand.level_bare, operand.kinds_bare]
  | .binary _ _ lhs rhs => by
    simp only [Expr.bare, Expr.kinds, lhs.level_bare, lhs.kinds_bare, rhs.level_bare,
      rhs.kinds_bare]
  | .call _ _ args => by simp only [Expr.bare, Expr.kinds, argKinds_bare args]
  | .methodCall _ receiver _ args => by
    simp only [Expr.bare, Expr.kinds, receiver.level_bare, receiver.kinds_bare, argKinds_bare args]
  | .newArray _ _ size => by simp only [Expr.bare, Expr.kinds, size.kinds_bare]

theorem Place.kinds_bare : (place : Place) → place.bare.kinds = place.kinds
  | .var _ _ => rfl
  | .field _ receiver _ => by
    simp only [Place.bare, Place.kinds, receiver.level_bare, receiver.kinds_bare]
  | .index _ array index => by
    simp only [Place.bare, Place.kinds, array.level_bare, array.kinds_bare, index.kinds_bare]

theorem argKinds_bare : (args : List Expr) → argKinds (bareArgs args) = argKinds args
  | [] => rfl
  | [e] => e.kinds_bare
  | e :: next :: rest => by
    have hrest := argKinds_bare (next :: rest)
    simp only [bareArgs] at hrest
    simp only [bareArgs, argKinds, e.kinds_bare, hrest]

end

mutual

theorem Stmt.kinds_bare : (s : Stmt) → s.bare.kinds = s.kinds
  | .block _ (.mk stmts _) => by simp only [Stmt.bare, Stmt.kinds, stmtKinds_bare stmts]
  | .decl _ _ => rfl
  | .assign _ target value => by
    simp only [Stmt.bare, Stmt.kinds, target.kinds_bare, value.kinds_bare]
  | .expr _ value => by simp only [Stmt.bare, Stmt.kinds, value.kinds_bare]
  | .ifThen _ cond body => by simp only [Stmt.bare, Stmt.kinds, cond.kinds_bare, body.kinds_bare]
  | .ifElse _ cond yes no => by
    simp only [Stmt.bare, Stmt.kinds, cond.kinds_bare, yes.kinds_bare, no.kinds_bare]
  | .loop _ cond body => by simp only [Stmt.bare, Stmt.kinds, cond.kinds_bare, body.kinds_bare]
  | .ret _ value => by simp only [Stmt.bare, Stmt.kinds, value.kinds_bare]

theorem stmtKinds_bare : (stmts : List Stmt) → stmtKinds (bareStmts stmts) = stmtKinds stmts
  | [] => rfl
  | s :: rest => by simp only [bareStmts, stmtKinds, s.kinds_bare, stmtKinds_bare rest]

end

theorem paramKinds_bare (params : List VarDecl) :
    paramKinds (params.map VarDecl.bare) = paramKinds params := by
  induction params with
  | nil => rfl
  | cons param rest ih =>
    cases rest with
    | nil => rfl
    | cons next rest => exact congrArg (param.kinds ++ .symbol .comma :: ·) ih

theorem FunctionDecl.kinds_bare (f : FunctionDecl) : f.bare.kinds = f.kinds := by
  simp only [kinds, bare, paramKinds_bare, Block.kinds, Block.bare, Block.stmts, stmtKinds_bare]

theorem ClassDecl.kinds_bare (c : ClassDecl) : c.bare.kinds = c.kinds := by
  have hfields (fields : List VarDecl) :
      ((fields.map VarDecl.bare).flatMap fun var => var.kinds ++ [.symbol .semicolon]) =
        fields.flatMap fun var => var.kinds ++ [.symbol .semicolon] := by
    rw [List.flatMap_map]
    rfl
  simp only [kinds, bare, hfields, List.flatMap_map, FunctionDecl.kinds_bare]

/-- The print of a program does not show its marks. -/
theorem Program.kinds_bare (p : Program) : p.bare.kinds = p.kinds := by
  simp only [kinds, bare, List.flatMap_map, FunctionDecl.kinds_bare, ClassDecl.kinds_bare]

/-- **Identities and positions are not printed.** -/
theorem Program.kinds_of_bare {p q : Program} (h : p.bare = q.bare) : p.kinds = q.kinds := by
  rw [← p.kinds_bare, h, q.kinds_bare]

end ClassLang.Source
