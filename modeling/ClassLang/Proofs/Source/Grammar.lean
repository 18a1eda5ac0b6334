import ClassLang.Source.Parse.Expr
/-!
# Source — the grammar

The syntax of programs as rules over tokens. A rule is an expression with
alternatives, options and repetitions, and `Matches` says which tokens it
stands for; what it says of a nonterminal can be read off its rule
(`derives_iff`). To prove something of all that the grammar derives it is
enough that every rule keeps it (`Derives.closed`).
-/


namespace ClassLang.Source

open Token (Kind)

/-! ## Expressions over tokens -/

/-- What stands for one token. -/
inductive Terminal
  | keyword (k : Keyword)
  | symbol (s : Symbol)
  | ident
  /-- The name of a field behind a dot: `length` is none there. -/
  | field
  | length
  | integer
  /-- The literal that only a minus in front brings into range. -/
  | leastMagnitude

/-- The token is one that the terminal stands for. -/
inductive Terminal.Is : Terminal → Kind → Prop
  | keyword (k : Keyword) : Is (.keyword k) (.keyword k)
  | symbol (s : Symbol) : Is (.symbol s) (.symbol s)
  | ident (name : String) : Is .ident (.ident name)
  | field {name : String} : name ≠ "length" → Is .field (.ident name)
  | length : Is .length (.ident "length")
  | integer {digits : String} : digitsValue digits ≤ 2147483647 → Is .integer (.integer digits)
  | leastMagnitude : Is .leastMagnitude (.integer "2147483648")

/-- What is defined by a rule. -/
inductive Nonterminal
  | program | class_ | field | method | function | params | type_ | block | stmt | place
  | expr | and | eq | rel | add | mul | unary | suffixed | primary | base | args

/-- The right-hand side of a rule. -/
inductive Ebnf
  | terminal (t : Terminal)
  | nonterminal (n : Nonterminal)
  | empty
  | seq (first second : Ebnf)
  | alt (left right : Ebnf)
  | star (item : Ebnf)

namespace Ebnf

instance : Append Ebnf := ⟨seq⟩

instance : OrOp Ebnf := ⟨alt⟩

instance : Coe Keyword Ebnf := ⟨fun k => terminal (.keyword k)⟩

instance : Coe Symbol Ebnf := ⟨fun s => terminal (.symbol s)⟩

instance : Coe Terminal Ebnf := ⟨terminal⟩

instance : Coe Nonterminal Ebnf := ⟨nonterminal⟩

/-- An expression that may be left out. -/
def opt (e : Ebnf) : Ebnf := e ||| empty

end Ebnf

open Ebnf in
/-- **The rules of the grammar.** -/
@[simp] def Nonterminal.rule : Nonterminal → Ebnf
  | program => star (class_ ||| function)
  | class_ => Keyword.class_ ++ Terminal.ident ++ opt (Keyword.extends_ ++ Terminal.ident) ++
      Symbol.lbrace ++ star (field ||| method) ++ Symbol.rbrace
  | field => type_ ++ Terminal.ident ++ Symbol.semicolon
  | method => function
  | function => type_ ++ Terminal.ident ++ Symbol.lparen ++ opt params ++ Symbol.rparen ++ block
  | params => type_ ++ Terminal.ident ++ star (Symbol.comma ++ type_ ++ Terminal.ident)
  | type_ => base ++ star (Symbol.lbracket ++ Symbol.rbracket)
  | block => Symbol.lbrace ++ star stmt ++ Symbol.rbrace
  | stmt => block
      ||| type_ ++ Terminal.ident ++ Symbol.semicolon
      ||| Keyword.if_ ++ Symbol.lparen ++ expr ++ Symbol.rparen ++ stmt ++
        opt (Keyword.else_ ++ stmt)
      ||| Keyword.while_ ++ Symbol.lparen ++ expr ++ Symbol.rparen ++ stmt
      ||| Keyword.return_ ++ expr ++ Symbol.semicolon
      ||| place ++ Symbol.assign ++ expr ++ Symbol.semicolon
      ||| expr ++ Symbol.semicolon
  | place => Terminal.ident ||| suffixed ++ Symbol.dot ++ Terminal.field
      ||| suffixed ++ Symbol.lbracket ++ expr ++ Symbol.rbracket
      ||| Symbol.lparen ++ place ++ Symbol.rparen
  | expr => and
  | and => eq ++ star (Symbol.conj ++ eq)
  | eq => rel ++ star (Symbol.equals ++ rel)
  | rel => add ++ star (Symbol.less ++ add)
  | add => mul ++ star ((Symbol.plus ||| Symbol.minus) ++ mul)
  | mul => unary ++ star ((Symbol.star ||| Symbol.slash) ++ unary)
  | unary => (Symbol.minus ||| Symbol.bang) ++ unary
      ||| Symbol.minus ++ Terminal.leastMagnitude
      ||| suffixed
  | suffixed => primary ++ star (Symbol.dot ++ Terminal.length
      ||| Symbol.dot ++ Terminal.ident ++ Symbol.lparen ++ args ++ Symbol.rparen
      ||| Symbol.dot ++ Terminal.field
      ||| Symbol.lbracket ++ expr ++ Symbol.rbracket)
  | primary => Terminal.integer ||| Keyword.true_ ||| Keyword.false_ ||| Keyword.null
      ||| Keyword.this ||| Terminal.ident
      ||| Terminal.ident ++ Symbol.lparen ++ args ++ Symbol.rparen
      ||| Symbol.lparen ++ expr ++ Symbol.rparen
      ||| Keyword.new ++ Terminal.ident ++ Symbol.lparen ++ Symbol.rparen
      ||| Keyword.new ++ base ++ Symbol.lbracket ++ expr ++ Symbol.rbracket ++
        star (Symbol.lbracket ++ Symbol.rbracket)
  | base => Keyword.int ||| Keyword.boolean ||| Terminal.ident
  | args => opt (expr ++ star (Symbol.comma ++ expr))

/-! ## Derivations -/

/-- The tokens are what the expression stands for. -/
inductive Matches : Ebnf → List Kind → Prop
  | terminal {t k} : t.Is k → Matches (.terminal t) [k]
  | nonterminal {n w} : Matches n.rule w → Matches (.nonterminal n) w
  | empty : Matches .empty []
  | seq {a b u v} : Matches a u → Matches b v → Matches (.seq a b) (u ++ v)
  | left {a b w} : Matches a w → Matches (.alt a b) w
  | right {a b w} : Matches b w → Matches (.alt a b) w
  | nil {a} : Matches (.star a) []
  | cons {a u v} : Matches a u → Matches (.star a) v → Matches (.star a) (u ++ v)

/-- **The grammar derives the tokens** from the nonterminal. -/
def Derives (n : Nonterminal) (w : List Kind) : Prop := Matches n.rule w

/-- What an expression stands for, if its nonterminals stand for what `P` says. -/
def Ebnf.Holds (P : Nonterminal → List Kind → Prop) : Ebnf → List Kind → Prop
  | terminal t, w => ∃ k, t.Is k ∧ w = [k]
  | nonterminal n, w => P n w
  | empty, w => w = []
  | seq a b, w => ∃ u v, a.Holds P u ∧ b.Holds P v ∧ w = u ++ v
  | alt a b, w => a.Holds P w ∨ b.Holds P w
  | star a, w => ∃ ws : List (List Kind), (∀ u ∈ ws, a.Holds P u) ∧ w = ws.flatten

section Holds

variable {P : Nonterminal → List Kind → Prop} {a b : Ebnf} {w : List Kind}

@[simp] theorem Ebnf.holds_keyword {k : Keyword} :
    (terminal (.keyword k)).Holds P w ↔ w = [.keyword k] := by
  constructor
  · rintro ⟨_, ⟨⟩, rfl⟩
    rfl
  · rintro rfl
    exact ⟨_, .keyword k, rfl⟩

@[simp] theorem Ebnf.holds_symbol {s : Symbol} :
    (terminal (.symbol s)).Holds P w ↔ w = [.symbol s] := by
  constructor
  · rintro ⟨_, ⟨⟩, rfl⟩
    rfl
  · rintro rfl
    exact ⟨_, .symbol s, rfl⟩

@[simp] theorem Ebnf.holds_ident :
    (terminal .ident).Holds P w ↔ ∃ name, w = [.ident name] := by
  constructor
  · rintro ⟨_, h, rfl⟩
    cases h with
    | ident name => exact ⟨name, rfl⟩
  · rintro ⟨name, rfl⟩
    exact ⟨_, .ident name, rfl⟩

@[simp] theorem Ebnf.holds_field :
    (terminal .field).Holds P w ↔ ∃ name, name ≠ "length" ∧ w = [.ident name] := by
  constructor
  · rintro ⟨_, h, rfl⟩
    cases h with
    | field hname => exact ⟨_, hname, rfl⟩
  · rintro ⟨name, hname, rfl⟩
    exact ⟨_, .field hname, rfl⟩

@[simp] theorem Ebnf.holds_length :
    (terminal .length).Holds P w ↔ w = [.ident "length"] := by
  constructor
  · rintro ⟨_, ⟨⟩, rfl⟩
    rfl
  · rintro rfl
    exact ⟨_, .length, rfl⟩

@[simp] theorem Ebnf.holds_integer : (terminal .integer).Holds P w ↔
    ∃ digits, digitsValue digits ≤ 2147483647 ∧ w = [.integer digits] := by
  constructor
  · rintro ⟨_, h, rfl⟩
    cases h with
    | integer hvalue => exact ⟨_, hvalue, rfl⟩
  · rintro ⟨digits, hvalue, rfl⟩
    exact ⟨_, .integer hvalue, rfl⟩

@[simp] theorem Ebnf.holds_leastMagnitude :
    (terminal .leastMagnitude).Holds P w ↔ w = [.integer "2147483648"] := by
  constructor
  · rintro ⟨_, ⟨⟩, rfl⟩
    rfl
  · rintro rfl
    exact ⟨_, .leastMagnitude, rfl⟩

@[simp] theorem Ebnf.holds_nonterminal {n : Nonterminal} :
    (nonterminal n).Holds P w ↔ P n w := Iff.rfl

@[simp] theorem Ebnf.holds_empty : empty.Holds P w ↔ w = [] := Iff.rfl

@[simp] theorem Ebnf.holds_append :
    (a ++ b).Holds P w ↔ ∃ u v, a.Holds P u ∧ b.Holds P v ∧ w = u ++ v := Iff.rfl

@[simp] theorem Ebnf.holds_or : (a ||| b).Holds P w ↔ a.Holds P w ∨ b.Holds P w := Iff.rfl

@[simp] theorem Ebnf.holds_opt : (opt a).Holds P w ↔ a.Holds P w ∨ w = [] := Iff.rfl

@[simp] theorem Ebnf.holds_star :
    (star a).Holds P w ↔ ∃ ws : List (List Kind), (∀ u ∈ ws, a.Holds P u) ∧ w = ws.flatten := Iff.rfl

end Holds

/-- What is kept by all rules holds of what an expression stands for. -/
theorem Matches.holds {P : Nonterminal → List Kind → Prop} (hP : ∀ n w, n.rule.Holds P w → P n w)
    {e : Ebnf} {w : List Kind} (h : Matches e w) : e.Holds P w := by
  induction h with
  | terminal h => exact ⟨_, h, rfl⟩
  | nonterminal _ ih => exact hP _ _ ih
  | empty => rfl
  | seq _ _ ih ih' => exact ⟨_, _, ih, ih', rfl⟩
  | left _ ih => exact .inl ih
  | right _ ih => exact .inr ih
  | nil => exact ⟨[], by simp⟩
  | cons _ _ ih ih' =>
    obtain ⟨ws, hws, rfl⟩ := ih'
    exact ⟨_ :: ws, List.forall_mem_cons.2 ⟨ih, hws⟩, rfl⟩

/-- **Induction over derivations**: what every rule keeps holds of all that is
derived. -/
theorem Derives.closed {P : Nonterminal → List Kind → Prop}
    (hP : ∀ n w, n.rule.Holds P w → P n w) {n : Nonterminal} {w : List Kind} (h : Derives n w) :
    P n w :=
  hP n w (Matches.holds hP h)

theorem matches_of_holds {e : Ebnf} {w : List Kind} (h : e.Holds Derives w) : Matches e w := by
  induction e generalizing w with
  | terminal t =>
    obtain ⟨k, hk, rfl⟩ := h
    exact .terminal hk
  | nonterminal n => exact .nonterminal h
  | empty =>
    obtain rfl := h
    exact .empty
  | seq a b iha ihb =>
    obtain ⟨u, v, hu, hv, rfl⟩ := h
    exact .seq (iha hu) (ihb hv)
  | alt a b iha ihb => exact h.elim (fun h => .left (iha h)) fun h => .right (ihb h)
  | star a ih =>
    obtain ⟨ws, hws, rfl⟩ := h
    induction ws with
    | nil => exact .nil
    | cons u rest ihws =>
      rw [List.forall_mem_cons] at hws
      exact .cons (ih hws.1) (ihws hws.2)

/-- **What is derived from a nonterminal** is read off its rule. -/
theorem derives_iff {n : Nonterminal} {w : List Kind} : Derives n w ↔ n.rule.Holds Derives w :=
  ⟨fun h => Matches.holds (fun _ _ => matches_of_holds) h, matches_of_holds⟩

/-- What is derived consists of tokens that terminals stand for. -/
theorem Derives.exists_terminal {n : Nonterminal} {w : List Kind} (h : Derives n w) :
    ∀ k ∈ w, ∃ t : Terminal, t.Is k := by
  unfold Derives at h
  generalize n.rule = e at h
  induction h with
  | terminal h => exact List.forall_mem_singleton.2 ⟨_, h⟩
  | nonterminal _ ih | left _ ih | right _ ih => exact ih
  | empty | nil => exact List.forall_mem_nil _
  | seq _ _ ih ih' | cons _ _ ih ih' => exact List.forall_mem_append.2 ⟨ih, ih'⟩

/-- The end of the file is no part of what is derived. -/
theorem Derives.eof_not_mem {n : Nonterminal} {w : List Kind} (h : Derives n w) : Kind.eof ∉ w := by
  intro hmem
  obtain ⟨t, ht⟩ := h.exists_terminal _ hmem
  cases ht

/-- No faulty token is part of what is derived. -/
theorem Derives.invalid_not_mem {n : Nonterminal} {w : List Kind} (h : Derives n w) (fault : LexFault) :
    Kind.invalid fault ∉ w := by
  intro hmem
  obtain ⟨t, ht⟩ := h.exists_terminal _ hmem
  cases ht

end ClassLang.Source
