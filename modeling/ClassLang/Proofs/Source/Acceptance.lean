import ClassLang.Proofs.Source.Derivations
import ClassLang.Proofs.Source.Readable
import ClassLang.Proofs.Token.Sentences
/-!
# Source — what the parser accepts

Every phrase is derived by the rules (`BinaryPhrase.derives`,
`StmtPhrase.derives`, `ItemPhrase.derives`), as what is derived is a phrase. The parser takes the
phrases, so it accepts the texts that the grammar derives.
-/


namespace ClassLang.Source

open Token (Kind)

/-! ## Derivations of phrases -/

section Derived

open Ebnf

variable {n m : Nonterminal} {tail : Ebnf} {u v w : List Kind}

/-- What may be followed by more of the same need not be. -/
theorem Derives.single (hrule : n.rule = nonterminal m ++ star tail) (h : Derives m w) :
    Derives n w := by
  rw [derives_iff, hrule]
  exact ⟨w, [], h, ⟨[], by simp⟩, by simp⟩

theorem Derives.more (hrule : n.rule = nonterminal m ++ star tail) (h : Derives n u)
    (htail : tail.Holds Derives v) : Derives n (u ++ v) := by
  rw [derives_iff, hrule] at h ⊢
  obtain ⟨first, _, hfirst, ⟨ws, hws, rfl⟩, rfl⟩ := h
  refine ⟨first, _, hfirst, ⟨ws ++ [v], fun x hx => ?_, rfl⟩, by simp⟩
  rcases List.mem_append.1 hx with hx | hx
  · exact hws x hx
  · exact List.mem_singleton.1 hx ▸ htail

/-- The nonterminal of expressions whose operators bind as tightly as the level
asks for. -/
def layer : Nat → Nonterminal
  | 0 | 1 => .and
  | 2 | 3 => .eq
  | 4 | 5 => .rel
  | 6 | 7 => .add
  | 8 | 9 => .mul
  | _ => .unary

theorem Derives.lower {level level' : Nat} (hle : level ≤ level') (h : Derives (layer level') w) :
    Derives (layer level) w := by
  induction hle with
  | refl => exact h
  | @step mid hle ih =>
    refine ih ?_
    match mid, h with
    | 0, h | 2, h | 4, h | 6, h | 8, h | _ + 10, h => exact h
    | 1, h | 3, h | 5, h | 7, h | 9, h => exact h.single rfl

/-- An operator and its right operand go on with the left one. -/
theorem Derives.binary (op : BinaryOp) (hu : Derives (layer op.level) u)
    (hv : Derives (layer (op.level + 1)) v) : Derives (layer op.level) (u ++ .symbol op.symbol :: v) := by
  cases op with
  | and | equals | less => exact hu.more rfl ⟨_, v, ⟨_, .symbol _, rfl⟩, hv, rfl⟩
  | plus | times => exact hu.more rfl ⟨_, v, .inl ⟨_, .symbol _, rfl⟩, hv, rfl⟩
  | minus | div => exact hu.more rfl ⟨_, v, .inr ⟨_, .symbol _, rfl⟩, hv, rfl⟩

theorem TypeExpr.derives_base (ty : TypeExpr) : Derives .base [ty.base] := by
  rw [derives_iff]
  simp only [Nonterminal.rule, holds_keyword, holds_ident, holds_or]
  induction ty with
  | int => simp [TypeExpr.base]
  | bool => simp [TypeExpr.base]
  | class_ name => exact .inr ⟨name, rfl⟩
  | array elem ih => exact ih

/-- Bracket pairs as the rules have them. -/
theorem TypeExpr.exists_pairs (ty : TypeExpr) : ∃ ws : List (List Kind),
    (∀ x ∈ ws, x = [.symbol .lbracket, .symbol .rbracket]) ∧ ty.pairs = ws.flatten := by
  induction ty with
  | array elem ih =>
    obtain ⟨ws, hws, heq⟩ := ih
    exact ⟨[.symbol .lbracket, .symbol .rbracket] :: ws, List.forall_mem_cons.2 ⟨rfl, hws⟩,
      by rw [pairs, heq]; rfl⟩
  | _ => exact ⟨[], by simp [pairs]⟩

theorem Derives.expr {level : Nat} (h : Derives (layer level) w) : Derives .expr w :=
  derives_iff.2 (h.lower (Nat.zero_le level))

theorem TypeExpr.derives_type (ty : TypeExpr) : Derives .type_ ty.kinds := by
  obtain ⟨ws, hws, hpairs⟩ := ty.exists_pairs
  rw [derives_iff, kinds, hpairs]
  exact ⟨[ty.base], _, ty.derives_base, ⟨ws, fun x hx => ⟨_, _, ⟨_, .symbol _, rfl⟩,
    ⟨_, .symbol _, rfl⟩, hws x hx⟩, rfl⟩, rfl⟩

mutual

theorem BinaryPhrase.derives {level : Nat} {w : List Kind} {e : Expr} :
    BinaryPhrase level w e → Derives (layer level) w
  | .unary h => Derives.lower (Nat.le_add_right level 10) h.derives
  | .binary op hle hl hr => (Derives.binary op hl.derives hr.derives).lower hle

theorem UnaryPhrase.derives {w : List Kind} {e : Expr} : UnaryPhrase w e → Derives .unary w
  | .suffixed h => derives_iff.2 (.inr h.derives)
  | .unary op h => by
    rw [derives_iff]
    refine .inl (.inl ⟨[_], _, ?_, h.derives, rfl⟩)
    cases op with
    | minus => exact .inl ⟨_, .symbol _, rfl⟩
    | negate => exact .inr ⟨_, .symbol _, rfl⟩
  | .least => derives_iff.2 (.inl (.inr ⟨_, _, ⟨_, .symbol _, rfl⟩, ⟨_, .leastMagnitude, rfl⟩, rfl⟩))

theorem PostfixPhrase.derives {w : List Kind} {e : Expr} : PostfixPhrase w e → Derives .suffixed w
  | .atom h => h.derives.single rfl
  | @PostfixPhrase.call _ _ _ _ name _ he hargs => by
    obtain ⟨v, rfl, hv⟩ := hargs.derives
    refine he.derives.more rfl (.inl (.inl (.inr ?_)))
    simp only [holds_append, holds_symbol, holds_ident, holds_nonterminal]
    exact ⟨_, _, ⟨_, _, ⟨_, _, ⟨_, _, rfl, ⟨name, rfl⟩, rfl⟩, rfl, rfl⟩, hv, rfl⟩, rfl, by simp⟩
  | .length he => he.derives.more rfl (.inl (.inl (.inl
      ⟨_, _, ⟨_, .symbol _, rfl⟩, ⟨_, .length, rfl⟩, rfl⟩)))
  | .field he hname => he.derives.more rfl (.inl (.inr
      ⟨_, _, ⟨_, .symbol _, rfl⟩, ⟨_, .field hname, rfl⟩, rfl⟩))
  | .index he hi => he.derives.more rfl (.inr
      ⟨_, _, ⟨_, _, ⟨_, .symbol _, rfl⟩, hi.derives.expr, rfl⟩, ⟨_, .symbol _, rfl⟩, rfl⟩)

theorem AtomPhrase.derives {w : List Kind} {e : Expr} : AtomPhrase w e → Derives .primary w
  | .int hvalue => derives_iff.2 (.inl (.inl (.inl (.inl (.inl (.inl (.inl (.inl (.inl
      ⟨_, .integer (literal?_isSome.2 ⟨_, hvalue⟩), rfl⟩)))))))))
  | .true_ => derives_iff.2 (.inl (.inl (.inl (.inl (.inl (.inl (.inl (.inl (.inr
      ⟨_, .keyword _, rfl⟩)))))))))
  | .false_ => derives_iff.2 (.inl (.inl (.inl (.inl (.inl (.inl (.inl (.inr
      ⟨_, .keyword _, rfl⟩))))))))
  | .null => derives_iff.2 (.inl (.inl (.inl (.inl (.inl (.inl (.inr ⟨_, .keyword _, rfl⟩)))))))
  | .this => derives_iff.2 (.inl (.inl (.inl (.inl (.inl (.inr ⟨_, .keyword _, rfl⟩))))))
  | .var => derives_iff.2 (.inl (.inl (.inl (.inl (.inr ⟨_, .ident _, rfl⟩)))))
  | @AtomPhrase.call _ _ name _ hargs => by
    obtain ⟨v, rfl, hv⟩ := hargs.derives
    refine derives_iff.2 (.inl (.inl (.inl (.inr ?_))))
    simp only [holds_append, holds_symbol, holds_ident, holds_nonterminal]
    exact ⟨_, _, ⟨_, _, ⟨_, _, ⟨name, rfl⟩, rfl, rfl⟩, hv, rfl⟩, rfl, by simp⟩
  | .parens h => derives_iff.2 (.inl (.inl (.inr
      ⟨_, _, ⟨_, _, ⟨_, .symbol _, rfl⟩, h.derives.expr, rfl⟩, ⟨_, .symbol _, rfl⟩, rfl⟩)))
  | @AtomPhrase.newObject _ name => by
    refine derives_iff.2 (.inl (.inr ?_))
    simp only [holds_append, holds_keyword, holds_symbol, holds_ident]
    exact ⟨_, _, ⟨_, _, ⟨_, _, rfl, ⟨name, rfl⟩, rfl⟩, rfl, rfl⟩, rfl, rfl⟩
  | .newArray elem hsize => by
    obtain ⟨ws, hws, hpairs⟩ := elem.exists_pairs
    refine derives_iff.2 (.inr ?_)
    simp only [holds_append, holds_keyword, holds_symbol, holds_star, holds_nonterminal, hpairs]
    exact ⟨_, _, ⟨_, _, ⟨_, _, ⟨_, _, ⟨_, _, rfl, elem.derives_base, rfl⟩, rfl, rfl⟩,
      hsize.derives.expr, rfl⟩, rfl, rfl⟩,
      ⟨ws, fun x hx => ⟨_, _, rfl, rfl, hws x hx⟩, rfl⟩, by simp⟩

theorem ArgsPhrase.derives {w : List Kind} {args : List Expr} : ArgsPhrase w args →
    ∃ v, w = .symbol .lparen :: (v ++ [.symbol .rparen]) ∧ Derives .args v
  | .nil => ⟨[], rfl, derives_iff.2 (.inr rfl)⟩
  | .list h => by
    obtain ⟨v, rfl, hv⟩ := h.derives
    exact ⟨v, rfl, derives_iff.2 (.inl hv)⟩

/-- One or more arguments as the rules have them. -/
theorem ArgListPhrase.derives {w : List Kind} {args : List Expr} : ArgListPhrase w args →
    ∃ v, w = v ++ [.symbol .rparen] ∧ (nonterminal .expr ++
      star (terminal (.symbol .comma) ++ nonterminal .expr)).Holds Derives v
  | .one h => ⟨_, rfl, _, [], h.derives.expr, ⟨[], by simp⟩, by simp⟩
  | .cons h hrest => by
    obtain ⟨v, rfl, first, _, hfirst, ⟨ws, hws, rfl⟩, rfl⟩ := hrest.derives
    refine ⟨_, ?_, _, _, h.derives.expr, ⟨(.symbol .comma :: first) :: ws, ?_, rfl⟩, rfl⟩
    · simp
    · exact List.forall_mem_cons.2 ⟨⟨_, _, ⟨_, .symbol _, rfl⟩, hfirst, rfl⟩, hws⟩

end

/-! Places are what is assigned to: the expressions that only read one. -/

mutual

theorem BinaryPhrase.derives_place {level : Nat} {w : List Kind} {e : Expr} :
    BinaryPhrase level w e → ∀ {m place}, e = .read m place → Derives .place w
  | .unary h, _, _, he => h.derives_place he

theorem UnaryPhrase.derives_place {w : List Kind} {e : Expr} :
    UnaryPhrase w e → ∀ {m place}, e = .read m place → Derives .place w
  | .suffixed h, _, _, he => h.derives_place he

theorem PostfixPhrase.derives_place {w : List Kind} {e : Expr} :
    PostfixPhrase w e → ∀ {m place}, e = .read m place → Derives .place w
  | .atom h, _, _, he => h.derives_place he
  | .field he hname, _, _, _ => by
    refine derives_iff.2 (.inl (.inl (.inr ⟨_, _, ⟨_, _, he.derives, ⟨_, .symbol _, rfl⟩, rfl⟩,
      ⟨_, .field hname, rfl⟩, ?_⟩)))
    simp
  | .index he hi, _, _, _ => by
    refine derives_iff.2 (.inl (.inr ⟨_, _, ⟨_, _, ⟨_, _, he.derives, ⟨_, .symbol _, rfl⟩, rfl⟩,
      hi.derives.expr, rfl⟩, ⟨_, .symbol _, rfl⟩, ?_⟩))
    simp

theorem AtomPhrase.derives_place {w : List Kind} {e : Expr} :
    AtomPhrase w e → ∀ {m place}, e = .read m place → Derives .place w
  | .var, _, _, _ => derives_iff.2 (.inl (.inl (.inl ⟨_, .ident _, rfl⟩)))
  | .parens h, _, _, he => derives_iff.2 (.inr
      ⟨_, _, ⟨_, _, ⟨_, .symbol _, rfl⟩, h.derives_place he, rfl⟩, ⟨_, .symbol _, rfl⟩, rfl⟩)

end

/-- A variable as the rules have it. -/
theorem VarDecl.holds_kinds (var : VarDecl) :
    (nonterminal .type_ ++ terminal .ident).Holds Derives var.kinds :=
  ⟨_, _, var.ty.derives_type, ⟨_, .ident _, rfl⟩, rfl⟩

mutual

theorem StmtPhrase.derives {w : List Kind} {s : Stmt} : StmtPhrase w s → Derives .stmt w
  | .block h => derives_iff.2 (.inl (.inl (.inl (.inl (.inl (.inl h.derives))))))
  | .decl var => derives_iff.2 (.inl (.inl (.inl (.inl (.inl (.inr
      ⟨_, _, var.holds_kinds, ⟨_, .symbol _, rfl⟩, rfl⟩))))))
  | .assign htarget hvalue => by
    refine derives_iff.2 (.inl (.inr ⟨_, _, ⟨_, _, ⟨_, _, htarget.derives_place rfl,
      ⟨_, .symbol _, rfl⟩, rfl⟩, hvalue.derives.expr, rfl⟩, ⟨_, .symbol _, rfl⟩, ?_⟩))
    simp
  | .expr h => derives_iff.2 (.inr ⟨_, _, h.derives.expr, ⟨_, .symbol _, rfl⟩, rfl⟩)
  | .ifThen hcond hbody => by
    refine derives_iff.2 (.inl (.inl (.inl (.inl (.inr ⟨_, _, ⟨_, _, ⟨_, _, ⟨_, _, ⟨_, _,
      ⟨_, .keyword _, rfl⟩, ⟨_, .symbol _, rfl⟩, rfl⟩, hcond.derives.expr, rfl⟩,
      ⟨_, .symbol _, rfl⟩, rfl⟩, hbody.derives, rfl⟩, .inr rfl, ?_⟩)))))
    simp
  | .ifElse hcond hyes _ hno => by
    refine derives_iff.2 (.inl (.inl (.inl (.inl (.inr ⟨_, _, ⟨_, _, ⟨_, _, ⟨_, _, ⟨_, _,
      ⟨_, .keyword _, rfl⟩, ⟨_, .symbol _, rfl⟩, rfl⟩, hcond.derives.expr, rfl⟩,
      ⟨_, .symbol _, rfl⟩, rfl⟩, hyes.derives, rfl⟩,
      .inl ⟨_, _, ⟨_, .keyword _, rfl⟩, hno.derives, rfl⟩, ?_⟩)))))
    simp
  | .loop hcond hbody => by
    refine derives_iff.2 (.inl (.inl (.inl (.inr ⟨_, _, ⟨_, _, ⟨_, _, ⟨_, _,
      ⟨_, .keyword _, rfl⟩, ⟨_, .symbol _, rfl⟩, rfl⟩, hcond.derives.expr, rfl⟩,
      ⟨_, .symbol _, rfl⟩, rfl⟩, hbody.derives, ?_⟩))))
    simp
  | .ret h => derives_iff.2 (.inl (.inl (.inr
      ⟨_, _, ⟨_, _, ⟨_, .keyword _, rfl⟩, h.derives.expr, rfl⟩, ⟨_, .symbol _, rfl⟩, rfl⟩)))

theorem BlockPhrase.derives {w : List Kind} {b : Block} : BlockPhrase w b → Derives .block w
  | .mk h => derives_iff.2
      ⟨_, _, ⟨_, _, ⟨_, .symbol _, rfl⟩, h.derives, rfl⟩, ⟨_, .symbol _, rfl⟩, rfl⟩

theorem StmtsPhrase.derives {w : List Kind} {stmts : List Stmt} : StmtsPhrase w stmts →
    (star (nonterminal .stmt)).Holds Derives w
  | .nil => ⟨[], by simp⟩
  | .cons h hrest => by
    obtain ⟨ws, hws, rfl⟩ := hrest.derives
    exact ⟨_ :: ws, List.forall_mem_cons.2 ⟨h.derives, hws⟩, rfl⟩

end

theorem derives_params (param : VarDecl) (rest : List VarDecl) :
    Derives .params (paramKinds (param :: rest)) := by
  induction rest generalizing param with
  | nil =>
    rw [derives_iff]
    exact ⟨_, [], param.holds_kinds, ⟨[], by simp⟩, by simp [paramKinds]⟩
  | cons next rest ih =>
    obtain ⟨first, _, hfirst, ⟨ws, hws, rfl⟩, heq⟩ := derives_iff.1 (ih next)
    obtain ⟨u, v, hty, hname, rfl⟩ := hfirst
    rw [derives_iff, paramKinds, heq]
    refine ⟨_, _, param.holds_kinds, ⟨(.symbol .comma :: (u ++ v)) :: ws, ?_, rfl⟩, rfl⟩
    · exact List.forall_mem_cons.2
        ⟨⟨_, _, ⟨_, _, ⟨_, .symbol _, rfl⟩, hty, rfl⟩, hname, rfl⟩, hws⟩
    · simp

theorem holds_phrases {α : Type} {R : List Kind → α → Prop} {item : Ebnf}
    (hR : ∀ {w a}, R w a → item.Holds Derives w) {w : List Kind} {as : List α}
    (h : Phrases R w as) : (star item).Holds Derives w := by
  induction h with
  | nil => exact ⟨[], by simp⟩
  | cons h _ ih =>
    obtain ⟨ws, hws, rfl⟩ := ih
    exact ⟨_ :: ws, List.forall_mem_cons.2 ⟨hR h, hws⟩, rfl⟩

theorem FunctionPhrase.derives {w : List Kind} {f : FunctionDecl} :
    FunctionPhrase w f → Derives .function w := by
  rintro ⟨hbody⟩
  have hparams : (opt (nonterminal .params)).Holds Derives (paramKinds f.params) := by
    cases f.params with
    | nil => exact .inr rfl
    | cons param rest => exact .inl (derives_params param rest)
  refine derives_iff.2 ⟨_, _, ⟨_, _, ⟨_, _, ⟨_, _, ⟨_, _, f.returnType.derives_type,
    ⟨_, .ident f.name, rfl⟩, rfl⟩, ⟨_, .symbol _, rfl⟩, rfl⟩, hparams, rfl⟩, ⟨_, .symbol _, rfl⟩,
    rfl⟩, hbody.derives, ?_⟩
  simp

theorem MemberPhrase.derives {w : List Kind} {m : Member} : MemberPhrase w m →
    (nonterminal .field ||| nonterminal .method).Holds Derives w
  | .field var => .inl (derives_iff.2 ⟨_, _, var.holds_kinds, ⟨_, .symbol _, rfl⟩, rfl⟩)
  | .method h => .inr (derives_iff.2 h.derives)

theorem ClassPhrase.derives {w : List Kind} {c : ClassDecl} :
    ClassPhrase w c → Derives .class_ w := by
  rintro ⟨hmembers, -, -⟩
  have hextends : (opt (terminal (.keyword .extends_) ++ terminal .ident)).Holds Derives
      (extendsKinds c.extends?) := by
    cases c.extends? with
    | none => exact .inr rfl
    | some name => exact .inl ⟨_, _, ⟨_, .keyword _, rfl⟩, ⟨_, .ident name, rfl⟩, rfl⟩
  refine derives_iff.2 ⟨_, _, ⟨_, _, ⟨_, _, ⟨_, _, ⟨_, _, ⟨_, .keyword _, rfl⟩,
    ⟨_, .ident c.name, rfl⟩, rfl⟩, hextends, rfl⟩, ⟨_, .symbol _, rfl⟩, rfl⟩,
    holds_phrases MemberPhrase.derives hmembers, rfl⟩, ⟨_, .symbol _, rfl⟩, ?_⟩
  simp

theorem ItemPhrase.derives {w : List Kind} {item : Item} : ItemPhrase w item →
    (nonterminal .class_ ||| nonterminal .function).Holds Derives w
  | .function h => .inr h.derives
  | .class_ h => .inl h.derives

end Derived

/-! ## The parser -/

/-- **A program is derived** exactly if its tokens are phrases of items. -/
theorem derives_program {w : List Kind} :
    Derives .program w ↔ ∃ items, Phrases ItemPhrase w items :=
  ⟨Derives.closed written_of_rule,
    fun ⟨_, h⟩ => derives_iff.2 (holds_phrases ItemPhrase.derives h)⟩

/-- Before the end of the file there is only one list of tokens. -/
theorem eq_of_append_eof {u w rest : List Kind} (hw : Kind.eof ∉ w) (hu : Kind.eof ∉ u)
    (hrest : rest.headD .eof = .eof) (heq : w ++ [.eof] = u ++ rest) : u = w := by
  induction w generalizing u with
  | nil =>
    cases u with
    | nil => rfl
    | cons k u =>
      have hk : Kind.eof = k := (List.cons.inj heq).1
      simp [hk] at hu
  | cons k w ih =>
    cases u with
    | nil =>
      obtain rfl : rest = k :: w ++ [Kind.eof] := heq.symm
      have hk : k = Kind.eof := hrest
      simp [hk] at hw
    | cons k' u =>
      obtain ⟨rfl, htail⟩ := List.cons.inj heq
      rw [List.mem_cons, not_or] at hw hu
      rw [ih hw.2 hu.2 htail]

/-- Without an error all tokens are read. -/
theorem phrases_of_parseItems {c : Cursor} {w : List Kind} (hc : c.kinds = w ++ [.eof])
    (heof : Kind.eof ∉ w) (h : (parseItems c).2 = none) :
    Phrases ItemPhrase w (parseItems c).1 := by
  obtain ⟨u, rest, hkinds, hrest, hphrases⟩ := took_parseItems c h
  have hu : Kind.eof ∉ u := (derives_program.2 ⟨_, hphrases⟩).eof_not_mem
  rw [hc] at hkinds
  have huw : u = w := eq_of_append_eof heof hu hrest hkinds
  exact huw ▸ hphrases

/-- **Reading a list of tokens** fails unless the grammar derives it. -/
theorem parseItems_eq_none {c : Cursor} {w : List Kind} (hc : c.kinds = w ++ [.eof])
    (heof : Kind.eof ∉ w) : (parseItems c).2 = none ↔ Derives .program w := by
  rw [derives_program]
  constructor
  · exact fun h => ⟨_, phrases_of_parseItems hc heof h⟩
  · rintro ⟨items, h⟩
    exact (parseItems_of_phrases h rfl hc).1

/-- The tokens of a text, none of them read. -/
def Cursor.ofText (source : String) : Cursor :=
  ⟨locate (Lines.ofString source) (lex source).tokens, 0⟩

theorem Cursor.kinds_ofText (source : String) : (ofText source).kinds = sentence source ++ [.eof] := by
  rw [← kinds_lex]
  simp [kinds, ofText, locate]

theorem program_parse (source : String) : (parse source).program =
    .ofItems (parseItems (.ofText source)).1 (Cursor.ofText source).pos := rfl

theorem error?_parse {source : String} : (parse source).error? = none ↔
    (lex source).errors = [] ∧ (parseItems (.ofText source)).2 = none := by
  simp [parse, Cursor.ofText, and_comm]

/-- **The parser accepts the grammar**: it takes a text without an error
exactly if the tokens of the text have none and the grammar derives them, and
else it reports one error. -/
theorem parse_accepts (source : String) :
    ((parse source).error? = none ↔
      (lex source).errors = [] ∧ Derives .program (sentence source)) ∧
    ((parse source).error?.toList.length = 1 ↔
      ¬((lex source).errors = [] ∧ Derives .program (sentence source))) := by
  have haccepts : (parse source).error? = none ↔
      (lex source).errors = [] ∧ Derives .program (sentence source) := by
    rw [error?_parse,
      parseItems_eq_none (Cursor.kinds_ofText source) (eof_not_mem_sentence source)]
  refine ⟨haccepts, ?_⟩
  rw [← haccepts]
  cases (parse source).error? <;> simp

end ClassLang.Source
