import ClassLang.Proofs.Source.Acceptance
import ClassLang.Proofs.Source.Shortest
/-!
# Source — printing and reading

What is printed for a program that can be read is read as this program, apart
from identities and positions, and the programs that are read are those
that can be: a phrase whose identifiers are names is written for a
printable tree (`BinaryPhrase.printable`, `StmtPhrase.printable`, `printable_ofItems`).
-/


namespace ClassLang.Source

open Token (Kind)

/-! ## Names in phrases -/

/-- The token is no identifier or one that is a name. -/
def KindNamed : Kind → Prop
  | .ident name => IsName name
  | .keyword _ | .symbol _ | .integer _ | .invalid _ | .eof => True

/-- The identifiers among the tokens are names. -/
def Named (w : List Kind) : Prop := ∀ k ∈ w, KindNamed k

@[simp] theorem named_nil : Named [] := List.forall_mem_nil _

@[simp] theorem named_cons {k : Kind} {w : List Kind} : Named (k :: w) ↔ KindNamed k ∧ Named w :=
  List.forall_mem_cons

@[simp] theorem named_append {u v : List Kind} : Named (u ++ v) ↔ Named u ∧ Named v :=
  List.forall_mem_append

@[simp] theorem kindNamed_keyword (k : Keyword) : KindNamed (.keyword k) := trivial

@[simp] theorem kindNamed_symbol (s : Symbol) : KindNamed (.symbol s) := trivial

@[simp] theorem kindNamed_ident {name : String} : KindNamed (.ident name) ↔ IsName name := Iff.rfl

/-- A type can be read if the class that it names has a name. -/
theorem TypeExpr.printable {ty : TypeExpr} (h : KindNamed ty.base) : ty.Printable := by
  induction ty with
  | int | bool => trivial
  | class_ name => exact h
  | array elem ih => exact ih h

theorem VarDecl.printable {var : VarDecl} (h : Named var.kinds) : var.Printable := by
  simp only [kinds, TypeExpr.kinds, named_append, named_cons, kindNamed_ident] at h
  exact ⟨TypeExpr.printable h.1.1, h.2.1⟩

mutual

/-- **A phrase whose identifiers are names** is written for an expression that
can be read. -/
theorem BinaryPhrase.printable {level : Nat} {w : List Kind} {e : Expr} :
    BinaryPhrase level w e → Named w → e.Printable
  | .unary h, hw => h.printable hw
  | .binary _ _ hl hr, hw => by
    simp only [named_append, named_cons] at hw
    exact ⟨hl.printable hw.1, hr.printable hw.2.2⟩

/-- The least integer is read behind a minus only, and can be read so. -/
theorem UnaryPhrase.printable {w : List Kind} {e : Expr} : UnaryPhrase w e → Named w → e.Printable
  | .suffixed h, hw => h.printable hw
  | .unary _ h, hw => h.printable (named_cons.1 hw).2
  | .least, _ => .inr rfl

/-- A field that is read is not called `length`. -/
theorem PostfixPhrase.printable {w : List Kind} {e : Expr} :
    PostfixPhrase w e → Named w → e.Printable
  | .atom h, hw => h.printable hw
  | .call he hargs, hw => by
    simp only [named_append, named_cons, kindNamed_ident] at hw
    exact ⟨he.printable hw.1, hw.2.2.1, hargs.printable hw.2.2.2⟩
  | .length he, hw => he.printable (named_append.1 hw).1
  | .field he hname, hw => by
    simp only [named_append, named_cons, kindNamed_ident] at hw
    exact ⟨he.printable hw.1, hw.2.2.1, hname⟩
  | .index he hi, hw => by
    simp only [named_append, named_cons] at hw
    exact ⟨he.printable hw.1, hi.printable hw.2.2.1⟩

/-- An integer that is read without a sign is not negative. -/
theorem AtomPhrase.printable {w : List Kind} {e : Expr} : AtomPhrase w e → Named w → e.Printable
  | .int hvalue, _ => .inl (literal?_nonneg hvalue)
  | .true_, _ | .false_, _ | .null, _ | .this, _ => trivial
  | .var, hw => (named_cons.1 hw).1
  | .call hargs, hw => ⟨(named_cons.1 hw).1, hargs.printable (named_cons.1 hw).2⟩
  | .parens h, hw => h.printable (named_append.1 (named_cons.1 hw).2).1
  | .newObject, hw => (named_cons.1 (named_cons.1 hw).2).1
  | .newArray _ hsize, hw => by
    simp only [named_append, named_cons] at hw
    exact ⟨TypeExpr.printable hw.2.1, hsize.printable hw.2.2.2.1⟩

theorem ArgsPhrase.printable {w : List Kind} {args : List Expr} :
    ArgsPhrase w args → Named w → PrintableArgs args
  | .nil, _ => trivial
  | .list h, hw => h.printable (named_cons.1 hw).2

theorem ArgListPhrase.printable {w : List Kind} {args : List Expr} :
    ArgListPhrase w args → Named w → PrintableArgs args
  | .one h, hw => ⟨h.printable (named_append.1 hw).1, trivial⟩
  | .cons h hrest, hw => by
    simp only [named_append, named_cons] at hw
    exact ⟨h.printable hw.1, hrest.printable hw.2.2⟩

end

theorem Stmt.printable_block {pos : Option Pos} {b : Block} :
    (Stmt.block pos b).Printable ↔ PrintableStmts b.stmts := by
  cases b
  rfl

mutual

/-- **So is a statement whose identifiers are names.** -/
theorem StmtPhrase.printable {w : List Kind} {s : Stmt} : StmtPhrase w s → Named w → s.Printable
  | .block h, hw => Stmt.printable_block.2 (h.printable hw)
  | .decl _, hw => VarDecl.printable (named_append.1 hw).1
  | .assign htarget hvalue, hw => by
    simp only [named_append, named_cons] at hw
    exact ⟨htarget.printable hw.1, hvalue.printable hw.2.2.1⟩
  | .expr h, hw => h.printable (named_append.1 hw).1
  | .ifThen hcond hbody, hw => by
    simp only [named_append, named_cons] at hw
    exact ⟨hcond.printable hw.2.2.1, hbody.printable hw.2.2.2.2⟩
  | .ifElse hcond hyes hclosed hno, hw => by
    simp only [named_append, named_cons] at hw
    exact ⟨hcond.printable hw.2.2.1, hyes.printable hw.2.2.2.2.1, hclosed,
      hno.printable hw.2.2.2.2.2.2⟩
  | .loop hcond hbody, hw => by
    simp only [named_append, named_cons] at hw
    exact ⟨hcond.printable hw.2.2.1, hbody.printable hw.2.2.2.2⟩
  | .ret h, hw => h.printable (named_append.1 (named_cons.1 hw).2).1

theorem BlockPhrase.printable {w : List Kind} {b : Block} :
    BlockPhrase w b → Named w → PrintableStmts b.stmts
  | .mk h, hw => h.printable (named_append.1 (named_cons.1 hw).2).1

theorem StmtsPhrase.printable {w : List Kind} {stmts : List Stmt} :
    StmtsPhrase w stmts → Named w → PrintableStmts stmts
  | .nil, _ => trivial
  | .cons h hrest, hw => ⟨h.printable (named_append.1 hw).1, hrest.printable (named_append.1 hw).2⟩

end

/-! ## Names in declarations -/

/-- Parameters are variables with commas between them. -/
theorem printable_params {params : List VarDecl} (h : Named (paramKinds params)) :
    ∀ param ∈ params, param.Printable := by
  induction params with
  | nil => exact List.forall_mem_nil _
  | cons param rest ih =>
    cases rest with
    | nil => exact List.forall_mem_singleton.2 (VarDecl.printable h)
    | cons next rest =>
      simp only [paramKinds, named_append, named_cons] at h
      exact List.forall_mem_cons.2 ⟨VarDecl.printable h.1, ih h.2.2⟩

/-- What holds of the parts of phrases holds of all that are read from them. -/
theorem Phrases.forall_mem {α : Type} {R : List Kind → α → Prop} {Q : α → Prop}
    (hR : ∀ {u a}, R u a → Named u → Q a) {w : List Kind} {as : List α} (h : Phrases R w as)
    (hw : Named w) : ∀ a ∈ as, Q a := by
  induction h with
  | nil => exact List.forall_mem_nil _
  | cons ha _ ih =>
    rw [named_append] at hw
    exact List.forall_mem_cons.2 ⟨hR ha hw.1, ih hw.2⟩

/-- **So is a function**, with its parameters and its body. -/
theorem FunctionPhrase.printable {w : List Kind} {f : FunctionDecl} :
    FunctionPhrase w f → Named w → f.Printable := by
  rintro ⟨hbody⟩ hw
  simp only [TypeExpr.kinds, named_append, named_cons, kindNamed_ident] at hw
  exact ⟨TypeExpr.printable hw.1.1, hw.2.1, printable_params hw.2.2.2.1,
    hbody.printable hw.2.2.2.2.2⟩

/-- What is in the member can be read. -/
def Member.Printable : Member → Prop
  | field var => var.Printable
  | method f => f.Printable

theorem MemberPhrase.printable {w : List Kind} {m : Member} :
    MemberPhrase w m → Named w → m.Printable
  | .field _, hw => VarDecl.printable (named_append.1 hw).1
  | .method h, hw => h.printable hw

/-- **So is a class**, with its superclass, its fields and its methods. -/
theorem ClassPhrase.printable {w : List Kind} {c : ClassDecl} :
    ClassPhrase w c → Named w → c.Printable := by
  rintro ⟨hmembers, hfields, hmethods⟩ hw
  simp only [named_append, named_cons, kindNamed_ident] at hw
  have hprintable := hmembers.forall_mem (fun h => MemberPhrase.printable h) hw.2.2.2.2.1
  refine ⟨hw.2.1, fun name hsuper => ?_, fun var hvar => ?_, fun m hm => ?_⟩
  · have hextends := hw.2.2.1
    rw [hsuper] at hextends
    simp only [extendsKinds, named_cons, kindNamed_ident] at hextends
    exact hextends.2.1
  · rw [hfields] at hvar
    obtain ⟨member, hmember, heq⟩ := List.mem_filterMap.1 hvar
    cases member with
    | field var' =>
      obtain rfl := Option.some.inj heq
      exact hprintable _ hmember
    | method f => cases heq
  · rw [hmethods] at hm
    obtain ⟨member, hmember, heq⟩ := List.mem_filterMap.1 hm
    cases member with
    | field var => cases heq
    | method f =>
      obtain rfl := Option.some.inj heq
      exact hprintable _ hmember

/-- What is in the item can be read. -/
def Item.Printable : Item → Prop
  | function f => f.Printable
  | class_ c => c.Printable

theorem ItemPhrase.printable {w : List Kind} {item : Item} :
    ItemPhrase w item → Named w → item.Printable
  | .function h, hw => h.printable hw
  | .class_ h, hw => h.printable hw

theorem printable_ofItems {items : List Item} (h : ∀ item ∈ items, item.Printable)
    (pos : Option Pos) : (Program.ofItems items pos).Printable := by
  refine ⟨fun f hf => ?_, fun c hc => ?_⟩
  · obtain ⟨item, hitem, heq⟩ := List.mem_filterMap.1 hf
    cases item with
    | function g =>
      obtain rfl := Option.some.inj heq
      exact h _ hitem
    | class_ c => cases heq
  · obtain ⟨item, hitem, heq⟩ := List.mem_filterMap.1 hc
    cases item with
    | function g => cases heq
    | class_ c' =>
      obtain rfl := Option.some.inj heq
      exact h _ hitem

/-! ## Programs -/

/-- The identifiers of a text are names. -/
theorem named_sentence (source : String) : Named (sentence source) := by
  intro k hk
  have hk : k ∈ (lex source).tokens.map (·.kind) := by
    rw [kinds_lex]
    exact List.mem_append_left _ hk
  obtain ⟨t, ht, rfl⟩ := List.mem_map.1 hk
  unfold KindNamed
  split
  next name heq => exact isName_of_lex ht heq
  all_goals trivial

/-- What is read without an error has none. -/
theorem error?_of_read {source : String} {p : Program} (h : (parse source).toExcept = .ok p) :
    (parse source).error? = none := by
  unfold Parsed.toExcept at h
  split at h
  · cases h
  next hnone => exact hnone

/-- **What is read can be read**: the names of the program are identifiers, its
integers are literals, and each `else` has the nearest `if`. -/
theorem printable_parse {source : String} {p : Program}
    (h : (parse source).toExcept = .ok p) : p.Printable := by
  have hnone := (error?_parse.1 (error?_of_read h)).2
  obtain rfl := eq_program_of_read h
  have hphrases :=
    phrases_of_parseItems (Cursor.kinds_ofText source) (eof_not_mem_sentence source) hnone
  exact printable_ofItems
    (hphrases.forall_mem (fun h => ItemPhrase.printable h) (named_sentence source)) _

/-- **A text with the tokens of a program** is read as the program, apart from
identities and positions. -/
theorem parse_of_sentence {source : String} {p : Program} (hp : p.Printable)
    (herrors : (lex source).errors = []) (hsource : sentence source = p.kinds) :
    ∃ q, (parse source).toExcept = .ok q ∧ q.bare = p.bare := by
  have hkinds := Cursor.kinds_ofText source
  rw [hsource] at hkinds
  obtain ⟨hnone, hbare⟩ := parseItems_of_phrases (Program.printed hp) rfl hkinds
  have hread : (parse source).error? = none := error?_parse.2 ⟨herrors, hnone⟩
  refine ⟨(parse source).program, by rw [Parsed.toExcept, hread], ?_⟩
  rw [program_parse, Program.bare_ofItems hbare, Program.ofItems_items p]

/-- A text of a program has no fewer tokens than what is printed for the
program. -/
theorem length_print_le {source : String} {p : Program} (h : (parse source).toExcept = .ok p) :
    p.kinds.length ≤ (sentence source).length := by
  have hnone := (error?_parse.1 (error?_of_read h)).2
  obtain rfl := eq_program_of_read h
  exact length_ofItems_le
    (phrases_of_parseItems (Cursor.kinds_ofText source) (eof_not_mem_sentence source) hnone) _

/-- **Reading undoes printing.** What is printed for a program that can be read
is read as the program, apart from identities and positions, and no text of the program
has fewer tokens, so that all parentheses are needed. What is read can be
read: nothing else is. -/
theorem parse_print :
    (∀ p : Program, p.Printable →
      (∃ q, (parse p.print).toExcept = .ok q ∧ q.bare = p.bare) ∧
      ∀ source q, (parse source).toExcept = .ok q → q.bare = p.bare →
        (sentence p.print).length ≤ (sentence source).length) ∧
    ∀ source p, (parse source).toExcept = .ok p → p.Printable := by
  refine ⟨fun p hp => ⟨?_, fun source q hq hbare => ?_⟩, fun source p h => printable_parse h⟩
  · exact parse_of_sentence hp (errors_spell (Program.spellable hp))
      (sentence_spell (Program.spellable hp))
  · rw [Program.print, sentence_spell (Program.spellable hp), ← Program.kinds_of_bare hbare]
    exact length_print_le hq

/-- A program that cannot be written without parentheses. -/
def nested : Program where
  functions := [
    { id := 0, returnType := .int, name := "f", params := [⟨0, .array (.class_ "A"), "x", none⟩],
      body := .mk [
        .ret none (.methodCall .blank (.int .blank Int32.minValue) "m"
          [.binary .blank .minus (.binary .blank .minus (.int .blank 1) (.int .blank 2))
            (.binary .blank .minus (.int .blank 3) (.read .blank (.var .blank "x")))])] none,
      pos := none }]
  classes := [{ id := 0, name := "A", extends? := some "B", fields := [], methods := [], pos := none }]
  pos := none

theorem printable_nested : nested.Printable where
  functions := List.forall_mem_singleton.2
    { returnType := trivial
      name := isName_of_all rfl rfl rfl rfl
      params := List.forall_mem_singleton.2
        ⟨isName_of_all rfl rfl rfl rfl, isName_of_all rfl rfl rfl rfl⟩
      body := ⟨⟨.inr rfl, isName_of_all rfl rfl rfl rfl,
        ⟨⟨.inl (by decide), .inl (by decide)⟩, .inl (by decide),
          isName_of_all rfl rfl rfl rfl⟩, trivial⟩, trivial⟩ }
  classes := List.forall_mem_singleton.2
    { name := isName_of_all rfl rfl rfl rfl
      extends? := by
        rintro _ ⟨⟩
        exact isName_of_all rfl rfl rfl rfl
      fields := List.forall_mem_nil _
      methods := List.forall_mem_nil _ }

theorem parse_print_nested :
    nested.print = "int f ( A [ ] x ) \x7b return ( - 2147483648 ) . m ( 1 - 2 - ( 3 - x ) ) ; \x7d " ++
      "class A extends B \x7b \x7d " ∧
    ∃ q, (parse nested.print).toExcept = .ok q ∧ q.bare = nested.bare ∧ q.Printable ∧
      (sentence nested.print).length ≤ (sentence q.print).length := by
  obtain ⟨⟨q, hq, hbare⟩, hlength⟩ := parse_print.1 nested printable_nested
  have hprintable := parse_print.2 _ q hq
  obtain ⟨⟨r, hr, hbare'⟩, -⟩ := parse_print.1 q hprintable
  exact ⟨by decide, q, hq, hbare, hprintable, hlength _ r hr (hbare'.trans hbare)⟩

end ClassLang.Source
