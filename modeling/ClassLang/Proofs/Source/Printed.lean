import ClassLang.Proofs.Source.Bare
import ClassLang.Proofs.Source.Printing
/-!
# Source — printed programs are phrases

The tokens printed for a tree that can be read are a phrase that is written
for this tree (`Expr.printed`, `Stmt.printed`, `Program.printed`), and they can
be spelled (`Program.spellable`).
-/


namespace ClassLang.Source

open Token (Kind)

/-! ## Integers -/

/-- The digits of a number are read as the number. -/
theorem digitsValue_toString (n : Nat) : digitsValue (toString n) = n := by
  have hlist : (toString n).toList = Nat.toDigits 10 n := by simp [Nat.repr]
  rw [digitsValue, hlist]
  exact Nat.ofDigitChars_toDigits (b := 10) (by decide) (by decide)

/-- **An integer that is not negative** is read from the digits printed for it. -/
theorem literal?_toString {value : Int32} (h : 0 ≤ value) :
    literal? (toString value.toInt.natAbs) = some value := by
  have hnonneg : 0 ≤ value.toInt := Int32.le_iff_toInt_le.1 h
  have hlt : value.toInt < 2147483648 := value.toInt_lt
  have hvalue : Int32.ofNat value.toInt.natAbs = value := by
    rw [← Int32.toInt_inj, Int32.toInt_ofNat_of_lt (by omega)]
    omega
  unfold literal?
  simp only [digitsValue_toString]
  rw [if_pos (by omega), hvalue]

/-- No digits are read as a negative integer. -/
theorem literal?_nonneg {digits : String} {value : Int32} (h : literal? digits = some value) :
    0 ≤ value := by
  unfold literal? at h
  dsimp only at h
  split at h
  · cases h
    rw [Int32.le_iff_toInt_le, Int32.toInt_ofNat_of_lt (by omega)]
    simp
  · cases h

/-- A number has at least one digit. -/
theorem spellable_number (n : Nat) : (Kind.integer (toString n)).Spellable := by
  constructor
  · intro h
    have hlist : (toString n).toList = [] := by rw [h]; rfl
    simp [Nat.repr, Nat.toDigits_ne_nil] at hlist
  · intro c hc
    have hc : c ∈ Nat.toDigits 10 n := by simpa [Nat.repr] using hc
    exact Nat.isDigit_of_mem_toDigits (by decide) (by decide) hc

/-! ## Levels -/

/-- The tokens are the expression in every place that asks for no more than the
level. -/
structure Fits (level : Nat) (w : List Kind) (e : Expr) : Prop where
  binary : ∀ wanted ≤ level, BinaryPhrase wanted w e
  unary : UnaryOp.level ≤ level → UnaryPhrase w e
  suffixed : suffixedLevel ≤ level → PostfixPhrase w e

namespace Fits

variable {level : Nat} {w : List Kind} {e : Expr}

/-- What may have a suffix fits every place. -/
theorem of_suffixed (h : PostfixPhrase w e) : Fits level w e :=
  ⟨fun _ _ => .unary (.suffixed h), fun _ => .suffixed h, fun _ => h⟩

/-- What has an operator in front fits every place but in front of a suffix. -/
theorem of_unary (h : UnaryPhrase w e) : Fits UnaryOp.level w e :=
  ⟨fun _ _ => .unary h, fun _ => h, fun hlevel => absurd hlevel (by decide)⟩

/-- What has an operator inside fits where no stronger one is asked for. -/
theorem of_binary {op : BinaryOp} (h : BinaryPhrase op.level w e) : Fits op.level w e :=
  ⟨fun _ hle => h.weaken hle, fun hlevel => by cases op <;> exact absurd hlevel (by decide),
    fun hlevel => by cases op <;> exact absurd hlevel (by decide)⟩

/-- **Parentheses where they are wanted** let an expression stand in any place. -/
theorem enclosed (h : Fits level w e) (wanted : Nat) :
    Fits wanted (enclosed wanted level w) e := by
  unfold Source.enclosed
  split
  · exact of_suffixed (.atom (.parens (h.binary 0 (Nat.zero_le level))))
  next hlevel =>
    have hle : wanted ≤ level := Nat.le_of_not_lt hlevel
    exact ⟨fun _ h₁ => h.binary _ (Nat.le_trans h₁ hle), fun h₁ => h.unary (Nat.le_trans h₁ hle),
      fun h₁ => h.suffixed (Nat.le_trans h₁ hle)⟩

end Fits

/-! ## Expressions -/

/-- An integer is its digits; only the least one needs a sign in front. -/
theorem fits_int {m : Mark} {value : Int32} (h : 0 ≤ value ∨ value = Int32.minValue) :
    Fits (Expr.int m value).level (intKinds value) (.int m value) := by
  unfold intKinds Expr.level
  dsimp only
  by_cases hvalue : 0 ≤ value
  · rw [if_pos hvalue, if_pos hvalue]
    exact .of_suffixed (.atom (.int (literal?_toString hvalue)))
  · obtain rfl := h.resolve_left hvalue
    rw [if_neg hvalue, if_neg hvalue]
    exact .of_unary .least

/-- No arguments are the parentheses alone. -/
theorem ArgsPhrase.of_argList {args : List Expr}
    (h : args ≠ [] → ArgListPhrase (argKinds args ++ [.symbol .rparen]) args) :
    ArgsPhrase (.symbol .lparen :: (argKinds args ++ [.symbol .rparen])) args := by
  cases args with
  | nil => exact .nil
  | cons e rest => exact .list (h (List.cons_ne_nil _ _))

mutual

/-- **What is printed for an expression** is a phrase of the expression. -/
theorem Expr.printed : (e : Expr) → e.Printable → Fits e.level e.kinds e
  | .int _ _, h => fits_int h
  | .bool _ true, _ => .of_suffixed (.atom .true_)
  | .bool _ false, _ => .of_suffixed (.atom .false_)
  | .null _, _ => .of_suffixed (.atom .null)
  | .this _, _ => .of_suffixed (.atom .this)
  | .read m place, h => .of_suffixed (place.printed h m)
  | .arrayLength _ array, h =>
    .of_suffixed (.length (((array.printed h).enclosed _).suffixed (Nat.le_refl _)))
  | .unary _ op operand, h =>
    .of_unary (.unary op (((operand.printed h).enclosed _).unary (Nat.le_refl _)))
  | .binary _ op lhs rhs, ⟨hl, hr⟩ =>
    .of_binary (.binary op (Nat.le_refl _) (((lhs.printed hl).enclosed _).binary _ (Nat.le_refl _))
      (((rhs.printed hr).enclosed _).binary _ (Nat.le_refl _)))
  | .call _ _ args, ⟨_, hargs⟩ => .of_suffixed (.atom (.call (.of_argList (printed_argList args hargs))))
  | .methodCall _ receiver _ args, ⟨he, _, hargs⟩ => .of_suffixed
      (.call (((receiver.printed he).enclosed _).suffixed (Nat.le_refl _)) (.of_argList (printed_argList args hargs)))
  | .newObject _ _, _ => .of_suffixed (.atom .newObject)
  | .newArray _ elem size, ⟨_, hsize⟩ =>
    .of_suffixed (.atom (.newArray elem ((size.printed hsize).binary 0 (Nat.zero_le _))))

/-- **What is printed for a place** is a phrase of the expression that reads it. -/
theorem Place.printed : (place : Place) → place.Printable → ∀ m,
    PostfixPhrase place.kinds (.read m place)
  | .var _ _, _, _ => .atom .var
  | .field _ receiver _, ⟨he, _, hname⟩, _ =>
    .field (((receiver.printed he).enclosed _).suffixed (Nat.le_refl _)) hname
  | .index _ array index, ⟨he, hi⟩, _ =>
    .index (((array.printed he).enclosed _).suffixed (Nat.le_refl _))
      ((index.printed hi).binary 0 (Nat.zero_le _))

/-- Arguments are printed with commas between them. -/
theorem printed_argList : (args : List Expr) → PrintableArgs args → args ≠ [] →
    ArgListPhrase (argKinds args ++ [.symbol .rparen]) args
  | [], _, hne => absurd rfl hne
  | [e], ⟨he, _⟩, _ => .one ((e.printed he).binary 0 (Nat.zero_le _))
  | e :: next :: rest, ⟨he, hrest⟩, _ => by
    rw [argKinds, List.append_assoc, List.cons_append]
    exact .cons ((e.printed he).binary 0 (Nat.zero_le _))
      (printed_argList (next :: rest) hrest (List.cons_ne_nil _ _))

end

/-! ## Statements and declarations -/

mutual

/-- **What is printed for a statement** is a phrase of the statement. -/
theorem Stmt.printed : (s : Stmt) → s.Printable → StmtPhrase s.kinds s
  | .block _ (.mk stmts _), h => .block (.mk (printed_stmts stmts h))
  | .decl _ var, _ => .decl var
  | .assign _ target value, ⟨htarget, hvalue⟩ =>
    .assign (.unary (.suffixed (target.printed htarget .blank)))
      ((value.printed hvalue).binary 0 (Nat.zero_le _))
  | .expr _ value, h => .expr ((value.printed h).binary 0 (Nat.zero_le _))
  | .ifThen _ cond body, ⟨hcond, hbody⟩ =>
    .ifThen ((cond.printed hcond).binary 0 (Nat.zero_le _)) (body.printed hbody)
  | .ifElse _ cond yes no, ⟨hcond, hyes, hclosed, hno⟩ =>
    .ifElse ((cond.printed hcond).binary 0 (Nat.zero_le _)) (yes.printed hyes) hclosed
      (no.printed hno)
  | .loop _ cond body, ⟨hcond, hbody⟩ =>
    .loop ((cond.printed hcond).binary 0 (Nat.zero_le _)) (body.printed hbody)
  | .ret _ value, h => .ret ((value.printed h).binary 0 (Nat.zero_le _))

theorem printed_stmts : (stmts : List Stmt) → PrintableStmts stmts →
    StmtsPhrase (stmtKinds stmts) stmts
  | [], _ => .nil
  | s :: rest, ⟨hs, hrest⟩ => .cons (s.printed hs) (printed_stmts rest hrest)

end

/-- Phrases behind phrases. -/
theorem Phrases.append {α : Type} {R : List Kind → α → Prop} {u v : List Kind} {as bs : List α}
    (h : Phrases R u as) (h' : Phrases R v bs) : Phrases R (u ++ v) (as ++ bs) := by
  induction h with
  | nil => exact h'
  | cons ha _ ih =>
    rw [List.append_assoc, List.cons_append]
    exact .cons ha ih

/-- Printing one after the other. -/
theorem Phrases.flatMap {α β : Type} {R : List Kind → β → Prop} {print : α → List Kind}
    {mk : α → β} {as : List α} (h : ∀ a ∈ as, R (print a) (mk a)) :
    Phrases R (as.flatMap print) (as.map mk) := by
  induction as with
  | nil => exact .nil
  | cons a rest ih =>
    rw [List.forall_mem_cons] at h
    exact .cons h.1 (ih h.2)

/-- **What is printed for a function** is a phrase of the function. -/
theorem FunctionDecl.printed {f : FunctionDecl} (h : f.Printable) : FunctionPhrase f.kinds f := by
  obtain ⟨id, returnType, name, params, ⟨stmts, pos⟩, pos'⟩ := f
  exact .mk (.mk (printed_stmts stmts h.body))

/-- **What is printed for a class** is a phrase of the class: its fields come first, and
members of one kind keep their order. -/
theorem ClassDecl.printed {c : ClassDecl} (h : c.Printable) : ClassPhrase c.kinds c := by
  have hfields : Phrases MemberPhrase
      (c.fields.flatMap fun var => var.kinds ++ [.symbol .semicolon]) (c.fields.map .field) :=
    Phrases.flatMap fun var _ => .field var
  have hmethods : Phrases MemberPhrase (c.methods.flatMap FunctionDecl.kinds)
      (c.methods.map .method) :=
    Phrases.flatMap fun m hm => .method (FunctionDecl.printed (h.methods m hm))
  refine .mk (hfields.append hmethods) ?_ ?_
  · simp [List.filterMap_append, List.filterMap_map, Member.field?, Function.comp_def]
  · simp [List.filterMap_append, List.filterMap_map, Member.method?, Function.comp_def]

/-- The items of a program in the order in which they are printed. -/
def Program.items (p : Program) : List Item := p.functions.map .function ++ p.classes.map .class_

/-- A program is made of its items again. -/
theorem Program.ofItems_items (p : Program) : ofItems p.items p.pos = p := by
  obtain ⟨functions, classes, pos⟩ := p
  simp [ofItems, items, List.filterMap_append, List.filterMap_map, Item.function?, Item.class?,
    Function.comp_def]

/-- **What is printed for a program** is a phrase of its items. -/
theorem Program.printed {p : Program} (h : p.Printable) : Phrases ItemPhrase p.kinds p.items := by
  refine Phrases.append ?_ ?_
  · exact Phrases.flatMap fun f hf => .function (FunctionDecl.printed (h.functions f hf))
  · exact Phrases.flatMap fun c hc => .class_ (ClassDecl.printed (h.classes c hc))

/-! ## Spelling -/

/-- The tokens can be spelled. -/
def Spellable (w : List Kind) : Prop := ∀ k ∈ w, k.Spellable

@[simp] theorem spellable_nil : Spellable [] := List.forall_mem_nil _

@[simp] theorem spellable_cons {k : Kind} {w : List Kind} :
    Spellable (k :: w) ↔ k.Spellable ∧ Spellable w := List.forall_mem_cons

@[simp] theorem spellable_append {u v : List Kind} :
    Spellable (u ++ v) ↔ Spellable u ∧ Spellable v := List.forall_mem_append

@[simp] theorem spellable_keyword (k : Keyword) : (Kind.keyword k).Spellable := trivial

@[simp] theorem spellable_symbol (s : Symbol) : (Kind.symbol s).Spellable := trivial

@[simp] theorem spellable_ident {name : String} : (Kind.ident name).Spellable ↔ IsName name :=
  Iff.rfl

@[simp] theorem isName_length : IsName "length" := isName_of_all rfl rfl rfl rfl

/-- Parentheses add nothing that cannot be spelled. -/
theorem spellable_enclosed {wanted level : Nat} {w : List Kind} (h : Spellable w) :
    Spellable (enclosed wanted level w) := by
  unfold enclosed
  split
  · simp [h]
  · exact h

theorem spellable_intKinds (value : Int32) : Spellable (intKinds value) := by
  unfold intKinds
  dsimp only
  split
  · exact spellable_cons.2 ⟨spellable_number _, spellable_nil⟩
  · exact spellable_cons.2 ⟨trivial, spellable_cons.2 ⟨spellable_number _, spellable_nil⟩⟩

/-- A type can be spelled if the class that it names can. -/
theorem TypeExpr.spellable_base {ty : TypeExpr} (h : ty.Printable) : ty.base.Spellable := by
  induction ty with
  | int | bool => trivial
  | class_ name => exact h
  | array elem ih => exact ih h

theorem TypeExpr.spellable_pairs (ty : TypeExpr) : Spellable ty.pairs := by
  induction ty with
  | array elem ih => simp [pairs, ih]
  | _ => simp [pairs]

theorem VarDecl.spellable {var : VarDecl} (h : var.Printable) : Spellable var.kinds := by
  simp [kinds, TypeExpr.kinds, TypeExpr.spellable_base h.ty, TypeExpr.spellable_pairs, h.name]

mutual

/-- **An expression that can be read** is printed with tokens that can be spelled. -/
theorem Expr.spellable : (e : Expr) → e.Printable → Spellable e.kinds
  | .int _ value, _ => spellable_intKinds value
  | .bool _ _, _ | .null _, _ | .this _, _ => by simp [Expr.kinds]
  | .read _ place, h => place.spellable h
  | .arrayLength _ array, h => by simp [Expr.kinds, spellable_enclosed (array.spellable h)]
  | .unary _ _ operand, h => by simp [Expr.kinds, spellable_enclosed (operand.spellable h)]
  | .binary _ _ lhs rhs, ⟨hl, hr⟩ => by
    simp [Expr.kinds, spellable_enclosed (lhs.spellable hl), spellable_enclosed (rhs.spellable hr)]
  | .call _ _ args, ⟨hname, hargs⟩ => by simp [Expr.kinds, hname, spellable_args args hargs]
  | .methodCall _ receiver _ args, ⟨he, hname, hargs⟩ => by
    simp [Expr.kinds, hname, spellable_enclosed (receiver.spellable he), spellable_args args hargs]
  | .newObject _ name, (h : IsName name) => by simp [Expr.kinds, h]
  | .newArray _ elem size, ⟨helem, hsize⟩ => by
    simp [Expr.kinds, TypeExpr.spellable_base helem, TypeExpr.spellable_pairs,
      size.spellable hsize]

theorem Place.spellable : (place : Place) → place.Printable → Spellable place.kinds
  | .var _ name, (h : IsName name) => by simp [Place.kinds, h]
  | .field _ receiver _, ⟨he, hname, _⟩ => by
    simp [Place.kinds, hname, spellable_enclosed (receiver.spellable he)]
  | .index _ array index, ⟨he, hi⟩ => by
    simp [Place.kinds, spellable_enclosed (array.spellable he), index.spellable hi]

theorem spellable_args : (args : List Expr) → PrintableArgs args → Spellable (argKinds args)
  | [], _ => by simp [argKinds]
  | [e], ⟨he, _⟩ => by simp [argKinds, e.spellable he]
  | e :: next :: rest, ⟨he, hrest⟩ => by
    simp [argKinds, e.spellable he, spellable_args (next :: rest) hrest]

end

mutual

/-- **So is a statement.** -/
theorem Stmt.spellable : (s : Stmt) → s.Printable → Spellable s.kinds
  | .block _ (.mk stmts _), h => by simp [Stmt.kinds, spellable_stmts stmts h]
  | .decl _ var, h => by simp [Stmt.kinds, VarDecl.spellable h]
  | .assign _ target value, ⟨htarget, hvalue⟩ => by
    simp [Stmt.kinds, target.spellable htarget, value.spellable hvalue]
  | .expr _ value, h => by simp [Stmt.kinds, value.spellable h]
  | .ifThen _ cond body, ⟨hcond, hbody⟩ => by
    simp [Stmt.kinds, cond.spellable hcond, body.spellable hbody]
  | .ifElse _ cond yes no, ⟨hcond, hyes, _, hno⟩ => by
    simp [Stmt.kinds, cond.spellable hcond, yes.spellable hyes, no.spellable hno]
  | .loop _ cond body, ⟨hcond, hbody⟩ => by
    simp [Stmt.kinds, cond.spellable hcond, body.spellable hbody]
  | .ret _ value, h => by simp [Stmt.kinds, value.spellable h]

theorem spellable_stmts : (stmts : List Stmt) → PrintableStmts stmts → Spellable (stmtKinds stmts)
  | [], _ => by simp [stmtKinds]
  | s :: rest, ⟨hs, hrest⟩ => by simp [stmtKinds, s.spellable hs, spellable_stmts rest hrest]

end

theorem spellable_params {params : List VarDecl} (h : ∀ param ∈ params, param.Printable) :
    Spellable (paramKinds params) := by
  induction params with
  | nil => simp [paramKinds]
  | cons param rest ih =>
    rw [List.forall_mem_cons] at h
    cases rest with
    | nil => exact VarDecl.spellable h.1
    | cons next rest => simp [paramKinds, VarDecl.spellable h.1, ih h.2]

theorem spellable_flatMap {α : Type} {print : α → List Kind} {as : List α}
    (h : ∀ a ∈ as, Spellable (print a)) : Spellable (as.flatMap print) := by
  intro k hk
  obtain ⟨a, ha, hk⟩ := List.mem_flatMap.1 hk
  exact h a ha k hk

theorem FunctionDecl.spellable {f : FunctionDecl} (h : f.Printable) : Spellable f.kinds := by
  simp [kinds, TypeExpr.kinds, TypeExpr.spellable_base h.returnType, TypeExpr.spellable_pairs,
    h.name, spellable_params h.params, Block.kinds, spellable_stmts _ h.body]

/-- **So is a class**, with its superclass, its fields and its methods. -/
theorem ClassDecl.spellable {c : ClassDecl} (h : c.Printable) : Spellable c.kinds := by
  have hextends : Spellable (extendsKinds c.extends?) := by
    cases hsuper : c.extends? with
    | none => simp [extendsKinds]
    | some name => simp [extendsKinds, h.extends? name hsuper]
  have hfields : Spellable (c.fields.flatMap fun var => var.kinds ++ [.symbol .semicolon]) :=
    spellable_flatMap fun var hvar => by simp [VarDecl.spellable (h.fields var hvar)]
  have hmethods : Spellable (c.methods.flatMap FunctionDecl.kinds) :=
    spellable_flatMap fun m hm => FunctionDecl.spellable (h.methods m hm)
  simp [kinds, h.name, hextends, hfields, hmethods]

/-- **A program that can be read** is printed with tokens that can be spelled. -/
theorem Program.spellable {p : Program} (h : p.Printable) : Spellable p.kinds := by
  have hfunctions : Spellable (p.functions.flatMap FunctionDecl.kinds) :=
    spellable_flatMap fun f hf => FunctionDecl.spellable (h.functions f hf)
  have hclasses : Spellable (p.classes.flatMap ClassDecl.kinds) :=
    spellable_flatMap fun c hc => ClassDecl.spellable (h.classes c hc)
  simp [kinds, hfunctions, hclasses]

end ClassLang.Source
