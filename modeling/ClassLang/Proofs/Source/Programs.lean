import Mathlib.Algebra.GroupWithZero.Nat
import ClassLang.Proofs.Source.Reading
/-!
# Source — programs that are read

`sane_parse`: in a program that is read from a text, no two nodes share an
identity, every node has a position, and the variables of a function have
identities of their own.
-/


namespace ClassLang.Source

/-! ## Functions and classes -/

/-- The nodes in the body of a function have positions, and its variables
have identities of their own. -/
structure FunctionDecl.Sane (f : FunctionDecl) : Prop where
  placed : ∀ m ∈ stmtMarks f.body.stmts, m.pos.isSome
  vars : ((f.params ++ f.body.varDecls).map (·.id)).Nodup

/-- The identities of the nodes in a function were given between two
moments. -/
structure FunctionRead (lo hi : Nat) (f : FunctionDecl) : Prop where
  nodes : Fresh lo hi f.nodes
  sane : f.Sane

theorem fresh_parseParamList (c : Cursor) :
    (parseParamList c).All fun params c' => Fresh c.next c'.next (params.map (·.id)) := by
  rw [parseParamList]
  refine (all_parseVarDecl c).bind fun ⟨param, c₁, h₁⟩ hparam => ?_
  have hfirst : Fresh c.next c₁.next [param.id] := by
    rw [show c₁.next = c.next + 1 from hparam.2, show param.id = c.next from hparam.1]
    exact .singleton
  dsimp only
  split
  next pos c₂ h₂ heq =>
    have hc₂ : c₂.next = c₁.next := next_of_take? heq
    refine (fresh_parseParamList c₂).bind fun s hs => .pure ?_
    rw [hc₂] at hs
    exact hfirst.append hs
  next =>
    refine (all_expect _ c₁).bind fun s hs => .pure ?_
    show Fresh c.next s.cursor.next [param.id]
    rw [hs]
    exact hfirst
termination_by c.left

theorem fresh_parseParams (c : Cursor) :
    (parseParams c).All fun params c' => Fresh c.next c'.next (params.map (·.id)) := by
  unfold parseParams
  refine (all_expect _ c).bind ?_
  rintro ⟨_, c₁, h₁⟩ hc₁
  have hc₁ : c₁.next = c.next := hc₁
  dsimp only
  split
  next closed hclosed =>
    exact .pure (.nil (Nat.le_of_eq (hc₁.symm.trans (next_of_take? hclosed).symm)))
  next =>
    refine (fresh_parseParamList c₁).bind fun s hs => .pure ?_
    rwa [hc₁] at hs

theorem read_parseFunctionRest (heading : VarDecl) (c : Cursor) :
    (parseFunctionRest heading c).All fun f c' => FunctionRead c.next c'.next f := by
  unfold parseFunctionRest
  refine (fresh_parseParams c).bind fun ⟨params, c₁, h₁⟩ hparams => ?_
  refine (read_parseBlock c₁).bind fun ⟨body, c₂, h₂⟩ hbody => .pure ⟨?_, ?_, ?_⟩
  · have h := hbody.marked.fresh
    rw [map_id_stmtMarks] at h
    exact h.weaken hparams.le (Nat.le_refl _)
  · exact hbody.marked.placed
  · have h := (hparams.append hbody.vars).nodup
    rwa [← List.map_append] at h

theorem FunctionRead.weaken {lo lo' hi : Nat} {f : FunctionDecl} (h : FunctionRead lo hi f)
    (hlo : lo' ≤ lo) : FunctionRead lo' hi f := ⟨h.nodes.weaken hlo (Nat.le_refl _), h.sane⟩

theorem read_parseFunction (c : Cursor) :
    (parseFunction c).All fun f c' => FunctionRead c.next c'.next f := by
  unfold parseFunction
  refine (all_parseVarDecl c).bind fun ⟨heading, c₁, h₁⟩ hheading => ?_
  refine (read_parseFunctionRest heading c₁).bind fun s hs => .pure (hs.weaken ?_)
  exact (show c₁.next = c.next + 1 from hheading.2) ▸ Nat.le_succ _

/-- The nodes in a member. -/
def Member.nodes : Member → List NodeId
  | field _ => []
  | method f => f.nodes

/-- What reading members leaves behind. -/
structure MembersRead (lo hi : Nat) (ms : List Member) : Prop where
  nodes : Fresh lo hi (ms.flatMap Member.nodes)
  sane : ∀ f ∈ ms.filterMap Member.method?, f.Sane

theorem read_parseMember (c : Cursor) :
    (parseMember c).All fun m c' => MembersRead c.next c'.next [m] := by
  unfold parseMember
  refine (all_parseVarDecl c).bind fun ⟨heading, c₁, h₁⟩ hheading => ?_
  have hle : c.next ≤ c₁.next := (show c₁.next = c.next + 1 from hheading.2) ▸ Nat.le_succ _
  dsimp only
  split
  next =>
    refine (read_parseFunctionRest heading c₁).bind fun s hs => .pure ⟨?_, ?_⟩
    · have h := (hs.weaken hle).nodes
      simpa [Step.map, Step.behind, Member.nodes] using h
    · simpa [Step.map, Step.behind, Member.method?] using hs.sane
  next =>
    refine (all_expect _ c₁).bind fun s hs => .pure ⟨.nil ?_, by simp [Step.map, Step.behind, Member.method?]⟩
    exact Nat.le_trans hle (Nat.le_of_eq hs.symm)

theorem read_parseMembers (c : Cursor) :
    (parseMembers c).All fun ms c' => MembersRead c.next c'.next ms := by
  rw [parseMembers]
  split
  next closed hclosed =>
    exact .pure ⟨.nil (Nat.le_of_eq (next_of_take? hclosed).symm), by simp [Step.map]⟩
  next =>
    split
    · exact .error _
    · refine (read_parseMember c).bind fun ⟨m, c₁, h₁⟩ hm => ?_
      refine (read_parseMembers c₁).bind fun rest hrest => .pure ⟨?_, ?_⟩
      · have h := hm.nodes.append hrest.nodes
        rwa [← List.flatMap_append] at h
      · intro f hf
        have hf : f ∈ (m :: rest.value).filterMap Member.method? := hf
        rw [← List.singleton_append, List.filterMap_append, List.mem_append] at hf
        exact hf.elim (hm.sane f) (hrest.sane f)
termination_by c.left

theorem bodyNodes_filterMap (ms : List Member) :
    bodyNodes (ms.filterMap Member.method?) = ms.flatMap Member.nodes := by
  induction ms with
  | nil => rfl
  | cons m rest ih =>
    unfold bodyNodes at ih ⊢
    cases m <;> simp [List.filterMap_cons, Member.method?, Member.nodes, ih]

theorem next_parseExtends (c : Cursor) : (parseExtends c).All fun _ c' => c'.next = c.next := by
  unfold parseExtends
  split
  next pos c₁ h₁ heq =>
    have hc₁ : c₁.next = c.next := next_of_take? heq
    exact (all_ident c₁).bind fun s hs => .pure (hs.trans hc₁)
  next => exact .pure rfl

/-- What reading a class leaves behind. -/
structure ClassRead (lo hi : Nat) (c : ClassDecl) : Prop where
  nodes : Fresh lo hi (bodyNodes c.methods)
  sane : ∀ f ∈ c.methods, f.Sane

theorem read_parseClass (c : Cursor) :
    (parseClass c).All fun cls c' => ClassRead c.next c'.next cls := by
  unfold parseClass
  refine (all_expect _ c).bind ?_
  rintro ⟨_, c₁, h₁⟩ hc₁
  have hc₁ : c₁.next = c.next := hc₁
  refine (all_ident ⟨c₁.tokens, c₁.next + 1⟩).bind ?_
  rintro ⟨⟨name, pos⟩, c₃, h₃⟩ hc₃
  have hc₃ : c₃.next = c₁.next + 1 := hc₃
  refine (next_parseExtends c₃).bind ?_
  rintro ⟨extends?, c₄, h₄⟩ hc₄
  have hc₄ : c₄.next = c₃.next := hc₄
  refine (all_expect _ c₄).bind ?_
  rintro ⟨_, c₅, h₅⟩ hc₅
  have hc₅ : c₅.next = c₄.next := hc₅
  refine (read_parseMembers c₅).bind fun ms hms => .pure ⟨?_, hms.sane⟩
  have hle : c.next ≤ c₅.next := by
    rw [hc₅, hc₄, hc₃, hc₁]
    exact Nat.le_succ _
  have h := hms.nodes.weaken hle (Nat.le_refl _)
  rwa [← bodyNodes_filterMap] at h

/-! ## Programs -/

/-- The nodes in an item. -/
def Item.nodes : Item → List NodeId
  | function f => f.nodes
  | class_ c => bodyNodes c.methods

/-- The functions and methods in an item. -/
def Item.bodies : Item → List FunctionDecl
  | function f => [f]
  | class_ c => c.methods

/-- What reading items leaves behind. -/
structure ItemsRead (lo hi : Nat) (items : List Item) : Prop where
  nodes : Fresh lo hi (items.flatMap Item.nodes)
  sane : ∀ item ∈ items, ∀ f ∈ item.bodies, f.Sane

theorem read_parseItem (c : Cursor) :
    (parseItem c).All fun item c' => ItemsRead c.next c'.next [item] := by
  unfold parseItem
  split
  next =>
    refine (read_parseClass c).bind fun s hs => .pure ⟨?_, ?_⟩
    · simpa [Step.map, Item.nodes] using hs.nodes
    · simpa [Step.map, Item.bodies] using hs.sane
  next =>
    refine (read_parseFunction c).bind fun s hs => .pure ⟨?_, ?_⟩
    · simpa [Step.map, Item.nodes] using hs.nodes
    · simpa [Step.map, Item.bodies] using hs.sane

theorem read_parseItems (c : Cursor) : ∃ hi, ItemsRead c.next hi (parseItems c).1 := by
  rw [parseItems]
  split
  · exact ⟨c.next, .nil (Nat.le_refl _), by simp⟩
  · split
    · exact ⟨c.next, .nil (Nat.le_refl _), by simp⟩
    next item c₁ h₁ heq =>
      have hitem : ItemsRead c.next c₁.next [item] := read_parseItem c _ heq
      obtain ⟨hi, hrest⟩ := read_parseItems c₁
      refine ⟨hi, ?_, ?_⟩
      · have h := hitem.nodes.append hrest.nodes
        rwa [← List.flatMap_append] at h
      · exact List.forall_mem_cons.2 ⟨hitem.sane item List.mem_cons_self, hrest.sane⟩
termination_by c.left

theorem nodes_ofItems_perm (items : List Item) (pos : Option Pos) :
    (Program.ofItems items pos).nodes.Perm (items.flatMap Item.nodes) := by
  unfold Program.nodes Program.ofItems bodyNodes
  induction items with
  | nil => exact .nil
  | cons item rest ih =>
    cases item with
    | function f =>
      simp only [List.filterMap_cons, Item.function?, Item.class?, List.flatMap_cons, Item.nodes,
        List.append_assoc]
      exact ih.append_left _
    | class_ c =>
      simp only [List.filterMap_cons, Item.function?, Item.class?, List.flatMap_cons, Item.nodes]
      exact List.perm_append_comm_assoc _ _ _ |>.trans (ih.append_left _)

/-- No two nodes of a program share an identity, every node has a
position, and the variables of a function have identities of their own. -/
structure Program.Sane (p : Program) : Prop where
  nodes : p.nodes.Nodup
  functions : ∀ f ∈ p.functions, f.Sane
  methods : ∀ c ∈ p.classes, ∀ m ∈ c.methods, m.Sane

/-- **Programs that are read are sane.** -/
theorem sane_parse {source : String} {p : Program} (h : (parse source).toExcept = .ok p) :
    p.Sane := by
  obtain rfl := eq_program_of_read h
  obtain ⟨hi, hread⟩ :=
    read_parseItems ⟨locate (Lines.ofString source) (lex source).tokens, 0⟩
  refine ⟨(nodes_ofItems_perm _ _).nodup_iff.2 hread.nodes.nodup, fun f hf => ?_,
    fun c hc m hm => ?_⟩
  · obtain ⟨item, hitem, heq⟩ := List.mem_filterMap.1 hf
    cases item with
    | function g =>
      obtain rfl := Option.some.inj heq
      exact hread.sane _ hitem g (List.mem_singleton.2 rfl)
    | class_ c => cases heq
  · obtain ⟨item, hitem, heq⟩ := List.mem_filterMap.1 hc
    cases item with
    | function g => cases heq
    | class_ c' =>
      obtain rfl := Option.some.inj heq
      exact hread.sane _ hitem m hm

/-! ## How much a text declares -/

/-- How many fields and methods a class declares. -/
def ClassDecl.memberCount (c : ClassDecl) : Nat := c.fields.length + c.methods.length

/-- How many fields and methods the classes of a program declare. -/
def Program.memberCount (p : Program) : Nat := (p.classes.map (·.memberCount)).sum

theorem left_parseVarDecl (c : Cursor) :
    (parseVarDecl c).All fun _ c' => c'.left + 2 ≤ c.left := by
  unfold parseVarDecl
  refine (all_parseType c).bind ?_
  rintro ⟨ty, c₁, h₁⟩ -
  refine (all_ident ⟨c₁.tokens, c₁.next + 1⟩).bind fun s _ => .pure ?_
  have h₂ : s.cursor.left < c₁.left := s.lt
  show s.cursor.left + 2 ≤ c.left
  omega

/-- A member takes three tokens at least. -/
theorem left_parseMember (c : Cursor) :
    (parseMember c).All fun _ c' => c'.left + 3 ≤ c.left := by
  unfold parseMember
  refine (left_parseVarDecl c).bind fun ⟨heading, c₁, h₁⟩ hleft => ?_
  have hleft : c₁.left + 2 ≤ c.left := hleft
  dsimp only
  split
  next =>
    refine (read_parseFunctionRest heading c₁).bind fun s _ => .pure ?_
    have h₂ := s.lt
    show s.cursor.left + 3 ≤ c.left
    omega
  next =>
    refine (all_expect _ c₁).bind fun s _ => .pure ?_
    have h₂ := s.lt
    show s.cursor.left + 3 ≤ c.left
    omega

theorem left_parseMembers (c : Cursor) :
    (parseMembers c).All fun ms c' => c'.left + 3 * ms.length ≤ c.left := by
  rw [parseMembers]
  split
  next closed hclosed =>
    refine .pure ?_
    have h := closed.lt
    show closed.cursor.left + 3 * 0 ≤ c.left
    omega
  next =>
    split
    · exact .error _
    · refine (left_parseMember c).bind ?_
      rintro ⟨m, c₁, h₁⟩ hm
      have hm : c₁.left + 3 ≤ c.left := hm
      refine (left_parseMembers c₁).bind fun rest hrest => .pure ?_
      show rest.cursor.left + 3 * (m :: rest.value).length ≤ c.left
      rw [List.length_cons]
      omega
termination_by c.left

theorem length_members (ms : List Member) :
    (ms.filterMap Member.field?).length + (ms.filterMap Member.method?).length = ms.length := by
  induction ms with
  | nil => rfl
  | cons m rest ih =>
    cases m <;> simp only [List.filterMap_cons, Member.field?, Member.method?, List.length_cons] <;>
      omega

theorem left_parseClass (c : Cursor) :
    (parseClass c).All fun cls c' => c'.left + 3 * cls.memberCount ≤ c.left := by
  unfold parseClass
  refine (all_expect _ c).bind ?_
  rintro ⟨_, c₁, h₁⟩ -
  refine (all_ident ⟨c₁.tokens, c₁.next + 1⟩).bind ?_
  rintro ⟨⟨name, pos⟩, c₃, h₃⟩ -
  refine (next_parseExtends c₃).bind ?_
  rintro ⟨extends?, c₄, h₄⟩ -
  refine (all_expect _ c₄).bind ?_
  rintro ⟨_, c₅, h₅⟩ -
  refine (left_parseMembers c₅).bind fun ms hms => .pure ?_
  have hcount := length_members ms.value
  have h₃ : c₃.left < c₁.left := h₃
  show ms.cursor.left + 3 * ((ms.value.filterMap Member.field?).length +
    (ms.value.filterMap Member.method?).length) ≤ c.left
  omega

theorem left_parseItems (c : Cursor) :
    3 * (((parseItems c).1.filterMap Item.class?).map (·.memberCount)).sum ≤ c.left := by
  rw [parseItems]
  split
  · simp
  · split
    · simp
    next item c₁ h₁ heq =>
      have hrest := left_parseItems c₁
      have hitem : c₁.left + 3 * (([item].filterMap Item.class?).map (·.memberCount)).sum ≤
          c.left := by
        unfold parseItem at heq
        split at heq
        next =>
          cases hc : parseClass c with
          | error e => rw [hc] at heq; cases heq
          | ok s =>
            rw [hc] at heq
            cases heq
            simpa [Item.class?] using left_parseClass c s hc
        next =>
          cases hf : parseFunction c with
          | error e => rw [hf] at heq; cases heq
          | ok s =>
            rw [hf] at heq
            cases heq
            exact Nat.le_of_lt s.lt
      have hsum : (((item :: (parseItems c₁).1).filterMap Item.class?).map
          (·.memberCount)).sum = (([item].filterMap Item.class?).map (·.memberCount)).sum +
            (((parseItems c₁).1.filterMap Item.class?).map (·.memberCount)).sum := by
        rw [← List.singleton_append, List.filterMap_append, List.map_append, List.sum_append]
      rw [hsum]
      omega
termination_by c.left

theorem length_drain_le (s : Scanner) : s.drain.1.length ≤ s.remaining := by
  rw [Scanner.drain]
  split
  next => simp
  next t s' hnext =>
    have hlt := Scanner.remaining_lt_of_next hnext
    have hrest := length_drain_le s'
    simp only [List.length_cons]
    omega
termination_by s.remaining
decreasing_by exact hlt

theorem length_le_size_utf8Encode (cs : List Char) : cs.length ≤ cs.utf8Encode.size := by
  induction cs with
  | nil => simp
  | cons c cs ih =>
    have hpos : 0 < (String.utf8EncodeChar c).length :=
      List.length_pos_iff.2 String.utf8EncodeChar_ne_nil
    rw [List.utf8Encode_cons, ByteArray.size_append, List.utf8Encode_singleton,
      List.size_toByteArray, List.length_cons]
    omega

/-- A text has no more tokens than bytes, apart from the end of the file. -/
theorem length_lex_le (source : String) : (lex source).tokens.length ≤ source.utf8ByteSize + 1 := by
  have h := length_drain_le (Scanner.ofString source)
  have hchars := length_le_size_utf8Encode source.toList
  rw [String.utf8Encode_toList, String.size_toByteArray] at hchars
  exact Nat.le_trans h (Nat.succ_le_succ hchars)

/-- **A text declares fewer members than it has bytes**: three times as many
at least. -/
theorem memberCount_parse_le {source : String} {p : Program}
    (h : (parse source).toExcept = .ok p) : 3 * p.memberCount ≤ source.utf8ByteSize + 1 := by
  obtain rfl := eq_program_of_read h
  have hitems := left_parseItems ⟨locate (Lines.ofString source) (lex source).tokens, 0⟩
  have hlex := length_lex_le source
  have hleft : (⟨locate (Lines.ofString source) (lex source).tokens, 0⟩ : Cursor).left =
      (lex source).tokens.length := by simp [Cursor.left, locate]
  rw [hleft] at hitems
  exact Nat.le_trans hitems hlex

/-! ## Characters -/

/-- What is read of the characters of a text. -/
def parseChars (cs : List Char) : Parsed :=
  let (tokens, last) := Scanner.drain (Scanner.ofChars cs)
  let lines := Lines.ofChars cs
  let c : Cursor := ⟨locate lines tokens, 0⟩
  let (items, error?) := parseItems c
  ⟨.ofItems items c.pos, error? <|> last.errors.head?.map (ParseError.ofLexError lines)⟩

/-- **A text is read by its characters.** Those of a literal are at hand, so they
need not be decoded where a given text is read. -/
theorem parse_eq_of_chars (source : String) {cs : List Char} (h : source.toList = cs) :
    parse source = parseChars cs := by
  subst h
  rfl

/-- The characters of two literals, one behind the other. -/
theorem toList_ofList_append (cs ds : List Char) :
    (String.ofList cs ++ String.ofList ds).toList = cs ++ ds := by
  rw [String.toList_append, String.toList_ofList, String.toList_ofList]

end ClassLang.Source
