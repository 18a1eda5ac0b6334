import ClassLang.Proofs.Source.Programs
import ClassLang.Proofs.Text.Positions
/-!
# Source — identities of all nodes

An identity is given once: the declarations, expressions and places of a program
that is read, or of what was read of it before an error, have identities of their
own, and a declaration that stands further on in the text has a greater one
(`identities_parse`).

What a routine reads is `Numbered` by the identities and the tokens it takes: it
gives the identities between those that are free in front of it and behind it,
and it meets its declarations in the order of its tokens.
-/


namespace ClassLang.Source

/-! ## What carries an identity -/

/-- The identity and the position of a variable. -/
def VarDecl.mark (v : VarDecl) : Mark := ⟨v.id, v.pos⟩

/-- A function, its parameters and its local variables. -/
def FunctionDecl.declared (f : FunctionDecl) : List Mark :=
  ⟨f.id, f.pos⟩ :: (f.params ++ f.body.varDecls).map VarDecl.mark

/-- A class, its fields, and its methods with what they declare. -/
def ClassDecl.declared (c : ClassDecl) : List Mark :=
  ⟨c.id, c.pos⟩ :: (c.fields.map VarDecl.mark ++ c.methods.flatMap (·.declared))

/-- All that a program declares: functions, classes and variables. -/
def Program.declared (p : Program) : List Mark :=
  p.functions.flatMap (·.declared) ++ p.classes.flatMap (·.declared)

/-- All identities in a program: those of what it declares and those of its
expressions and places. -/
def Program.ids (p : Program) : List NodeId := p.declared.map (·.id) ++ p.nodes

/-! ## What reading numbers -/

/-- Reading from one cursor to another gave these declarations and these other
nodes their identities. -/
structure Numbered (c c' : Cursor) (declared : List Mark) (nodes : List NodeId) : Prop where
  fresh : Fresh c.next c'.next (declared.map (·.id) ++ nodes)
  /-- In the order of their identities, the declarations stand at tokens taken one
  after the other. -/
  ordered : ∃ (ds : List Mark) (taken : List Located), ds.Perm declared ∧ c.tokens = taken ++ c'.tokens ∧
    ds.Pairwise (fun d d' => d.id < d'.id) ∧
    (ds.map (·.pos)).Sublist (taken.map fun t => some t.pos)

theorem Fresh.perm {lo hi : Nat} {ids ids' : List Nat} (h : Fresh lo hi ids) (hp : ids.Perm ids') :
    Fresh lo hi ids' :=
  ⟨h.le, hp.nodup_iff.1 h.nodup, fun id hid => h.range id (hp.mem_iff.2 hid)⟩

theorem Fresh.sublist {lo hi : Nat} {ids ids' : List Nat} (h : Fresh lo hi ids)
    (hs : ids'.Sublist ids) : Fresh lo hi ids' :=
  ⟨h.le, h.nodup.sublist hs, fun id hid => h.range id (hs.subset hid)⟩

namespace Numbered

variable {c c' c'' : Cursor} {ds ds' : List Mark} {ns ns' : List NodeId}

theorem perm (h : Numbered c c' ds ns) (hds : ds.Perm ds') (hns : ns.Perm ns') :
    Numbered c c' ds' ns' := by
  obtain ⟨es, taken, hperm, hrest⟩ := h.ordered
  exact ⟨h.fresh.perm ((hds.map _).append hns), es, taken, hperm.trans hds, hrest⟩

/-- Tokens that declare nothing. -/
theorem of_marked {marks : List Mark} (h : Marked c.next c'.next marks)
    (htokens : c'.tokens <:+ c.tokens) : Numbered c c' [] (marks.map (·.id)) := by
  obtain ⟨taken, htaken⟩ := htokens
  exact ⟨h.fresh, [], taken, .refl _, htaken.symm, .nil, List.nil_sublist _⟩

/-- Tokens that neither declare nor build anything. -/
theorem skip (h : c'.next = c.next) (htokens : c'.tokens <:+ c.tokens) : Numbered c c' [] [] :=
  of_marked (.nil (Nat.le_of_eq h.symm)) htokens

/-- **Reading in turn** numbers in turn. -/
theorem append (h : Numbered c c' ds ns) (h' : Numbered c' c'' ds' ns') :
    Numbered c c'' (ds ++ ds') (ns ++ ns') := by
  obtain ⟨es, taken, hperm, htokens, hids, hpos⟩ := h.ordered
  obtain ⟨es', taken', hperm', htokens', hids', hpos'⟩ := h'.ordered
  refine ⟨(h.fresh.append h'.fresh).perm ?_, es ++ es', taken ++ taken', hperm.append hperm', ?_,
    List.pairwise_append.2 ⟨hids, hids', fun d hd d' hd' => ?_⟩, ?_⟩
  · rw [List.map_append, List.append_assoc, List.append_assoc]
    exact (List.perm_append_comm_assoc _ _ _).append_left _
  · rw [htokens, htokens', List.append_assoc]
  · -- What was read first took its identities first.
    have hfirst := (h.fresh.range d.id (by simp [List.mem_map_of_mem (hperm.mem_iff.1 hd)])).2
    have hlast := (h'.fresh.range d'.id (by simp [List.mem_map_of_mem (hperm'.mem_iff.1 hd')])).1
    exact Nat.lt_of_lt_of_le hfirst hlast
  · rw [List.map_append, List.map_append]
    exact hpos.append hpos'

end Numbered

/-! ## Variables -/

theorem numbered_expect (kind : Token.Kind) (c : Cursor) :
    (c.expect kind).All fun _ c' => Numbered c c' [] [] :=
  fun s hs => .skip (all_expect kind c s hs) (leaves_expect kind c s hs)

/-- A name stands at the token that is taken for it. -/
theorem numbered_ident {c : Cursor} {id : NodeId} (hid : c.next = id + 1) :
    c.ident.All fun r c' => Numbered ⟨c.tokens, id⟩ c' [⟨id, some r.2⟩] [] := by
  unfold Cursor.ident
  split
  next name span pos rest next =>
    obtain rfl : next = id + 1 := hid
    exact .ok ⟨.singleton, _, [_], .refl _, rfl, List.pairwise_singleton _ _, .refl _⟩
  · exact .error _

theorem numbered_parseVarDecl (c : Cursor) :
    (parseVarDecl c).All fun var c' => Numbered c c' [var.mark] [] := by
  unfold parseVarDecl
  have htype : (parseType c).All fun _ c' => Numbered c c' [] [] := fun s hs =>
    .skip (all_parseType c s hs) (leaves_parseType c s hs)
  refine htype.bind fun ⟨ty, c₁, h₁⟩ hc₁ => ?_
  exact (numbered_ident (c := ⟨c₁.tokens, c₁.next + 1⟩) rfl).bind fun s hs => .pure (hc₁.append hs)

/-! ## Expressions and statements -/

theorem numbered_parseBinary (level : Nat) (c : Cursor) :
    (parseBinary level c).All fun e c' => Numbered c c' [] e.nodes := by
  intro s hs
  rw [← s.value.map_id_marks]
  exact .of_marked (marked_parseBinary level c s hs) (leaves_parseBinary level c s hs)

theorem numbered_parseClosed (close : Token.Kind) (c : Cursor) :
    (parseClosed close c).All fun e c' => Numbered c c' [] e.nodes := by
  intro s hs
  rw [← s.value.map_id_marks]
  exact .of_marked (marked_parseClosed close c s hs) (leaves_parseClosed close c s hs)

theorem numbered_parseCondition (c : Cursor) :
    (parseCondition c).All fun e c' => Numbered c c' [] e.nodes := by
  intro s hs
  rw [← s.value.map_id_marks]
  exact .of_marked (marked_parseCondition c s hs) (leaves_parseCondition c s hs)

theorem numbered_take {c : Cursor} {s : Step Located c.left} (h : c.take = some s) :
    Numbered c s.cursor [] [] := .skip (next_of_take h) (suffix_of_take h)

theorem numbered_take? {kind : Token.Kind} {c : Cursor} {s : Step Pos c.left}
    (h : c.take? kind = some s) : Numbered c s.cursor [] [] :=
  .skip (next_of_take? h) (suffix_of_take? h)

theorem numbered_parseSimple (c : Cursor) :
    (parseSimple c).All fun s c' => Numbered c c' (s.varDecls.map VarDecl.mark) s.nodes := by
  unfold parseSimple
  dsimp only
  split
  next =>
    refine (numbered_parseVarDecl c).bind fun ⟨var, c₁, h₁⟩ hvar => ?_
    exact (numbered_expect _ c₁).bind fun s hs => .pure (hvar.append hs)
  next =>
    refine (numbered_parseBinary 0 c).bind fun ⟨lhs, c₁, h₁⟩ hlhs => ?_
    dsimp only
    split
    next pos c₂ h₂ heq =>
      have hc₂ : Numbered c₁ c₂ [] [] := numbered_take? heq
      split
      next m target =>
        refine (numbered_parseClosed _ c₂).bind fun s hs => .pure ?_
        -- The expression that reads the place is dropped, and its identity with it.
        have htarget : Numbered c c₁ [] target.nodes :=
          ⟨hlhs.fresh.sublist (List.sublist_cons_self _ _), hlhs.ordered⟩
        exact htarget.append (hc₂.append hs)
      next => exact .error _
    next =>
      refine (numbered_expect _ c₁).bind fun s hs => .pure ?_
      show Numbered c s.cursor [] lhs.nodes
      simpa using hlhs.append hs

mutual

theorem numbered_parseStmt (c : Cursor) :
    (parseStmt c).All fun s c' => Numbered c c' (s.varDecls.map VarDecl.mark) s.nodes := by
  rw [parseStmt]
  split
  next => exact numbered_parseSimple c
  next t c₁ h₁ heq =>
    have hc₁ : Numbered c c₁ [] [] := numbered_take heq
    split
    next => exact (numbered_parseBlock c).bind fun ⟨⟨stmts, pos⟩, c', h'⟩ hs => .pure hs
    next =>
      refine (numbered_parseCondition c₁).bind fun ⟨cond, c₂, h₂⟩ hcond => ?_
      refine (numbered_parseStmt c₂).bind fun ⟨yes, c₃, h₃⟩ hyes => ?_
      have hthen := hc₁.append (hcond.append hyes)
      dsimp only
      split
      next pos c₄ h₄ heq =>
        have hc₄ : Numbered c₃ c₄ [] [] := numbered_take? heq
        refine (numbered_parseStmt c₄).bind fun s hno => .pure ?_
        have helse := hthen.append (hc₄.append hno)
        simpa [Step.map, Step.behind, Stmt.varDecls, Stmt.nodes] using helse
      next => exact .pure hthen
    next =>
      refine (numbered_parseCondition c₁).bind fun ⟨cond, c₂, h₂⟩ hcond => ?_
      exact (numbered_parseStmt c₂).bind fun s hs => .pure (hc₁.append (hcond.append hs))
    next => exact (numbered_parseClosed _ c₁).bind fun s hs => .pure (hc₁.append hs)
    next => exact numbered_parseSimple c
termination_by (c.left, 1)

theorem numbered_parseBlock (c : Cursor) :
    (parseBlock c).All fun b c' =>
      Numbered c c' (b.varDecls.map VarDecl.mark) (stmtNodes b.stmts) := by
  rw [parseBlock]
  refine (numbered_expect _ c).bind fun ⟨_, c₁, h₁⟩ hc₁ => ?_
  exact (numbered_parseStmts c₁).bind fun s hs => .pure (hc₁.append hs)
termination_by (c.left, 0)

theorem numbered_parseStmts (c : Cursor) :
    (parseStmts c).All fun stmts c' =>
      Numbered c c' ((listVarDecls stmts).map VarDecl.mark) (stmtNodes stmts) := by
  rw [parseStmts]
  split
  next closed hclosed => exact .pure (numbered_take? hclosed)
  next =>
    split
    · exact .error _
    · refine (numbered_parseStmt c).bind fun ⟨s, c₁, h₁⟩ hs => ?_
      refine (numbered_parseStmts c₁).bind fun rest hrest => .pure ?_
      have hall := hs.append hrest
      rwa [← List.map_append] at hall
termination_by (c.left, 2)

end

/-! ## Functions -/

theorem numbered_parseParamList (c : Cursor) :
    (parseParamList c).All fun params c' => Numbered c c' (params.map VarDecl.mark) [] := by
  rw [parseParamList]
  refine (numbered_parseVarDecl c).bind fun first hparam => ?_
  obtain ⟨param, c₁, h₁⟩ := first
  dsimp only
  split
  next pos c₂ h₂ heq =>
    have hc₂ : Numbered c₁ c₂ [] [] := numbered_take? heq
    exact (numbered_parseParamList c₂).bind fun s hs => .pure (hparam.append (hc₂.append hs))
  next => exact (numbered_expect _ c₁).bind fun s hs => .pure (hparam.append hs)
termination_by c.left

theorem numbered_parseParams (c : Cursor) :
    (parseParams c).All fun params c' => Numbered c c' (params.map VarDecl.mark) [] := by
  unfold parseParams
  refine (numbered_expect _ c).bind fun ⟨_, c₁, h₁⟩ hc₁ => ?_
  dsimp only
  split
  next closed hclosed => exact .pure (hc₁.append (numbered_take? hclosed))
  next => exact (numbered_parseParamList c₁).bind fun s hs => .pure (hc₁.append hs)

/-- The rest of a function numbers all it declares but its name. -/
theorem numbered_parseFunctionRest (heading : VarDecl) (c : Cursor) :
    (parseFunctionRest heading c).All fun f c' =>
      ∃ inner, f.declared = heading.mark :: inner ∧ Numbered c c' inner f.nodes := by
  unfold parseFunctionRest
  refine (numbered_parseParams c).bind fun ⟨params, c₁, h₁⟩ hparams => ?_
  refine (numbered_parseBlock c₁).bind fun s hbody => .pure ⟨_, rfl, ?_⟩
  have hall := hparams.append hbody
  rwa [← List.map_append] at hall

theorem numbered_parseFunction (c : Cursor) :
    (parseFunction c).All fun f c' => Numbered c c' f.declared f.nodes := by
  unfold parseFunction
  refine (numbered_parseVarDecl c).bind fun ⟨heading, c₁, h₁⟩ hheading => ?_
  refine (numbered_parseFunctionRest heading c₁).bind fun s ⟨inner, hdeclared, hinner⟩ => .pure ?_
  show Numbered c s.cursor s.value.declared s.value.nodes
  rw [hdeclared]
  exact hheading.append hinner

/-! ## Classes -/

/-- What a member declares. -/
def Member.declared : Member → List Mark
  | field v => [v.mark]
  | method f => f.declared

theorem numbered_parseMember (c : Cursor) :
    (parseMember c).All fun m c' => Numbered c c' m.declared m.nodes := by
  unfold parseMember
  refine (numbered_parseVarDecl c).bind fun ⟨heading, c₁, h₁⟩ hheading => ?_
  dsimp only
  split
  next =>
    refine (numbered_parseFunctionRest heading c₁).bind fun s ⟨inner, hdeclared, hinner⟩ => .pure ?_
    show Numbered c s.cursor s.value.declared s.value.nodes
    rw [hdeclared]
    exact hheading.append hinner
  next => exact (numbered_expect _ c₁).bind fun s hs => .pure (hheading.append hs)

theorem numbered_parseMembers (c : Cursor) :
    (parseMembers c).All fun ms c' =>
      Numbered c c' (ms.flatMap Member.declared) (ms.flatMap Member.nodes) := by
  rw [parseMembers]
  split
  next closed hclosed => exact .pure (numbered_take? hclosed)
  next =>
    split
    · exact .error _
    · refine (numbered_parseMember c).bind fun ⟨m, c₁, h₁⟩ hm => ?_
      exact (numbered_parseMembers c₁).bind fun rest hrest => .pure (hm.append hrest)
termination_by c.left

/-- A class lists its fields in front of its methods, however they are mixed in
the text. -/
theorem declared_members_perm (ms : List Member) :
    (ms.flatMap Member.declared).Perm ((ms.filterMap Member.field?).map VarDecl.mark ++
      (ms.filterMap Member.method?).flatMap (·.declared)) := by
  induction ms with
  | nil => exact .nil
  | cons m rest ih =>
    cases m with
    | field v => exact ih.cons _
    | method f => exact (ih.append_left _).trans (List.perm_append_comm_assoc _ _ _)

theorem numbered_parseExtends (c : Cursor) :
    (parseExtends c).All fun _ c' => Numbered c c' [] [] :=
  fun s hs => .skip (next_parseExtends c s hs) (leaves_parseExtends c s hs)

theorem numbered_parseClass (c : Cursor) :
    (parseClass c).All fun cls c' => Numbered c c' cls.declared (bodyNodes cls.methods) := by
  unfold parseClass
  refine (numbered_expect _ c).bind fun ⟨_, c₁, h₁⟩ hc₁ => ?_
  refine (numbered_ident (c := ⟨c₁.tokens, c₁.next + 1⟩) rfl).bind ?_
  rintro ⟨⟨name, pos⟩, c₃, h₃⟩ hname
  refine (numbered_parseExtends c₃).bind fun ⟨extends?, c₄, h₄⟩ hc₄ => ?_
  refine (numbered_expect _ c₄).bind fun ⟨_, c₅, h₅⟩ hc₅ => ?_
  refine (numbered_parseMembers c₅).bind fun ms hms => .pure ?_
  have hall := (hc₁.append hname).append (hc₄.append (hc₅.append hms))
  refine hall.perm ((declared_members_perm ms.value).cons _) ?_
  rw [← bodyNodes_filterMap]
  exact .refl _

/-! ## Programs -/

/-- What an item declares. -/
def Item.declared : Item → List Mark
  | function f => f.declared
  | class_ c => c.declared

theorem numbered_parseItem (c : Cursor) :
    (parseItem c).All fun item c' => Numbered c c' item.declared item.nodes := by
  unfold parseItem
  split
  next => exact (numbered_parseClass c).bind fun s hs => .pure hs
  next => exact (numbered_parseFunction c).bind fun s hs => .pure hs

/-- **The items that are read are numbered**, also where an error stops the
reading. -/
theorem numbered_parseItems (c : Cursor) : ∃ c', Numbered c c'
    ((parseItems c).1.flatMap Item.declared) ((parseItems c).1.flatMap Item.nodes) := by
  rw [parseItems]
  split
  · exact ⟨c, .skip rfl List.suffix_rfl⟩
  · split
    · exact ⟨c, .skip rfl List.suffix_rfl⟩
    next item c₁ h₁ heq =>
      have hitem : Numbered c c₁ item.declared item.nodes := numbered_parseItem c _ heq
      obtain ⟨c', hrest⟩ := numbered_parseItems c₁
      exact ⟨c', hitem.append hrest⟩
termination_by c.left

theorem declared_ofItems_perm (items : List Item) (pos : Option Pos) :
    (items.flatMap Item.declared).Perm (Program.ofItems items pos).declared := by
  unfold Program.declared Program.ofItems
  induction items with
  | nil => exact .nil
  | cons item rest ih =>
    cases item with
    | function f =>
      simp only [List.filterMap_cons, Item.function?, Item.class?, List.flatMap_cons, Item.declared,
        List.append_assoc]
      exact ih.append_left _
    | class_ c =>
      simp only [List.filterMap_cons, Item.function?, Item.class?, List.flatMap_cons, Item.declared]
      exact (ih.append_left _).trans (List.perm_append_comm_assoc _ _ _)

/-- Two declarations stand in a text in the order of their identities. -/
def Mark.InOrder (d d' : Mark) : Prop :=
  ∃ p p', d.pos = some p ∧ d'.pos = some p' ∧ (p.Before p' ↔ d.id < d'.id)

/-- Declarations met at tokens of a text, one after the other, stand in the order
of their identities. -/
theorem inOrder_of_sublist {ds : List Mark} {ts : List Located}
    (hts : ts.Pairwise fun t u => t.pos.Before u.pos) (hids : ds.Pairwise fun d d' => d.id < d'.id)
    (hpos : (ds.map (·.pos)).Sublist (ts.map fun t => some t.pos)) :
    ∀ d ∈ ds, ∀ d' ∈ ds, d.InOrder d' := by
  have hplaced : ∀ d ∈ ds, ∃ p, d.pos = some p := fun d hd => by
    obtain ⟨t, -, ht⟩ := List.mem_map.1 (hpos.subset (List.mem_map_of_mem hd))
    exact ⟨t.pos, ht.symm⟩
  have hbefore : ds.Pairwise fun d d' => ∀ p p', d.pos = some p → d'.pos = some p' → p.Before p' := by
    have hall : (ts.map fun t => some t.pos).Pairwise fun x y =>
        ∀ p p', x = some p → y = some p' → p.Before p' :=
      List.pairwise_map.2 (hts.imp fun h p p' hp hp' => by cases hp; cases hp'; exact h)
    exact List.pairwise_map.1 (hall.sublist hpos)
  have hall : ds.Pairwise fun d d' => d.InOrder d' ∧ d'.InOrder d := by
    refine (hbefore.and hids).imp_of_mem fun {d d'} hd hd' ⟨hpos, hid⟩ => ?_
    obtain ⟨p, hp⟩ := hplaced d hd
    obtain ⟨p', hp'⟩ := hplaced d' hd'
    have hfirst := hpos p p' hp hp'
    exact ⟨⟨p, p', hp, hp', iff_of_true hfirst hid⟩,
      p', p, hp', hp, iff_of_false hfirst.asymm (Nat.lt_asymm hid)⟩
  refine fun d hd d' hd' => List.Pairwise.forall_of_forall_of_flip (fun d hd => ?_)
    (hall.imp And.left) (hall.imp And.right) hd hd'
  obtain ⟨p, hp⟩ := hplaced d hd
  exact ⟨p, p, hp, hp, iff_of_false (fun h => h.asymm h) (Nat.lt_irrefl _)⟩

/-- **Identities tell the nodes of a program apart.** No two of its declarations,
expressions and places share one, and the declarations stand in the text in the
order of theirs; this holds of what was read before an error as well. -/
theorem identities_parse (source : String) :
    (parse source).program.ids.Nodup ∧
      ∀ d ∈ (parse source).program.declared, ∀ d' ∈ (parse source).program.declared,
        d.InOrder d' := by
  let c : Cursor := ⟨locate (Lines.ofString source) (lex source).tokens, 0⟩
  obtain ⟨c', hitems⟩ := numbered_parseItems c
  have hread : Numbered c c' (parse source).program.declared (parse source).program.nodes :=
    hitems.perm (declared_ofItems_perm _ _) (nodes_ofItems_perm _ _).symm
  refine ⟨hread.fresh.nodup, fun d hd d' hd' => ?_⟩
  obtain ⟨ds, taken, hperm, htokens, hids, hpos⟩ := hread.ordered
  have htaken : taken.Pairwise fun t u => t.pos.Before u.pos :=
    (List.pairwise_append.1 (htokens ▸ before_locate source : (taken ++ c'.tokens).Pairwise _)).1
  exact inOrder_of_sublist htaken hids hpos d (hperm.mem_iff.2 hd) d' (hperm.mem_iff.2 hd')

end ClassLang.Source
