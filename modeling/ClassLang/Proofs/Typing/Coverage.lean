import ClassLang.Proofs.Source.Parts
import ClassLang.Proofs.Typing.Bodies
import ClassLang.Proofs.Typing.Scoping
/-!
# Typing — every part is checked

Checking a tree checks each of its parts by itself, and afterwards nothing more
is noted of the nodes of that part (`Check.Covers.checkExpr`). In a program
without errors every part of every body is checked where nothing is wrong, with
what the rules say is in scope (`checked_analyze`). So a fact about the check of
one expression or place is a fact about the analysis of the whole program.
-/


namespace ClassLang.Typing

open Source (NodeId TypeExpr Mark Expr Place Part Stmt Block VarDecl FunctionDecl ClassDecl Program)

/-! ## Expressions -/

/-- Checks an expression or a place; its type. -/
def checkPart (ctx : Context) (scope : Scope) (outer : Pos) : Part → Check Ty
  | .expr e => checkExpr ctx scope outer e
  | .place pl => checkPlace ctx scope outer pl

theorem within_checkPart (ctx : Context) (scope : Scope) (outer : Pos) : (part : Part) →
    Check.Within part.nodes (checkPart ctx scope outer part)
  | .expr e => .checkExpr ctx scope outer e
  | .place pl => .checkPlace ctx scope outer pl

/-- Between two findings the part was checked, and nothing was noted of its
nodes since. -/
inductive Visited (ctx : Context) (scope : Scope) (f f' : Findings) (part : Part) : Prop
  | intro (outer : Pos) (f₁ : Findings) (nodes nodes' : List NodeId) : Findings.Grows nodes f f₁ →
      Findings.Grows nodes' ((checkPart ctx scope outer part).run f₁).2 f' →
      (∀ id ∈ part.nodes, id ∉ nodes') → Visited ctx scope f f' part

/-- The check checks each of the parts. -/
def Check.Covers {α : Type} (ctx : Context) (scope : Scope) (parts : List Part) (x : Check α) :
    Prop :=
  ∀ f, ∀ part ∈ parts, Visited ctx scope f (x.run f).2 part

/-- The nodes are those of the parts, and of the parts in these. -/
def Span (parts : List Part) (nodes : List NodeId) : Prop :=
  ∀ part ∈ parts, part.nodes ⊆ nodes

theorem span_of_sublist {parts : List Part} {nodes : List NodeId} (hids : parts.map Part.id = nodes)
    (h : ∀ part ∈ parts, part.parts.Sublist parts) : Span parts nodes := fun part hpart => by
  rw [← part.map_id_parts, ← hids]
  exact ((h part hpart).map Part.id).subset

theorem span_expr (e : Expr) : Span e.parts e.nodes :=
  span_of_sublist e.map_id_parts e.parts_sublist

theorem span_place (place : Place) : Span place.parts place.nodes :=
  span_of_sublist place.map_id_parts place.parts_sublist

theorem span_args (args : List Expr) : Span (Source.argParts args) (Source.argNodes args) :=
  span_of_sublist (Source.map_id_argParts args) (Source.argParts_sublist args)

theorem Span.append {parts parts' : List Part} {nodes nodes' : List NodeId} (h : Span parts nodes)
    (h' : Span parts' nodes') : Span (parts ++ parts') (nodes ++ nodes') := fun part hpart =>
  (List.mem_append.1 hpart).elim (fun hpart => List.subset_append_of_subset_left _ (h part hpart))
    fun hpart => List.subset_append_of_subset_right _ (h' part hpart)

namespace Check.Covers

variable {α β : Type} {ctx : Context} {scope : Scope} {parts parts' : List Part}
variable {nodes nodes' : List NodeId} {x : Check α} {k : α → Check β}

theorem nil : Covers ctx scope [] x := fun _ _ h => by cases h

theorem append (h : Covers ctx scope parts x) (h' : Covers ctx scope parts' x) :
    Covers ctx scope (parts ++ parts') x := fun f part hpart =>
  (List.mem_append.1 hpart).elim (h f part) (h' f part)

/-- Checking a part checks that part. -/
theorem self (outer : Pos) {part : Part} (h : Covers ctx scope parts (checkPart ctx scope outer part)) :
    Covers ctx scope (part :: parts) (checkPart ctx scope outer part) := fun f =>
  List.forall_mem_cons.2 ⟨.intro outer f [] [] (.refl f) (.refl _) (by simp), h f⟩

/-- Nothing is noted of the parts by what comes after them. -/
theorem before (hx : Covers ctx scope parts x) (hspan : Span parts nodes)
    (hk : ∀ a, Within nodes' (k a)) (hoff : ∀ id ∈ nodes, id ∉ nodes') :
    Covers ctx scope parts (x >>= k) := fun f part hpart => by
  obtain ⟨outer, f₁, ns, ns', hbefore, hafter, hout⟩ := hx f part hpart
  refine .intro outer f₁ ns (ns' ++ nodes') hbefore
    ((hafter.weaken (List.subset_append_left _ _)).trans
      ((hk _ _).weaken (List.subset_append_right _ _))) fun id hid => ?_
  rw [List.mem_append, not_or]
  exact ⟨hout id hid, hoff id (hspan part hpart hid)⟩

theorem silent (hx : Covers ctx scope parts x) (hk : ∀ a, Within [] (k a)) :
    Covers ctx scope parts (x >>= k) := by
  have hspan : Span parts (parts.flatMap Part.nodes) := fun part hpart id hid =>
    List.mem_flatMap.2 ⟨part, hpart, hid⟩
  exact hx.before hspan hk (by simp)

theorem behind (hx : Within nodes x) (hk : ∀ a, Covers ctx scope parts (k a)) :
    Covers ctx scope parts (x >>= k) := fun f part hpart => by
  obtain ⟨outer, f₁, ns, ns', hbefore, hafter, hout⟩ := hk _ _ part hpart
  exact .intro outer f₁ (nodes ++ ns) ns'
    (((hx f).weaken (List.subset_append_left _ _)).trans
      (hbefore.weaken (List.subset_append_right _ _))) hafter hout

theorem typed {m : Mark} {outer : Pos} {infer : Pos → Check Ty} (hspan : Span parts nodes)
    (hm : m.id ∉ nodes) (h : ∀ here, Covers ctx scope parts (infer here)) :
    Covers ctx scope parts (typed m outer infer) := by
  have hnote (ty : Ty) : Within [m.id] (do
      noteType m.id ty
      return ty) :=
    .bind (.noteType (List.mem_singleton.2 rfl) _) fun _ => .pure _
  exact (h (m.pos.getD outer)).before hspan hnote fun id hid heq =>
    hm (List.mem_singleton.1 heq ▸ hid)

variable (ctx)

mutual

/-- **Checking an expression checks all its parts.** -/
theorem checkExpr (scope : Scope) (outer : Pos) : (e : Expr) → e.nodes.Nodup →
    Covers ctx scope e.parts (checkExpr ctx scope outer e)
  | .int _ _, _ | .bool _ _, _ | .null _, _ | .this _, _ | .newObject _ _, _ => .self outer .nil
  | .read m place, hnodup => by
    rw [Expr.nodes, List.nodup_cons] at hnodup
    refine .self outer ?_
    rw [checkPart, Typing.checkExpr]
    exact .typed (span_place place) hnodup.1 fun here => checkPlace scope here place hnodup.2
  | .arrayLength m array, hnodup => by
    rw [Expr.nodes, List.nodup_cons] at hnodup
    refine .self outer ?_
    rw [checkPart, checkExpr_arrayLength]
    exact .typed (span_expr array) hnodup.1 fun here =>
      (checkExpr scope here array hnodup.2).silent fun _ => .lengthFound _ _
  | .unary m op operand, hnodup => by
    rw [Expr.nodes, List.nodup_cons] at hnodup
    refine .self outer ?_
    rw [checkPart, Typing.checkExpr]
    exact .typed (span_expr operand) hnodup.1 fun here =>
      (checkExpr scope here operand hnodup.2).silent fun _ =>
        .bind (.require ctx _ _ _) fun _ => .pure _
  | .binary m op lhs rhs, hnodup => by
    rw [Expr.nodes, List.nodup_cons, List.nodup_append'] at hnodup
    obtain ⟨hm, hl, hr, hdisj⟩ := hnodup
    refine .self outer ?_
    rw [checkPart, Typing.checkExpr]
    refine .typed ((span_expr lhs).append (span_expr rhs)) hm fun here => ?_
    split
    -- Identities are distinct, so what the right operand notes leaves the left one alone.
    · refine .append ((checkExpr scope here lhs hl).before (span_expr lhs) (fun _ => ?_) hdisj)
        (.behind (.checkExpr ctx _ _ _) fun _ => .behind (.require ctx _ _ _ : Within [] _)
          fun _ => (checkExpr scope here rhs hr).silent fun _ => ?_)
      · exact .bind (.require ctx _ _ _) fun _ => .bind (.checkExpr ctx _ _ _) fun _ =>
          .bind (.require ctx _ _ _) fun _ => .pure _
      · exact .bind (.require ctx _ _ _) fun _ => .pure _
    · exact .append ((checkExpr scope here lhs hl).before (span_expr lhs) (fun _ =>
          .bind (.checkExpr ctx _ _ _) fun _ => .comparableFound ctx _ _ _) hdisj)
        (.behind (.checkExpr ctx _ _ _) fun _ => (checkExpr scope here rhs hr).silent
          fun _ => .comparableFound ctx _ _ _)
  | .call m name args, hnodup => by
    rw [Expr.nodes, List.nodup_cons] at hnodup
    have hoff : ∀ id ∈ Source.argNodes args, id ∉ [m.id] := fun id hid heq =>
      hnodup.1 (List.mem_singleton.1 heq ▸ hid)
    refine .self outer ?_
    rw [checkPart, checkExpr_call]
    exact .typed (span_args args) hnodup.1 fun here =>
      (checkArgs scope here args hnodup.2).before (span_args args)
        (fun _ => .callFound ctx (List.mem_singleton.2 rfl) _ _ _) hoff
  | .methodCall m receiver method args, hnodup => by
    rw [Expr.nodes, List.nodup_cons, List.nodup_append', List.mem_append, not_or] at hnodup
    obtain ⟨⟨hmr, hma⟩, hr, ha, hdisj⟩ := hnodup
    -- The call is noted last, at the node of the call, which is none of its parts.
    have hoff {ids : List NodeId} (hm : m.id ∉ ids) : ∀ id ∈ ids, id ∉ [m.id] :=
      fun id hid heq => hm (List.mem_singleton.1 heq ▸ hid)
    have hlast (here : Pos) (tys : List (Option Pos × Ty)) (found : Ty) :
        Within [m.id] (methodFound ctx m here method tys found) :=
      .methodFound ctx (List.mem_singleton.2 rfl) _ _ _ _
    refine .self outer ?_
    rw [checkPart, checkExpr_methodCall]
    refine .typed ((span_expr receiver).append (span_args args))
      (by rw [List.mem_append, not_or]; exact ⟨hmr, hma⟩) fun here => .append ?_ ?_
    · refine (checkExpr scope here receiver hr).before (span_expr receiver)
        (fun _ => (?_ : Within (Source.argNodes args ++ [m.id]) _)) fun id hid hmem => ?_
      · exact .bind ((Within.checkArgs ctx _ _ _).weaken (by simp)) fun _ =>
          (hlast _ _ _).weaken (by simp)
      · rcases List.mem_append.1 hmem with hmem | hmem
        · exact hdisj hid hmem
        · exact hoff hmr id hid hmem
    · exact .behind (.checkExpr ctx _ _ _) fun _ => (checkArgs scope here args ha).before
        (span_args args) (fun _ => hlast _ _ _) (hoff hma)
  | .newArray m elem size, hnodup => by
    rw [Expr.nodes, List.nodup_cons] at hnodup
    refine .self outer ?_
    rw [checkPart, Typing.checkExpr]
    exact .typed (span_expr size) hnodup.1 fun here =>
      (checkExpr scope here size hnodup.2).silent fun _ => .bind (.require ctx _ _ _) fun _ =>
        .bind (.resolveReported ctx _ _ _) fun _ => .arrayOf _

/-- **Checking a place checks all its parts.** -/
theorem checkPlace (scope : Scope) (outer : Pos) : (place : Place) → place.nodes.Nodup →
    Covers ctx scope place.parts (checkPlace ctx scope outer place)
  | .var m name, _ => .self outer .nil
  | .field m receiver name, hnodup => by
    rw [Place.nodes, List.nodup_cons] at hnodup
    refine .self outer ?_
    rw [checkPart, checkPlace_field]
    exact .typed (span_expr receiver) hnodup.1 fun here =>
      (checkExpr scope here receiver hnodup.2).before (span_expr receiver)
        (fun _ => .fieldFound ctx (List.mem_singleton.2 rfl) _ _ _)
        fun id hid heq => hnodup.1 (List.mem_singleton.1 heq ▸ hid)
  | .index m array index, hnodup => by
    rw [Place.nodes, List.nodup_cons, List.nodup_append'] at hnodup
    obtain ⟨hm, ha, hi, hdisj⟩ := hnodup
    refine .self outer ?_
    rw [checkPart, checkPlace_index]
    refine .typed ((span_expr array).append (span_expr index)) hm fun here => .append
        ((checkExpr scope here array ha).before (span_expr array) (fun _ => ?_) hdisj)
        (.behind (.checkExpr ctx _ _ _) fun _ => (checkExpr scope here index hi).silent
          fun _ => ?_)
    · exact .bind (.checkExpr ctx _ _ _) fun _ => .bind (.require ctx _ _ _) fun _ =>
        .indexFound _ _
    · exact .bind (.require ctx _ _ _) fun _ => .indexFound _ _

theorem checkArgs (scope : Scope) (outer : Pos) : (args : List Expr) →
    (Source.argNodes args).Nodup →
    Covers ctx scope (Source.argParts args) (checkArgs ctx scope outer args)
  | [], _ => .nil
  | e :: rest, hnodup => by
    rw [Source.argNodes, List.nodup_append'] at hnodup
    obtain ⟨he, hrest, hdisj⟩ := hnodup
    exact .append ((checkExpr scope outer e he).before (span_expr e) (fun _ =>
        .bind (.checkArgs ctx _ _ _) fun _ => (Within.pure _).weaken (List.nil_subset _)) hdisj)
      (.behind (.checkExpr ctx _ _ _) fun _ => (checkArgs scope outer rest hrest).silent
        fun _ => .pure _)

end

end Check.Covers

/-- **Checking a part checks all parts in it.** -/
theorem covers_checkPart (ctx : Context) (scope : Scope) (outer : Pos) : (whole : Part) →
    whole.nodes.Nodup → Check.Covers ctx scope whole.parts (checkPart ctx scope outer whole)
  | .expr e, hnodup => .checkExpr ctx scope outer e hnodup
  | .place pl, hnodup => .checkPlace ctx scope outer pl hnodup

/-! ## Initial tables -/

/-- A type stands for a written one already where its array type is interned. -/
theorem Denotes.of_initial {p : Program} {t t' : TypeTable} {ty : Ty} {written : TypeExpr}
    (hle : t.elems <+: t'.elems) (ht' : TableOk p t') (h : Denotes p t' ty written)
    (hold : ∀ id, ty = .array id → id < t.elems.length) : Denotes p t ty written := by
  induction h with
  | int => exact .int
  | bool => exact .bool
  | class_ hid => exact .class_ hid
  | @array id elem _ helem _ ih =>
    have hold := List.getElem?_eq_getElem (hold id rfl)
    obtain rfl := Option.some.inj ((getElem?_of_initial hle hold).symm.trans helem)
    exact .array hold (ih fun inner hinner =>
      Nat.lt_trans (ht'.older id inner (hinner ▸ helem)) (List.getElem?_eq_some_iff.1 hold).1)

/-- What a good table began with was good. -/
theorem TableOk.of_initial {p : Program} {t t' : TypeTable} (hle : t.elems <+: t'.elems)
    (ht' : TableOk p t') : TableOk p t := by
  refine ⟨ht'.nodup.sublist hle.sublist, fun id elem helem => ?_, fun id inner hinner => ?_⟩
  · have helem' := getElem?_of_initial hle helem
    obtain ⟨ty, hd⟩ := ht'.denotes id elem helem'
    refine ⟨ty, hd.of_initial hle ht' fun inner heq => ?_⟩
    exact Nat.lt_trans (ht'.older id inner (heq ▸ helem')) (List.getElem?_eq_some_iff.1 helem).1
  · exact ht'.older id inner (getElem?_of_initial hle hinner)

theorem Clean.of_grows {p : Program} {nodes : List NodeId} {f f' : Findings}
    (hgrows : Findings.Grows nodes f f') (hf' : Clean p f') : Clean p f :=
  ⟨hgrows.errors_eq_nil hf'.errors, .of_initial hgrows.elems hf'.table⟩

/-! ## Parts in scope -/

mutual

theorem map_part_scopedParts (names : Names) : (s : Stmt) →
    (scopedParts names s).map (·.2) = s.parts
  | .block _ (.mk stmts _) => map_part_scopedPartsIn names stmts
  | .decl _ _ => rfl
  | .assign _ target value => by simp [scopedParts, Stmt.parts, Function.comp_def]
  | .expr _ value | .ret _ value => by simp [scopedParts, Stmt.parts, Function.comp_def]
  | .ifThen _ cond body | .loop _ cond body => by
    simp [scopedParts, Stmt.parts, Function.comp_def, map_part_scopedParts names body]
  | .ifElse _ cond yes no => by
    simp [scopedParts, Stmt.parts, Function.comp_def, map_part_scopedParts names yes,
      map_part_scopedParts names no]

theorem map_part_scopedPartsIn (names : Names) : (stmts : List Stmt) →
    (scopedPartsIn names stmts).map (·.2) = Source.stmtParts stmts
  | [] => rfl
  | s :: rest => by
    simp [scopedPartsIn, Source.stmtParts, map_part_scopedParts names s,
      map_part_scopedPartsIn (names.behind s) rest]

end

theorem map_part_map (names : Names) (parts : List Part) :
    (parts.map (names, ·)).map (·.2) = parts := by
  simp [Function.comp_def]

theorem span_exprParts (names : Names) (e : Expr) :
    Span ((e.parts.map (names, ·)).map (·.2)) e.nodes := by
  rw [map_part_map]
  exact span_expr e

theorem span_placeParts (names : Names) (place : Place) :
    Span ((place.parts.map (names, ·)).map (·.2)) place.nodes := by
  rw [map_part_map]
  exact span_place place

theorem span_scopedParts (names : Names) (s : Stmt) :
    Span ((scopedParts names s).map (·.2)) s.nodes :=
  map_part_scopedParts names s ▸ span_of_sublist s.map_id_parts s.parts_sublist

theorem span_scopedPartsIn (names : Names) (stmts : List Stmt) :
    Span ((scopedPartsIn names stmts).map (·.2)) (Source.stmtNodes stmts) :=
  map_part_scopedPartsIn names stmts ▸
    span_of_sublist (Source.map_id_stmtParts stmts) (Source.stmtParts_sublist stmts)

/-! ## Bodies -/

/-- The part was checked where nothing is wrong, with these names in scope, and
nothing was noted of its nodes since. -/
inductive Checked (ctx : Context) (names : Names) (f : Findings) (part : Part) : Prop
  | intro (scope : Scope) (outer : Pos) (f₁ : Findings) (nodes : List NodeId) :
      part.nodes.Nodup → Clean ctx.program f₁ → ScopeOk ctx.program f₁.table names scope →
      Clean ctx.program ((checkPart ctx scope outer part).run f₁).2 →
      Findings.Grows nodes ((checkPart ctx scope outer part).run f₁).2 f →
      (∀ id ∈ part.nodes, id ∉ nodes) → Checked ctx names f part

/-- All parts were checked, each with the names in scope there. -/
def AllChecked (ctx : Context) (f : Findings) (parts : List (Names × Part)) : Prop :=
  ∀ entry ∈ parts, Checked ctx entry.1 f entry.2

section Bodies

variable {ctx : Context} {printName : String} {f f' : Findings} {nodes nodes' : List NodeId}
variable {names : Names} {scope : Scope} {ret : TypeExpr}

theorem Checked.mono (hgrows : Findings.Grows nodes f f') {part : Part}
    (hoff : ∀ id ∈ part.nodes, id ∉ nodes) (h : Checked ctx names f part) :
    Checked ctx names f' part := by
  obtain ⟨scope, outer, f₁, ns, hnodup, hf₁, hscope, hclean, hafter, hout⟩ := h
  refine .intro scope outer f₁ (ns ++ nodes) hnodup hf₁ hscope hclean
    ((hafter.weaken (List.subset_append_left _ _)).trans
      (hgrows.weaken (List.subset_append_right _ _))) fun id hid => ?_
  rw [List.mem_append, not_or]
  exact ⟨hout id hid, hoff id hid⟩

theorem AllChecked.append {parts parts' : List (Names × Part)} (h : AllChecked ctx f parts)
    (h' : AllChecked ctx f parts') : AllChecked ctx f (parts ++ parts') :=
  List.forall_mem_append.2 ⟨h, h'⟩

theorem AllChecked.mono {parts : List (Names × Part)} (h : AllChecked ctx f parts)
    (hspan : Span (parts.map (·.2)) nodes) (hgrows : Findings.Grows nodes' f f')
    (hoff : ∀ id ∈ nodes, id ∉ nodes') : AllChecked ctx f' parts := fun entry hentry =>
  (h entry hentry).mono hgrows fun id hid => hoff id (hspan _ (List.mem_map_of_mem hentry) hid)

/-- Parts stay checked when other nodes are checked. -/
theorem AllChecked.before {α β : Type} {x : Check α} {k : α → Check β}
    {parts : List (Names × Part)} (h : AllChecked ctx (x.run f).2 parts)
    (hspan : Span (parts.map (·.2)) nodes) (hk : ∀ a, Check.Within nodes' (k a))
    (hoff : ∀ id ∈ nodes, id ∉ nodes') : AllChecked ctx ((x >>= k).run f).2 parts :=
  h.mono hspan (hk _ _) hoff

theorem AllChecked.behind {α β : Type} {x : Check α} {k : α → Check β}
    {parts : List (Names × Part)} (h : AllChecked ctx ((k (x.run f).1).run (x.run f).2).2 parts) :
    AllChecked ctx ((x >>= k).run f).2 parts := h

/-- **The parts of a part are checked with it**, where nothing is reported. -/
theorem allChecked_checkPart (hscope : ScopeOk ctx.program f.table names scope) (outer : Pos)
    (whole : Part) (hnodup : whole.nodes.Nodup)
    (hclean : Clean ctx.program ((checkPart ctx scope outer whole).run f).2) :
    AllChecked ctx ((checkPart ctx scope outer whole).run f).2 (whole.parts.map (names, ·)) := by
  intro entry hentry
  obtain ⟨part, hpart, rfl⟩ := List.mem_map.1 hentry
  obtain ⟨here, f₁, ns, ns', hbefore, hafter, hout⟩ :=
    covers_checkPart ctx scope outer whole hnodup f part hpart
  have hclean₁ := hclean.of_grows hafter
  exact .intro scope here f₁ ns' (hnodup.sublist (Part.nodes_sublist hpart))
    (hclean₁.of_grows (within_checkPart ctx scope here part f₁)) (hscope.mono hbefore.elems)
    hclean₁ hafter hout

theorem allChecked_checkExpr (hctx : ctx.Sound printName) (hf : Clean ctx.program f)
    (hscope : ScopeOk ctx.program f.table names scope) (outer : Pos) {e : Expr} {τ : ExprTy}
    (hnodup : e.nodes.Nodup) (h : HasType ctx.program printName names e τ) :
    AllChecked ctx ((checkExpr ctx scope outer e).run f).2 (e.parts.map (names, ·)) :=
  allChecked_checkPart hscope outer (.expr e) hnodup
    ((decides_checkExpr hctx hf hscope outer e).clean ⟨τ, h⟩)

theorem allChecked_checkPlace (hctx : ctx.Sound printName) (hf : Clean ctx.program f)
    (hscope : ScopeOk ctx.program f.table names scope) (outer : Pos) {place : Place}
    {ty : TypeExpr} (hnodup : place.nodes.Nodup)
    (h : PlaceType ctx.program printName names place ty) :
    AllChecked ctx ((checkPlace ctx scope outer place).run f).2 (place.parts.map (names, ·)) :=
  allChecked_checkPart hscope outer (.place place) hnodup
    ((decides_checkPlace hctx hf hscope outer place).clean ⟨ty, h⟩)

theorem allChecked_checkCondition (hctx : ctx.Sound printName) (hf : Clean ctx.program f)
    (hscope : ScopeOk ctx.program f.table names scope) (outer : Pos) (of : ConditionOf)
    {cond : Expr} (hnodup : cond.nodes.Nodup)
    (h : HasType ctx.program printName names cond (.written .bool)) :
    AllChecked ctx ((checkCondition ctx scope outer of cond).run f).2
      (cond.parts.map (names, ·)) :=
  (allChecked_checkExpr hctx hf hscope outer hnodup h).before (span_exprParts names cond)
    (fun _ => (.conditionFound ctx _ _ _ : Check.Within [] _)) (by simp)

mutual

/-- **The parts of a well-typed statement are checked with it.** -/
theorem allChecked_checkStmt (hctx : ctx.Sound printName) {names : Names} {scope : Scope}
    {f : Findings} (hf : Clean ctx.program f)
    (hscope : BodyScope ctx.program f.table ret names scope) (outer : Pos) : (s : Stmt) →
    {behind : Names} → s.nodes.Nodup → StmtOk ctx.program printName ret names s behind →
    AllChecked ctx ((checkStmt ctx scope outer s).run f).2 (scopedParts names s)
  | .block pos (.mk stmts bodyPos), _, hnodup, h => by
    cases h with
    | block h =>
      rw [checkStmt, checkBlock]
      exact allChecked_checkStmts hctx hf hscope.push _ stmts hnodup h
  -- A declaration has no expressions in it.
  | .decl pos var, _, _, _ => fun _ hmem => by cases hmem
  | .assign pos target value, _, hnodup, h => by
    rw [Stmt.nodes, List.nodup_append'] at hnodup
    obtain ⟨ht, hv, hdisj⟩ := hnodup
    cases h with
    | assign htarget hvalue hfits =>
      obtain ⟨hclean, hle⟩ := (decides_checkPlace hctx hf hscope.toScopeOk (pos.getD outer)
        target).onward ⟨_, htarget⟩
      rw [checkStmt_assign, scopedParts, List.map_append]
      exact .append (.before (allChecked_checkPlace hctx hf hscope.toScopeOk _ ht htarget)
          (span_placeParts names target)
          (fun _ => .bind (.checkExpr ctx _ _ _) fun _ => .valueFound ctx _ _ _ _ _) hdisj)
        (.behind (.before
          (allChecked_checkExpr hctx hclean (hscope.mono hle).toScopeOk _ hv hvalue)
          (span_exprParts names value)
          (fun _ => (.valueFound ctx _ _ _ _ _ : Check.Within [] _)) (by simp)))
  | .expr pos value, _, hnodup, h => by
    cases h with
    | expr h =>
      rw [checkStmt]
      exact allChecked_checkExpr hctx hf hscope.toScopeOk _ hnodup h
  | .ifThen pos cond body, _, hnodup, h => by
    rw [Stmt.nodes, List.nodup_append'] at hnodup
    obtain ⟨hc, hb, hdisj⟩ := hnodup
    cases h with
    | ifThen hcond hbody =>
      obtain ⟨hclean, hle⟩ := (decides_checkCondition hctx hf hscope.toScopeOk (pos.getD outer)
        .if_ cond).onward hcond
      rw [checkStmt]
      refine .append (.before (allChecked_checkCondition hctx hf hscope.toScopeOk _ _ hc hcond)
        (span_exprParts names cond) (fun _ => ?_) hdisj)
        (allChecked_checkStmt hctx hclean (hscope.mono hle).push _ body hb hbody)
      exact .bind (.checkStmt ctx _ _ _) fun _ => (Check.Within.pure _)
  | .ifElse pos cond yes no, _, hnodup, h => by
    rw [Stmt.nodes, List.nodup_append', List.nodup_append'] at hnodup
    obtain ⟨hc, ⟨hy, hn, hdisj'⟩, hdisj⟩ := hnodup
    cases h with
    | ifElse hcond hyes hno =>
      obtain ⟨hclean, hle⟩ := (decides_checkCondition hctx hf hscope.toScopeOk (pos.getD outer)
        .if_ cond).onward hcond
      obtain ⟨hclean', hle'⟩ := (decides_checkStmt hctx hclean (hscope.mono hle).push
        (pos.getD outer) yes).onward ⟨_, hyes⟩
      rw [checkStmt]
      -- The condition stays checked while the branches note, the first one while the second does.
      refine .append (.before (allChecked_checkCondition hctx hf hscope.toScopeOk _ _ hc hcond)
        (span_exprParts names cond) (fun _ => ?_) hdisj) (.append ?_ ?_)
      · exact .bind ((Check.Within.checkStmt ctx _ _ _).weaken (by simp)) fun _ =>
          .bind ((Check.Within.checkStmt ctx _ _ _).weaken (by simp)) fun _ => .pure _
      · exact .behind (.before (allChecked_checkStmt hctx hclean (hscope.mono hle).push _ yes hy hyes)
          (span_scopedParts names yes)
          (fun _ => .bind (.checkStmt ctx _ _ _) fun _ => .pure _) hdisj')
      · exact allChecked_checkStmt hctx hclean' (hscope.mono (hle.trans hle')).push _ no hn hno
  | .loop pos cond body, _, hnodup, h => by
    rw [Stmt.nodes, List.nodup_append'] at hnodup
    obtain ⟨hc, hb, hdisj⟩ := hnodup
    cases h with
    | loop hcond hbody =>
      obtain ⟨hclean, hle⟩ := (decides_checkCondition hctx hf hscope.toScopeOk (pos.getD outer)
        .while_ cond).onward hcond
      rw [checkStmt]
      refine .append (.before (allChecked_checkCondition hctx hf hscope.toScopeOk _ _ hc hcond)
        (span_exprParts names cond) (fun _ => ?_) hdisj)
        (allChecked_checkStmt hctx hclean (hscope.mono hle).push _ body hb hbody)
      exact .bind (.checkStmt ctx _ _ _) fun _ => (Check.Within.pure _)
  | .ret pos value, _, hnodup, h => by
    cases h with
    | ret h hfits =>
      rw [checkStmt_ret]
      exact .before (allChecked_checkExpr hctx hf hscope.toScopeOk _ hnodup h)
        (span_exprParts names value) (fun _ => (.valueFound ctx _ _ _ _ _ : Check.Within [] _))
        (by simp)

theorem allChecked_checkStmts (hctx : ctx.Sound printName) {names : Names} {scope : Scope}
    {f : Findings} (hf : Clean ctx.program f)
    (hscope : BodyScope ctx.program f.table ret names scope) (outer : Pos) :
    (stmts : List Stmt) → (Source.stmtNodes stmts).Nodup →
    StmtsOk ctx.program printName ret names stmts →
    AllChecked ctx ((checkStmts ctx scope outer stmts).run f).2 (scopedPartsIn names stmts)
  | [], _, _ => fun _ hmem => by cases hmem
  | s :: rest, hnodup, h => by
    rw [Source.stmtNodes, List.nodup_append'] at hnodup
    obtain ⟨hs, hr, hdisj⟩ := hnodup
    cases h with
    | cons hok hrest =>
      have hdecided := decides_checkStmt hctx hf hscope outer s
      have hbehind := (hdecided.post ⟨_, hok⟩).2.2 _ hok
      rw [checkStmts]
      refine .append (.before (allChecked_checkStmt hctx hf hscope outer s hs hok)
        (span_scopedParts names s) (fun _ => .checkStmts ctx _ _ _) hdisj) ?_
      rw [hok.eq_behind] at hrest hbehind
      exact allChecked_checkStmts hctx (hdecided.clean ⟨_, hok⟩) hbehind outer rest hr hrest

end

end Bodies

/-! ## Functions and programs -/

/-- The parts of the body of a function, with the names in scope there. -/
def bodyScopedParts (this? : Option String) (g : FunctionDecl) : List (Names × Part) :=
  scopedPartsIn ⟨this?, g.params.reverse⟩ g.body.stmts

/-- The parts of all bodies of a program, with the names in scope there. -/
def programScopedParts (p : Program) : List (Names × Part) :=
  p.functions.flatMap (bodyScopedParts none) ++
    p.classes.flatMap fun c => c.methods.flatMap (bodyScopedParts (some c.name))

theorem map_part_bodyScopedParts (this? : Option String) (g : FunctionDecl) :
    (bodyScopedParts this? g).map (·.2) = g.parts :=
  map_part_scopedPartsIn _ g.body.stmts

/-- These are the parts of the program. -/
theorem map_part_programScopedParts (p : Program) :
    (programScopedParts p).map (·.2) = p.parts := by
  simp only [programScopedParts, List.map_append, List.map_flatMap, map_part_bodyScopedParts,
    Program.parts, Source.bodyParts]

/-- **Checking functions checks their parts.** -/
theorem establishes_checked {ctx : Context} {printName : String} (hctx : ctx.Sound printName) :
    Establishes ctx printName fun this? g f => AllChecked ctx f (bodyScopedParts this? g) := by
  constructor
  · intro nodes f f' this? g hgrows hoff h
    exact h.mono (span_scopedPartsIn _ g.body.stmts) hgrows hoff
  · intro f this? scope g outer hf hscope hnodup h
    obtain ⟨inner, f', hclean, hinner, -, -, hrun⟩ := exists_body hctx hf hscope outer h
    have hbody := h.body
    rw [hrun, bodyScopedParts]
    rw [FunctionDecl.nodes] at hnodup
    cases hblock : g.body with
    | mk stmts pos =>
      rw [hblock] at hbody hnodup
      exact allChecked_checkStmts hctx hclean hinner.push _ stmts hnodup hbody

/-- **In a program without errors all parts are checked**, each with the names
in scope there. -/
theorem checked_analyze {p : Program} {printName : String} (hnodup : p.nodes.Nodup)
    (hok : (analyze p ⟨printName⟩).ok = true) :
    AllChecked (programContext p printName (p.pos.getD .origin)) (analyze p ⟨printName⟩).findings
      (programScopedParts p) := by
  obtain ⟨hfunctions, hmethods⟩ :=
    (establishes_checked ((WellTyped.of_ok hok).sound_programContext _)).analyze hnodup hok
  refine .append (fun entry hentry => ?_) fun entry hentry => ?_
  · obtain ⟨g, hg, hentry⟩ := List.mem_flatMap.1 hentry
    exact hfunctions g hg entry hentry
  · obtain ⟨c, hc, hentry⟩ := List.mem_flatMap.1 hentry
    obtain ⟨m, hm, hentry⟩ := List.mem_flatMap.1 hentry
    exact hmethods c hc m hm entry hentry

/-! ## What is known of a part -/

/-- **Parts** have types by the rules. -/
inductive PartType (p : Program) (printName : String) (names : Names) : Part → ExprTy → Prop
  | expr {e τ} : HasType p printName names e τ → PartType p printName names (.expr e) τ
  | place {pl ty} : PlaceType p printName names pl ty →
      PartType p printName names (.place pl) (.written ty)

/-- The type of a part is noted. -/
theorem types_checkPart (ctx : Context) (scope : Scope) (outer : Pos) (part : Part) (f : Findings) :
    ((checkPart ctx scope outer part).run f).2.types.get? part.id =
      some ((checkPart ctx scope outer part).run f).1 := by
  cases part with
  | expr e => exact types_checkExpr ctx scope outer e f
  | place pl => cases pl <;> (rw [checkPart, checkPlace]; exact types_typed)

section Known

variable {ctx : Context} {printName : String} {f : Findings} {names : Names} {part : Part}

/-- **A part that was checked has a type by the rules.** -/
theorem Checked.exists_type (hctx : ctx.Sound printName) (h : Checked ctx names f part) :
    ∃ τ, PartType ctx.program printName names part τ := by
  obtain ⟨scope, outer, f₁, nodes, -, hf₁, hscope, hclean, -, -⟩ := h
  cases part with
  | expr e =>
    obtain ⟨τ, hτ⟩ := (decides_checkExpr hctx hf₁ hscope outer e).iff.1 hclean.errors
    exact ⟨τ, .expr hτ⟩
  | place pl =>
    obtain ⟨ty, hty⟩ := (decides_checkPlace hctx hf₁ hscope outer pl).iff.1 hclean.errors
    exact ⟨.written ty, .place hty⟩

/-- **The type noted of a part that was checked** stands for its type by the
rules. -/
theorem Checked.typeNoted (hctx : ctx.Sound printName) (h : Checked ctx names f part) {τ : ExprTy}
    (hτ : PartType ctx.program printName names part τ) : TypeNoted ctx.program f part.id τ := by
  obtain ⟨scope, outer, f₁, nodes, -, hf₁, hscope, -, hafter, hout⟩ := h
  refine TypeNoted.mono hafter (hout _ part.id_mem_nodes)
    ⟨_, types_checkPart ctx scope outer part f₁, ?_⟩
  cases hτ with
  | @expr e τ hτ => exact ((decides_checkExpr hctx hf₁ hscope outer e).post ⟨τ, hτ⟩).2.2 τ hτ
  | @place pl ty hty =>
    exact .written (((decides_checkPlace hctx hf₁ hscope outer pl).post ⟨ty, hty⟩).2.2 ty hty)

end Known

end ClassLang.Typing
