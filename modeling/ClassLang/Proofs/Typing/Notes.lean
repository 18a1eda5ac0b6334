import ClassLang.Proofs.Typing.Programs
/-!
# Typing — what the analysis leaves noted

The rules again, with what findings hold of every node: the callees of
calls, the declarations of bare names, the fields of accesses, and the
types of receivers and of new arrays. Findings with such notes are what
lowering reads. Notes stay when checking goes on elsewhere
(`ExprNoted.mono`).
-/


namespace ClassLang.Typing

open Source (NodeId TypeExpr Expr Place Stmt Block VarDecl FunctionDecl ClassDecl Program)

section Notes

variable (p : Program) (printName : String) (f : Findings)

/-- The type noted of a node stands for its type. -/
def TypeNoted (id : NodeId) (τ : ExprTy) : Prop :=
  ∃ ty, f.types.get? id = some ty ∧ DenotesExpr p f.table ty τ

/-- The written type is interned. -/
def Interned (written : TypeExpr) : Prop := ∃ ty, Denotes p f.table ty written

mutual

/-- **Expressions** with their notes. -/
inductive ExprNoted (names : Names) : Expr → ExprTy → Prop
  | int {m value} : ExprNoted names (.int m value) (.written .int)
  | bool {m value} : ExprNoted names (.bool m value) (.written .bool)
  | null {m} : ExprNoted names (.null m) .null
  | this {m class_} : names.this? = some class_ →
      ExprNoted names (.this m) (.written (.class_ class_))
  | read {m place ty} : PlaceNoted names place ty →
      ExprNoted names (.read m place) (.written ty)
  | arrayLength {m array elem} : ExprNoted names array (.written (.array elem)) →
      ExprNoted names (.arrayLength m array) (.written .int)
  | minus {m operand} : ExprNoted names operand (.written .int) →
      ExprNoted names (.unary m .minus operand) (.written .int)
  | negate {m operand} : ExprNoted names operand (.written .bool) →
      ExprNoted names (.unary m .negate operand) (.written .bool)
  | arithmetic {m op lhs rhs} : op = .plus ∨ op = .minus ∨ op = .times ∨ op = .div →
      ExprNoted names lhs (.written .int) → ExprNoted names rhs (.written .int) →
      ExprNoted names (.binary m op lhs rhs) (.written .int)
  | less {m lhs rhs} : ExprNoted names lhs (.written .int) →
      ExprNoted names rhs (.written .int) →
      ExprNoted names (.binary m .less lhs rhs) (.written .bool)
  | and {m lhs rhs} : ExprNoted names lhs (.written .bool) →
      ExprNoted names rhs (.written .bool) →
      ExprNoted names (.binary m .and lhs rhs) (.written .bool)
  | equals {m lhs rhs left right} : ExprNoted names lhs left → ExprNoted names rhs right →
      Fits p left right ∨ Fits p right left →
      ExprNoted names (.binary m .equals lhs rhs) (.written .bool)
  | print {m arg} : f.calls.get? m.id = some (.builtin .printInt) →
      ExprNoted names arg (.written .int) →
      ExprNoted names (.call m printName [arg]) (.written .int)
  | call {m name args index g} : name ≠ printName →
      f.calls.get? m.id = some (.function index) → p.functionIndex? name = some index →
      p.functions[index]? = some g → ArgsNoted names args (g.params.map (·.ty)) →
      ExprNoted names (.call m name args) (.written g.returnType)
  | methodCall {m receiver method args class_ id ref g} :
      ExprNoted names receiver (.written (.class_ class_)) →
      TypeNoted p f receiver.id (.written (.class_ class_)) →
      f.calls.get? m.id = some (.method ref) →
      p.classId? class_ = some id → p.methodRef? id method = some ref →
      methodDecl? p ref = some g → ArgsNoted names args (g.params.map (·.ty)) →
      ExprNoted names (.methodCall m receiver method args) (.written g.returnType)
  | newObject {m class_ id} : p.classId? class_ = some id →
      ExprNoted names (.newObject m class_) (.written (.class_ class_))
  | newArray {m elem size} : TypeNoted p f m.id (.written (.array elem)) →
      ExprNoted names size (.written .int) →
      ExprNoted names (.newArray m elem size) (.written (.array elem))

/-- **Places** with their notes. -/
inductive PlaceNoted (names : Names) : Place → TypeExpr → Prop
  | variable_ {m name var} : names.var? name = some var →
      f.vars.get? m.id = some (.local_ var.id) → PlaceNoted names (.var m name) var.ty
  | ownField {m name class_ id ref field} : names.var? name = none →
      names.this? = some class_ → p.classId? class_ = some id →
      p.fieldRef? id name = some ref → fieldDecl? p ref = some field →
      f.vars.get? m.id = some (.field ref) → PlaceNoted names (.var m name) field.ty
  | field {m receiver name class_ id ref field} :
      ExprNoted names receiver (.written (.class_ class_)) →
      p.classId? class_ = some id → p.fieldRef? id name = some ref →
      fieldDecl? p ref = some field → f.fields.get? m.id = some ref →
      PlaceNoted names (.field m receiver name) field.ty
  | index {m array index elem} : ExprNoted names array (.written (.array elem)) →
      ExprNoted names index (.written .int) → PlaceNoted names (.index m array index) elem

/-- **Arguments** with their notes. -/
inductive ArgsNoted (names : Names) : List Expr → List TypeExpr → Prop
  | nil : ArgsNoted names [] []
  | cons {arg args ty found tys} : ExprNoted names arg found → Fits p found (.written ty) →
      ArgsNoted names args tys → ArgsNoted names (arg :: args) (ty :: tys)

end

mutual

/-- **Statements** with their notes: the names before and behind. -/
inductive StmtNoted (ret : TypeExpr) : Names → Stmt → Names → Prop
  | block {names pos stmts bodyPos} : StmtsNoted ret names stmts →
      StmtNoted ret names (.block pos (.mk stmts bodyPos)) names
  | decl {names pos var} : Interned p f var.ty → names.var? var.name = none →
      StmtNoted ret names (.decl pos var) (names.declare var)
  | assign {names pos target value ty found} : PlaceNoted p printName f names target ty →
      ExprNoted p printName f names value found → Fits p found (.written ty) →
      StmtNoted ret names (.assign pos target value) names
  | expr {names pos value found} : ExprNoted p printName f names value found →
      StmtNoted ret names (.expr pos value) names
  | ifThen {names inner pos cond body} : ExprNoted p printName f names cond (.written .bool) →
      StmtNoted ret names body inner → StmtNoted ret names (.ifThen pos cond body) names
  | ifElse {names inner inner' pos cond yes no} :
      ExprNoted p printName f names cond (.written .bool) →
      StmtNoted ret names yes inner → StmtNoted ret names no inner' →
      StmtNoted ret names (.ifElse pos cond yes no) names
  | loop {names inner pos cond body} : ExprNoted p printName f names cond (.written .bool) →
      StmtNoted ret names body inner → StmtNoted ret names (.loop pos cond body) names
  | ret {names pos value found} : ExprNoted p printName f names value found →
      Fits p found (.written ret) → StmtNoted ret names (.ret pos value) names

/-- **Statements in turn** with their notes. -/
inductive StmtsNoted (ret : TypeExpr) : Names → List Stmt → Prop
  | nil {names} : StmtsNoted ret names []
  | cons {names behind s rest} : StmtNoted ret names s behind →
      StmtsNoted ret behind rest → StmtsNoted ret names (s :: rest)

end

/-- **Functions**, or methods of the class `this?`, with their notes. -/
structure FunctionNoted (this? : Option String) (g : FunctionDecl) : Prop where
  returnType : Interned p f g.returnType
  paramTypes : ∀ param ∈ g.params, Interned p f param.ty
  body : StmtsNoted p printName f g.returnType ⟨this?, g.params.reverse⟩ g.body.stmts

end Notes

/-! ## Checking elsewhere -/

section Mono

variable {p : Program} {printName : String} {f f' : Findings} {nodes : List NodeId}

theorem Interned.mono (h : f.table.elems <+: f'.table.elems) {written : TypeExpr}
    (hw : Interned p f written) : Interned p f' written := by
  obtain ⟨ty, hd⟩ := hw
  exact ⟨ty, hd.mono h⟩

theorem TypeNoted.mono (hgrows : Findings.Grows nodes f f') {id : NodeId} (hid : id ∉ nodes)
    {τ : ExprTy} (h : TypeNoted p f id τ) : TypeNoted p f' id τ := by
  obtain ⟨ty, hty, hd⟩ := h
  exact ⟨ty, by rw [hgrows.types id hid, hty], hd.mono hgrows.elems⟩

mutual

/-- **Notes stay** when nodes elsewhere are checked. -/
theorem ExprNoted.mono (hgrows : Findings.Grows nodes f f') {names : Names} : (e : Expr) →
    {τ : ExprTy} → (hoff : ∀ id ∈ e.nodes, id ∉ nodes) → ExprNoted p printName f names e τ →
    ExprNoted p printName f' names e τ
  | .int _ _, _, _, h => by cases h; exact .int
  | .bool _ _, _, _, h => by cases h; exact .bool
  | .null _, _, _, h => by cases h; exact .null
  | .this _, _, _, h => by cases h with | this h => exact .this h
  | .read m place, _, hoff, h => by
    cases h with
    | read h => exact .read (PlaceNoted.mono hgrows place (by simp_all [Expr.nodes]) h)
  | .arrayLength m array, _, hoff, h => by
    cases h with
    | arrayLength h => exact .arrayLength (ExprNoted.mono hgrows array (by simp_all [Expr.nodes]) h)
  | .unary m op operand, _, hoff, h => by
    cases h with
    | minus h => exact .minus (ExprNoted.mono hgrows operand (by simp_all [Expr.nodes]) h)
    | negate h => exact .negate (ExprNoted.mono hgrows operand (by simp_all [Expr.nodes]) h)
  | .binary m op lhs rhs, _, hoff, h => by
    have hl {τ : ExprTy} (h : ExprNoted p printName f names lhs τ) :=
      ExprNoted.mono hgrows lhs (by simp_all [Expr.nodes]) h
    have hr {τ : ExprTy} (h : ExprNoted p printName f names rhs τ) :=
      ExprNoted.mono hgrows rhs (by simp_all [Expr.nodes]) h
    cases h with
    | arithmetic hop h h' => exact .arithmetic hop (hl h) (hr h')
    | less h h' => exact .less (hl h) (hr h')
    | and h h' => exact .and (hl h) (hr h')
    | equals h h' hfits => exact .equals (hl h) (hr h') hfits
  | .call m name args, _, hoff, h => by
    have hcall : f'.calls.get? m.id = f.calls.get? m.id :=
      hgrows.calls m.id (hoff m.id (by simp [Expr.nodes]))
    -- The one argument of a print is taken from the list, so that the recursion sees it.
    have hfirst {arg : Expr} {rest : List Expr} (heq : args = arg :: rest) {τ : ExprTy}
        (h : ExprNoted p printName f names arg τ) : ExprNoted p printName f' names arg τ := by
      cases args with
      | nil => cases heq
      | cons e rest' =>
        obtain ⟨rfl, -⟩ := List.cons.inj heq
        refine ExprNoted.mono hgrows e (fun id hid => ?_) h
        exact hoff id (by simp [Expr.nodes, Source.argNodes, hid])
    cases h with
    | print hprint h => exact .print (hcall.trans hprint) (hfirst rfl h)
    | call hname hnoted hindex hg hargs =>
      refine .call hname (hcall.trans hnoted) hindex hg (ArgsNoted.mono hgrows args ?_ hargs)
      simp_all [Expr.nodes]
  | .methodCall m receiver method args, _, hoff, h => by
    have hcall : f'.calls.get? m.id = f.calls.get? m.id :=
      hgrows.calls m.id (hoff m.id (by simp [Expr.nodes]))
    cases h with
    | methodCall hreceiver htype hnoted hid href hg hargs =>
      refine .methodCall (ExprNoted.mono hgrows receiver ?_ hreceiver) (htype.mono hgrows ?_)
        (hcall.trans hnoted) hid href hg (ArgsNoted.mono hgrows args ?_ hargs)
      · exact fun id hid => hoff id (by simp [Expr.nodes, hid])
      · exact hoff _ (by simp [Expr.nodes, receiver.id_mem_nodes])
      · exact fun id hid => hoff id (by simp [Expr.nodes, hid])
  | .newObject m class_, _, _, h => by cases h with | newObject h => exact .newObject h
  | .newArray m elem size, _, hoff, h => by
    cases h with
    | newArray htype hsize =>
      refine .newArray (htype.mono hgrows (hoff _ (by simp [Expr.nodes])))
        (ExprNoted.mono hgrows size ?_ hsize)
      simp_all [Expr.nodes]

theorem PlaceNoted.mono (hgrows : Findings.Grows nodes f f') {names : Names} : (place : Place) →
    {ty : TypeExpr} → (hoff : ∀ id ∈ place.nodes, id ∉ nodes) →
    PlaceNoted p printName f names place ty → PlaceNoted p printName f' names place ty
  | .var m name, _, hoff, h => by
    have hvars : f'.vars.get? m.id = f.vars.get? m.id :=
      hgrows.vars m.id (hoff m.id (by simp [Place.nodes]))
    cases h with
    | variable_ hvar hnoted => exact .variable_ hvar (hvars.trans hnoted)
    | ownField hvar hthis hid href hfield hnoted =>
      exact .ownField hvar hthis hid href hfield (hvars.trans hnoted)
  | .field m receiver name, _, hoff, h => by
    have hfields : f'.fields.get? m.id = f.fields.get? m.id :=
      hgrows.fields m.id (hoff m.id (by simp [Place.nodes]))
    cases h with
    | field hreceiver hid href hfield hnoted =>
      refine .field (ExprNoted.mono hgrows receiver ?_ hreceiver) hid href hfield
        (hfields.trans hnoted)
      simp_all [Place.nodes]
  | .index m array index, _, hoff, h => by
    cases h with
    | index harray hindex =>
      refine .index (ExprNoted.mono hgrows array (fun id hid => ?_) harray)
        (ExprNoted.mono hgrows index (fun id hid => ?_) hindex)
      · exact hoff id (by simp [Place.nodes, hid])
      · exact hoff id (by simp [Place.nodes, hid])

theorem ArgsNoted.mono (hgrows : Findings.Grows nodes f f') {names : Names} :
    (args : List Expr) → {tys : List TypeExpr} → (hoff : ∀ id ∈ Source.argNodes args, id ∉ nodes) →
    ArgsNoted p printName f names args tys → ArgsNoted p printName f' names args tys
  | [], _, _, h => by cases h; exact .nil
  | e :: rest, _, hoff, h => by
    cases h with
    | cons he hfits hrest =>
      refine .cons (ExprNoted.mono hgrows e (fun id hid => ?_) he) hfits
        (ArgsNoted.mono hgrows rest (fun id hid => ?_) hrest)
      · exact hoff id (by simp [Source.argNodes, hid])
      · exact hoff id (by simp [Source.argNodes, hid])

end

mutual

theorem StmtNoted.mono (hgrows : Findings.Grows nodes f f') {ret : TypeExpr} {names behind : Names} :
    (s : Stmt) → (hoff : ∀ id ∈ s.nodes, id ∉ nodes) →
    StmtNoted p printName f ret names s behind → StmtNoted p printName f' ret names s behind
  | .block pos (.mk stmts bodyPos), hoff, h => by
    cases h with
    | block h => exact .block (StmtsNoted.mono hgrows stmts (by simp_all [Stmt.nodes]) h)
  | .decl pos var, _, h => by
    cases h with
    | decl hty hvar => exact .decl (hty.mono hgrows.elems) hvar
  | .assign pos target value, hoff, h => by
    cases h with
    | assign htarget hvalue hfits =>
      refine .assign (PlaceNoted.mono hgrows target (fun id hid => ?_) htarget)
        (ExprNoted.mono hgrows value (fun id hid => ?_) hvalue) hfits
      · exact hoff id (by simp [Stmt.nodes, hid])
      · exact hoff id (by simp [Stmt.nodes, hid])
  | .expr pos value, hoff, h => by
    cases h with
    | expr h => exact .expr (ExprNoted.mono hgrows value (by simp_all [Stmt.nodes]) h)
  | .ifThen pos cond body, hoff, h => by
    cases h with
    | ifThen hcond hbody =>
      refine .ifThen (ExprNoted.mono hgrows cond (fun id hid => ?_) hcond)
        (StmtNoted.mono hgrows body (fun id hid => ?_) hbody)
      · exact hoff id (by simp [Stmt.nodes, hid])
      · exact hoff id (by simp [Stmt.nodes, hid])
  | .ifElse pos cond yes no, hoff, h => by
    cases h with
    | ifElse hcond hyes hno =>
      refine .ifElse (ExprNoted.mono hgrows cond (fun id hid => ?_) hcond)
        (StmtNoted.mono hgrows yes (fun id hid => ?_) hyes)
        (StmtNoted.mono hgrows no (fun id hid => ?_) hno)
      · exact hoff id (by simp [Stmt.nodes, hid])
      · exact hoff id (by simp [Stmt.nodes, hid])
      · exact hoff id (by simp [Stmt.nodes, hid])
  | .loop pos cond body, hoff, h => by
    cases h with
    | loop hcond hbody =>
      refine .loop (ExprNoted.mono hgrows cond (fun id hid => ?_) hcond)
        (StmtNoted.mono hgrows body (fun id hid => ?_) hbody)
      · exact hoff id (by simp [Stmt.nodes, hid])
      · exact hoff id (by simp [Stmt.nodes, hid])
  | .ret pos value, hoff, h => by
    cases h with
    | ret h hfits => exact .ret (ExprNoted.mono hgrows value (by simp_all [Stmt.nodes]) h) hfits

theorem StmtsNoted.mono (hgrows : Findings.Grows nodes f f') {ret : TypeExpr} {names : Names} :
    (stmts : List Stmt) → (hoff : ∀ id ∈ Source.stmtNodes stmts, id ∉ nodes) →
    StmtsNoted p printName f ret names stmts → StmtsNoted p printName f' ret names stmts
  | [], _, h => by cases h; exact .nil
  | s :: rest, hoff, h => by
    cases h with
    | cons hs hrest =>
      refine .cons (StmtNoted.mono hgrows s (fun id hid => ?_) hs)
        (StmtsNoted.mono hgrows rest (fun id hid => ?_) hrest)
      · exact hoff id (by simp [Source.stmtNodes, hid])
      · exact hoff id (by simp [Source.stmtNodes, hid])

end

theorem FunctionNoted.mono (hgrows : Findings.Grows nodes f f') {this? : Option String}
    {g : FunctionDecl} (hoff : ∀ id ∈ g.nodes, id ∉ nodes)
    (h : FunctionNoted p printName f this? g) : FunctionNoted p printName f' this? g :=
  ⟨h.returnType.mono hgrows.elems, fun param hparam => (h.paramTypes param hparam).mono hgrows.elems,
    h.body.mono hgrows _ hoff⟩

end Mono

end ClassLang.Typing
