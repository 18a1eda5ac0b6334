import ClassLang.Proofs.Lowering.Bounds
import ClassLang.Proofs.Source.Faults
/-!
# Lowering — what bodies are made of

Whatever analysis a body is lowered with, its code is added as any judgement on
code says (`adds_lowerFunction`): it goes into blocks that are there, and halts
for the faults of the body, each in its turn. The line that messages name is
handed on from statement to statement as `lineAfter` says.
-/


namespace ClassLang

namespace Lowering

open Ir (Operand BlockId Builder)

variable {α : Type} {R : Session → Session → Prop} (a : Typing.Analysis)

/-! ## Bodies -/

open Semantics (Fault lineAfter lineAfterAll)

variable {J : List BlockId → List BlockId → List Fault → Builder → Builder → Prop}
variable {ks : List BlockId} {line line' line'' : Nat} {faults faults' : List Fault}

namespace Lower

variable {β : Type} {x : Lower α} {k : α → Lower β} {l : α → List BlockId} {l' : β → List BlockId}

variable (R J) in
/-- **What is added is as `J` says**, and the session changes as `R` says; the
line that messages name is `line` before and `line'` behind it. Every fault of
lowering is reported. -/
def Adds (ks : List BlockId) (line : Nat) (faults : List Fault) (x : Lower α) (line' : Nat)
    (l : α → List BlockId) : Prop :=
  ∀ s, s.line = line → Ends Error.Reported x s fun v s' =>
    s'.line = line' ∧ J ks (l v) faults s.builder s'.builder ∧ R s.session s'.session

namespace Adds

theorem throw {e : Error} (h : e.Reported) :
    Adds R J ks line faults (throw e : Lower α) line' l := fun _ _ => h

variable [Builder.Builds J]

theorem mono (h : Adds R J ks line faults x line' l) (hsub : faults.Sublist faults') :
    Adds R J ks line faults' x line' l := fun s hs =>
  (h s hs).mono fun _ _ ⟨hline, hadded, hsession⟩ =>
    ⟨hline, Builder.Builds.mono hadded hsub, hsession⟩

variable [IsPreorder Session R]

theorem pure (v : α) : Adds R J (l v) line [] (Pure.pure v) line l := fun s hs =>
  ⟨hs, Builder.Builds.refl _ s.builder, refl_of R _⟩

/-- **Code in turn.** -/
theorem append (h : Adds R J ks line faults x line' l)
    (hk : ∀ v, Adds R J (l v) line' faults' (k v) line'' l') :
    Adds R J ks line (faults ++ faults') (x >>= k) line'' l' := fun s hs =>
  (h s hs).bind fun v s' ⟨hline, hadded, hsession⟩ =>
    (hk v s' hline).mono fun _ _ ⟨hline', hadded', hsession'⟩ =>
      ⟨hline', Builder.Builds.trans hadded hadded', trans_of R hsession hsession'⟩

/-- What halts for nothing comes first. -/
theorem bind (h : Adds R J ks line [] x line' l)
    (hk : ∀ v, Adds R J (l v) line' faults (k v) line'' l') :
    Adds R J ks line faults (x >>= k) line'' l' := h.append hk

/-- What halts for one fault comes first. -/
theorem halt {fault : Fault} (h : Adds R J ks line [fault] x line' l)
    (hk : ∀ v, Adds R J (l v) line' faults (k v) line'' l') :
    Adds R J ks line (fault :: faults) (x >>= k) line'' l' := h.append hk

/-- What halts for nothing comes last. -/
theorem last (h : Adds R J ks line faults x line' l)
    (hk : ∀ v, Adds R J (l v) line' [] (k v) line'' l') :
    Adds R J ks line faults (x >>= k) line'' l' :=
  (h.append hk).mono (by rw [List.append_nil])

theorem get : Adds R J ks line [] (MonadState.get : Lower Body) line fun _ => ks := fun s hs =>
  ⟨hs, Builder.Builds.refl _ s.builder, refl_of R _⟩

theorem lift {r : Except Error α} (h : ∀ e, r = .error e → e.Reported) :
    Adds R J ks line [] (liftM r) line fun _ => ks := fun s hs =>
  .lift (fun _ _ => ⟨hs, Builder.Builds.refl _ s.builder, refl_of R _⟩) h

end Adds

/-- **Working on the session** changes it alone. -/
theorem ends_session {F : Error → Prop} {x : Build α} {s : Body} {P : α → Session → Prop}
    (h : Ends F x s.session P) :
    Ends F (session x) s fun v s' => ∃ t, s' = { s with session := t } ∧ P v t := by
  have hrun : (session x).run s =
      (x.run s.session >>= fun r => .ok (r.1, { s with session := r.2 })) := rfl
  cases hx : x.run s.session with
  | ok r =>
    rw [hx] at hrun
    exact .of_ok hrun ⟨r.2, rfl, h.result hx⟩
  | error e =>
    rw [hx] at hrun
    exact .of_error hrun (h.fault hx)

theorem adds_session [Builder.Builds J] {x : Build α} (h : Tame R x) :
    Adds R J ks line [] (session x) line fun _ => ks := fun s hs =>
  (ends_session (h s.session)).mono fun _ _ ⟨_, heq, hsession⟩ => by
    subst heq
    exact ⟨hs, Builder.Builds.refl _ s.builder, hsession⟩

/-- **Emitting code** changes the body alone. -/
theorem ends_emit {F : Error → Prop} (hF : ∀ e, F (.ir e)) {x : Ir.Program → Emit α} {s : Body}
    {P : α → Builder → Prop} (h : Ends (fun _ => True) (x s.session.ir) s.builder P) :
    Ends F (emit x) s fun v s' => ∃ b, s' = { s with builder := b } ∧ P v b := by
  have hrun : (emit x).run s = (ofIr ((x s.session.ir).run s.builder) >>= fun r =>
      .ok (r.1, { s with builder := r.2 })) := rfl
  cases hb : (x s.session.ir).run s.builder with
  | ok r =>
    rw [hb] at hrun
    exact .of_ok hrun ⟨r.2, rfl, h.result hb⟩
  | error e =>
    rw [hb] at hrun
    exact .of_error hrun (hF e)

theorem adds_emit [IsPreorder Session R] {x : Ir.Program → Emit α}
    (hx : ∀ p, Emit.Adds J ks faults (x p) l) : Adds R J ks line faults (emit x) line l :=
  fun s hs => (ends_emit (fun _ _ _ h => nomatch h) (hx s.session.ir s.builder)).mono
    fun v s' ⟨b, heq, hadded⟩ => by
      subst heq
      exact ⟨hs, hadded, refl_of R _⟩

/-- **The line that a message names** is that of the node, or else the line
before. -/
theorem adds_lineOf_bind {pos : Option Pos} {k : Nat → Lower α}
    (h : Adds R J ks line faults (k (Semantics.lineOf line pos)) line' l) :
    Adds R J ks line faults (lineOf pos >>= k) line' l := by
  rintro s rfl
  exact h s rfl

variable [Builder.Builds J] [IsPreorder Session R]

theorem adds_orFault {fault : Error} {o : Option α} (h : fault.Reported) :
    Adds R J ks line [] (liftM (orFault fault o)) line fun _ => ks := .lift (reported_orFault h)

theorem adds_localSlot (id : Source.NodeId) :
    Adds R J ks line [] (localSlot id) line fun _ => ks :=
  .bind .get fun _ => adds_orFault fun _ _ h => nomatch h

theorem adds_this : Adds R J ks line [] this line fun _ => ks := .bind .get fun s => by
  split
  · exact .pure _
  · exact .throw fun _ _ h => nomatch h

theorem adds_nullCheck (value : Operand) (pos : Option Pos) :
    Adds R J ks line [.nullPointer (Semantics.lineOf line pos)] (nullCheck value pos) line
      fun _ => ks :=
  adds_lineOf_bind (adds_emit fun _ =>
    Emit.adds_haltIfNull value (.nullPointer (Semantics.lineOf line pos)))

theorem adds_cast (value : Operand) (ty : Ir.Ty) :
    Adds R J ks line [] (cast value ty) line fun _ => ks :=
  adds_emit fun p => Emit.adds_cast p value ty

theorem adds_fieldAddr (object : Operand) (ref : MemberRef) :
    Adds R J ks line [] (fieldAddr object ref) line fun _ => ks :=
  .bind (adds_session (tame_fieldSlot ref)) fun _ =>
    adds_emit fun p => Emit.adds_elementPtr p _ _ _

theorem adds_arrayLength (array : Operand) :
    Adds R J ks line [] (arrayLength array) line fun _ => ks :=
  adds_emit fun p => .bind (Emit.adds_elementPtr p _ _ _) fun _ => Emit.adds_load p _ _

theorem adds_elementAddr (array index : Operand) (pos : Option Pos) :
    Adds R J ks line [.outOfBounds (Semantics.lineOf line pos)] (elementAddr array index pos) line
      fun _ => ks :=
  .bind (adds_arrayLength array) fun _ => adds_lineOf_bind <| adds_emit fun p =>
    .bind (Emit.adds_define _ _ _) fun _ => .bind (Emit.adds_define _ _ _) fun _ =>
    .bind (Emit.adds_define _ _ _) fun _ => .bind (Emit.adds_define _ _ _) fun _ =>
    .halt (Emit.adds_haltIf _ _ _ (.outOfBounds (Semantics.lineOf line pos))) fun _ =>
    Emit.adds_elementPtr p _ _ _

theorem adds_divide (left right : Operand) (pos : Option Pos) :
    Adds R J ks line [.divisionByZero (Semantics.lineOf line pos)] (divide left right pos) line
      fun _ => ks :=
  adds_lineOf_bind <| adds_emit fun p => .bind (Emit.adds_define _ _ _) fun _ =>
    .halt (Emit.adds_haltIf _ _ _ (.divisionByZero (Semantics.lineOf line pos))) fun _ =>
    .bind (Emit.adds_entryAlloca _ _) fun _ => .bind (Emit.adds_emit _) fun _ =>
    .bind (Emit.adds_define _ _ _) fun _ => .bind (Emit.adds_define _ _ _) fun _ =>
    .bind (Emit.adds_define _ _ _) fun _ => .bind (Emit.adds_newBlock _) fun _ =>
    .bind (Emit.adds_newBlock _) fun done => .bind (Emit.adds_branch _ _ _) fun _ =>
    .bind (Emit.adds_switchTo [done]) fun _ => .bind (Emit.adds_define _ _ _) fun _ =>
    .bind (Emit.adds_emit _) fun _ => .bind (Emit.adds_jump _) fun _ =>
    .bind (Emit.adds_switchTo []) fun _ => Emit.adds_load p _ _

theorem adds_equals (left right : Operand) :
    Adds R J ks line [] (equals left right) line fun _ => ks :=
  adds_emit fun p => .bind (Emit.adds_typeOf p left) fun leftTy =>
    .bind (Emit.adds_typeOf p right) fun rightTy => by
      split
      · exact Emit.adds_define _ _ _
      · split <;> exact .bind (Emit.adds_cast p _ _) fun _ => Emit.adds_define _ _ _

theorem adds_binary (op : Source.BinaryOp) (left right : Operand) (pos : Option Pos) :
    Adds R J ks line (if op = .div then [.divisionByZero (Semantics.lineOf line pos)] else [])
      (binary op left right pos) line fun _ => ks := by
  cases op with
  | div => exact adds_divide left right pos
  | equals => exact adds_equals left right
  | _ => exact adds_emit fun _ => Emit.adds_define _ _ _

theorem adds_unary (op : Source.UnaryOp) (value : Operand) :
    Adds R J ks line [] (unary op value) line fun _ => ks := by
  cases op <;> exact adds_emit fun _ => Emit.adds_define _ _ _

theorem adds_dispatch (method : String) (object : Operand) (slot : Nat) (args : List Operand) :
    Adds R J ks line [] (dispatch method object slot args) line fun _ => ks :=
  adds_emit fun p => .bind (Emit.adds_elementPtr p _ _ _) fun _ =>
    .bind (Emit.adds_load p _ _) fun _ => .bind (Emit.adds_elementPtr p _ _ _) fun _ =>
    .bind (Emit.adds_load p _ _) fun _ => Emit.adds_call p _ _ _

end Lower

open Lower

section Preorder

variable [Builder.Builds J] [IsPreorder Session R]

theorem adds_newElem (id : Source.NodeId) :
    Adds R J ks line [] (liftM (newElem a id)) line fun _ => ks := .lift fun e h => by
  unfold newElem at h
  cases hty : a.type? id with
  | none =>
    rw [hty] at h
    cases h
    exact fun _ _ h => nomatch h
  | some ty =>
    rw [hty] at h
    cases ty with
    | array => cases h
    | _ =>
      cases h
      exact fun _ _ h => nomatch h

/-- **A statement sets the line** that messages name, if it has a position. -/
theorem adds_enterStmt (comments : Bool) (s : Source.Stmt) :
    Adds R J ks line [] (enterStmt comments s) (Semantics.lineOf line s.pos) fun _ => ks := by
  unfold enterStmt
  cases s.pos with
  | some pos =>
    have hline : Adds R J ks line [] (modify fun b => { b with line := pos.line }) pos.line
        fun _ => ks := fun s _ => ⟨rfl, Builder.Builds.refl _ s.builder, refl_of R _⟩
    refine .bind hline fun _ => ?_
    split
    · exact .bind .get fun _ => adds_emit fun _ => Emit.adds_comment _
    · exact .pure _
  | none =>
    dsimp only
    split
    · exact .bind .get fun _ => adds_emit fun _ => Emit.adds_comment _
    · exact .pure _

theorem adds_leaveBranch (ks : List BlockId) (join : BlockId) {next : BlockId}
    {ks' : List BlockId} :
    Adds R J (ks ++ next :: ks') line [] (leaveBranch join next) line fun _ => ks ++ ks' :=
  adds_emit fun _ => .bind (Emit.adds_jumpIfOpen join) fun _ => Emit.adds_switchTo ks

end Preorder

variable [Builder.Builds J] [Hosts a R]

mutual

/-- **The value of an expression**: its code halts for the faults of the
expression, each in its turn. -/
theorem adds_rvalue (ks : List BlockId) :
    ∀ e : Source.Expr, Adds R J ks line (e.faults line) (rvalue a e) line fun _ => ks
  | .int _ _ | .bool _ _ | .null _ => .pure _
  | .this _ => adds_this
  | .read _ place => .last (adds_placeAddr ks place) fun _ =>
    adds_emit fun p => Emit.adds_load p _ _
  | .arrayLength m array => by
    rw [Source.Expr.faults]
    exact .append (adds_rvalue ks array) fun _ => .halt (adds_nullCheck _ m.pos) fun _ =>
      adds_arrayLength _
  | .unary _ op operand => .last (adds_rvalue ks operand) fun _ => adds_unary op _
  | .binary m op lhs rhs => by
    rw [Source.Expr.faults, List.append_assoc]
    unfold rvalue
    by_cases hand : op = .and
    · -- The block behind the operator waits while the right operand is computed.
      subst hand
      rw [if_pos rfl]
      refine .bind (adds_emit fun _ => Emit.adds_entryAlloca _ _) fun result =>
        .append (adds_rvalue ks lhs) fun left => .bind (l := fun done => done :: ks) ?_ fun done =>
          .append (adds_rvalue (done :: ks) rhs) fun _ => ?_
      · exact adds_emit fun _ => .bind (Emit.adds_emit _) fun _ =>
          .bind (Emit.adds_newBlock _) fun _ => .bind (Emit.adds_newBlock _) fun done =>
          .bind (Emit.adds_branch _ _ _) fun _ => .bind (Emit.adds_switchTo [done]) fun _ =>
          .pure done
      · exact adds_emit fun p => .bind (Emit.adds_emit _) fun _ => .bind (Emit.adds_jump _) fun _ =>
          .bind (Emit.adds_switchTo []) fun _ => Emit.adds_load p _ _
    · rw [if_neg hand]
      exact .append (adds_rvalue ks lhs) fun _ => .append (adds_rvalue ks rhs) fun _ =>
        adds_binary op _ _ m.pos
  | .call m name args => by
    unfold rvalue
    refine .bind (adds_orFault fun _ _ h => nomatch h) fun callee => ?_
    -- `print` takes one argument; with another number lowering stops, and adds nothing.
    cases callee with
    | builtin b =>
      match args with
      | [arg] =>
        rw [Source.Expr.faults, Source.argsFaults]
        exact .append (adds_rvalue ks arg) fun _ =>
          .bind (adds_emit fun _ => Emit.adds_emit _) fun _ => .pure _
      | [] | _ :: _ :: _ => exact .throw fun _ _ h => nomatch h
    | function index =>
      exact .bind (adds_session (tame_functionProc index)) fun _ =>
        .bind (adds_session (tame_procDecl _)) fun _ =>
        .last (adds_castArgs ks args _) fun _ => adds_emit fun p => Emit.adds_call p _ _ _
    | method ref => exact .throw fun _ _ h => nomatch h
  | .methodCall m receiver method args => by
    rw [Source.Expr.faults]
    unfold rvalue
    split
    · exact .append (adds_rvalue ks receiver) fun _ => .halt (adds_nullCheck _ m.pos) fun _ =>
        .bind (adds_session (tame_callTarget a _ _ _)) fun _ => .bind (adds_cast _ _) fun _ =>
        .last (adds_castArgs ks args _) fun _ => adds_dispatch _ _ _ _
    · exact .throw fun _ _ h => nomatch h
  | .newObject _ name => .bind (adds_orFault fun _ _ h => nomatch h) fun id =>
    .bind (adds_session (Hosts.classAllocator a id)) fun _ =>
    adds_emit fun p => Emit.adds_call p _ _ _
  | .newArray m _ size => .bind (adds_newElem a m.id) fun elem =>
    .last (adds_rvalue ks size) fun _ => .bind (adds_session (Hosts.arrayAllocator elem)) fun _ =>
    adds_emit fun p => Emit.adds_call p _ _ _

/-- **The address of a place** likewise. -/
theorem adds_placeAddr (ks : List BlockId) :
    ∀ place : Source.Place, Adds R J ks line (place.faults line) (placeAddr a place) line fun _ => ks
  | .var m _ => by
    unfold placeAddr
    refine .bind (adds_orFault fun _ _ h => nomatch h) fun decl => ?_
    cases decl with
    | local_ id => exact adds_localSlot id
    | field ref => exact .bind adds_this fun _ => adds_fieldAddr _ ref
  | .field m receiver _ => .bind (adds_orFault fun _ _ h => nomatch h) fun ref => by
    rw [Source.Place.faults]
    exact .append (adds_rvalue ks receiver) fun _ => .halt (adds_nullCheck _ m.pos) fun _ =>
      adds_fieldAddr _ ref
  | .index m array index => by
    rw [Source.Place.faults]
    exact .append (adds_rvalue ks array) fun _ => .halt (adds_nullCheck _ m.pos) fun _ =>
      .append (adds_rvalue ks index) fun _ => adds_elementAddr _ _ m.pos

/-- Arguments for which there is no parameter are left out. -/
theorem adds_castArgs (ks : List BlockId) : ∀ (args : List Source.Expr) (tys : List Ir.Ty),
    Adds R J ks line (Source.argsFaults line args) (castArgs a args tys) line fun _ => ks
  | arg :: args, ty :: tys => by
    rw [Source.argsFaults]
    exact .append (adds_rvalue ks arg) fun _ => .bind (adds_cast _ _) fun _ =>
      .last (adds_castArgs ks args tys) fun _ => .pure _
  | [], _ => by unfold castArgs; exact .pure _
  | _ :: _, [] => by unfold castArgs; exact .mono (.pure _) (List.nil_sublist _)

end

variable (comments : Bool)

/-- The second block and the one behind the statement wait. -/
theorem adds_branchIf (cond : Source.Expr) :
    Adds R J ks line (cond.faults line) (branchIf a cond) line fun r => r.2 :: r.1 :: ks :=
  .last (adds_rvalue a ks cond) fun _ => adds_emit fun _ =>
    .bind (Emit.adds_newBlock _) fun _ => .bind (Emit.adds_newBlock _) fun no =>
    .bind (Emit.adds_newBlock _) fun join => .bind (Emit.adds_branch _ _ _) fun _ =>
    .bind (Emit.adds_switchTo [join, no]) fun _ => .pure (no, join)

mutual

/-- **The code of a statement** halts for the faults of the statement, and hands
the line on. -/
theorem adds_lowerStmt (ks : List BlockId) (line : Nat) : ∀ s : Source.Stmt,
    Adds R J ks line (s.faults lineAfter line) (lowerStmt a comments s) (lineAfter line s)
      fun _ => ks
  | .block _ (.mk stmts _) => .bind (adds_enterStmt comments _) fun _ =>
    adds_lowerStmts ks _ stmts
  | .decl _ var => .bind (adds_enterStmt comments _) fun _ =>
    .bind (adds_localSlot _) fun _ => .bind (adds_session (Hosts.irTyOf _)) fun _ =>
    adds_emit fun _ => Emit.adds_emit _
  | .assign _ target value => .bind (adds_enterStmt comments _) fun _ =>
    .append (adds_placeAddr a ks target) fun _ => .last (adds_rvalue a ks value) fun _ =>
    .bind (adds_emit fun p => Emit.adds_pointee p _) fun _ =>
    .bind (adds_cast _ _) fun _ => adds_emit fun _ => Emit.adds_emit _
  | .expr _ value => .bind (adds_enterStmt comments _) fun _ =>
    .last (adds_rvalue a ks value) fun _ => .pure _
  | .ifThen _ cond body => .bind (adds_enterStmt comments _) fun _ =>
    -- The block behind the statement waits until both branches are left.
    .append (adds_branchIf a cond) fun r => .last (adds_lowerStmt (r.2 :: r.1 :: ks) _ body) fun _ =>
    .bind (adds_leaveBranch [r.2] r.2) fun _ => adds_leaveBranch [] r.2
  | .ifElse _ cond yes no => by
    rw [Source.Stmt.faults, List.append_assoc]
    exact .bind (adds_enterStmt comments _) fun _ => .append (adds_branchIf a cond) fun r =>
      .append (adds_lowerStmt (r.2 :: r.1 :: ks) _ yes) fun _ =>
      .bind (adds_leaveBranch [r.2] r.2) fun _ => .last (adds_lowerStmt (r.2 :: ks) _ no) fun _ =>
      adds_leaveBranch [] r.2
  | .loop _ cond body => .bind (adds_enterStmt comments _) fun _ =>
    .bind (l := fun r => r.2.2 :: r.2.1 :: ks) (adds_emit fun _ =>
      .bind (Emit.adds_newBlock _) fun head => .bind (Emit.adds_newBlock _) fun inside =>
      .bind (Emit.adds_newBlock _) fun exit => .bind (Emit.adds_jump _) fun _ =>
      .bind (Emit.adds_switchTo [exit, inside]) fun _ => .pure (head, inside, exit)) fun r =>
    .append (adds_rvalue a (r.2.2 :: r.2.1 :: ks) cond) fun _ =>
    .bind (adds_emit fun _ => .bind (Emit.adds_branch _ _ _) fun _ =>
      Emit.adds_switchTo [r.2.2]) fun _ =>
    .last (adds_lowerStmt (r.2.2 :: ks) _ body) fun _ => adds_leaveBranch [] r.1
  | .ret _ value => .bind (adds_enterStmt comments _) fun _ =>
    .last (adds_rvalue a ks value) fun _ => .bind .get fun _ => .bind (adds_cast _ _) fun _ =>
    adds_emit fun _ => Emit.adds_ret _

theorem adds_lowerStmts (ks : List BlockId) (line : Nat) : ∀ stmts : List Source.Stmt,
    Adds R J ks line (Source.stmtsFaults lineAfter line stmts) (lowerStmts a comments stmts)
      (lineAfterAll line stmts) fun _ => ks
  | [] => .pure _
  | s :: rest => .append (adds_lowerStmt ks line s) fun _ => adds_lowerStmts ks _ rest

end

/-! ## Functions -/

theorem adds_makeSlot (var : Source.VarDecl) :
    Adds R J ks line [] (makeSlot a var) line fun _ => ks :=
  .bind (adds_session (Hosts.irTyOf _)) fun _ =>
    .bind (adds_emit fun _ => Emit.adds_define _ _ _) fun slot =>
    have hnoted : Adds R J ks line []
        (modify fun b => { b with locals := b.locals.insert var.id slot }) line fun _ => ks :=
      fun s hs => ⟨hs, Builder.Builds.refl _ s.builder, refl_of R _⟩
    .bind hnoted fun _ => .pure _

theorem adds_copyParams (index : Nat) (params : List Source.VarDecl) :
    Adds R J ks line [] (copyParams a index params) line fun _ => ks := by
  induction params generalizing index with
  | nil => exact .pure _
  | cons param rest ih =>
    exact .bind (adds_makeSlot a param) fun _ =>
      .bind (adds_emit fun _ => Emit.adds_emit _) fun _ => ih _

theorem adds_makeSlots (vars : List Source.VarDecl) :
    Adds R J ks line [] (makeSlots a vars) line fun _ => ks := by
  induction vars with
  | nil => exact .pure _
  | cons var rest ih => exact .bind (adds_makeSlot a var) fun _ => ih

/-- **The code of a function** halts for the faults of the function, whatever
analysis it is lowered with. -/
theorem adds_lowerFunction (ks : List BlockId) (line : Nat) (options : Options) (first : Nat)
    (f : Source.FunctionDecl) :
    Adds R J ks line (Source.stmtsFaults lineAfter line f.body.stmts)
      (lowerFunction a options first f) (lineAfterAll line f.body.stmts) fun _ => ks :=
  .bind (adds_copyParams a first f.params) fun _ =>
    .bind (adds_makeSlots a f.body.varDecls) fun _ => by
      cases f.body with
      | mk stmts pos => exact adds_lowerStmts a options.comments ks line stmts

omit [Builder.Builds J] [Hosts a R] in
/-- **A function is lowered into blocks that are there**, whatever analysis it
is lowered with. -/
theorem inRange_lowerFunction {options : Options} {first : Nat} {f : Source.FunctionDecl}
    {body body' : Body} (h : (lowerFunction a options first f).run body = .ok ((), body'))
    (hbody : body.builder.InRange) : body'.builder.InRange :=
  have hadds := adds_lowerFunction (R := fun _ _ => True) (J := fun ks ks' _ => Builder.Ranges ks ks')
    a [] body.line options first f
  (((hadds body rfl).result h).2.1 ⟨hbody, List.forall_mem_nil _⟩).1

omit [Builder.Builds J] in
/-- **What is kept** while a body is lowered is kept as its procedure gets it. -/
theorem tame_lowerBody_of (hdefine : ∀ id body, Tame R (defineProc id body)) (options : Options)
    (inMethod : Bool) (f : Source.FunctionDecl) (proc : Ir.ProcId) :
    Tame R (lowerBody a options inMethod f proc) :=
  .bind (tame_procDecl proc) fun decl s => .get_bind <| by
    have hbody := adds_lowerFunction (R := R) (J := fun ks ks' _ => Builder.Ranges ks ks') a []
      (Semantics.lineOf 0 f.pos) options (if inMethod then 1 else 0) f
      ⟨s, .start decl.params decl.ret, [], inMethod, Semantics.lineOf 0 f.pos⟩ rfl
    refine Ends.bind (P := fun r _ => R s r.2.session)
      (.lift (fun r hr => (hbody.result hr).2.2) fun _ he => hbody.fault he) fun r _ hr => ?_
    exact (hdefine proc r.2.builder r.2.session).mono fun _ _ hs => trans_of R hr hs

omit [Builder.Builds J] [Hosts a R] in
theorem tame_lowerBody (options : Options) (inMethod : Bool) (f : Source.FunctionDecl)
    (proc : Ir.ProcId) : Tame (fun _ _ => True) (lowerBody a options inMethod f proc) :=
  tame_lowerBody_of a reported_defineProc options inMethod f proc

/-! ## Programs -/

theorem eq_some_of_orFault {fault : Error} {o : Option α} {v : α} (h : orFault fault o = .ok v) :
    o = some v := by
  cases o with
  | none => cases h
  | some w => exact congrArg some (Except.ok.inj h)

theorem ends_functionProc (index : Nat) (s : Session) :
    Ends Error.Reported (functionProc index) s fun proc s' =>
      s.functionProcs[index]? = some proc ∧ s' = s :=
  .get_bind (.lift (fun _ h => ⟨eq_some_of_orFault h, rfl⟩)
    (reported_orFault fun _ _ h => nomatch h))

theorem ends_methodProc (ref : MemberRef) (s : Session) :
    Ends Error.Reported (methodProc ref) s fun proc s' =>
      s.methodProcs.get? ref = some proc ∧ s' = s :=
  .get_bind (.lift (fun _ h => ⟨eq_some_of_orFault h, rfl⟩)
    (reported_orFault fun _ _ h => nomatch h))

/-- **A lowered program** is what was built from nothing. -/
theorem run_of_lowerProgram {a : Typing.Analysis} {p : Source.Program} {options : Options}
    {ir : Ir.Program} (h : lowerProgram a p options = .ok ir) :
    ∃ s : Session, (buildProgram a p options).run .start = .ok ((), s) ∧ s.ir = ir := by
  unfold lowerProgram at h
  cases hok : a.ok with
  | false => rw [hok] at h; cases h
  | true =>
    rw [hok] at h
    change ((buildProgram a p options).run .start >>= fun r => .ok r.2.ir) = _ at h
    cases hrun : (buildProgram a p options).run .start with
    | error e => rw [hrun] at h; cases h
    | ok r =>
      rw [hrun] at h
      exact ⟨r.2, rfl, Except.ok.inj h⟩

section Programs

variable {a} {options : Options} {R : Session → Session → Prop} [IsPreorder Session R]

/-- What the lowering of each body keeps is kept in turn. -/
theorem tame_lowerFunctions {fs : List (Source.FunctionDecl × Nat)}
    (h : ∀ f ∈ fs, ∀ s proc, s.functionProcs[f.2]? = some proc →
      Ends Error.Reported (lowerBody a options false f.1 proc) s fun _ s' => R s s') :
    Tame R (lowerFunctions a options fs) := by
  induction fs with
  | nil => exact .pure _
  | cons f rest ih =>
    rw [List.forall_mem_cons] at h
    refine fun s => (ends_functionProc f.2 s).bind fun proc s' ⟨hproc, hs'⟩ => ?_
    subst hs'
    exact (h.1 s' proc hproc).bind fun _ s'' hs'' => (ih h.2 s'').mono fun _ _ => trans_of R hs''

theorem tame_lowerMethods (id : ClassId) {methods : List (Source.FunctionDecl × Nat)}
    (h : ∀ m ∈ methods, ∀ s proc, s.methodProcs.get? ⟨id, m.2⟩ = some proc →
      Ends Error.Reported (lowerBody a options true m.1 proc) s fun _ s' => R s s') :
    Tame R (lowerMethods a options id methods) := by
  induction methods with
  | nil => exact .pure _
  | cons m rest ih =>
    rw [List.forall_mem_cons] at h
    refine fun s => (ends_methodProc ⟨id, m.2⟩ s).bind fun proc s' ⟨hproc, hs'⟩ => ?_
    subst hs'
    exact (h.1 s' proc hproc).bind fun _ s'' hs'' => (ih h.2 s'').mono fun _ _ => trans_of R hs''

theorem tame_lowerClasses {cs : List (Source.ClassDecl × Nat)}
    (h : ∀ c ∈ cs, ∀ m ∈ c.1.methods.zipIdx, ∀ s proc, s.methodProcs.get? ⟨c.2, m.2⟩ = some proc →
      Ends Error.Reported (lowerBody a options true m.1 proc) s fun _ s' => R s s') :
    Tame R (lowerClasses a options cs) := by
  induction cs with
  | nil => exact .pure _
  | cons c rest ih =>
    rw [List.forall_mem_cons] at h
    exact .bind (tame_lowerMethods _ h.1) fun _ => ih h.2

end Programs

end Lowering

end ClassLang
