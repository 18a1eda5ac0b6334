import ClassLang.Proofs.Typing.Programs
/-!
# Typing — scopes as copies

A scope keeps a frame for every block around and looks a name up from the inside
out. A `FlatScope` keeps all names of a kind in one table: it copies its tables when
a block is entered and takes the copies back when the block is left. `Mirrors` says
that frames answer as such copies do, for the frames in use and for those that the
copies wait for; every operation keeps it (`Follows.step`), so no run of operations
tells the two apart (`answers_after`).
-/


namespace ClassLang.Typing

/-! ## What is done to a scope -/

namespace Scope

/-- What is done to a scope. -/
inductive Operation
  | push
  | pop
  | putVar (name : String) (info : VarInfo)
  | putField (name : String) (info : VarInfo)
  | setReturn (ty : Ty)
  | setThis (ty : Ty)
deriving DecidableEq, Repr

/-- Does the operation enter or leave a block? -/
def Operation.crosses : Operation → Bool
  | .push | .pop => true
  | _ => false

/-- The scope behind an operation. -/
def step (s : Scope) : Operation → Scope
  | .push => s.push
  | .pop => s.pop
  | .putVar name info => s.putVar name info
  | .putField name info => s.putField name info
  | .setReturn ty => s.setReturn ty
  | .setThis ty => s.setThis ty

/-- The scope behind a run of operations. -/
def after (s : Scope) (ops : List Operation) : Scope := ops.foldl step s

/-- A run that leaves all blocks that it enters, and no other. -/
inductive Balanced : List Operation → Prop
  | nil : Balanced []
  | within {op rest} : op.crosses = false → Balanced rest → Balanced (op :: rest)
  | block {inner rest} : Balanced inner → Balanced rest →
      Balanced (.push :: (inner ++ .pop :: rest))

end Scope

/-! ## Copies -/

/-- All names in scope, variables and fields apart. -/
structure Bindings where
  vars : Table String VarInfo
  fields : Table String VarInfo
deriving DecidableEq, Repr

/-- A scope that copies its names when a block is entered. -/
structure FlatScope where
  /-- The names in scope. -/
  names : Bindings
  /-- The names to go back to when blocks are left, innermost first. -/
  saved : List Bindings
  returnTy : Ty
  thisTy : Ty
deriving DecidableEq, Repr

namespace FlatScope

/-- No names, outside of every class. -/
def empty : FlatScope := ⟨⟨[], []⟩, [], .any, .any⟩

/-- Leaves a block: all names are again what they were in front of it. Outside of
every block there is nothing to leave. -/
def pop (r : FlatScope) : FlatScope :=
  match r.saved with
  | [] => r
  | names :: rest => { r with names := names, saved := rest }

/-- The copies behind an operation. -/
def step (r : FlatScope) : Scope.Operation → FlatScope
  | .push => { r with saved := r.names :: r.saved }
  | .pop => r.pop
  | .putVar name info => { r with names := { r.names with vars := r.names.vars.insert name info } }
  | .putField name info =>
    { r with names := { r.names with fields := r.names.fields.insert name info } }
  | .setReturn ty => { r with returnTy := ty }
  | .setThis ty => { r with thisTy := ty }

/-- The copies behind a run of operations. -/
def after (r : FlatScope) (ops : List Scope.Operation) : FlatScope := ops.foldl step r

/-- The variable of a name. -/
def lookupVar (r : FlatScope) (name : String) : Option VarInfo := r.names.vars.get? name

/-- The field of a name. -/
def lookupField (r : FlatScope) (name : String) : Option VarInfo := r.names.fields.get? name

/-- The variable of a name, or else the field. -/
def lookup (r : FlatScope) (name : String) : Option VarInfo :=
  r.lookupVar name <|> r.lookupField name

end FlatScope

/-! ## Frames that answer as copies -/

/-- The frames answer as the copy of all names in them, and so do the frames around
the innermost one, each with its own copy. -/
inductive Mirrors : List Frame → List Bindings → Prop
  | nil : Mirrors [] []
  | cons {frame frames names copies} :
      (∀ name, (frame :: frames).findSome? (·.vars.get? name) = names.vars.get? name) →
      (∀ name, (frame :: frames).findSome? (·.fields.get? name) = names.fields.get? name) →
      Mirrors frames copies → Mirrors (frame :: frames) (names :: copies)

/-- The scope answers as the copies do, here and behind every block around. -/
structure Scope.Follows (s : Scope) (r : FlatScope) : Prop where
  mirrors : Mirrors (s.inner :: s.outer) (r.names :: r.saved)
  returnTy : s.returnTy = r.returnTy
  thisTy : s.thisTy = r.thisTy

namespace Scope.Follows

variable {s : Scope} {r : FlatScope}

theorem start : Scope.empty.Follows .empty :=
  ⟨.cons (fun _ => rfl) (fun _ => rfl) .nil, rfl, rfl⟩

theorem lookupVar (h : s.Follows r) (name : String) : s.lookupVar name = r.lookupVar name := by
  cases h.mirrors with
  | cons hvars _ _ => exact hvars name

theorem lookupField (h : s.Follows r) (name : String) :
    s.lookupField name = r.lookupField name := by
  cases h.mirrors with
  | cons _ hfields _ => exact hfields name

theorem lookup (h : s.Follows r) (name : String) : s.lookup name = r.lookup name := by
  rw [Scope.lookup, FlatScope.lookup, h.lookupVar, h.lookupField]

/-- The frames around the innermost one answer as the copies that were saved. -/
theorem outer (h : s.Follows r) : Mirrors s.outer r.saved := by
  cases h.mirrors with
  | cons _ _ hrest => exact hrest

/-- A frame without names answers nothing itself. -/
theorem push (h : s.Follows r) : (s.step .push).Follows (r.step .push) :=
  ⟨.cons h.lookupVar h.lookupField h.mirrors, h.returnTy, h.thisTy⟩

theorem pop (h : s.Follows r) : (s.step .pop).Follows (r.step .pop) := by
  obtain ⟨inner, outer, returnTy, thisTy⟩ := s
  obtain ⟨names, saved, returnTy', thisTy'⟩ := r
  have houter : Mirrors outer saved := h.outer
  cases houter with
  | nil => exact h
  | cons hvars hfields hrest => exact ⟨.cons hvars hfields hrest, h.returnTy, h.thisTy⟩

/-- A variable that is declared hides the others of its name, in the frames as in
the copy. -/
theorem putVar (h : s.Follows r) (name : String) (info : VarInfo) :
    (s.step (.putVar name info)).Follows (r.step (.putVar name info)) := by
  refine ⟨.cons (fun other => ?_) h.lookupField h.outer, h.returnTy, h.thisTy⟩
  show (s.putVar name info).lookupVar other = (r.names.vars.insert name info).get? other
  by_cases heq : name = other
  · subst heq
    rw [lookupVar_putVar_self, Table.get?_insert_self]
  · rw [lookupVar_putVar_of_ne s info heq, Table.get?_insert_of_ne _ _ heq]
    exact h.lookupVar other

theorem putField (h : s.Follows r) (name : String) (info : VarInfo) :
    (s.step (.putField name info)).Follows (r.step (.putField name info)) := by
  refine ⟨.cons h.lookupVar (fun other => ?_) h.outer, h.returnTy, h.thisTy⟩
  show (s.putField name info).lookupField other = (r.names.fields.insert name info).get? other
  rw [lookupField_putField]
  by_cases heq : name = other
  · rw [if_pos heq, ← heq, Table.get?_insert_self]
  · rw [if_neg heq, Table.get?_insert_of_ne _ _ heq]
    exact h.lookupField other

/-- **Every operation** keeps that the scope answers as the copies do. -/
theorem step (h : s.Follows r) (op : Operation) : (s.step op).Follows (r.step op) := by
  cases op with
  | push => exact h.push
  | pop => exact h.pop
  | putVar name info => exact h.putVar name info
  | putField name info => exact h.putField name info
  | setReturn ty => exact ⟨h.mirrors, rfl, h.thisTy⟩
  | setThis ty => exact ⟨h.mirrors, h.returnTy, rfl⟩

/-- And so does every run. -/
theorem after (h : s.Follows r) (ops : List Operation) : (s.after ops).Follows (r.after ops) := by
  induction ops generalizing s r with
  | nil => exact h
  | cons op rest ih => exact ih (h.step op)

end Scope.Follows

/-! ## Blocks that are entered and left -/

namespace Scope

variable {s : Scope}

theorem after_append (s : Scope) (ops rest : List Operation) :
    s.after (ops ++ rest) = (s.after ops).after rest := List.foldl_append

/-- What neither enters nor leaves a block leaves the frames around alone. -/
theorem outer_step {op : Operation} (h : op.crosses = false) : (s.step op).outer = s.outer := by
  cases op with
  | push | pop => cases h
  | _ => rfl

/-- Where a block is left, its frame goes and the frames around it are there again. -/
theorem pop_of_outer {t : Scope} (h : t.outer = s.inner :: s.outer) :
    t.pop.inner = s.inner ∧ t.pop.outer = s.outer := by
  obtain ⟨inner, outer, returnTy, thisTy⟩ := t
  obtain rfl : outer = s.inner :: s.outer := h
  exact ⟨rfl, rfl⟩

/-- A balanced run leaves the frames around alone. -/
theorem outer_after {ops : List Operation} (h : Balanced ops) : (s.after ops).outer = s.outer := by
  induction h generalizing s with
  | nil => rfl
  | within hop _ ih => exact ih.trans (outer_step hop)
  | @block inner rest _ _ ihInner ihRest =>
    have hpop := pop_of_outer (s := s) (t := s.push.after inner) ihInner
    show (s.push.after (inner ++ .pop :: rest)).outer = s.outer
    rw [after_append]
    exact ihRest.trans hpop.2

/-- **A block that was left** leaves no names behind and takes none away. -/
theorem frames_after_block {block : List Operation} (h : Balanced block) :
    (s.after (.push :: (block ++ [.pop]))).inner = s.inner ∧
      (s.after (.push :: (block ++ [.pop]))).outer = s.outer := by
  show (s.push.after (block ++ [.pop])).inner = _ ∧ (s.push.after (block ++ [.pop])).outer = _
  rw [after_append]
  exact pop_of_outer (outer_after h)

/-- The types that statements refer to are the same with and without entering and
leaving blocks. -/
theorem types_after {t : Scope} (hreturn : s.returnTy = t.returnTy) (hthis : s.thisTy = t.thisTy)
    (ops : List Operation) :
    (s.after ops).returnTy = (t.after (ops.filter (!·.crosses))).returnTy ∧
      (s.after ops).thisTy = (t.after (ops.filter (!·.crosses))).thisTy := by
  induction ops generalizing s t with
  | nil => exact ⟨hreturn, hthis⟩
  | cons op rest ih =>
    cases op with
    | push => exact ih (s := s.push) hreturn hthis
    | pop =>
      obtain ⟨inner, _ | ⟨frame, outer⟩, returnTy, thisTy⟩ := s
      · exact ih hreturn hthis
      · exact ih (s := ⟨frame, outer, returnTy, thisTy⟩) hreturn hthis
    | putVar name info => exact ih (s := s.putVar name info) (t := t.putVar name info) hreturn hthis
    | putField name info =>
      exact ih (s := s.putField name info) (t := t.putField name info) hreturn hthis
    | setReturn ty => exact ih (s := s.setReturn ty) (t := t.setReturn ty) rfl hthis
    | setThis ty => exact ih (s := s.setThis ty) (t := t.setThis ty) hreturn rfl

/-! ## What a run tells of scopes -/

/-- Every name is looked up in the scope as in the copies, and the types that
statements refer to are the same. -/
structure Answers (s : Scope) (r : FlatScope) : Prop where
  lookup : ∀ name, s.lookup name = r.lookup name
  lookupVar : ∀ name, s.lookupVar name = r.lookupVar name
  lookupField : ∀ name, s.lookupField name = r.lookupField name
  returnTy : s.returnTy = r.returnTy
  thisTy : s.thisTy = r.thisTy

/-- Every name is looked up in one scope as in the other. -/
structure SameLookups (s t : Scope) : Prop where
  lookup : ∀ name, s.lookup name = t.lookup name
  lookupVar : ∀ name, s.lookupVar name = t.lookupVar name
  lookupField : ∀ name, s.lookupField name = t.lookupField name

theorem sameLookups_of_frames {t : Scope} (hinner : s.inner = t.inner) (houter : s.outer = t.outer) :
    s.SameLookups t := by
  have hvar (name : String) : s.lookupVar name = t.lookupVar name := by
    rw [Scope.lookupVar, Scope.lookupVar, hinner, houter]
  have hfield (name : String) : s.lookupField name = t.lookupField name := by
    rw [Scope.lookupField, Scope.lookupField, hinner, houter]
  exact ⟨fun name => by rw [Scope.lookup, Scope.lookup, hvar, hfield], hvar, hfield⟩

/-- **Entering a block copies the names, and leaving it gives the copy back**: behind
every run of operations a scope without names answers as the copies do. A block that
was entered, run through and left changes no answer, and the types that statements
refer to are those of the run without entering and leaving blocks. -/
theorem answers_after (ops : List Operation) :
    (empty.after ops).Answers (FlatScope.empty.after ops) ∧
      (∀ block, Balanced block →
        (empty.after (ops ++ .push :: (block ++ [.pop]))).SameLookups (empty.after ops)) ∧
      (empty.after ops).returnTy = (empty.after (ops.filter (!·.crosses))).returnTy ∧
      (empty.after ops).thisTy = (empty.after (ops.filter (!·.crosses))).thisTy := by
  have hfollows := Follows.start.after ops
  refine ⟨⟨hfollows.lookup, hfollows.lookupVar, hfollows.lookupField, hfollows.returnTy,
    hfollows.thisTy⟩, fun block hblock => ?_, types_after rfl rfl ops⟩
  have hframes := frames_after_block (s := empty.after ops) hblock
  rw [after_append]
  exact sameLookups_of_frames hframes.1 hframes.2

/-- A field, and a variable in a block that hides it. -/
def hidden : List Operation :=
  [.putField "x" ⟨.bool, .field ⟨0, 0⟩⟩, .push, .putVar "x" ⟨.int, .local_ 1⟩]

/-- A field of the same name further inside, and a block with a variable in it. -/
def inside : List Operation :=
  [.putField "x" ⟨.null, .field ⟨0, 1⟩⟩, .push, .putVar "y" ⟨.int, .local_ 2⟩, .setReturn .int, .pop]

/-- The variable around still comes before the field inside. -/
theorem answers_after_hidden : Balanced inside ∧
    (empty.after (hidden ++ .push :: inside)).lookup "x" = some ⟨.int, .local_ 1⟩ ∧
    (empty.after (hidden ++ .push :: inside)).lookupField "x" = some ⟨.null, .field ⟨0, 1⟩⟩ ∧
    (empty.after (hidden ++ .push :: (inside ++ [.pop]))).SameLookups (empty.after hidden) := by
  have hbalanced : Balanced inside := .within rfl (.block (.within rfl (.within rfl .nil)) .nil)
  exact ⟨hbalanced, by decide, by decide, (answers_after hidden).2.1 inside hbalanced⟩

end Scope

end ClassLang.Typing
