import ClassLang.Table
import ClassLang.Types.Basic
import ClassLang.Types.Error
/-!
# Types — the class hierarchy

Resolving a class yields its `ClassInfo`: its superclass and the members
that are visible in it, where a declaration hides an inherited one of the
same name. Resolution climbs from a class to its superclasses with the
chain of classes it came through. A class that is met again closes a
cycle: it is reported, and for this climb it has no superclass. What is
computed below such a class is preliminary and not kept, up to the class
that closed the cycle. So one call leaves the class it was made for
resolved, and `ClassTable.isSubtype` can walk the superclasses.
-/


namespace ClassLang

open Source (NodeId FunctionDecl ClassDecl VarDecl Program)

/-- A field or a method: the class that declares it and its index there. -/
structure MemberRef where
  class_ : ClassId
  index : Nat
deriving DecidableEq, Repr

/-- What is known of a class. -/
structure ClassInfo where
  id : ClassId
  name : String
  /-- None for a class without superclass, with an unknown one, or where a
  cycle was broken. -/
  superclass : Option ClassId
  /-- The visible fields; the nearest declaration counts. -/
  fields : Table String MemberRef
  /-- The visible methods; the nearest declaration counts. -/
  methods : Table String MemberRef
deriving DecidableEq, Repr

/-- The visible field of a name. -/
def ClassInfo.field? (i : ClassInfo) (name : String) : Option MemberRef := i.fields.get? name

/-- The visible method of a name. -/
def ClassInfo.method? (i : ClassInfo) (name : String) : Option MemberRef := i.methods.get? name

/-- The declaration of a field. -/
def fieldDecl? (p : Program) (ref : MemberRef) : Option VarDecl :=
  p.classes[ref.class_]?.bind (·.fields[ref.index]?)

/-- The declaration of a method. -/
def methodDecl? (p : Program) (ref : MemberRef) : Option FunctionDecl :=
  p.classes[ref.class_]?.bind (·.methods[ref.index]?)

/-- Do two methods have the same return and parameter types, as written? -/
def sameSignature (f g : FunctionDecl) : Bool :=
  f.returnType == g.returnType && f.params.map (·.ty) == g.params.map (·.ty)

/-- The names of the classes, in the order of their declarations, and what
is known of each. -/
structure ClassTable where
  names : List String
  infos : List (Option ClassInfo)
deriving DecidableEq, Repr

namespace ClassTable

/-- The class of a name: the first one that has it. -/
def lookup (t : ClassTable) (name : String) : Option ClassId := t.names.idxOf? name

/-- What is known of a class, if it was resolved. -/
def info (t : ClassTable) (id : ClassId) : Option ClassInfo := t.infos[id]?.join

/-- The superclass of a class that was resolved. -/
def superclass (t : ClassTable) (id : ClassId) : Option ClassId :=
  (t.info id).bind (·.superclass)

/-- How many classes there are. -/
def size (t : ClassTable) : Nat := t.infos.length

/-- The errors for the classes from index `i` on whose names occur among
the `earlier` classes. -/
def duplicates (fallback : Pos) : List ClassDecl → List ClassDecl → List TypeError
  | _, [] => []
  | earlier, c :: rest =>
    let error := match earlier.find? (·.name == c.name) with
      | some first => [⟨.duplicateClass c.name (first.pos.getD fallback), c.pos.getD fallback⟩]
      | none => []
    error ++ duplicates fallback (earlier ++ [c]) rest

/-- The table of a program before any class is resolved. -/
def ofProgram (p : Program) : ClassTable :=
  ⟨p.classes.map (·.name), p.classes.map fun _ => none⟩

/-- The errors for repeated class names; a class without position is
reported at `fallback`. -/
def duplicateErrors (p : Program) (fallback : Pos) : List TypeError :=
  duplicates fallback [] p.classes

end ClassTable

/-! ## Flattening -/

/-- Declares members on top of the inherited ones. -/
def declareMembers (id : ClassId) (names : List String) (inherited : Table String MemberRef) :
    Table String MemberRef :=
  names.zipIdx.foldl (fun members (name, index) => members.insert name ⟨id, index⟩) inherited

/-- The errors for methods that override a method of another class with
another signature. A declaration counts as overriding for the first method
of its name only: the next one finds that method instead. -/
def overrideErrors (p : Program) (id : ClassId) (classPos : Pos) :
    Table String MemberRef → List (FunctionDecl × Nat) → List TypeError
  | _, [] => []
  | methods, (method, index) :: rest =>
    let error := match (methods.get? method.name).filter (·.class_ ≠ id) with
      | some ref =>
        match methodDecl? p ref with
        | some previous =>
          if sameSignature previous method then []
          else
            let classAt := p.classes[ref.class_]?.bind (·.pos)
            let previousPos := (previous.pos <|> classAt).getD classPos
            [⟨.incompatibleOverride method.name previousPos, method.pos.getD classPos⟩]
        | none => []
      | none => []
    error ++ overrideErrors p id classPos (methods.insert method.name ⟨id, index⟩) rest

/-- What is known of a class, given its superclass and what is known of
that. -/
def flatten (id : ClassId) (decl : ClassDecl) (superclass : Option ClassId)
    (inherited : Option ClassInfo) : ClassInfo where
  id := id
  name := decl.name
  superclass := superclass
  fields := declareMembers id (decl.fields.map (·.name)) ((inherited.map (·.fields)).getD [])
  methods := declareMembers id (decl.methods.map (·.name)) ((inherited.map (·.methods)).getD [])

/-! ## Resolution -/

/-- What a climb yields for a class. -/
structure Climb where
  table : ClassTable
  errors : List TypeError
  info : Option ClassInfo
  /-- The class that closes the cycle which is being unwound, if one is. -/
  reentered : Option ClassId
deriving DecidableEq, Repr

/-- The classes of a program that are not on a chain. -/
def offChain (p : Program) (chain : List ClassId) : List ClassId :=
  (List.range p.classes.length).filter fun id => id ∉ chain

theorem length_offChain_lt {p : Program} {chain : List ClassId} {id : ClassId} {decl : ClassDecl}
    (hdecl : p.classes[id]? = some decl) (hchain : id ∉ chain) :
    (offChain p (id :: chain)).length < (offChain p chain).length := by
  have hid : id < p.classes.length := by
    obtain ⟨h, -⟩ := List.getElem?_eq_some_iff.1 hdecl
    exact h
  have hmem : id ∈ offChain p chain := by simp [offChain, hid, hchain]
  have heq : offChain p (id :: chain) = (offChain p chain).filter (· ≠ id) := by
    simp only [offChain, List.filter_filter]
    congr 1
    funext x
    simp
  rw [heq]
  rcases Nat.lt_or_ge ((offChain p chain).filter (· ≠ id)).length (offChain p chain).length with
    h | h
  · exact h
  · have hfull := List.length_filter_eq_length_iff.1
      (Nat.le_antisymm (List.length_filter_le _ _) h) id hmem
    simp at hfull

/-- Resolves a class that was reached through `chain`, nearest first. -/
def ClassTable.climb (p : Program) (fallback : Pos) (chain : List ClassId) (id : ClassId)
    (t : ClassTable) : Climb :=
  match t.info id with
  | some info => ⟨t, [], info, none⟩
  | none =>
    match _hdecl : p.classes[id]? with
    | none => ⟨t, [], none, none⟩
    | some decl =>
      let classPos := decl.pos.getD fallback
      if _hchain : id ∈ chain then
        ⟨t, [⟨.inheritanceCycle decl.name, classPos⟩], flatten id decl none none, id⟩
      else
        let found := decl.extends?.map fun name => (name, t.lookup name)
        match found with
        | some (_, some superclass) =>
          let above := climb p fallback (id :: chain) superclass t
          let info := flatten id decl superclass above.info
          if above.reentered.any (· ≠ id) then
            ⟨above.table, above.errors, info, above.reentered⟩
          else
            let inherited := (above.info.map (·.methods)).getD []
            ⟨{ above.table with infos := above.table.infos.set id info },
              above.errors ++ overrideErrors p id classPos inherited decl.methods.zipIdx, info, none⟩
        | found =>
          let info := flatten id decl none none
          let missing := match found with
            | some (name, none) => [⟨.unknownSuperclass name decl.name, classPos⟩]
            | _ => []
          ⟨{ t with infos := t.infos.set id info }, missing, info, none⟩
termination_by (offChain p chain).length
decreasing_by exact length_offChain_lt _hdecl _hchain

/-- Resolves a class: the new table, the errors that come with it, and
what is known of the class. -/
def ClassTable.resolve (p : Program) (fallback : Pos) (id : ClassId) (t : ClassTable) : Climb :=
  t.climb p fallback [] id

/-- Resolves the classes of a list in turn. -/
def ClassTable.resolveEach (p : Program) (fallback : Pos) :
    List ClassId → ClassTable → ClassTable × List TypeError
  | [], t => (t, [])
  | id :: rest, t =>
    let first := t.resolve p fallback id
    let (last, errors) := resolveEach p fallback rest first.table
    (last, first.errors ++ errors)

/-- Resolves all classes in the order of their declarations. -/
def ClassTable.resolveAll (p : Program) (fallback : Pos) (t : ClassTable) :
    ClassTable × List TypeError :=
  t.resolveEach p fallback (List.range p.classes.length)

/-! ## Subtypes -/

/-- Is `b` the class `a` or one of the first `n` superclasses above it? -/
def ClassTable.reaches (t : ClassTable) (b : ClassId) : Nat → ClassId → Bool
  | 0, a => a == b
  | n + 1, a => a == b || (t.superclass a).any (t.reaches b n)

/-- Is `b` the class `a` or a superclass above it? No climb without a cycle
is longer than there are classes. -/
def ClassTable.inheritsFrom (t : ClassTable) (a b : ClassId) : Bool := t.reaches b t.size a

/-- Does a value of type `sub` fit where `sup` is expected? Array types fit
only themselves, save that an element type `any` fits every element type;
`null` fits every reference type, and a class fits its superclasses. -/
def ClassTable.isSubtype (t : ClassTable) (types : TypeTable) (sub sup : Ty) : Bool :=
  match sub, sup with
  | .invalid, _ | _, .invalid => false
  | .any, _ | _, .any => true
  | .null, .null | .null, .array _ | .null, .class_ _ => true
  | .int, .int | .bool, .bool => true
  | .array a, .array b => a == b || types.elem a == .any || types.elem b == .any
  | .class_ a, .class_ b => t.inheritsFrom a b
  | _, _ => false

end ClassLang
