import ClassLang.Proofs.Growth
import ClassLang.Proofs.Hierarchy.Resolution
import ClassLang.Types.Functions
/-!
# Hierarchy — resolution reads headers

`Program.SameHeaders` relates two programs whose declarations have the same
names and types, and are reported at the same positions. Names of functions and
the hierarchy of classes are resolved in both alike, with the same errors
(`FunctionTable.ofProgram_congr`, `ClassTable.resolveAll_congr`), whatever else
the programs have.
-/


namespace ClassLang

open Source (TypeExpr FunctionDecl ClassDecl VarDecl Program)

namespace Source

/-- The types of the parameters of a function, and the type that it returns. -/
def FunctionDecl.types (f : FunctionDecl) : List TypeExpr × TypeExpr :=
  (f.params.map (·.ty), f.returnType)

/-- Two functions have the same name and types, and are reported at the same
position, given the positions around them. -/
structure FunctionDecl.SameHeader (outer outer' : Pos) (f g : FunctionDecl) : Prop where
  name : g.name = f.name
  types : g.types = f.types
  pos : g.pos.getD outer' = f.pos.getD outer

/-- Two classes have the same name, superclass and members, and are reported at
the same position, given the positions around them. -/
structure ClassDecl.SameHeader (outer outer' : Pos) (c d : ClassDecl) : Prop where
  name : d.name = c.name
  extends_ : d.extends? = c.extends?
  fields : List.Forall₂ (fun v w : VarDecl => w.name = v.name ∧ w.ty = v.ty) c.fields d.fields
  methods : List.Forall₂ (FunctionDecl.SameHeader (c.pos.getD outer) (d.pos.getD outer'))
    c.methods d.methods
  pos : d.pos.getD outer' = c.pos.getD outer

/-- The position of a method, or else that of its class. -/
def Program.methodPos? (p : Program) (ref : MemberRef) : Option Pos :=
  (methodDecl? p ref).bind fun m => m.pos <|> p.classes[ref.class_]?.bind (·.pos)

/-- **Two programs declare the same types**: of fields, of functions and of
methods. -/
structure Program.SameTypes (p q : Program) : Prop where
  field : ∀ ref, (fieldDecl? q ref).map (·.ty) = (fieldDecl? p ref).map (·.ty)
  function : ∀ i : Nat, (q.functions[i]?).map FunctionDecl.types =
    (p.functions[i]?).map FunctionDecl.types
  method : ∀ ref, (methodDecl? q ref).map FunctionDecl.types =
    (methodDecl? p ref).map FunctionDecl.types

/-- **Two programs have the same headers**, given the positions around them. -/
structure Program.SameHeaders (outer outer' : Pos) (p q : Program) : Prop where
  functions : List.Forall₂ (FunctionDecl.SameHeader outer outer') p.functions q.functions
  classes : List.Forall₂ (ClassDecl.SameHeader outer outer') p.classes q.classes
  /-- Seen from a class with a superclass, a method is at the same position. -/
  methodPos : ∀ (ref : MemberRef) (id : ClassId) (c d : ClassDecl), p.classes[id]? = some c →
    q.classes[id]? = some d → c.extends? ≠ none →
    (q.methodPos? ref).getD (d.pos.getD outer') = (p.methodPos? ref).getD (c.pos.getD outer)

end Source

/-- Lists that go together have elements that go together, or none, in a place. -/
theorem getElem?_cases_of_forall₂ {α β : Type} {R : α → β → Prop} {xs : List α} {ys : List β}
    (h : List.Forall₂ R xs ys) (i : Nat) :
    (xs[i]? = none ∧ ys[i]? = none) ∨ ∃ x y, xs[i]? = some x ∧ ys[i]? = some y ∧ R x y := by
  cases hx : xs[i]? with
  | none =>
    rw [List.getElem?_eq_none_iff, h.length_eq, ← List.getElem?_eq_none_iff] at hx
    exact .inl ⟨rfl, hx⟩
  | some x =>
    obtain ⟨y, hy, hxy⟩ := getElem?_of_forall₂ h hx
    exact .inr ⟨x, y, rfl, hy, hxy⟩

theorem map_eq_of_forall₂ {α β γ : Type} {R : α → β → Prop} {f : α → γ} {g : β → γ} {xs : List α}
    {ys : List β} (h : List.Forall₂ R xs ys) (hR : ∀ x y, R x y → g y = f x) :
    ys.map g = xs.map f := by
  induction h with
  | nil => rfl
  | cons hxy _ ih => rw [List.map_cons, List.map_cons, hR _ _ hxy, ih]

variable {p q : Program} {outer outer' : Pos}

namespace Source.Program.SameHeaders

variable (h : p.SameHeaders outer outer' q)

include h

theorem class? (id : ClassId) : (p.classes[id]? = none ∧ q.classes[id]? = none) ∨
    ∃ c d, p.classes[id]? = some c ∧ q.classes[id]? = some d ∧ c.SameHeader outer outer' d :=
  getElem?_cases_of_forall₂ h.classes id

theorem method (ref : MemberRef) :
    (methodDecl? q ref).map FunctionDecl.types = (methodDecl? p ref).map FunctionDecl.types := by
  rw [methodDecl?, methodDecl?]
  rcases h.class? ref.class_ with ⟨hc, hd⟩ | ⟨c, d, hc, hd, hcd⟩
  · rw [hc, hd]
  · rw [hc, hd, Option.bind_some, Option.bind_some]
    rcases getElem?_cases_of_forall₂ hcd.methods ref.index with ⟨hm, hn⟩ | ⟨m, n, hm, hn, hmn⟩
    · rw [hm, hn]
    · rw [hm, hn, Option.map_some, Option.map_some, hmn.types]

theorem field (ref : MemberRef) :
    (fieldDecl? q ref).map (·.ty) = (fieldDecl? p ref).map (·.ty) := by
  rw [fieldDecl?, fieldDecl?]
  rcases h.class? ref.class_ with ⟨hc, hd⟩ | ⟨c, d, hc, hd, hcd⟩
  · rw [hc, hd]
  · rw [hc, hd, Option.bind_some, Option.bind_some]
    rcases getElem?_cases_of_forall₂ hcd.fields ref.index with ⟨hv, hw⟩ | ⟨v, w, hv, hw, -, hty⟩
    · rw [hv, hw]
    · rw [hv, hw, Option.map_some, Option.map_some, hty]

theorem sameTypes : p.SameTypes q :=
  ⟨h.field, fun i => by
    rw [← List.getElem?_map, ← List.getElem?_map,
      map_eq_of_forall₂ h.functions fun _ _ hfg => hfg.types], h.method⟩

end Source.Program.SameHeaders

/-! ## Functions -/

namespace FunctionTable

theorem declare_congr (h : p.SameHeaders outer outer' q) {fs gs : List FunctionDecl}
    (hfs : List.Forall₂ (FunctionDecl.SameHeader outer outer') fs gs) (k : Nat)
    (t : FunctionTable) :
    declare q outer' (gs.zipIdx k) t = declare p outer (fs.zipIdx k) t := by
  induction hfs generalizing k t with
  | nil => rfl
  | @cons f g fs gs hfg _ ih =>
    rw [List.zipIdx_cons, List.zipIdx_cons, declare, declare, hfg.name]
    cases t.lookup f.name with
    | none => exact ih _ _
    | some earlier =>
      have hprevious (i : Nat) : (q.functions[i]?.map fun g => g.pos.getD outer') =
          p.functions[i]?.map fun f => f.pos.getD outer := by
        rw [← List.getElem?_map, ← List.getElem?_map,
          map_eq_of_forall₂ h.functions fun _ _ hxy => hxy.pos]
      cases earlier <;> simp only [ih, hprevious, hfg.pos]

/-- **The names of functions** are the same. -/
theorem ofProgram_congr (h : p.SameHeaders outer outer' q) (printName : String) :
    ofProgram q printName outer' = ofProgram p printName outer :=
  declare_congr h h.functions 0 _

end FunctionTable

/-! ## Classes -/

theorem flatten_congr {c d : ClassDecl} (h : c.SameHeader outer outer' d) (id : ClassId)
    (superclass : Option ClassId) (inherited : Option ClassInfo) :
    flatten id d superclass inherited = flatten id c superclass inherited := by
  rw [flatten, flatten, h.name, map_eq_of_forall₂ h.fields fun _ _ hvw => hvw.1,
    map_eq_of_forall₂ h.methods fun _ _ hmn => hmn.name]

theorem sameSignature_congr {f g f' g' : FunctionDecl} (hf : f'.types = f.types)
    (hg : g'.types = g.types) : sameSignature f' g' = sameSignature f g := by
  rw [FunctionDecl.types, FunctionDecl.types, Prod.mk.injEq] at hf hg
  rw [sameSignature, sameSignature, hf.1, hf.2, hg.1, hg.2]

theorem overrideErrors_congr (h : p.SameHeaders outer outer' q) (id : ClassId) {pos pos' : Pos}
    (hpos : pos' = pos) (hprevious : ∀ ref, (q.methodPos? ref).getD pos' = (p.methodPos? ref).getD pos)
    {ms ns : List FunctionDecl} (hms : List.Forall₂ (FunctionDecl.SameHeader pos pos') ms ns) (k : Nat)
    (methods : Table String MemberRef) :
    overrideErrors q id pos' methods (ns.zipIdx k) =
      overrideErrors p id pos methods (ms.zipIdx k) := by
  subst hpos
  induction hms generalizing k methods with
  | nil => rfl
  | @cons m n ms ns hmn _ ih =>
    rw [List.zipIdx_cons, List.zipIdx_cons, overrideErrors, overrideErrors, ih, hmn.name]
    cases (methods.get? m.name).filter (·.class_ ≠ id) with
    | none => rfl
    | some ref =>
      have htypes := h.method ref
      have hprevious := hprevious ref
      rw [Program.methodPos?, Program.methodPos?] at hprevious
      dsimp only
      cases hm : methodDecl? p ref with
      | none =>
        rw [hm, Option.map_none, Option.map_eq_none_iff] at htypes
        rw [htypes]
      | some previous =>
        rw [hm, Option.map_some] at htypes
        obtain ⟨previous', hn, htypes⟩ := Option.map_eq_some_iff.1 htypes
        rw [hm, hn, Option.bind_some, Option.bind_some] at hprevious
        simp only [hn, sameSignature_congr htypes hmn.types, hprevious, hmn.pos]

namespace ClassTable

theorem ofProgram_congr (h : p.SameHeaders outer outer' q) : ofProgram q = ofProgram p := by
  rw [ofProgram, ofProgram, map_eq_of_forall₂ h.classes fun _ _ hcd => hcd.name,
    map_eq_of_forall₂ (f := fun _ => none) (g := fun _ => none) h.classes fun _ _ _ => rfl]

theorem duplicates_congr {cs ds earlier earlier' : List ClassDecl}
    (hcs : List.Forall₂ (ClassDecl.SameHeader outer outer') cs ds)
    (hearlier : List.Forall₂ (ClassDecl.SameHeader outer outer') earlier earlier') :
    duplicates outer' earlier' ds = duplicates outer earlier cs := by
  induction hcs generalizing earlier earlier' with
  | nil => rfl
  | @cons c d cs ds hcd _ ih =>
    have hfind : (earlier'.find? (·.name == c.name)).map (fun c => c.pos.getD outer') =
        (earlier.find? (·.name == c.name)).map fun c => c.pos.getD outer := by
      induction hearlier with
      | nil => rfl
      | @cons c₁ d₁ cs₁ ds₁ hcd₁ _ ih₁ =>
        rw [List.find?_cons, List.find?_cons, hcd₁.name]
        split
        · exact congrArg some hcd₁.pos
        · exact ih₁
    rw [duplicates, duplicates, ih (List.rel_append hearlier (.cons hcd .nil)), hcd.name, hcd.pos]
    congr 1
    cases hfirst : earlier.find? (·.name == c.name) with
    | none =>
      rw [hfirst, Option.map_none, Option.map_eq_none_iff] at hfind
      rw [hfind]
    | some first =>
      rw [hfirst, Option.map_some] at hfind
      obtain ⟨first', hfirst', heq⟩ := Option.map_eq_some_iff.1 hfind
      rw [hfirst']
      dsimp only
      rw [heq]

/-- **Repeated names of classes** are the same. -/
theorem duplicateErrors_congr (h : p.SameHeaders outer outer' q) :
    duplicateErrors q outer' = duplicateErrors p outer :=
  duplicates_congr h.classes .nil

/-- A climb at a class that is not there. -/
theorem climb_of_none {t : ClassTable} {id : ClassId} (hinfo : t.info id = none)
    (hc : p.classes[id]? = none) (chain : List ClassId) :
    t.climb p outer chain id = ⟨t, [], none, none⟩ := by
  rw [climb, hinfo]
  dsimp only
  split
  next => rfl
  next _ hd => cases hc.symm.trans hd

/-- A climb at a class that is there and not yet known. -/
theorem climb_of_class {t : ClassTable} {id : ClassId} {c : ClassDecl} (hinfo : t.info id = none)
    (hc : p.classes[id]? = some c) (chain : List ClassId) : t.climb p outer chain id =
      if id ∈ chain then
        ⟨t, [⟨.inheritanceCycle c.name, c.pos.getD outer⟩], flatten id c none none, id⟩
      else match c.extends?.map fun name => (name, t.lookup name) with
        | some (_, some superclass) =>
          let above := t.climb p outer (id :: chain) superclass
          let info := flatten id c superclass above.info
          if above.reentered.any (· ≠ id) then
            ⟨above.table, above.errors, info, above.reentered⟩
          else
            ⟨{ above.table with infos := above.table.infos.set id info }, above.errors ++
              overrideErrors p id (c.pos.getD outer) ((above.info.map (·.methods)).getD [])
                c.methods.zipIdx, info, none⟩
        | found =>
          ⟨{ t with infos := t.infos.set id (flatten id c none none) }, match found with
            | some (name, none) => [⟨.unknownSuperclass name c.name, c.pos.getD outer⟩]
            | _ => [], flatten id c none none, none⟩ := by
  rw [climb, hinfo]
  dsimp only
  split
  next hnone => cases hnone.symm.trans hc
  next d hd =>
    obtain rfl := Option.some.inj (hd.symm.trans hc)
    rfl

/-- **A climb** goes the same way: it reads of a class its header alone. -/
theorem climb_congr (h : p.SameHeaders outer outer' q) (chain : List ClassId) (id : ClassId)
    (t : ClassTable) : t.climb q outer' chain id = t.climb p outer chain id := by
  cases hinfo : t.info id with
  | some info => rw [climb, climb, hinfo]
  | none =>
    rcases h.class? id with ⟨hc, hd⟩ | ⟨c, d, hc, hd, hcd⟩
    · rw [climb_of_none hinfo hc, climb_of_none hinfo hd]
    · rw [climb_of_class hinfo hc, climb_of_class hinfo hd]
      by_cases hmem : id ∈ chain
      · rw [if_pos hmem, if_pos hmem, flatten_congr hcd, hcd.name, hcd.pos]
      · rw [if_neg hmem, if_neg hmem, hcd.extends_]
        split
        next s hfound =>
          -- The chain gets longer by a class that was not on it, so fewer are off it.
          have ih := climb_congr h (id :: chain) s t
          have hextends : c.extends? ≠ none := by
            intro hnone
            rw [hnone] at hfound
            cases hfound
          have hprevious ref := h.methodPos ref id c d hc hd hextends
          simp only [ih, flatten_congr hcd, overrideErrors_congr h id hcd.pos hprevious hcd.methods 0]
        next => simp only [flatten_congr hcd, hcd.name, hcd.pos]
termination_by (offChain p chain).length
decreasing_by exact length_offChain_lt hc hmem

/-- **The hierarchy** is the same. -/
theorem resolveAll_congr (h : p.SameHeaders outer outer' q) (t : ClassTable) :
    t.resolveAll q outer' = t.resolveAll p outer := by
  have heach (ids : List ClassId) (t : ClassTable) :
      t.resolveEach q outer' ids = t.resolveEach p outer ids := by
    induction ids generalizing t with
    | nil => rfl
    | cons id rest ih => rw [resolveEach, resolveEach, resolve, resolve, climb_congr h, ih]
  rw [resolveAll, resolveAll, ← h.classes.length_eq, heach]

end ClassTable

end ClassLang
