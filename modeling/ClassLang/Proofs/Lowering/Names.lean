import ClassLang.Proofs.Ir.Names
import ClassLang.Proofs.Lowering.Guarantees
import ClassLang.Proofs.Source.Names
/-!
# Lowering — names

The names of what is built are glued together from the names of the
program with `_`, which may stand in names itself, so two things can have
one name. `Origin.Names` says what is named how, and `Origin.Meets` which
pairs of things can meet in a name. What is built has names of its own
unless it was made for two things that do (`Session.Complete.namesApart`).
-/


namespace ClassLang

open Source (TypeExpr Program FunctionDecl ClassDecl)
open Typing (Analysis Denotes TableOk)
open Ir (ProcId StructId)

/-! ## Identifiers -/

theorem isDigit_eq_false_of_isIdentStart {c : Char} (h : isIdentStart c = true) :
    c.isDigit = false := by
  unfold isIdentStart at h
  rcases Bool.or_eq_true_iff.1 h with h | h
  · grind [Char.isAlpha, Char.isUpper, Char.isLower, Char.isDigit]
  · rw [beq_iff_eq.1 h]
    rfl

theorem IsName.undotted {s : String} (h : IsName s) : Ir.Undotted s := by
  obtain ⟨c, cs, hs, hstart, hrest⟩ := h.chars
  rw [Ir.Undotted, hs]
  refine ⟨fun hdot => ?_, c, rfl, isDigit_eq_false_of_isIdentStart hstart⟩
  rcases List.mem_cons.1 hdot with rfl | hdot
  · exact absurd hstart (by decide)
  · exact absurd (hrest _ hdot) (by decide)

theorem IsName.ne_spelling {s : String} (h : IsName s) (k : Keyword) : s ≠ k.spelling := by
  rintro rfl
  have hfree := h.free
  rw [Keyword.ofString?_spelling] at hfree
  cases hfree

theorem IsName.toList_ne_nil {s : String} (h : IsName s) : s.toList ≠ [] := by
  obtain ⟨c, cs, hs, -⟩ := h.chars
  rw [hs]
  exact List.cons_ne_nil c cs

/-! ## Types in names -/

/-- How a written type is spelled in names. -/
def Source.TypeExpr.spelling : TypeExpr → String
  | .int => "int"
  | .bool => "boolean"
  | .class_ name => name
  | .array elem => elem.spelling ++ "_array"

/-- The name of a class ends like the spelling of an array type. -/
def Source.Program.LikeArray (p : Program) : Prop :=
  ∃ c ∈ p.classes, ∃ front, c.name = front ++ "_array"

theorem classNamed {p : Program} (hp : p.Named) {name : String} (h : p.Resolves (.class_ name)) :
    ∃ c ∈ p.classes, c.name = name ∧ IsName name := by
  obtain ⟨id, hid⟩ := Option.isSome_iff_exists.1 h
  obtain ⟨c, hc, rfl⟩ := Program.name_of_classId? hid
  exact ⟨c, List.mem_of_getElem? hc, rfl, (hp.classes c (List.mem_of_getElem? hc)).name⟩

/-- **Spellings tell types apart**, unless the name of a class looks like that
of an array type. -/
theorem spelling_inj {p : Program} (hp : p.Named) (hlike : ¬ p.LikeArray) {ty ty' : TypeExpr}
    (hty : p.Resolves ty) (hty' : p.Resolves ty') (h : ty.spelling = ty'.spelling) : ty = ty' := by
  have hint {name : String} (hname : p.Resolves (.class_ name)) : name ≠ "int" := by
    obtain ⟨_, -, -, hid⟩ := classNamed hp hname
    exact hid.ne_spelling .int
  have hbool {name : String} (hname : p.Resolves (.class_ name)) : name ≠ "boolean" := by
    obtain ⟨_, -, -, hid⟩ := classNamed hp hname
    exact hid.ne_spelling .boolean
  have harray {name front : String} (hname : p.Resolves (.class_ name)) :
      name ≠ front ++ "_array" := by
    obtain ⟨c, hc, rfl, -⟩ := classNamed hp hname
    exact fun heq => hlike ⟨c, hc, front, heq⟩
  have hbase {text : String} (htext : 'y' ∉ text.toList) (front : String) :
      text ≠ front ++ "_array" := by
    rintro rfl
    exact htext (by simp)
  -- Names of classes are no keywords, and none ends like an array; elements by induction.
  induction ty generalizing ty' with
  | int =>
    cases ty' with
    | int => rfl
    | bool => exact absurd h (by decide)
    | class_ name => exact absurd h.symm (hint hty')
    | array elem => exact absurd h (hbase (by decide) _)
  | bool =>
    cases ty' with
    | int => exact absurd h (by decide)
    | bool => rfl
    | class_ name => exact absurd h.symm (hbool hty')
    | array elem => exact absurd h (hbase (by decide) _)
  | class_ name =>
    cases ty' with
    | int => exact absurd h (hint hty)
    | bool => exact absurd h (hbool hty)
    | class_ name' => exact congrArg TypeExpr.class_ h
    | array elem => exact absurd h (harray hty)
  | array elem ih =>
    cases ty' with
    | int => exact absurd h.symm (hbase (by decide) _)
    | bool => exact absurd h.symm (hbase (by decide) _)
    | class_ name => exact absurd h.symm (harray hty')
    | array elem' =>
      exact congrArg TypeExpr.array (ih hty hty' (by simpa [TypeExpr.spelling] using h))

/-- **Types are spelled as they are written.** -/
theorem mangleWithin_of_denotes {p : Program} {t : TypeTable} (ht : TableOk p t)
    (hnames : t.classNames = p.classes.map (·.name)) {ty : Ty} {written : TypeExpr}
    (hd : Denotes p t ty written) (n : Nat) (hn : ∀ id, ty = .array id → id < n) :
    Lowering.mangleWithin t n ty = written.spelling := by
  induction n generalizing ty written with
  | zero =>
    cases hd with
    | int => rfl
    | bool => rfl
    | class_ hid =>
      obtain ⟨c, hc, rfl⟩ := Program.name_of_classId? hid
      simp [Lowering.mangleWithin, TypeTable.className, hnames, hc, TypeExpr.spelling]
    | array _ _ => exact absurd (hn _ rfl) (Nat.not_lt_zero _)
  | succ n ih =>
    cases hd with
    | int => rfl
    | bool => rfl
    | class_ hid =>
      obtain ⟨c, hc, rfl⟩ := Program.name_of_classId? hid
      simp [Lowering.mangleWithin, TypeTable.className, hnames, hc, TypeExpr.spelling]
    | @array id elem written helem hd =>
      have helem' : t.elem id = elem := by simp [TypeTable.elem, helem]
      rw [Lowering.mangleWithin, helem', ih hd fun inner heq => ?_, TypeExpr.spelling]
      exact Nat.lt_of_lt_of_le (ht.older id inner (heq ▸ helem)) (Nat.lt_succ_iff.1 (hn id rfl))

theorem mangle_of_denotes {p : Program} {t : TypeTable} (ht : TableOk p t)
    (hnames : t.classNames = p.classes.map (·.name)) {ty : Ty} {written : TypeExpr}
    (hd : Denotes p t ty written) : Lowering.mangle t ty = written.spelling := by
  refine mangleWithin_of_denotes ht hnames hd _ fun id heq => ?_
  subst heq
  cases hd with
  | array helem _ => exact Nat.lt_succ_of_lt (List.getElem?_eq_some_iff.1 helem).1

namespace Lowering

/-! ## What is named how -/

/-- What a global or a procedure is for. -/
inductive Origin
  | vtable (id : ClassId)
  | function (index : Nat)
  | method (ref : MemberRef)
  | object (id : ClassId)
  | array (elem : TypeExpr)

/-- **The names of globals and procedures.** -/
inductive Origin.Names (p : Program) : Origin → String → Prop
  | vtable {id c} : p.classes[id]? = some c → Names p (.vtable id) ("_vtable_" ++ c.name)
  | function {index f} : p.functions[index]? = some f → Names p (.function index) f.name
  | method {id index c m} : p.classes[id]? = some c → c.methods[index]? = some m →
      Names p (.method ⟨id, index⟩) (c.name ++ "_" ++ m.name)
  | object {id c} : p.classes[id]? = some c → Names p (.object id) ("new_class_" ++ c.name)
  | array {elem} : p.Resolves elem → Names p (.array elem) ("new_array_" ++ elem.spelling)

/-- A name that is not parted at its first `_`: that of a function with `_` in it, or
that of a method of a class with `_` in its name. -/
inductive Origin.Loose (p : Program) : Origin → Prop
  | function {index f} : p.functions[index]? = some f → '_' ∈ f.name.toList →
      Loose p (.function index)
  | method {id index c} : p.classes[id]? = some c → '_' ∈ c.name.toList →
      Loose p (.method ⟨id, index⟩)

/-- **Two things that can meet in a name**: one of them has a loose name, and they are
not both functions, or they make arrays of two types, and the name of a class looks
like that of an array type. -/
inductive Origin.Meets (p : Program) : Origin → Origin → Prop
  | function {index o} : Origin.Loose p (.function index) → (∀ other, o ≠ .function other) →
      Meets p (.function index) o
  | method {ref o} : Origin.Loose p (.method ref) → Meets p (.method ref) o
  | array {elem elem'} : p.LikeArray → Meets p (.array elem) (.array elem')

/-- What stands in the name before its first `_`, and behind it. -/
inductive Origin.Splits (p : Program) : Origin → List Char → List Char → Prop
  | vtable {id c} : p.classes[id]? = some c →
      Splits p (.vtable id) [] ("vtable_" ++ c.name).toList
  | method {id index c m} : p.classes[id]? = some c → c.methods[index]? = some m →
      Splits p (.method ⟨id, index⟩) c.name.toList m.name.toList
  | object {id c} : p.classes[id]? = some c →
      Splits p (.object id) "new".toList ("class_" ++ c.name).toList
  | array {elem} : p.Resolves elem →
      Splits p (.array elem) "new".toList ("array_" ++ elem.spelling).toList

section Texts

variable {p : Program} {o o' : Origin} {name : String}

/-- A name that is not loose is that of a function without `_`, or splits at its
first `_`. -/
theorem Origin.Names.splits (h : o.Names p name) (hloose : ¬ o.Loose p) :
    ('_' ∉ name.toList ∧ ∃ index, o = .function index) ∨
      ∃ front rest, name.toList = front ++ '_' :: rest ∧ '_' ∉ front ∧ o.Splits p front rest := by
  cases h with
  | vtable hc => exact .inr ⟨_, _, by simp, by simp, .vtable hc⟩
  | @function index f hf => exact .inl ⟨fun hmem => hloose (.function hf hmem), index, rfl⟩
  | method hc hm =>
    exact .inr ⟨_, _, by simp, fun hmem => hloose (.method hc hmem), .method hc hm⟩
  | object hc => exact .inr ⟨_, _, by simp, by decide, .object hc⟩
  | array hty => exact .inr ⟨_, _, by simp, by decide, .array hty⟩

/-- What is no function has `_` in its name. -/
theorem Origin.Names.underscore (h : o.Names p name) (hfunction : ∀ index, o ≠ .function index) :
    '_' ∈ name.toList := by
  cases h with
  | function => exact absurd rfl (hfunction _)
  | vtable | method | object | array => simp

/-- A function is named as it is called. -/
theorem Origin.Names.function_inv {index : Nat} (h : (Origin.function index).Names p name) :
    ∃ f, p.functions[index]? = some f ∧ name = f.name := by
  cases h with
  | function hf => exact ⟨_, hf, rfl⟩

/-- A list is split in one way at the first occurrence of an element. -/
theorem split_unique {c : Char} {front front' rest rest' : List Char}
    (h : front ++ c :: rest = front' ++ c :: rest') (hfront : c ∉ front) (hfront' : c ∉ front') :
    front = front' ∧ rest = rest' := by
  have hlength : front.length = front'.length := by
    have h' := congrArg (List.idxOf c) h
    rwa [List.idxOf_append_of_notMem hfront, List.idxOf_append_of_notMem hfront',
      List.idxOf_cons_self, List.idxOf_cons_self, Nat.add_zero, Nat.add_zero] at h'
  obtain ⟨hfronts, hrests⟩ := List.append_inj h hlength
  exact ⟨hfronts, (List.cons.inj hrests).2⟩

theorem eq_of_className (hp : p.SoundClasses) {id id' : ClassId} {c c' : ClassDecl}
    (hc : p.classes[id]? = some c) (hc' : p.classes[id']? = some c') (h : c.name = c'.name) :
    id = id' := by
  have hid := Program.classId?_name hp.names hc
  rw [h, Program.classId?_name hp.names hc'] at hid
  exact (Option.some.inj hid).symm

theorem eq_of_methodName (hp : p.SoundClasses) {id index index' : Nat} {c : ClassDecl}
    {m m' : FunctionDecl} (hc : p.classes[id]? = some c) (hm : c.methods[index]? = some m)
    (hm' : c.methods[index']? = some m') (h : m.name = m'.name) : index = index' := by
  have hnodup := hp.methods c (List.mem_of_getElem? hc)
  have hfirst : (c.methods.map (·.name)).idxOf? m.name = some index :=
    idxOf?_eq_of_nodup hnodup (by rw [List.getElem?_map, hm, Option.map_some])
  rw [h, idxOf?_eq_of_nodup hnodup (by rw [List.getElem?_map, hm', Option.map_some])] at hfirst
  exact (Option.some.inj hfirst).symm

/-- **What stands before the first `_` and behind it** tells what is named. -/
theorem Origin.Splits.unique (hnamed : p.Named) (hp : p.SoundClasses)
    (hlike : ∀ elem, o = .array elem → ¬ p.LikeArray) {front rest : List Char}
    (h : o.Splits p front rest) (h' : o'.Splits p front rest) :
    o = o' := by
  have hclass {id : ClassId} {c : ClassDecl} (hc : p.classes[id]? = some c) : IsName c.name :=
    (hnamed.classes c (List.mem_of_getElem? hc)).name
  -- `new` is a keyword, so no class is called so, and no method of it is taken for
  -- what makes objects or arrays.
  have hnew {id : ClassId} {c : ClassDecl} (hc : p.classes[id]? = some c) :
      c.name.toList ≠ "new".toList := fun heq =>
    (hclass hc).ne_spelling .new (String.toList_inj.1 heq)
  generalize hfront : front = front' at h'
  generalize hrest : rest = rest' at h'
  cases h with
  | vtable hc =>
    cases h' with
    | vtable hc' =>
      rw [eq_of_className hp hc hc' (String.toList_inj.1 (by simpa using hrest))]
    | method hc' _ => exact absurd hfront.symm (hclass hc').toList_ne_nil
    | object _ => exact absurd hfront (by decide)
    | array _ => exact absurd hfront (by decide)
  | method hc hm =>
    cases h' with
    | vtable _ => exact absurd hfront (hclass hc).toList_ne_nil
    | method hc' hm' =>
      obtain rfl := eq_of_className hp hc hc' (String.toList_inj.1 hfront)
      obtain rfl := Option.some.inj (hc.symm.trans hc')
      rw [eq_of_methodName hp hc hm hm' (String.toList_inj.1 hrest)]
    | object _ => exact absurd hfront (hnew hc)
    | array _ => exact absurd hfront (hnew hc)
  | object hc =>
    cases h' with
    | vtable _ => exact absurd hfront (by decide)
    | method hc' _ => exact absurd hfront.symm (hnew hc')
    | object hc' => rw [eq_of_className hp hc hc' (String.toList_inj.1 (by simpa using hrest))]
    | array _ => simp at hrest
  | array hty =>
    cases h' with
    | vtable _ => exact absurd hfront (by decide)
    | method hc' _ => exact absurd hfront.symm (hnew hc')
    | object _ => simp at hrest
    | array hty' => rw [spelling_inj hnamed (hlike _ rfl) hty hty' (String.toList_inj.1 (by simpa using hrest))]

/-- Two functions do not meet in a name. -/
theorem Origin.Names.eq_of_functions (hfunctions : (p.functions.map (·.name)).Nodup)
    {index index' : Nat} (h : (Origin.function index).Names p name)
    (h' : (Origin.function index').Names p name) : index = index' := by
  obtain ⟨f, hf, hname⟩ := h.function_inv
  obtain ⟨f', hf', hname'⟩ := h'.function_inv
  have hfirst {i : Nat} {g : FunctionDecl} (hg : p.functions[i]? = some g) :
      (p.functions.map (·.name)).idxOf? g.name = some i :=
    idxOf?_eq_of_nodup hfunctions (by rw [List.getElem?_map, hg, Option.map_some])
  have hindex := hfirst hf
  rw [← hname, hname', hfirst hf'] at hindex
  exact (Option.some.inj hindex).symm

/-- **Names that are not loose tell things apart**, unless they are made for arrays and
the name of a class looks like that of an array type. -/
theorem Origin.Names.unique (hnamed : p.Named) (hp : p.SoundClasses)
    (hfunctions : (p.functions.map (·.name)).Nodup) (h : o.Names p name) (h' : o'.Names p name)
    (hloose : ¬ o.Loose p) (hloose' : ¬ o'.Loose p)
    (hlike : ∀ elem, o = .array elem → ¬ p.LikeArray) : o = o' := by
  rcases h.splits hloose with ⟨hnot, index, rfl⟩ | ⟨front, rest, hname, hfront, hsplits⟩ <;>
    rcases h'.splits hloose' with ⟨hnot', index', rfl⟩ | ⟨front', rest', hname', hfront', hsplits'⟩
  · rw [h.eq_of_functions hfunctions h']
  · exact absurd (hname' ▸ by simp) hnot
  · exact absurd (hname ▸ by simp) hnot'
  · obtain ⟨rfl, rfl⟩ := split_unique (hname.symm.trans hname') hfront hfront'
    exact hsplits.unique hnamed hp hlike hsplits'

/-- What has a loose name meets whatever else has the name. -/
theorem Origin.Loose.meets (hfunctions : (p.functions.map (·.name)).Nodup) (hloose : o.Loose p)
    (h : o.Names p name) (h' : o'.Names p name) (hne : o ≠ o') : o.Meets p o' := by
  cases hloose with
  | @function index _ hf hmem =>
    refine .function (.function hf hmem) fun other heq => hne ?_
    subst heq
    rw [h.eq_of_functions hfunctions h']
  | method hc hmem => exact .method (.method hc hmem)

/-- **Two things with one name meet in it.** -/
theorem Origin.Names.meets (hnamed : p.Named) (hp : p.SoundClasses)
    (hfunctions : (p.functions.map (·.name)).Nodup) (h : o.Names p name) (h' : o'.Names p name)
    (hne : o ≠ o') : o.Meets p o' ∨ o'.Meets p o := by
  by_cases hloose : o.Loose p
  · exact .inl (hloose.meets hfunctions h h' hne)
  by_cases hloose' : o'.Loose p
  · exact .inr (hloose'.meets hfunctions h' h hne.symm)
  by_cases hlike : ∃ elem, o = .array elem ∧ p.LikeArray
  · obtain ⟨elem, rfl, hlike⟩ := hlike
    by_cases harray : ∃ elem', o' = .array elem'
    · obtain ⟨elem', rfl⟩ := harray
      exact .inl (.array hlike)
    · -- Spellings matter only if both are made for arrays.
      exact absurd (h'.unique hnamed hp hfunctions h hloose' hloose
        fun elem' heq => absurd ⟨elem', heq⟩ harray).symm hne
  · exact absurd (h.unique hnamed hp hfunctions h' hloose hloose'
      fun elem heq hl => hlike ⟨elem, heq, hl⟩) hne

/-- **Where things meet there is a `_`**: in the name in which they do, and in that of
a class or a function. -/
theorem Origin.Meets.underscore (h : o.Meets p o') (ho : o.Names p name) (ho' : o'.Names p name) :
    '_' ∈ name.toList ∧
      ((∃ c ∈ p.classes, '_' ∈ c.name.toList) ∨ ∃ f ∈ p.functions, '_' ∈ f.name.toList) := by
  cases h with
  | function hloose hother =>
    cases hloose with
    | function hf hmem => exact ⟨ho'.underscore hother, .inr ⟨_, List.mem_of_getElem? hf, hmem⟩⟩
  | method hloose =>
    cases hloose with
    | method hc hmem => exact ⟨ho.underscore nofun, .inl ⟨_, List.mem_of_getElem? hc, hmem⟩⟩
  | array hlike =>
    obtain ⟨c, hc, front, hfront⟩ := hlike
    exact ⟨ho.underscore nofun, .inl ⟨c, hc, by simp [hfront]⟩⟩

end Texts

/-! ## The names of a lowered program -/

/-- The names that are written with `@`: those of globals and procedures. -/
def atNames (ir : Ir.Program) : List String := ir.globals.map (·.name) ++ ir.procs.map (·.name)

variable (p : Program) (a : Analysis)

/-- The global or the procedure was made for this. -/
inductive Session.Stands (s : Session) : Origin → Nat → Prop
  | vtable {id} : id < s.ir.globals.length → Stands s (.vtable id) id
  | function {index proc} : s.functionProcs[index]? = some proc →
      Stands s (.function index) (s.ir.globals.length + proc)
  | method {ref proc} : s.methodProcs.get? ref = some proc →
      Stands s (.method ref) (s.ir.globals.length + proc)
  | object {id proc} : s.classAllocators.get? id = some proc →
      Stands s (.object id) (s.ir.globals.length + proc)
  | array {ty elem proc} : Denotes p a.findings.table ty elem →
      s.arrayAllocators.get? ty = some proc →
      Stands s (.array elem) (s.ir.globals.length + proc)

/-- **The names of structs.** -/
inductive Session.StructNamed (s : Session) : StructId → String → Prop
  | object {id c} : p.classes[id]? = some c → StructNamed s (2 * id) ("class_" ++ c.name)
  | vtable {id c} : p.classes[id]? = some c → StructNamed s (2 * id + 1) ("vtable_" ++ c.name)
  | array {ty elem struct} : Denotes p a.findings.table ty elem →
      s.arrayStructs.get? ty = some struct → StructNamed s struct ("array_" ++ elem.spelling)

/-- **Two globals or procedures are glued to one name**: they were made for two things
that meet in it. -/
inductive Session.Glued (s : Session) (name : String) (i j : Nat) : Prop
  | mk {o o' : Origin} : o ≠ o' → o.Names p name → o'.Names p name →
      (o.Meets p o' ∨ o'.Meets p o) → Stands p a s o i → Stands p a s o' j → Glued s name i j

/-- **Two structs are glued to one name**: they were made for the arrays of two types
that are spelled alike, as the name of a class looks like that of an array type. -/
inductive Session.GluedStructs (s : Session) (name : String) (i j : StructId) : Prop
  | mk {ty ty' elem elem'} : elem ≠ elem' → Denotes p a.findings.table ty elem →
      Denotes p a.findings.table ty' elem' → s.arrayStructs.get? ty = some i →
      s.arrayStructs.get? ty' = some j → name = "array_" ++ elem.spelling →
      elem.spelling = elem'.spelling → p.LikeArray → GluedStructs s name i j

variable {p a} {printName : String} {s : Session}

/-- What a global or a procedure was made for tells which it is. -/
theorem Session.Stands.unique (ht : TableOk p a.findings.table) {o : Origin} {i j : Nat}
    (h : s.Stands p a o i) (h' : s.Stands p a o j) : i = j := by
  cases h with
  | vtable _ => cases h' with | vtable _ => rfl
  | function hi => cases h' with | function hj => rw [Option.some.inj (hi.symm.trans hj)]
  | method hi => cases h' with | method hj => rw [Option.some.inj (hi.symm.trans hj)]
  | object hi => cases h' with | object hj => rw [Option.some.inj (hi.symm.trans hj)]
  | array hd hi =>
    cases h' with
    | array hd' hj =>
      obtain rfl := hd.left_unique ht.nodup hd'
      rw [Option.some.inj (hi.symm.trans hj)]

/-- **The name of a struct tells which it is**, unless two types of arrays are spelled
alike. -/
theorem Session.StructNamed.unique (hnamed : p.Named) (hp : p.SoundClasses)
    (ht : TableOk p a.findings.table) {i j : StructId} {name : String}
    (h : s.StructNamed p a i name) (h' : s.StructNamed p a j name) :
    i = j ∨ s.GluedStructs p a name i j := by
  generalize heq : name = name' at h'
  cases h with
  | object hc =>
    cases h' with
    | object hc' => exact .inl (by rw [eq_of_className hp hc hc' (by simpa using heq)])
    | vtable _ => exact absurd (congrArg String.toList heq) (by simp)
    | array _ _ => exact absurd (congrArg String.toList heq) (by simp)
  | vtable hc =>
    cases h' with
    | object _ => exact absurd (congrArg String.toList heq) (by simp)
    | vtable hc' => exact .inl (by rw [eq_of_className hp hc hc' (by simpa using heq)])
    | array _ _ => exact absurd (congrArg String.toList heq) (by simp)
  | @array ty elem _ hd hi =>
    cases h' with
    | object _ => exact absurd (congrArg String.toList heq) (by simp)
    | vtable _ => exact absurd (congrArg String.toList heq) (by simp)
    | @array ty' elem' _ hd' hj =>
      have hspelling := (String.append_right_inj _).1 heq
      by_cases helem : elem = elem'
      · obtain rfl := helem
        obtain rfl := hd.left_unique ht.nodup hd'
        exact .inl (Option.some.inj (hi.symm.trans hj))
      · refine .inr (.mk helem hd hd' hi hj heq.symm hspelling (Classical.byContradiction fun hlike => ?_))
        exact helem (spelling_inj hnamed hlike hd.resolves hd'.resolves hspelling)

/-- **Every struct has its name.** -/
theorem Session.Complete.structNamed (hs : s.Complete p printName a)
    (ht : TableOk p a.findings.table)
    (hnames : a.findings.table.classNames = p.classes.map (·.name)) {i : StructId}
    {decl : Ir.StructDef} (hdecl : s.ir.structs[i]? = some decl) :
    s.StructNamed p a i decl.name := by
  rcases hs.ready.typed.structs i (List.getElem?_eq_some_iff.1 hdecl).1 with hi | ⟨ty, hget⟩
  · -- Classes have two structs each: that of their objects, and that of their vtable.
    have hhalf (n : Nat) : ∃ id, n = 2 * id ∨ n = 2 * id + 1 := ⟨n / 2, by omega⟩
    obtain ⟨id, hparity⟩ := hhalf i
    have hid : id < p.classes.length := by
      rcases hparity with rfl | rfl <;> omega
    obtain ⟨_, _, _, hlaid⟩ := hs.ready.laid _ hid
    have hc : p.classes[id]? = some p.classes[id] := List.getElem?_eq_getElem hid
    have hnamed := hlaid.named _ hc
    rcases hparity with rfl | rfl
    · have hname := hnamed.instance_
      rw [hdecl, Option.map_some] at hname
      rw [Option.some.inj hname]
      exact .object hc
    · have hname := hnamed.vtable
      rw [hdecl, Option.map_some] at hname
      rw [Option.some.inj hname]
      exact .vtable hc
  · obtain ⟨elem, target, hd, -, hdecl'⟩ := hs.ready.typed.arrays ty i hget
    obtain rfl := Option.some.inj (hdecl.symm.trans hdecl')
    rw [mangle_of_denotes ht hnames hd]
    exact .array hd hget

/-- **Every global and every procedure has its name.** -/
theorem Session.Complete.names (hs : s.Complete p printName a) (ht : TableOk p a.findings.table)
    (hnames : a.findings.table.classNames = p.classes.map (·.name)) {i : Nat} {name : String}
    (hname : (atNames s.ir)[i]? = some name) : ∃ o : Origin, o.Names p name ∧ s.Stands p a o i := by
  rcases Nat.lt_or_ge i s.ir.globals.length with hi | hi
  · rw [atNames, List.getElem?_append_left (by simpa using hi), List.getElem?_map] at hname
    have hid : i < p.classes.length := hs.ready.typed.globals ▸ hi
    have hc : p.classes[i]? = some p.classes[i] := List.getElem?_eq_getElem hid
    obtain ⟨_, _, _, hlaid⟩ := hs.ready.laid i hid
    obtain rfl := Option.some.inj ((hlaid.named _ hc).vtableGlobal.symm.trans hname)
    exact ⟨_, .vtable hc, .vtable hi⟩
  · rw [atNames, List.getElem?_append_right (by simpa using hi), List.length_map,
      List.getElem?_map, Option.map_eq_some_iff] at hname
    obtain ⟨q, hq, rfl⟩ := hname
    obtain ⟨proc, rfl⟩ := Nat.exists_eq_add_of_le hi
    rw [Nat.add_sub_cancel_left] at hq
    cases hs.ready.apart.known proc (List.getElem?_eq_some_iff.1 hq).1 with
    | function hf hget =>
      obtain ⟨_, hget', q', hq', hfor⟩ := hs.ready.functions _ _ hf
      obtain rfl := Option.some.inj (hget.symm.trans hget')
      obtain rfl := Option.some.inj (hq.symm.trans hq')
      exact ⟨_, hfor.name ▸ .function hf, .function hget⟩
    | @method ref _ hm hget =>
      obtain ⟨c, hc, hm⟩ := Option.bind_eq_some_iff.1 hm
      obtain ⟨_, hget', q', hq', hfor⟩ := hs.ready.methods _ _ hc _ _ hm
      obtain rfl := Option.some.inj (hget.symm.trans hget')
      obtain rfl := Option.some.inj (hq.symm.trans hq')
      exact ⟨.method ref, hfor.name ▸ .method hc hm, .method hget⟩
    | object hget =>
      obtain ⟨hid, -, q', _, hq', -, -, -, -, -, -, hname⟩ := hs.ready.objects _ _ hget
      obtain rfl := Option.some.inj (hq.symm.trans hq')
      have hc := List.getElem?_eq_getElem hid
      exact ⟨_, hname _ hc ▸ .object hc, .object hget⟩
    | array hget =>
      obtain ⟨-, q', elem, _, hq', hd, -, -, -, -, -, -, hname⟩ := hs.ready.arrays _ _ hget
      obtain rfl := Option.some.inj (hq.symm.trans hq')
      rw [mangle_of_denotes ht hnames hd] at hname
      exact ⟨_, hname ▸ .array hd.resolves, .array hd hget⟩

/-- The parameters of a function are told apart, and no name of them looks like
that of a temporary. -/
theorem ProcFor.params_apart {s : Session} {name : String} {this? : Option String}
    {this : List Ir.Field} {f : FunctionDecl} {q : Ir.Proc} (h : ProcFor p a s name this f q)
    (hf : Typing.FunctionOk p printName this? f) (hnamed : f.Named)
    (hthis : this = [] ∨ ∃ ty, this = [⟨"this", ty⟩]) :
    (q.params.map (·.name)).Nodup ∧ ∀ param ∈ q.params, Ir.Undotted param.name := by
  obtain ⟨fields, heq, hfields⟩ := h.params
  have hparams : fields.map (·.name) = f.params.map (·.name) := by
    have hall := hfields.imp fun _ _ hfor => hfor.name.symm
    exact (List.forall₂_eq_eq_eq ▸
      List.forall₂_map_left_iff.2 (List.forall₂_map_right_iff.2 hall)).symm
  have hundotted : ∀ param ∈ fields, IsName param.name := by
    intro param hparam
    have hmem : param.name ∈ f.params.map (·.name) := hparams ▸ List.mem_map_of_mem hparam
    obtain ⟨decl, hdecl, hname⟩ := List.mem_map.1 hmem
    exact hname ▸ hnamed.params decl hdecl
  have hnodup : (fields.map (·.name)).Nodup := hparams ▸ hf.paramNames
  rw [heq]
  rcases hthis with rfl | ⟨ty, rfl⟩
  · exact ⟨hnodup, fun param hparam => (hundotted param hparam).undotted⟩
  · have hthis : Ir.Undotted "this" := ⟨by decide, 't', rfl, rfl⟩
    refine ⟨?_, List.forall_mem_cons.2 ⟨hthis,
      fun param hparam => (hundotted param hparam).undotted⟩⟩
    -- `this` is a keyword, so no parameter of the source is called so.
    refine List.nodup_cons.2 ⟨fun hmem => ?_, hnodup⟩
    obtain ⟨param, hparam, hname⟩ := List.mem_map.1 hmem
    exact (hundotted param hparam).ne_spelling .this hname

/-- **The parameters of every procedure are told apart.** -/
theorem Session.Complete.params_apart (hs : s.Complete p printName a)
    (hp : Typing.WellTyped p printName) (hnamed : p.Named) {q : Ir.Proc} (hq : q ∈ s.ir.procs) :
    (q.params.map (·.name)).Nodup ∧ ∀ param ∈ q.params, Ir.Undotted param.name := by
  obtain ⟨proc, hproc⟩ := List.mem_iff_getElem?.1 hq
  cases hs.ready.apart.known proc (List.getElem?_eq_some_iff.1 hproc).1 with
  | function hf hget =>
    obtain ⟨_, hget', q', hq', hfor⟩ := hs.ready.functions _ _ hf
    obtain rfl := Option.some.inj (hget.symm.trans hget')
    obtain rfl := Option.some.inj (hproc.symm.trans hq')
    have hmem := List.mem_of_getElem? hf
    exact hfor.params_apart (hp.functions _ hmem) (hnamed.functions _ hmem) (.inl rfl)
  | method hm hget =>
    obtain ⟨c, hc, hm⟩ := Option.bind_eq_some_iff.1 hm
    obtain ⟨_, hget', q', hq', hfor⟩ := hs.ready.methods _ _ hc _ _ hm
    obtain rfl := Option.some.inj (hget.symm.trans hget')
    obtain rfl := Option.some.inj (hproc.symm.trans hq')
    have hmem := List.mem_of_getElem? hc
    have hmem' := List.mem_of_getElem? hm
    exact hfor.params_apart (hp.methods _ hmem _ hmem')
      ((hnamed.classes _ hmem).methods _ hmem') (.inr ⟨_, rfl⟩)
  | object hget =>
    obtain ⟨-, -, q', _, hq', hparams, -⟩ := hs.ready.objects _ _ hget
    obtain rfl := Option.some.inj (hproc.symm.trans hq')
    rw [hparams]
    exact ⟨List.nodup_nil, List.forall_mem_nil _⟩
  | array hget =>
    obtain ⟨-, q', _, _, hq', -, -, hparams, -⟩ := hs.ready.arrays _ _ hget
    obtain rfl := Option.some.inj (hproc.symm.trans hq')
    rw [hparams]
    exact ⟨by simp, List.forall_mem_singleton.2 ⟨by decide, 's', rfl, rfl⟩⟩

/-- **What the names of a lowered program tell apart**: everything but what was made
for two things that are glued to one name. -/
structure NamesApart (p : Program) (a : Analysis) (s : Session) : Prop where
  structs : ∀ (i j : Nat) name, (s.ir.structs.map (·.name))[i]? = some name →
    (s.ir.structs.map (·.name))[j]? = some name → i = j ∨ s.GluedStructs p a name i j
  entities : ∀ (i j : Nat) name, (atNames s.ir)[i]? = some name → (atNames s.ir)[j]? = some name →
    i = j ∨ s.Glued p a name i j
  locals : ∀ q ∈ s.ir.procs, (Ir.localNames s.ir q).Nodup
  /-- By the name of a procedure it is found, or a later one that is glued to it. -/
  found : ∀ (id : ProcId) q, s.ir.procs[id]? = some q → ∃ other,
    s.ir.findProc? q.name = some other ∧ (other = id ∨ id < other ∧
      s.Glued p a q.name (s.ir.globals.length + id) (s.ir.globals.length + other))
  /-- So it is with the procedure of a function, which is found if its name has no `_`. -/
  functions : ∀ (index : Nat) f, p.functions[index]? = some f → ∃ proc other,
    s.functionProcs[index]? = some proc ∧ s.ir.findProc? f.name = some other ∧
      (other = proc ∨ proc < other ∧ '_' ∈ f.name.toList ∧
        s.Glued p a f.name (s.ir.globals.length + proc) (s.ir.globals.length + other))
  plain : (∀ c ∈ p.classes, '_' ∉ c.name.toList) → (∀ f ∈ p.functions, '_' ∉ f.name.toList) →
    (s.ir.structs.map (·.name)).Nodup ∧ (atNames s.ir).Nodup ∧
      ∀ (id : ProcId) q, s.ir.procs[id]? = some q → s.ir.findProc? q.name = some id

/-- Where things are glued there is a `_`, in the name and in that of a class or a
function. -/
theorem Session.Glued.underscore {name : String} {i j : Nat} (h : s.Glued p a name i j) :
    '_' ∈ name.toList ∧
      ((∃ c ∈ p.classes, '_' ∈ c.name.toList) ∨ ∃ f ∈ p.functions, '_' ∈ f.name.toList) := by
  obtain ⟨-, ho, ho', hmeets | hmeets, -, -⟩ := h
  · exact hmeets.underscore ho ho'
  · exact hmeets.underscore ho' ho

theorem nodup_of_getElem?_inj {l : List String}
    (h : ∀ (i j : Nat) name, l[i]? = some name → l[j]? = some name → i = j) : l.Nodup := by
  refine List.nodup_iff_getElem?_ne_getElem?.2 fun i j hij hj heq => ?_
  have hname := List.getElem?_eq_getElem hj
  exact Nat.ne_of_lt hij (h i j _ (heq.trans hname) hname)

/-- **The names of a lowered program** tell things apart, unless these are glued to one
name. -/
theorem Session.Complete.namesApart (hs : s.Complete p printName a)
    (ht : TableOk p a.findings.table)
    (hnames : a.findings.table.classNames = p.classes.map (·.name))
    (hp : Typing.WellTyped p printName) (hnamed : p.Named) : NamesApart p a s := by
  have hentities (i j : Nat) (name : String) (hi : (atNames s.ir)[i]? = some name)
      (hj : (atNames s.ir)[j]? = some name) : i = j ∨ s.Glued p a name i j := by
    obtain ⟨o, ho, hstands⟩ := hs.names ht hnames hi
    obtain ⟨o', ho', hstands'⟩ := hs.names ht hnames hj
    -- Two entities with one name have one origin, or two that are glued to the same text.
    by_cases heq : o = o'
    · subst heq
      exact .inl (hstands.unique ht hstands')
    · have hmeets := ho.meets hnamed hp.classes (List.nodup_cons.1 hp.functionNames).2 ho' heq
      exact .inr (.mk heq ho ho' hmeets hstands hstands')
  have hproc {id : ProcId} {q : Ir.Proc} (hq : s.ir.procs[id]? = some q) :
      (atNames s.ir)[s.ir.globals.length + id]? = some q.name := by
    rw [atNames, List.getElem?_append_right (by simp), List.length_map, Nat.add_sub_cancel_left,
      List.getElem?_map, hq, Option.map_some]
  have hfound (id : ProcId) (q : Ir.Proc) (hq : s.ir.procs[id]? = some q) : ∃ other,
      s.ir.findProc? q.name = some other ∧ (other = id ∨ id < other ∧
        s.Glued p a q.name (s.ir.globals.length + id) (s.ir.globals.length + other)) := by
    -- The search finds the last procedure of the name; a later one is glued to this one.
    obtain ⟨other, q', hfind, hq', hname, hlater⟩ := Ir.exists_findProc? hq
    refine ⟨other, hfind, hlater.imp_right fun hlt => ⟨hlt, ?_⟩⟩
    refine (hentities _ _ _ (hproc hq) (hname ▸ hproc hq')).resolve_left fun heq => ?_
    exact Nat.ne_of_lt hlt (Nat.add_left_cancel heq)
  have hstructs (i j : Nat) (name : String) (hi : (s.ir.structs.map (·.name))[i]? = some name)
      (hj : (s.ir.structs.map (·.name))[j]? = some name) : i = j ∨ s.GluedStructs p a name i j := by
    rw [List.getElem?_map, Option.map_eq_some_iff] at hi hj
    obtain ⟨decl, hdecl, rfl⟩ := hi
    obtain ⟨decl', hdecl', hname⟩ := hj
    exact (hs.structNamed ht hnames hdecl).unique hnamed hp.classes ht
      (hname ▸ hs.structNamed ht hnames hdecl')
  refine ⟨hstructs, hentities, fun q hq => ?_, hfound, fun index f hf => ?_,
    fun hclasses hfunctions => ?_⟩
  · obtain ⟨hnodup, hundotted⟩ := hs.params_apart hp hnamed hq
    exact Ir.nodup_localNames s.ir hnodup hundotted
  · obtain ⟨proc, hget, q, hq, hfor⟩ := hs.ready.functions index f hf
    obtain ⟨other, hfind, hglued⟩ := hfound proc q hq
    rw [hfor.name] at hfind hglued
    exact ⟨proc, other, hget, hfind, hglued.imp_right fun ⟨hlt, h⟩ => ⟨hlt, h.underscore.1, h⟩⟩
  -- Without underscores in the program nothing is glued.
  · have hclear {name : String} {i j : Nat} : ¬ s.Glued p a name i j := fun h => by
      rcases h.underscore.2 with ⟨c, hc, hmem⟩ | ⟨f, hf, hmem⟩
      · exact hclasses c hc hmem
      · exact hfunctions f hf hmem
    have hclearStructs {name : String} {i j : StructId} : ¬ s.GluedStructs p a name i j :=
      fun (.mk _ _ _ _ _ _ _ ⟨c, hc, front, hfront⟩) => hclasses c hc (by simp [hfront])
    refine ⟨nodup_of_getElem?_inj fun i j name hi hj =>
        (hstructs i j name hi hj).resolve_right hclearStructs,
      nodup_of_getElem?_inj fun i j name hi hj => (hentities i j name hi hj).resolve_right hclear,
      fun id q hq => ?_⟩
    obtain ⟨other, hfind, hglued⟩ := hfound id q hq
    rw [hfind, hglued.resolve_right fun h => hclear h.2]

/-! ## Accepted programs -/

/-- **The names of every lowered program** tell things apart, unless these are glued to
one name. -/
theorem Accepted.lowered_names {source printName : String} {p : Program}
    (h : Accepted source printName p) (options : Options) :
    ∃ s : Session, (buildProgram (Typing.analyze p ⟨printName⟩) p options).run .start = .ok ((), s) ∧
      lowerProgram (Typing.analyze p ⟨printName⟩) p options = .ok s.ir ∧
      NamesApart p (Typing.analyze p ⟨printName⟩) s := by
  obtain ⟨s, hrun, hs, hcomplete⟩ := h.complete options
  exact ⟨s, hrun, hs, hcomplete.namesApart h.supports.covers.table
    (Typing.classNames_analyze p printName) (.of_ok h.ok)
    (Source.named_parse h.read)⟩

/-- A function and a method, two array types, and a method and what makes
objects of a class, all with one name each. -/
def glued : String :=
  "class A { int f() { return 1; } } class int_array { } class new_class { int A() { return 3; } } " ++
    "int A_f() { return 2; } int main() { A a; int[][] x; int_array[] y; a = new A(); return 0; }"

set_option maxRecDepth 100000 in
/-- The program is read and analysed without an error, and lowered to these names. -/
theorem run_glued : (Source.parse glued).error? = none ∧
    (Typing.analyze (Source.parse glued).program ⟨"print"⟩).ok = true ∧
    (lowerProgram (Typing.analyze (Source.parse glued).program ⟨"print"⟩)
      (Source.parse glued).program ⟨false⟩).map (fun ir =>
        (ir.structs.map (·.name), ir.procs.map (·.name), atNames ir, ir.findProc? "A_f")) = .ok
      (["class_A", "vtable_A", "class_int_array", "vtable_int_array", "class_new_class",
          "vtable_new_class", "array_int", "array_int_array", "array_int_array"],
        ["A_f", "main", "A_f", "new_class_A", "new_class_A"],
        ["_vtable_A", "_vtable_int_array", "_vtable_new_class", "A_f", "main", "A_f",
          "new_class_A", "new_class_A"], some 2) := by
  rw [Source.parse_eq_of_chars glued (Source.toList_ofList_append _ _)]
  decide +kernel

set_option maxRecDepth 100000 in
theorem accepted_glued : Accepted glued "print" (Source.parse glued).program :=
  .of_parse run_glued.1 (by decide) run_glued.2.1

/-- Names of a lowered program can be ambiguous, and a function need not be
found by its name. -/
theorem names_clash_glued : Accepted glued "print" (Source.parse glued).program ∧
    ∃ ir, lowerProgram (Typing.analyze (Source.parse glued).program ⟨"print"⟩)
      (Source.parse glued).program ⟨false⟩ = .ok ir ∧
      ¬ (ir.structs.map (·.name)).Nodup ∧ ¬ (atNames ir).Nodup ∧
      ∃ q, ir.procs[0]? = some q ∧ ir.findProc? q.name ≠ some 0 := by
  refine ⟨accepted_glued, ?_⟩
  have h := run_glued.2.2
  cases hlower : lowerProgram (Typing.analyze (Source.parse glued).program ⟨"print"⟩)
      (Source.parse glued).program ⟨false⟩ with
  | error e => rw [hlower] at h; cases h
  | ok ir =>
    rw [hlower] at h
    obtain ⟨hstructs, hprocs, hat, hfind⟩ : _ ∧ _ ∧ _ ∧ _ := by
      simpa [Except.map] using h
    refine ⟨ir, rfl, by rw [hstructs]; decide, by rw [hat]; decide, ?_⟩
    have hfirst : (ir.procs[0]?).map (·.name) = some "A_f" := by
      rw [← List.getElem?_map, hprocs]
      rfl
    obtain ⟨q, hq, hname⟩ := Option.map_eq_some_iff.1 hfirst
    exact ⟨q, hq, by rw [hname, hfind]; decide⟩

theorem lowered_names_glued : ∃ s : Session, (buildProgram
    (Typing.analyze (Source.parse glued).program ⟨"print"⟩)
    (Source.parse glued).program ⟨false⟩).run .start = .ok ((), s) ∧
      lowerProgram (Typing.analyze (Source.parse glued).program ⟨"print"⟩)
        (Source.parse glued).program ⟨false⟩ = .ok s.ir ∧
      NamesApart (Source.parse glued).program
        (Typing.analyze (Source.parse glued).program ⟨"print"⟩) s :=
  accepted_glued.lowered_names ⟨false⟩

end Lowering

end ClassLang
