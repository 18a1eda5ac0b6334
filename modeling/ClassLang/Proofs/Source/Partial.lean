import ClassLang.Proofs.Source.Acceptance
import ClassLang.Proofs.Source.LocalReading
import ClassLang.Proofs.Text.Positions
import ClassLang.Proofs.Token.Cuts
/-!
# Source — what is read of a text that is no program

Declarations are read one after the other, and each is closed: reading one looks
at no token behind it (`local_parseItem`). So a text that is no program has, up to
the first error, the declarations of the text that ends behind them, and no longer
part of it that is a program has others (`partial_parse`).
-/


namespace ClassLang.Source

open Token (Kind)

/-! ## Declarations one after the other -/

theorem kind_append_ne_eof {u : List Located} (hne : u ≠ []) (hu : ∀ t ∈ u, t.kind ≠ .eof)
    (z : List Located) (n : NodeId) : Cursor.kind ⟨u ++ z, n⟩ ≠ .eof := by
  cases u with
  | nil => exact absurd rfl hne
  | cons t u => exact hu t List.mem_cons_self

/-- The declarations in front of an error are read as well where the file ends
behind them. -/
theorem exists_parseItems (c : Cursor) : ∃ l rest, c.tokens = l ++ rest ∧ (∀ t ∈ l, t.kind ≠ .eof) ∧
    ∀ y, Cursor.kind ⟨y, 0⟩ = .eof → parseItems ⟨l ++ y, c.next⟩ = ((parseItems c).1, none) := by
  have hnone (h : (parseItems c).1 = []) : ∃ l rest, c.tokens = l ++ rest ∧
      (∀ t ∈ l, t.kind ≠ .eof) ∧ ∀ y, Cursor.kind ⟨y, 0⟩ = .eof →
        parseItems ⟨l ++ y, c.next⟩ = ((parseItems c).1, none) :=
    ⟨[], c.tokens, rfl, List.forall_mem_nil _, fun y hy => h ▸ parseItems_eof hy⟩
  by_cases heof : c.kind = .eof
  · exact hnone (by rw [parseItems_eof heof])
  cases hitem : (parseItem c).outcome with
  | error e => exact hnone (by rw [parseItems_of_error heof hitem])
  | ok r =>
    obtain ⟨item, c₁⟩ := r
    have hlt : c₁.left < c.left := lt_of_outcome hitem
    obtain ⟨u, hu, hne, hueof, hrerun⟩ := (local_parseItem c).ok item c₁ hitem
    obtain ⟨l, rest, hl, hleof, hitems⟩ := exists_parseItems c₁
    refine ⟨u ++ l, rest, by rw [hu, hl, List.append_assoc], List.forall_mem_append.2 ⟨hueof, hleof⟩,
      fun y hy => ?_⟩
    rw [List.append_assoc, parseItems_of_ok (kind_append_ne_eof (hne rfl) hueof _ _)
      (hrerun (l ++ y) trivial), hitems y hy, parseItems_of_ok heof hitem]
termination_by c.left

/-- **Declarations are read in front of whatever follows**, which is read behind them. -/
theorem parseItems_append {l : List Located} (hl : ∀ t ∈ l, t.kind ≠ .eof) {n : NodeId} {e : Located}
    (he : e.kind = .eof) (h : (parseItems ⟨l ++ [e], n⟩).2 = none) (y : List Located) : ∃ m,
      (parseItems ⟨l ++ y, n⟩).1 = (parseItems ⟨l ++ [e], n⟩).1 ++ (parseItems ⟨y, m⟩).1 ∧
      (parseItems ⟨l ++ y, n⟩).2 = (parseItems ⟨y, m⟩).2 := by
  by_cases heof : Cursor.kind ⟨l ++ [e], n⟩ = .eof
  · cases l with
    | nil => exact ⟨n, by rw [parseItems_eof heof]; rfl, rfl⟩
    | cons t l => exact absurd heof (hl t List.mem_cons_self)
  cases hitem : (parseItem ⟨l ++ [e], n⟩).outcome with
  | error e =>
    rw [parseItems_of_error heof hitem] at h
    cases h
  | ok r =>
    obtain ⟨item, c₁, m⟩ := r
    obtain ⟨u, hu, hne, hueof, hrerun⟩ := (local_parseItem _).ok item ⟨c₁, m⟩ hitem
    -- The declaration ends in front of the end of the file.
    obtain ⟨l', rfl, rfl⟩ : ∃ l', l = u ++ l' ∧ c₁ = l' ++ [e] := by
      rcases List.append_eq_append_iff.1 hu with ⟨v, hv, hrest⟩ | ⟨v, hv, hrest⟩
      · cases v with
        | nil => exact ⟨[], by simpa using hv.symm, hrest.symm⟩
        | cons t v =>
          obtain ⟨rfl, -⟩ := List.cons.inj hrest
          exact absurd he (hueof e (by rw [hv]; simp))
      · exact ⟨v, hv, hrest⟩
    have hlt : l'.length < (u ++ l').length := by
      have := List.length_pos_iff.2 (hne rfl)
      rw [List.length_append]
      omega
    rw [parseItems_of_ok heof hitem] at h
    obtain ⟨m', hitems, herror⟩ := parseItems_append (List.forall_mem_append.1 hl).2 he h y
    refine ⟨m', ?_⟩
    rw [parseItems_of_ok heof hitem, List.append_assoc u l' y, parseItems_of_ok
      (kind_append_ne_eof (hne rfl) hueof _ _) (hrerun (l' ++ y) trivial)]
    exact ⟨congrArg (item :: ·) hitems, herror⟩
termination_by l.length

/-- Where nothing is read and nothing is wrong, the file ends. -/
theorem kind_of_parseItems {c : Cursor} (hitems : (parseItems c).1 = []) (h : (parseItems c).2 = none) :
    c.kind = .eof := by
  by_contra heof
  cases hitem : (parseItem c).outcome with
  | error e =>
    rw [parseItems_of_error heof hitem] at h
    cases h
  | ok r =>
    rw [parseItems_of_ok heof hitem] at hitems
    cases hitems

/-- **No more declarations are completed** than those that are read: no longer front of
the tokens is one of declarations. -/
theorem length_le_of_phrases {l l' rest rest' : List Located} {n : NodeId} {e : Located}
    {items : List Item} (hl : ∀ t ∈ l, t.kind ≠ .eof) (he : e.kind = .eof)
    (hread : (parseItems ⟨l ++ [e], n⟩).2 = none)
    (hall : (parseItems ⟨l ++ [e], n⟩).1 = (parseItems ⟨l ++ rest, n⟩).1)
    (heq : l ++ rest = l' ++ rest') (hphrases : Phrases ItemPhrase (l'.map (·.kind)) items) :
    l'.length ≤ l.length := by
  refine Nat.le_of_not_lt fun hlt => ?_
  obtain ⟨x, rfl⟩ : l <+: l' := List.prefix_of_prefix_length_le (List.prefix_append l rest)
    (heq ▸ List.prefix_append l' rest') (Nat.le_of_lt hlt)
  have hl' : ∀ t ∈ l ++ x, t.kind ≠ .eof := fun t ht heof =>
    (derives_program.2 ⟨_, hphrases⟩).eof_not_mem (List.mem_map.2 ⟨t, ht, heof⟩)
  have hkinds : Cursor.kinds ⟨l ++ x ++ [e], n⟩ = (l ++ x).map (·.kind) ++ [.eof] := by
    rw [Cursor.kinds, List.map_append, List.map_singleton, he]
  have hnone := (parseItems_of_phrases hphrases rfl hkinds).1
  -- Behind `l` there is a declaration more, but all that is read stands in it.
  obtain ⟨m, hitems, herror⟩ := parseItems_append hl he hread (x ++ [e])
  obtain ⟨m', hwhole, -⟩ := parseItems_append hl' he hnone rest'
  rw [← List.append_assoc] at hitems herror
  rw [hitems, hall, heq, List.append_assoc (parseItems _).1] at hwhole
  have hmore := (List.append_eq_nil_iff.1 (List.self_eq_append_right.1 hwhole)).1
  have heof := kind_of_parseItems hmore (herror.symm.trans hnone)
  cases x with
  | nil => exact absurd hlt (by simp)
  | cons t x => exact hl' t (by simp) heof

/-! ## What declarations end with -/

theorem BlockPhrase.getLast? {w : List Kind} {b : Block} :
    BlockPhrase w b → w.getLast? = some (.symbol .rbrace) := by
  rintro ⟨-⟩
  rw [← List.cons_append, List.getLast?_concat]

theorem FunctionPhrase.getLast? {w : List Kind} {f : FunctionDecl} :
    FunctionPhrase w f → w.getLast? = some (.symbol .rbrace) := by
  rintro ⟨hbody⟩
  simp [List.getLast?_append, List.getLast?_cons, hbody.getLast?]

theorem ItemPhrase.getLast? {w : List Kind} {item : Item} :
    ItemPhrase w item → w.getLast? = some (.symbol .rbrace) := by
  rintro (hfunction | ⟨-, -, -⟩)
  · exact hfunction.getLast?
  · simp [List.getLast?_append, List.getLast?_cons]

/-- Declarations end with a brace. -/
theorem getLast?_of_phrases {w : List Kind} {items : List Item} (h : Phrases ItemPhrase w items) :
    ∀ k ∈ w.getLast?, k = .symbol .rbrace := by
  induction h with
  | nil => nofun
  | @cons u v item rest hu _ ih =>
    intro k hk
    rw [List.getLast?_append] at hk
    cases hv : v.getLast? with
    | none =>
      rw [hv, hu.getLast?] at hk
      exact (Option.some.inj hk).symm
    | some k' =>
      rw [hv] at hk
      exact ih k (hv.trans hk)

/-! ## Texts one of which goes on -/

/-- The tokens of a text, and the end of the file. -/
theorem exists_tokens (source : String) : ∃ ts e, (lex source).tokens = ts ++ [e] ∧ e.kind = .eof ∧
    ts.map (·.kind) = sentence source := by
  obtain ⟨ts, e, htokens, he, -⟩ := (tokenizes_lex source).exists_eof
  refine ⟨ts, e, htokens, he, ?_⟩
  have hkinds := kinds_lex source
  rw [htokens, List.map_append, List.map_singleton, he] at hkinds
  exact List.append_cancel_right hkinds

/-- Tokens stand at the same positions in a text that goes on. -/
theorem locate_append {before : List Char} {ts : List Token}
    (h : ∀ t ∈ ts, t.span.start ≤ byteLength before) (more : List Char) :
    locate (Lines.ofChars (before ++ more)) ts = locate (Lines.ofChars before) ts := by
  refine List.map_congr_left fun t ht => ?_
  rw [Lines.pos_append (h t ht)]

/-- **What is read of a program** is read of every text that starts with it. -/
theorem parseItems_mono {a b : String} (hab : a.toList <+: b.toList)
    (h : (parse a).error? = none) :
    (parseItems (.ofText a)).1 <+: (parseItems (.ofText b)).1 := by
  obtain ⟨-, hitems⟩ := error?_parse.1 h
  obtain ⟨more, hmore⟩ := hab
  have ha := tokenizes_lex a
  obtain ⟨ts, e, htokens, he, hkinds⟩ := exists_tokens a
  have hphrases := phrases_of_parseItems (Cursor.kinds_ofText a) (eof_not_mem_sentence a) hitems
  have hlast : ∀ t ∈ ts.getLast?, ∀ c, ¬ t.kind.Extends c := by
    intro t ht c
    have hk : t.kind ∈ (sentence a).getLast? := by
      rw [← hkinds, List.getLast?_map, show ts.getLast? = some t from ht]
      rfl
    rw [getLast?_of_phrases hphrases _ hk]
    exact id
  obtain ⟨us, errors', hb⟩ := ha.extend htokens hlast more
  rw [hmore] at hb
  have hstart : ∀ t ∈ ts, t.span.start ≤ byteLength a.toList := fun t ht => by
    simpa using ha.start_le t (htokens ▸ List.mem_append_left _ ht)
  have hlocate : locate (Lines.ofString b) ts = locate (Lines.ofString a) ts := by
    rw [Lines.ofString, ← hmore, locate_append hstart]
    rfl
  have hca : Cursor.ofText a =
      ⟨locate (Lines.ofString a) ts ++ [⟨e, (Lines.ofString a).pos e.span.start⟩], 0⟩ := by
    rw [Cursor.ofText, htokens]
    simp [locate]
  have hcb : Cursor.ofText b =
      ⟨locate (Lines.ofString a) ts ++ locate (Lines.ofString b) us, 0⟩ := by
    rw [Cursor.ofText, lex_eq_iff.2 hb, ← hlocate]
    simp [locate]
  have hleof : ∀ t ∈ locate (Lines.ofString a) ts, t.kind ≠ .eof := fun t ht heof => by
    obtain ⟨u, hu, rfl⟩ := List.mem_map.1 ht
    exact eof_not_mem_sentence a (hkinds ▸ List.mem_map.2 ⟨u, hu, heof⟩)
  rw [hca] at hitems ⊢
  rw [hcb]
  obtain ⟨_, hread, -⟩ := parseItems_append hleof he hitems (locate (Lines.ofString b) us)
  exact hread ▸ List.prefix_append _ _

/-! ## Parts of a text -/

/-- A part of a text ends behind these tokens; if there is none, it ends in front of
the first token, with nothing in it but blanks and comments. -/
structure EndsBehind (tokens done : List Token) (before : List Char) : Prop where
  some : done ≠ [] → byteLength before = stopOf 0 done
  none : done = [] → Spacing [] before ∧
    ∀ first ∈ tokens.head?, first.kind ≠ .eof → byteLength before = first.span.start

/-- The part of a text that ends behind its first tokens has no others. -/
theorem exists_before {source : String} {done rest : List Token}
    (h : (lex source).tokens = done ++ rest) (hrest : rest ≠ [])
    (hvalid : ∀ t ∈ done, t.error? = none) :
    ∃ before stop, before <+: source.toList ∧ EndsBehind (lex source).tokens done before ∧
      Tokenizes 0 before (done ++ [⟨.eof, stop⟩]) [] := by
  have hsource := tokenizes_lex source
  cases done with
  | nil =>
    obtain ⟨gap, after, hgap, hspacing, hfirst, hdone⟩ := hsource.leading
    refine ⟨gap, _, hgap ▸ List.prefix_append gap after, ⟨absurd rfl, fun _ => ⟨?_, ?_⟩⟩, hdone⟩
    · exact hspacing.of_head? nofun
    · intro first hmem hne
      rw [hfirst first hmem hne, Nat.zero_add]
  | cons first done =>
    obtain ⟨before, after, hbefore, hstop, hdone⟩ := hsource.cut h hrest
    have herrors : (first :: done).flatMap (·.error?.toList) = [] :=
      List.flatMap_eq_nil_iff.2 fun t ht => by rw [hvalid t ht]; rfl
    rw [herrors] at hdone
    refine ⟨before, _, hbefore ▸ List.prefix_append before after, ⟨fun _ => ?_, nofun⟩, hdone⟩
    rw [← hstop, Nat.zero_add]

/-! ## Texts that are no programs -/

/-- Two programs declare the same: the same functions and classes, with the same
identities and positions in them. -/
structure Program.SameDecls (p q : Program) : Prop where
  functions : p.functions = q.functions
  classes : p.classes = q.classes

theorem sameDecls_of_items {source u : String}
    (h : (parseItems (.ofText u)).1 = (parseItems (.ofText source)).1) :
    (parse u).program.SameDecls (parse source).program := by
  rw [program_parse, program_parse]
  exact ⟨congrArg (·.filterMap Item.function?) h, congrArg (·.filterMap Item.class?) h⟩

/-- What is read of a text up to the first error: the items, their tokens, and a
part of the text that ends behind them and is a program. -/
theorem exists_completed (source : String) : ∃ (t : String) (done rest : List Token),
    t.toList <+: source.toList ∧ (lex source).tokens = done ++ rest ∧
    Phrases ItemPhrase (done.map (·.kind)) (parseItems (.ofText source)).1 ∧
    (∀ (done' rest' : List Token) (items : List Item), (lex source).tokens = done' ++ rest' →
      Phrases ItemPhrase (done'.map (·.kind)) items → done'.length ≤ done.length) ∧
    EndsBehind (lex source).tokens done t.toList ∧ (parse t).error? = none ∧
    (parseItems (.ofText t)).1 = (parseItems (.ofText source)).1 := by
  -- `l` are the located tokens of the items that are read, `done` those that they come from.
  obtain ⟨l, l', hl, hleof, hitems⟩ := exists_parseItems (.ofText source)
  obtain ⟨done, rest, htokens, hdone, hrest⟩ := List.map_eq_append_iff.1 hl
  have hkinds : done.map (·.kind) = l.map (·.kind) := by
    rw [← hdone, List.map_map]
    rfl
  have heof : Kind.eof ∉ done.map (·.kind) := by
    rw [hkinds]
    intro hmem
    obtain ⟨t, ht, hk⟩ := List.mem_map.1 hmem
    exact hleof t ht hk
  have hread (e : Located) (he : e.kind = .eof) :
      parseItems ⟨l ++ [e], 0⟩ = ((parseItems (.ofText source)).1, none) := hitems [e] he
  have hphrases : Phrases ItemPhrase (done.map (·.kind)) (parseItems (.ofText source)).1 := by
    have h := hread (.ofKind .eof) rfl
    have hc : Cursor.kinds ⟨l ++ [Located.ofKind .eof], 0⟩ = done.map (·.kind) ++ [.eof] := by
      rw [hkinds]
      exact List.map_append
    have hphrases := phrases_of_parseItems hc heof (congrArg Prod.snd h)
    rwa [h] at hphrases
  have hvalid : ∀ t ∈ done, t.error? = none := by
    refine fun t ht => Token.error?_eq_none fun fault hk => ?_
    have hmem : t.kind ∈ done.map (·.kind) := List.mem_map_of_mem ht
    exact (derives_program.2 ⟨_, hphrases⟩).invalid_not_mem fault (hk ▸ hmem)
  -- The end of the text is a token that no item takes, so something is left.
  have hrest : rest ≠ [] := by
    rintro rfl
    obtain ⟨ts, e, hts, he, -⟩ := exists_tokens source
    rw [List.append_nil] at htokens
    exact heof (List.mem_map.2 ⟨e, htokens ▸ hts ▸ by simp, he⟩)
  -- The part of the text before the rest: cut there, it reads as the tokens `done` and the end.
  obtain ⟨before, stop, ⟨more, hmore⟩, hends, hbefore⟩ := exists_before htokens hrest hvalid
  have hlocate : locate (Lines.ofChars before) done = l := by
    rw [← hdone, ← locate_append (fun t ht => ?_) more, hmore]
    · rfl
    · simpa using hbefore.start_le t (List.mem_append_left _ ht)
  have hlex : lex (.ofList before) = ⟨done ++ [⟨.eof, stop⟩], []⟩ :=
    lex_eq_iff.2 (by rwa [String.toList_ofList])
  have htext : parseItems (.ofText (.ofList before)) = ((parseItems (.ofText source)).1, none) := by
    rw [Cursor.ofText, hlex, Lines.ofString, String.toList_ofList, locate, List.map_append]
    exact (congrArg (fun l => parseItems ⟨l ++ _, 0⟩) hlocate).trans (hread _ rfl)
  -- More tokens that are items would have been read by the parser.
  have hlongest (done' rest' : List Token) (items : List Item)
      (htokens' : (lex source).tokens = done' ++ rest')
      (hphrases' : Phrases ItemPhrase (done'.map (·.kind)) items) : done'.length ≤ done.length := by
    have hc : Cursor.ofText source = ⟨l ++ l', 0⟩ := by
      rw [← hl]
      rfl
    have heq : l ++ l' = locate (Lines.ofString source) done' ++ locate (Lines.ofString source) rest' := by
      rw [← hl, Cursor.ofText, htokens']
      exact List.map_append
    have hread := hread (.ofKind .eof) rfl
    have hall : (parseItems ⟨l ++ [Located.ofKind .eof], 0⟩).1 = (parseItems ⟨l ++ l', 0⟩).1 := by
      rw [hread, hc]
    have hle := length_le_of_phrases hleof rfl (congrArg Prod.snd hread) hall heq
      (by rwa [locate, List.map_map])
    simpa [← hdone, locate] using hle
  refine ⟨.ofList before, done, rest, ?_, htokens, hphrases, hlongest, ?_, ?_, by rw [htext]⟩
  · rw [String.toList_ofList]
    exact ⟨more, hmore⟩
  · rwa [String.toList_ofList]
  · exact error?_parse.2 ⟨by rw [hlex], congrArg Prod.snd htext⟩

/-- **What is read before the first error is kept**, and nothing else. The tokens of
the completed declarations are the first ones of the text, and no longer front of the
tokens is one of declarations, so all that are completed are kept. The part of the text
that ends behind them is read without an error and declares the same, with the same
identities and positions; so does every longer part that is read without one. -/
theorem partial_parse (source : String) :
    ∃ (t : String) (done rest : List Token) (items : List Item),
      t.toList <+: source.toList ∧ (lex source).tokens = done ++ rest ∧
      Phrases ItemPhrase (done.map (·.kind)) items ∧
      (∀ (done' rest' : List Token) (items' : List Item), (lex source).tokens = done' ++ rest' →
        Phrases ItemPhrase (done'.map (·.kind)) items' → done'.length ≤ done.length) ∧
      (parse source).program.SameDecls (.ofItems items none) ∧
      EndsBehind (lex source).tokens done t.toList ∧
      (parse t).error? = none ∧ (parse t).program.SameDecls (parse source).program ∧
      ∀ u : String, u.toList <+: source.toList → t.length ≤ u.length →
        (parse u).error? = none → (parse u).program.SameDecls (parse source).program := by
  obtain ⟨t, done, rest, ht, htokens, hphrases, hlongest, hends, hparse, hitems⟩ :=
    exists_completed source
  refine ⟨t, done, rest, _, ht, htokens, hphrases, hlongest, ⟨rfl, rfl⟩, hends, hparse,
    sameDecls_of_items hitems, fun u hu hlength huparse => sameDecls_of_items ?_⟩
  have hlength' : t.toList.length ≤ u.toList.length := by
    rwa [String.length_toList, String.length_toList]
  have htu : t.toList <+: u.toList := List.prefix_of_prefix_length_le ht hu hlength'
  have hlow := parseItems_mono htu hparse
  rw [hitems] at hlow
  exact (parseItems_mono hu huparse).eq_of_length_le hlow.length_le

end ClassLang.Source
