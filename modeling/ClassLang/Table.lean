/-!
# Tables

A `Table` maps keys to values and remembers the order in which its keys
came in. `insert` replaces the value of a key that is there and adds a new
key at the end, so no key occurs twice in a table built from the empty one.
-/


namespace ClassLang

/-- Pairs of a key and its value. -/
abbrev Table (κ ν : Type) := List (κ × ν)

namespace Table

variable {κ ν : Type} [DecidableEq κ]

/-- The value of a key. -/
def get? : Table κ ν → κ → Option ν
  | [], _ => none
  | (k, v) :: rest, key => if k = key then some v else get? rest key

/-- Gives a key a value. -/
def insert : Table κ ν → κ → ν → Table κ ν
  | [], key, value => [(key, value)]
  | (k, v) :: rest, key, value =>
    if k = key then (key, value) :: rest else (k, v) :: insert rest key value

@[simp] theorem get?_nil (key : κ) : get? ([] : Table κ ν) key = none := rfl

theorem get?_cons (k : κ) (v : ν) (rest : Table κ ν) (key : κ) :
    get? ((k, v) :: rest) key = if k = key then some v else get? rest key := rfl

theorem insert_nil (key : κ) (value : ν) :
    insert ([] : Table κ ν) key value = [(key, value)] := rfl

theorem insert_cons (k : κ) (v : ν) (rest : Table κ ν) (key : κ) (value : ν) :
    insert ((k, v) :: rest) key value =
      if k = key then (key, value) :: rest else (k, v) :: insert rest key value := rfl

@[simp] theorem get?_insert_self (t : Table κ ν) (key : κ) (value : ν) :
    (t.insert key value).get? key = some value := by
  induction t with
  | nil => simp [insert_nil, get?_cons]
  | cons entry rest ih =>
    obtain ⟨k, v⟩ := entry
    by_cases h : k = key
    · simp [insert_cons, get?_cons, h]
    · simp [insert_cons, get?_cons, h, ih]

theorem get?_insert_of_ne (t : Table κ ν) {key other : κ} (value : ν) (h : key ≠ other) :
    (t.insert key value).get? other = t.get? other := by
  induction t with
  | nil => simp [insert_nil, get?_cons, h]
  | cons entry rest ih =>
    obtain ⟨k, v⟩ := entry
    by_cases hk : k = key
    · simp [insert_cons, get?_cons, hk, h]
    · simp [insert_cons, get?_cons, hk, ih]

theorem mem_keys_insert (t : Table κ ν) (key : κ) (value : ν) (other : κ) :
    other ∈ (t.insert key value).map (·.1) ↔ other = key ∨ other ∈ t.map (·.1) := by
  induction t with
  | nil => simp [insert_nil]
  | cons entry rest ih =>
    obtain ⟨k, v⟩ := entry
    by_cases h : k = key
    · simp [insert_cons, h]
    · simp only [insert_cons, if_neg h, List.map_cons, List.mem_cons, ih]
      exact or_left_comm

/-- What is not a key has no value. -/
theorem get?_eq_none_of_not_mem {t : Table κ ν} {key : κ} (h : key ∉ t.map (·.1)) :
    t.get? key = none := by
  induction t with
  | nil => rfl
  | cons entry rest ih =>
    rw [List.map_cons, List.mem_cons, not_or] at h
    rw [get?_cons, if_neg (Ne.symm h.1), ih h.2]

/-- Where no key occurs twice, every entry is the value of its key. -/
theorem get?_of_mem {t : Table κ ν} (hnodup : (t.map (·.1)).Nodup) {entry : κ × ν}
    (h : entry ∈ t) : t.get? entry.1 = some entry.2 := by
  induction t with
  | nil => cases h
  | cons first rest ih =>
    rw [List.map_cons, List.nodup_cons] at hnodup
    rcases List.mem_cons.1 h with rfl | hmem
    · rw [get?_cons, if_pos rfl]
    · have hne : first.1 ≠ entry.1 := fun heq =>
        hnodup.1 (heq ▸ List.mem_map_of_mem hmem)
      rw [get?_cons, if_neg hne, ih hnodup.2 hmem]

/-- No key occurs twice if none did before. -/
theorem nodup_keys_insert {t : Table κ ν} (h : (t.map (·.1)).Nodup) {key : κ} {value : ν} :
    ((t.insert key value).map (·.1)).Nodup := by
  induction t with
  | nil => simp [insert_nil]
  | cons entry rest ih =>
    obtain ⟨k, v⟩ := entry
    rw [List.map_cons, List.nodup_cons] at h
    by_cases hk : k = key
    · subst hk
      simpa [insert_cons] using h
    · simp only [insert_cons, if_neg hk, List.map_cons, List.nodup_cons]
      refine ⟨fun hmem => ?_, ih h.2⟩
      rcases (mem_keys_insert rest key value k).1 hmem with heq | hmem
      · exact hk heq
      · exact h.1 hmem

end Table

end ClassLang
