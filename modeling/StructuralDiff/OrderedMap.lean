/-
  StructuralDiff.OrderedMap

  Finite maps that keep their entries in the order in which the keys first
  came in.  Inserting under a known key replaces the value where it stands, so
  a map records both "the last value wins" and "the first mention fixes the
  place".  Catalogs, fact tables, substitutions and renamings are all such
  maps.

  The view of a map is `find?`: the lemmas below say what `insert` does to it,
  and to the list of keys.
-/

namespace StructuralDiff

universe u v

/-- A finite map whose entries stand in the order of the first insertion of
    their keys; no key stands twice. -/
structure OrderedMap (κ : Type u) (ν : Type v) where
  /-- The entries, oldest key first. -/
  entries : List (κ × ν)
  /-- No key stands twice. -/
  keys_nodup : (entries.map Prod.fst).Nodup

namespace OrderedMap

variable {κ : Type u} {ν : Type v}

-- ============================================================================
-- Operations
-- ============================================================================

/-- The map without entries. -/
def empty : OrderedMap κ ν := ⟨[], List.nodup_nil⟩

instance : Inhabited (OrderedMap κ ν) := ⟨empty⟩

/-- The keys, oldest first. -/
def keys (m : OrderedMap κ ν) : List κ := m.entries.map Prod.fst

/-- The values, in the order of their keys. -/
def values (m : OrderedMap κ ν) : List ν := m.entries.map Prod.snd

/-- How many keys the map holds. -/
def size (m : OrderedMap κ ν) : Nat := m.entries.length

variable [DecidableEq κ]

/-- The value of the first entry of a list that stands under `k`. -/
def findIn (k : κ) : List (κ × ν) → Option ν
  | [] => none
  | (k', x) :: rest => if k' = k then some x else findIn k rest

/-- Put `x` under `k`: in place of the entry of that key, else at the end. -/
def insertIn (k : κ) (x : ν) : List (κ × ν) → List (κ × ν)
  | [] => [(k, x)]
  | (k', y) :: rest => if k' = k then (k', x) :: rest else (k', y) :: insertIn k x rest

/-- The value that the map holds under `k`. -/
def find? (m : OrderedMap κ ν) (k : κ) : Option ν := findIn k m.entries

/-- Whether the map holds a value under `k`. -/
def contains (m : OrderedMap κ ν) (k : κ) : Bool := (m.find? k).isSome

theorem keys_insertIn (k : κ) (x : ν) (l : List (κ × ν)) :
    (insertIn k x l).map Prod.fst
      = if k ∈ l.map Prod.fst then l.map Prod.fst else l.map Prod.fst ++ [k] := by
  induction l with
  | nil => simp [insertIn]
  | cons e rest ih =>
    obtain ⟨k', y⟩ := e
    by_cases h : k' = k
    · simp [insertIn, h]
    · have hne : ¬ k = k' := fun he => h he.symm
      by_cases hm : k ∈ rest.map Prod.fst
      · rw [if_pos hm] at ih
        simp only [insertIn, if_neg h, List.map_cons, ih, List.mem_cons, hm, or_true, if_true]
      · rw [if_neg hm] at ih
        simp only [insertIn, if_neg h, List.map_cons, ih, List.mem_cons, hm, hne, or_false,
          if_false, List.cons_append]

/-- A new key goes to the end, and nothing else changes. -/
theorem insertIn_of_not_mem {k : κ} {l : List (κ × ν)} (hk : k ∉ l.map Prod.fst) (x : ν) :
    insertIn k x l = l ++ [(k, x)] := by
  induction l with
  | nil => rfl
  | cons e rest ih =>
    rw [List.map_cons, List.mem_cons, not_or] at hk
    rw [insertIn, if_neg (Ne.symm hk.1), ih hk.2, List.cons_append]

theorem nodup_keys_insertIn (k : κ) (x : ν) (l : List (κ × ν))
    (h : (l.map Prod.fst).Nodup) : ((insertIn k x l).map Prod.fst).Nodup := by
  rw [keys_insertIn]
  split
  · exact h
  · rename_i hk
    refine List.nodup_append.mpr ⟨h, by simp, ?_⟩
    intro a ha b hb
    rw [List.mem_singleton] at hb
    subst hb
    exact fun hab => hk (hab ▸ ha)

/-- Hold `x` under `k`, replacing the value of a known key where it stands. -/
def insert (m : OrderedMap κ ν) (k : κ) (x : ν) : OrderedMap κ ν :=
  ⟨insertIn k x m.entries, nodup_keys_insertIn k x m.entries m.keys_nodup⟩

/-- Whether two maps hold the same values under the same keys, in whatever
    order. -/
def agrees [DecidableEq ν] (m n : OrderedMap κ ν) : Bool :=
  m.size == n.size && m.entries.all (fun e => n.find? e.1 = some e.2)

-- ============================================================================
-- What inserting does to the view
-- ============================================================================

@[simp] theorem find?_empty (k : κ) : (empty : OrderedMap κ ν).find? k = none := rfl

theorem findIn_insertIn (k k' : κ) (x : ν) (l : List (κ × ν)) :
    findIn k' (insertIn k x l) = if k = k' then some x else findIn k' l := by
  induction l with
  | nil => simp [insertIn, findIn]
  | cons e rest ih =>
    obtain ⟨q, y⟩ := e
    by_cases h : q = k
    · subst h
      by_cases hk : q = k' <;> simp [insertIn, findIn, hk]
    · by_cases hq : q = k'
      · subst hq
        have hne : ¬ k = q := fun he => h he.symm
        simp [insertIn, findIn, h, hne]
      · simp [insertIn, findIn, h, hq, ih]

theorem find?_insert (m : OrderedMap κ ν) (k k' : κ) (x : ν) :
    (m.insert k x).find? k' = if k = k' then some x else m.find? k' :=
  findIn_insertIn k k' x m.entries

@[simp] theorem find?_insert_self (m : OrderedMap κ ν) (k : κ) (x : ν) :
    (m.insert k x).find? k = some x := by simp [find?_insert]

theorem find?_insert_of_ne (m : OrderedMap κ ν) {k k' : κ} (x : ν) (h : k ≠ k') :
    (m.insert k x).find? k' = m.find? k' := by simp [find?_insert, h]

theorem find?_insert_cases {m : OrderedMap κ ν} {k k' : κ} {x y : ν}
    (h : (m.insert k x).find? k' = some y) : k' = k ∧ y = x ∨ m.find? k' = some y := by
  by_cases hk : k = k'
  · subst hk
    rw [find?_insert_self] at h
    exact .inl ⟨rfl, (Option.some.inj h).symm⟩
  · rw [find?_insert_of_ne m x hk] at h
    exact .inr h

/-- A new key goes to the end; a known one keeps its place. -/
theorem keys_insert (m : OrderedMap κ ν) (k : κ) (x : ν) :
    (m.insert k x).keys = if k ∈ m.keys then m.keys else m.keys ++ [k] :=
  keys_insertIn k x m.entries

theorem findIn_eq_none_iff (k : κ) (l : List (κ × ν)) :
    findIn k l = none ↔ k ∉ l.map Prod.fst := by
  induction l with
  | nil => simp [findIn]
  | cons e rest ih =>
    obtain ⟨q, y⟩ := e
    by_cases h : q = k
    · simp [findIn, h]
    · have hne : ¬ k = q := fun he => h he.symm
      simp only [findIn, if_neg h, ih, List.map_cons, List.mem_cons, hne, false_or]

theorem findIn_eq_some_iff {k : κ} {x : ν} {l : List (κ × ν)} (h : (l.map Prod.fst).Nodup) :
    findIn k l = some x ↔ (k, x) ∈ l := by
  induction l with
  | nil => simp [findIn]
  | cons e rest ih =>
    obtain ⟨q, y⟩ := e
    rw [List.map_cons, List.nodup_cons] at h
    by_cases hq : q = k
    · subst hq
      have hrest : (q, x) ∉ rest := fun hmem => h.1 (List.mem_map.mpr ⟨_, hmem, rfl⟩)
      simp [findIn, hrest, eq_comm]
    · have hne : ¬ k = q := fun he => hq he.symm
      simp [findIn, hq, hne, ih h.2]

theorem find?_eq_some_iff (m : OrderedMap κ ν) (k : κ) (x : ν) :
    m.find? k = some x ↔ (k, x) ∈ m.entries :=
  findIn_eq_some_iff m.keys_nodup

theorem find?_eq_none_iff (m : OrderedMap κ ν) (k : κ) : m.find? k = none ↔ k ∉ m.keys :=
  findIn_eq_none_iff k m.entries

theorem mem_keys_iff (m : OrderedMap κ ν) (k : κ) : k ∈ m.keys ↔ ∃ x, m.find? k = some x := by
  simp [keys, find?_eq_some_iff]

theorem mem_keys_of_find? {m : OrderedMap κ ν} {k : κ} {x : ν} (h : m.find? k = some x) :
    k ∈ m.keys :=
  List.mem_map_of_mem ((m.find?_eq_some_iff k x).mp h)

/-- The value of a new key goes to the end. -/
theorem values_insert_of_new {m : OrderedMap κ ν} {k : κ} (hk : m.find? k = none) (x : ν) :
    (m.insert k x).values = m.values ++ [x] := by
  have hnot := (m.find?_eq_none_iff k).mp hk
  show (insertIn k x m.entries).map Prod.snd = m.values ++ [x]
  rw [insertIn_of_not_mem hnot, List.map_append]
  rfl

/-- Whatever the first map holds, the second one holds under the same key. -/
def KeptIn (m n : OrderedMap κ ν) : Prop := ∀ k x, m.find? k = some x → n.find? k = some x

theorem KeptIn.refl (m : OrderedMap κ ν) : m.KeptIn m := fun _ _ h => h

theorem KeptIn.trans {l m n : OrderedMap κ ν} (h : l.KeptIn m) (h' : m.KeptIn n) : l.KeptIn n :=
  fun k x hx => h' k x (h k x hx)

/-- Inserting a new key changes nothing for the others. -/
theorem keptIn_insert {m : OrderedMap κ ν} {k : κ} (hk : m.find? k = none) (x : ν) :
    m.KeptIn (m.insert k x) := by
  intro k' y hy
  rw [find?_insert_of_ne, hy]
  rintro rfl
  rw [hk] at hy
  cases hy

end OrderedMap
end StructuralDiff
