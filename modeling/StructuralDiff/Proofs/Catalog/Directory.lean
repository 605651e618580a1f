/-
  StructuralDiff.Proofs.Catalog.Directory

  A catalog as a list of predicates with an index of their names.

  A `Directory` keeps the predicates in one list and, apart from it, the position
  of each name in that list.  A name that is registered again is replaced at the
  position that the index has for it, a new one goes to the end, and a look-up
  goes through the index.  A position outside the list leaves an operation without
  an outcome.

  `Indexes` ties a directory to a catalog: both have the same predicates, in the
  same order, and the index has each name at its place.  The empty directory
  indexes the empty catalog and each registration keeps it (`Indexes.register`),
  so no position is ever out of range and a directory answers as the catalog
  does (`indexes_ofRegistrations`).
-/

import StructuralDiff.Proofs.Catalog.Registrations

namespace StructuralDiff

-- ============================================================================
-- Places in an ordered map
-- ============================================================================

namespace OrderedMap

variable {κ ν : Type} [DecidableEq κ] {k : κ} {x y : ν} {i : Nat}

/-- A known key keeps its place, and its value is replaced there. -/
theorem insertIn_eq_set {l : List (κ × ν)} (hl : (l.map Prod.fst).Nodup)
    (hi : l[i]? = some (k, y)) : insertIn k x l = l.set i (k, x) := by
  induction l generalizing i with
  | nil => cases hi
  | cons e rest ih =>
    obtain ⟨k', z⟩ := e
    rw [List.map_cons, List.nodup_cons] at hl
    cases i with
    | zero =>
      obtain ⟨rfl, rfl⟩ := Prod.mk.inj (Option.some.inj hi)
      rw [insertIn, if_pos rfl, List.set_cons_zero]
    | succ i =>
      rw [List.getElem?_cons_succ] at hi
      have hmem : k ∈ rest.map Prod.fst :=
        List.mem_map_of_mem (f := Prod.fst) (List.mem_of_getElem? hi)
      have hne : k' ≠ k := fun heq => hl.1 (heq ▸ hmem)
      rw [insertIn, if_neg hne, ih hl.2 hi, List.set_cons_succ]

/-- The entry at the place of a key. -/
theorem exists_entry_at {m : OrderedMap κ ν} (h : m.keys[i]? = some k) :
    ∃ x, m.entries[i]? = some (k, x) ∧ m.find? k = some x ∧ m.values[i]? = some x := by
  rw [keys, List.getElem?_map, Option.map_eq_some_iff] at h
  obtain ⟨⟨_, x⟩, hentry, rfl⟩ := h
  refine ⟨x, hentry, (m.find?_eq_some_iff _ x).mpr (List.mem_of_getElem? hentry), ?_⟩
  rw [values, List.getElem?_map, hentry, Option.map_some]

theorem values_insert_at {m : OrderedMap κ ν} (h : m.keys[i]? = some k) (x : ν) :
    (m.insert k x).values = m.values.set i x := by
  obtain ⟨y, hentry, -⟩ := exists_entry_at h
  show (insertIn k x m.entries).map Prod.snd = m.values.set i x
  rw [insertIn_eq_set m.keys_nodup hentry, List.map_set, values]

theorem keys_insert_at {m : OrderedMap κ ν} (h : m.keys[i]? = some k) (x : ν) :
    (m.insert k x).keys = m.keys := by
  rw [keys_insert, if_pos (List.mem_of_getElem? h)]

theorem keys_insert_of_new {m : OrderedMap κ ν} (hk : m.find? k = none) (x : ν) :
    (m.insert k x).keys = m.keys ++ [k] := by
  rw [keys_insert, if_neg ((m.find?_eq_none_iff k).mp hk)]

end OrderedMap

-- ============================================================================
-- Directories
-- ============================================================================

/-- The predicates, the position of each name among them, and the remarks made
    so far. -/
structure Directory where
  entries : List Predicate
  index : OrderedMap String Nat
  remarks : List CatalogRemark

namespace Directory

/-- The directory without predicates. -/
def empty : Directory := ⟨[], .empty, []⟩

/-- The predicate at the position of a name, if the name has one. -/
def find? (d : Directory) (name : String) : Option (Option Predicate) :=
  match d.index.find? name with
  | none => some none
  | some i => d.entries[i]?.map some

/-- Enter a predicate under a name: at the position of a known name, else at the
    end. -/
def enter (d : Directory) (name : String) (p : Predicate) : Option Directory :=
  match d.index.find? name with
  | none => some ⟨d.entries ++ [p], d.index.insert name d.entries.length, d.remarks⟩
  | some i =>
    if i < d.entries.length then
      some ⟨d.entries.set i p, d.index, d.remarks ++ [.duplicateName name]⟩
    else none

/-- Register a name with a written signature. -/
def register (d : Directory) (name signature : String) : Option Directory :=
  match Predicate.ofText name signature with
  | .ok p => d.enter name p
  | .error e => some ⟨d.entries, d.index, d.remarks ++ [e.remark name]⟩

/-- The directory of some registrations, made in order. -/
def ofRegistrations (log : List Catalog.Registration) : Option Directory :=
  log.foldlM (fun d e => d.register e.1 e.2) empty

/-- The directory holds the predicates of the catalog, and its index has each name
    at its place. -/
structure Indexes (d : Directory) (c : Catalog) : Prop where
  entries : d.entries = c.all
  index : ∀ name i, d.index.find? name = some i ↔ c.predicates.keys[i]? = some name
  remarks : d.remarks = c.remarks

theorem indexes_empty : Indexes empty .empty where
  entries := rfl
  index name i := by
    show (none : Option Nat) = some i ↔ ([] : List String)[i]? = some name
    simp only [List.getElem?_nil, reduceCtorEq]
  remarks := rfl

section

variable {d : Directory} {c : Catalog} {p : Predicate} {i : Nat}

/-- What the index says of a name is what the catalog says of its place. -/
theorem Indexes.cases (h : d.Indexes c) (name : String) :
    (d.index.find? name = none ∧ c.find? name = none) ∨
      ∃ i p, d.index.find? name = some i ∧ c.predicates.keys[i]? = some name ∧
        c.find? name = some p ∧ d.entries[i]? = some p := by
  cases hi : d.index.find? name with
  | some i =>
    have hplace : c.predicates.keys[i]? = some name := (h.index name i).mp hi
    obtain ⟨p, -, hfind, hvalue⟩ := OrderedMap.exists_entry_at hplace
    rw [h.entries]
    exact .inr ⟨i, p, rfl, hplace, hfind, hvalue⟩
  | none =>
    refine .inl ⟨rfl, (c.predicates.find?_eq_none_iff name).mpr fun hmem => ?_⟩
    obtain ⟨i, hplace⟩ := List.getElem?_of_mem hmem
    rw [(h.index name i).mpr hplace] at hi
    cases hi

/-- A look-up through the index stays in range, and finds what the catalog has. -/
theorem Indexes.find?_eq (h : d.Indexes c) (name : String) :
    d.find? name = some (c.find? name) := by
  rw [find?]
  rcases h.cases name with ⟨hindex, hfind⟩ | ⟨i, p, hindex, -, hfind, hentry⟩
  · rw [hindex, hfind]
  · simp only [hindex, hfind, hentry, Option.map_some]

/-- A new name goes to the end, and so does its predicate. -/
theorem Indexes.add (h : d.Indexes c) (hnew : c.predicates.find? p.name = none) :
    Indexes ⟨d.entries ++ [p], d.index.insert p.name d.entries.length, d.remarks⟩
      (c.enter p) where
  entries := by
    rw [h.entries]
    exact (OrderedMap.values_insert_of_new hnew p).symm
  index name i := by
    have hlength : d.entries.length = c.predicates.keys.length := by
      rw [h.entries, Catalog.all, OrderedMap.values, OrderedMap.keys, List.length_map,
        List.length_map]
    have hkeys : (c.enter p).predicates.keys = c.predicates.keys ++ [p.name] :=
      OrderedMap.keys_insert_of_new hnew p
    have hplaces : (c.predicates.keys ++ [p.name])[i]? = some name ↔
        c.predicates.keys[i]? = some name ∨ i = c.predicates.keys.length ∧ p.name = name := by
      grind
    rw [hkeys, hplaces, hlength, OrderedMap.find?_insert]
    by_cases hname : p.name = name
    · have hnot : ¬ c.predicates.keys[i]? = some name := fun hi =>
        (c.predicates.find?_eq_none_iff p.name).mp hnew (hname ▸ List.mem_of_getElem? hi)
      rw [if_pos hname, Option.some.injEq]
      exact ⟨fun hi => .inr ⟨hi.symm, hname⟩, fun hi => (hi.resolve_left hnot).1.symm⟩
    · rw [if_neg hname, h.index]
      exact ⟨.inl, fun hi => hi.resolve_right fun hlast => hname hlast.2⟩
  remarks := by
    have hunknown : ¬ c.predicates.contains p.name = true := by
      rw [Catalog.contains_iff]
      exact (c.predicates.find?_eq_none_iff p.name).mp hnew
    rw [h.remarks, Catalog.enter, if_neg hunknown]

/-- A known name keeps its position, and its predicate is replaced there. -/
theorem Indexes.replace (h : d.Indexes c) (hplace : c.predicates.keys[i]? = some p.name) :
    Indexes ⟨d.entries.set i p, d.index, d.remarks ++ [.duplicateName p.name]⟩ (c.enter p) where
  entries := by
    rw [h.entries]
    exact (OrderedMap.values_insert_at hplace p).symm
  index name j := by
    have hkeys : (c.enter p).predicates.keys = c.predicates.keys :=
      OrderedMap.keys_insert_at hplace p
    rw [hkeys]
    exact h.index name j
  remarks := by
    have hknown : c.predicates.contains p.name = true := by
      rw [Catalog.contains_iff]
      exact List.mem_of_getElem? hplace
    rw [h.remarks, Catalog.enter, if_pos hknown]

/-- A predicate entered under its name. -/
theorem Indexes.enter (h : d.Indexes c) (p : Predicate) :
    ∃ e, d.enter p.name p = some e ∧ e.Indexes (c.enter p) := by
  rcases h.cases p.name with ⟨hindex, hfind⟩ | ⟨i, q, hindex, hplace, hfind, hentry⟩
  · exact ⟨_, by rw [Directory.enter, hindex], h.add hfind⟩
  · have hlt : i < d.entries.length := (List.getElem?_eq_some_iff.mp hentry).1
    exact ⟨_, by simp only [Directory.enter, hindex]; exact if_pos hlt, h.replace hplace⟩

/-- One registration. -/
theorem Indexes.register (h : d.Indexes c) (e : Catalog.Registration) :
    ∃ d', d.register e.1 e.2 = some d' ∧ d'.Indexes (c.register e.1 e.2) := by
  rcases Catalog.ofText_cases e with ⟨p, hp, -, hname, -⟩ | ⟨err, herr, -, -⟩
  · simp only [Directory.register, Catalog.register, hp]
    rw [← hname]
    exact h.enter p
  · simp only [Directory.register, Catalog.register, herr]
    exact ⟨_, rfl, h.entries, h.index, congrArg (· ++ [err.remark e.1]) h.remarks⟩

end

/-- All registrations. -/
theorem indexes_ofRegistrations (log : List Catalog.Registration) :
    ∃ d, ofRegistrations log = some d ∧ d.Indexes (.ofRegistrations log) := by
  induction log using List.reverseRecOn with
  | nil => exact ⟨empty, rfl, indexes_empty⟩
  | append_singleton log e ih =>
    obtain ⟨d, hd, hindexes⟩ := ih
    obtain ⟨d', hd', hregistered⟩ := hindexes.register e
    refine ⟨d', ?_, ?_⟩
    · rw [ofRegistrations, List.foldlM_append, ← ofRegistrations, hd]
      simpa using hd'
    · rw [Catalog.ofRegistrations, List.foldl_append]
      exact hregistered

/-- **The index never goes astray.**  After any registrations no position was out of
    range, and every look-up, the list of predicates and the remarks are those of
    the catalog. -/
theorem ofRegistrations_answers (log : List Catalog.Registration) :
    ∃ d, ofRegistrations log = some d ∧
      (∀ name, d.find? name = some ((Catalog.ofRegistrations log).find? name)) ∧
      d.entries = (Catalog.ofRegistrations log).all ∧
      d.remarks = (Catalog.ofRegistrations log).remarks := by
  obtain ⟨d, hd, hindexes⟩ := indexes_ofRegistrations log
  exact ⟨d, hd, hindexes.find?_eq, hindexes.entries, hindexes.remarks⟩

end Directory
end StructuralDiff
