/-
  StructuralDiff.Predicate.Name

  Parts of predicate names.  A name is built from a stem and a suffix with an
  underscore between them, such as `before_calls`; an underscore at the very
  start of a name does not count.  Main statements: a stem and a suffix that were
  joined are found again (`parts?_join`), and the parts that are found make up the
  name (`parts?_eq_some_iff`).
-/

import StructuralDiff.Text.Search

namespace StructuralDiff.PredicateName

/-- The name made of a stem and a suffix. -/
def join (stem suffix : String) : String := stem ++ "_" ++ suffix

/-- The text before the last underscore of a name, and the text behind it. -/
def parts? (name : String) : Option (String × String) :=
  match Text.cutLast? '_' name.toList with
  | none => none
  | some ([], _) => none
  | some (stem, suffix) => some (.ofList stem, .ofList suffix)

/-- The text behind the last underscore of a name, else the whole name. -/
def suffix (name : String) : String := ((parts? name).map Prod.snd).getD name

/-- The text before the last underscore of a name, else the whole name. -/
def stem (name : String) : String := ((parts? name).map Prod.fst).getD name

/-- The text behind the first underscore of a name, else the whole name. -/
def root (name : String) : String :=
  match Text.cut? '_' name.toList with
  | none => name
  | some ([], _) => name
  | some (_, root) => .ofList root

/-- The text before the first underscore of a name, which may be empty. -/
def leading? (name : String) : Option String :=
  (Text.cut? '_' name.toList).map (fun parts => .ofList parts.1)

-- ============================================================================
-- Names without an underscore
-- ============================================================================

theorem parts?_of_not_mem {name : String} (h : '_' ∉ name.toList) : parts? name = none := by
  rw [parts?, Text.cutLast?_eq_none_iff.mpr h]

theorem suffix_of_not_mem {name : String} (h : '_' ∉ name.toList) : suffix name = name := by
  simp [suffix, parts?_of_not_mem h]

-- ============================================================================
-- Joined names
-- ============================================================================

theorem toList_join (stem suffix : String) :
    (join stem suffix).toList = stem.toList ++ '_' :: suffix.toList := by
  simp [join]

theorem parts?_join {stem suffix : String} (hstem : stem ≠ "") (hsuffix : '_' ∉ suffix.toList) :
    parts? (join stem suffix) = some (stem, suffix) := by
  have hne : stem.toList ≠ [] := fun h => hstem (by simpa using h)
  unfold parts?
  rw [toList_join, Text.cutLast?_append hsuffix]
  cases h : stem.toList with
  | nil => exact absurd h hne
  | cons c cs => simp [← h]

@[simp] theorem suffix_join {s t : String} (hs : s ≠ "") (ht : '_' ∉ t.toList) :
    suffix (join s t) = t := by
  simp [suffix, parts?_join hs ht]

@[simp] theorem stem_join {s t : String} (hs : s ≠ "") (ht : '_' ∉ t.toList) :
    stem (join s t) = s := by
  simp [stem, parts?_join hs ht]

-- ============================================================================
-- Divided names
-- ============================================================================

/-- The name is made of a stem that is not empty and a suffix without an
    underscore. -/
def Divided (name stem suffix : String) : Prop :=
  name = join stem suffix ∧ stem ≠ "" ∧ '_' ∉ suffix.toList

/-- The only underscore of the name is its first character. -/
def OnlyLeading (name : String) : Prop :=
  ∃ rest : String, '_' ∉ rest.toList ∧ name = "_" ++ rest

theorem onlyLeading_iff (name : String) :
    OnlyLeading name ↔ name.toList.head? = some '_' ∧ '_' ∉ name.toList.tail := by
  constructor
  · rintro ⟨rest, hrest, rfl⟩
    simpa using hrest
  · rintro ⟨hhead, htail⟩
    obtain ⟨rest, hname⟩ := List.head?_eq_some_iff.mp hhead
    rw [hname, List.tail_cons] at htail
    refine ⟨.ofList rest, by simpa using htail, ?_⟩
    rw [← String.toList_inj, hname]
    simp

instance (name : String) : Decidable (OnlyLeading name) :=
  decidable_of_iff _ (onlyLeading_iff name).symm

theorem parts?_eq_some_iff {name stem suffix : String} :
    parts? name = some (stem, suffix) ↔ Divided name stem suffix := by
  constructor
  · intro h
    unfold parts? at h
    split at h
    · cases h
    · cases h
    · rename_i before behind hbefore hcut
      obtain ⟨hname, hbehind⟩ := Text.cutLast?_spec hcut
      cases h
      refine ⟨?_, fun hempty => hbefore (String.ofList_eq_empty_iff.mp hempty), by simpa using hbehind⟩
      rw [← String.toList_inj, toList_join, hname, String.toList_ofList, String.toList_ofList]
  · rintro ⟨rfl, hstem, hsuffix⟩
    exact parts?_join hstem hsuffix

/-- A name without parts has no underscore, or just a leading one. -/
theorem parts?_cases (name : String) :
    (∃ stem suffix, parts? name = some (stem, suffix)) ∨
      parts? name = none ∧ (OnlyLeading name ∨ '_' ∉ name.toList) := by
  cases h : parts? name with
  | some parts => exact .inl ⟨parts.1, parts.2, rfl⟩
  | none =>
    refine .inr ⟨rfl, ?_⟩
    unfold parts? at h
    split at h
    · rename_i hcut
      exact .inr (Text.cutLast?_eq_none_iff.mp hcut)
    · rename_i behind hcut
      obtain ⟨hname, hbehind⟩ := Text.cutLast?_spec hcut
      refine .inl ⟨.ofList behind, by simpa using hbehind, ?_⟩
      rw [← String.toList_inj, hname]
      simp
    · cases h

theorem suffix_of_divided {name s t : String} (h : Divided name s t) : suffix name = t := by
  rw [suffix, parts?_eq_some_iff.mpr h, Option.map_some, Option.getD_some]

theorem stem_of_divided {name s t : String} (h : Divided name s t) : stem name = s := by
  rw [stem, parts?_eq_some_iff.mpr h, Option.map_some, Option.getD_some]

theorem stem_ne_empty {name : String} (h : name ≠ "") : stem name ≠ "" := by
  rcases parts?_cases name with ⟨s, t, hparts⟩ | ⟨hnone, -⟩
  · have hdivided := parts?_eq_some_iff.mp hparts
    rw [stem_of_divided hdivided]
    exact hdivided.2.1
  · rw [stem, hnone]
    exact h

theorem underscore_not_mem_suffix {name : String} (h : ¬ OnlyLeading name) :
    '_' ∉ (suffix name).toList := by
  rcases parts?_cases name with ⟨s, t, hparts⟩ | ⟨-, hleading | hfree⟩
  · have hdivided := parts?_eq_some_iff.mp hparts
    rw [suffix_of_divided hdivided]
    exact hdivided.2.2
  · exact absurd hleading h
  · rw [suffix_of_not_mem hfree]
    exact hfree

theorem divided_self {name : String} (h : ¬ OnlyLeading name) (hmem : '_' ∈ name.toList) :
    Divided name (stem name) (suffix name) := by
  rcases parts?_cases name with ⟨s, t, hparts⟩ | ⟨-, hleading | hfree⟩
  · have hdivided := parts?_eq_some_iff.mp hparts
    rw [suffix_of_divided hdivided, stem_of_divided hdivided]
    exact hdivided
  · exact absurd hleading h
  · exact absurd hmem hfree

theorem leading?_eq_some_iff {name lead : String} :
    leading? name = some lead ↔ '_' ∉ lead.toList ∧ ∃ rest, name = join lead rest := by
  constructor
  · intro h
    obtain ⟨⟨before, behind⟩, hcut, rfl⟩ := Option.map_eq_some_iff.mp h
    obtain ⟨hname, hbefore⟩ := Text.cut?_spec hcut
    refine ⟨by simpa using hbefore, .ofList behind, ?_⟩
    rw [← String.toList_inj, toList_join, hname, String.toList_ofList, String.toList_ofList]
  · rintro ⟨hlead, rest, rfl⟩
    rw [leading?, toList_join, Text.cut?_append hlead, Option.map_some, String.ofList_toList]

end StructuralDiff.PredicateName
