/-
  StructuralDiff.Text.Search

  Searching and cutting texts, on lists of characters.  A cut gives the parts
  before and behind a separator: at its first occurrence (`cut?` for a
  character, `cutAt?` for a text) or at its last (`cutLast?`).

  Each cut at a character has its lemmas: the parts with the separator between
  them are the text, the part that was searched is free of the separator, and
  any two such parts are found again (`_spec`, `_append`); there is no cut just
  when the separator does not occur (`_eq_none_iff`).
-/

namespace StructuralDiff.Text

-- ============================================================================
-- Cutting at a character
-- ============================================================================

/-- The text before and behind the first `c`. -/
def cut? (c : Char) : List Char → Option (List Char × List Char)
  | [] => none
  | d :: ds => if d = c then some ([], ds) else (cut? c ds).map (fun p => (d :: p.1, p.2))

/-- The text before and behind the last `c`. -/
def cutLast? (c : Char) : List Char → Option (List Char × List Char)
  | [] => none
  | d :: ds =>
    match cutLast? c ds with
    | some (before, behind) => some (d :: before, behind)
    | none => if d = c then some ([], ds) else none

theorem cut?_eq_none_iff {c : Char} {s : List Char} : cut? c s = none ↔ c ∉ s := by
  induction s with
  | nil => simp [cut?]
  | cons d ds ih =>
    by_cases h : d = c
    · simp [cut?, h]
    · have hne : ¬ c = d := fun he => h he.symm
      simp [cut?, h, hne, ih]

theorem cut?_spec {c : Char} {s before behind : List Char}
    (h : cut? c s = some (before, behind)) : s = before ++ c :: behind ∧ c ∉ before := by
  induction s generalizing before with
  | nil => simp [cut?] at h
  | cons d ds ih =>
    by_cases hd : d = c
    · simp only [cut?, if_pos hd, Option.some.injEq, Prod.mk.injEq] at h
      obtain ⟨rfl, rfl⟩ := h
      simp [hd]
    · have hne : ¬ c = d := fun he => hd he.symm
      simp only [cut?, if_neg hd, Option.map_eq_some_iff, Prod.mk.injEq] at h
      obtain ⟨⟨b, a⟩, hcut, rfl, rfl⟩ := h
      obtain ⟨rfl, hb⟩ := ih hcut
      simp [hne, hb]

theorem cut?_append {c : Char} {before : List Char} (h : c ∉ before) (behind : List Char) :
    cut? c (before ++ c :: behind) = some (before, behind) := by
  induction before with
  | nil => simp [cut?]
  | cons d ds ih =>
    simp only [List.mem_cons, not_or] at h
    have hd : ¬ d = c := fun he => h.1 he.symm
    simp [cut?, hd, ih h.2]

theorem cutLast?_eq_none_iff {c : Char} {s : List Char} : cutLast? c s = none ↔ c ∉ s := by
  induction s with
  | nil => simp [cutLast?]
  | cons d ds ih =>
    cases hcut : cutLast? c ds with
    | some p =>
      have hm : c ∈ ds := by
        by_cases hm : c ∈ ds
        · exact hm
        · rw [ih.mpr hm] at hcut
          exact absurd hcut (by simp)
      simp [cutLast?, hcut, hm]
    | none =>
      have hm := ih.mp hcut
      by_cases hd : d = c
      · simp [cutLast?, hcut, hd]
      · have hne : ¬ c = d := fun he => hd he.symm
        simp [cutLast?, hcut, hd, hne, hm]

theorem cutLast?_spec {c : Char} {s before behind : List Char}
    (h : cutLast? c s = some (before, behind)) : s = before ++ c :: behind ∧ c ∉ behind := by
  induction s generalizing before with
  | nil => simp [cutLast?] at h
  | cons d ds ih =>
    cases hcut : cutLast? c ds with
    | some p =>
      obtain ⟨b, a⟩ := p
      simp only [cutLast?, hcut, Option.some.injEq, Prod.mk.injEq] at h
      obtain ⟨rfl, rfl⟩ := h
      obtain ⟨rfl, ha⟩ := ih hcut
      simp [ha]
    | none =>
      by_cases hd : d = c
      · simp only [cutLast?, hcut, if_pos hd, Option.some.injEq, Prod.mk.injEq] at h
        obtain ⟨rfl, rfl⟩ := h
        exact ⟨by simp [hd], cutLast?_eq_none_iff.mp hcut⟩
      · simp [cutLast?, hcut, hd] at h

theorem cutLast?_append {c : Char} {behind : List Char} (h : c ∉ behind) (before : List Char) :
    cutLast? c (before ++ c :: behind) = some (before, behind) := by
  induction before with
  | nil => simp [cutLast?, cutLast?_eq_none_iff.mpr h]
  | cons d ds ih => simp [cutLast?, ih]

-- ============================================================================
-- Cutting at a text
-- ============================================================================

/-- The text before and behind the first occurrence of `pattern`. -/
def cutAt? (pattern : List Char) : List Char → Option (List Char × List Char)
  | [] => if pattern = [] then some ([], []) else none
  | c :: cs =>
    if pattern.isPrefixOf (c :: cs) then some ([], (c :: cs).drop pattern.length)
    else (cutAt? pattern cs).map (fun p => (c :: p.1, p.2))

theorem cutAt?_spec {pattern s before behind : List Char}
    (h : cutAt? pattern s = some (before, behind)) : s = before ++ pattern ++ behind := by
  induction s generalizing before with
  | nil =>
    by_cases hp : pattern = []
    · simp only [cutAt?, if_pos hp, Option.some.injEq, Prod.mk.injEq] at h
      obtain ⟨rfl, rfl⟩ := h
      simp [hp]
    · simp [cutAt?, hp] at h
  | cons c cs ih =>
    by_cases hp : pattern.isPrefixOf (c :: cs)
    · simp only [cutAt?, if_pos hp, Option.some.injEq, Prod.mk.injEq] at h
      obtain ⟨rfl, rfl⟩ := h
      obtain ⟨t, ht⟩ := List.isPrefixOf_iff_prefix.mp hp
      rw [← ht]
      simp
    · simp only [cutAt?, if_neg hp, Option.map_eq_some_iff, Prod.mk.injEq] at h
      obtain ⟨⟨b, a⟩, hcut, rfl, rfl⟩ := h
      simp [ih hcut]

/-- Whether `pattern` occurs in the text. -/
def contains (s pattern : String) : Bool := (cutAt? pattern.toList s.toList).isSome

/-- The text with the first occurrence of `pattern` replaced. -/
def replaceFirst (s pattern replacement : String) : String :=
  match cutAt? pattern.toList s.toList with
  | some (before, behind) => .ofList (before ++ replacement.toList ++ behind)
  | none => s

-- ============================================================================
-- Splitting and comparing
-- ============================================================================

/-- The pieces of a text between the separators `c`; there is one more of them
    than of separators. -/
def split (c : Char) : List Char → List (List Char)
  | [] => [[]]
  | d :: ds =>
    if d = c then [] :: split c ds
    else
      match split c ds with
      | piece :: rest => (d :: piece) :: rest
      | [] => [[d]]

/-- The pieces of a text between the separators `c` that hold any character. -/
def pieces (c : Char) (s : List Char) : List (List Char) :=
  (split c s).filter (fun piece => !piece.isEmpty)

/-- Whether two texts are the same but for the case of ASCII letters. -/
def sameLetters (s t : String) : Bool := s.toList.map Char.toLower == t.toList.map Char.toLower

end StructuralDiff.Text
