/-
  StructuralDiff.Proofs.Text.Pieces

  What is found when a text is searched and split.

  Splitting: the pieces of two texts with a separator between them are those of
  both (`pieces_append`), so that joining texts and splitting them again gives
  the pieces of each (`pieces_intercalate`).

  Searching: a cut is made at the first occurrence of a pattern
  (`firstCut_of_cutAt?`), and there is none just when the pattern does not occur
  (`cutAt?_eq_none_iff`).  A word with the separator behind it stands in joined
  texts just where one of them ends in it (`infix_intercalate_iff`).
-/

import Mathlib.Data.List.Infix
import StructuralDiff.Text.Search

namespace StructuralDiff.Text

variable {c d : Char} {s t : List Char}

-- ============================================================================
-- Splitting
-- ============================================================================

theorem split_ne_nil (c : Char) (s : List Char) : split c s ≠ [] := by
  cases s with
  | nil => exact List.cons_ne_nil _ _
  | cons d ds =>
    rw [split]
    split
    · exact List.cons_ne_nil _ _
    · split
      · exact List.cons_ne_nil _ _
      · exact List.cons_ne_nil _ _

/-- A character that is no separator belongs to the first piece. -/
theorem split_cons_of_ne (h : d ≠ c) (s : List Char) :
    ∃ piece rest, split c s = piece :: rest ∧ split c (d :: s) = (d :: piece) :: rest := by
  obtain ⟨piece, rest, hs⟩ := List.exists_cons_of_ne_nil (split_ne_nil c s)
  refine ⟨piece, rest, hs, ?_⟩
  rw [split, if_neg h, hs]

theorem split_append (c : Char) (s t : List Char) :
    split c (s ++ c :: t) = split c s ++ split c t := by
  induction s with
  | nil =>
    show split c (c :: t) = [] :: split c t
    rw [split, if_pos rfl]
  | cons d ds ih =>
    by_cases h : d = c
    · rw [List.cons_append, split, if_pos h, ih, split, if_pos h, List.cons_append]
    · obtain ⟨piece, rest, hds, hcons⟩ := split_cons_of_ne h ds
      obtain ⟨piece', rest', hall, hconsall⟩ := split_cons_of_ne h (ds ++ c :: t)
      rw [ih, hds, List.cons_append] at hall
      injection hall with hpiece hrest
      rw [List.cons_append, hconsall, hcons, ← hpiece, ← hrest, List.cons_append]

theorem split_of_not_mem (h : c ∉ s) : split c s = [s] := by
  induction s with
  | nil => rfl
  | cons d ds ih =>
    rw [List.mem_cons, not_or] at h
    rw [split, if_neg (Ne.symm h.1), ih h.2]

theorem pieces_append (c : Char) (s t : List Char) :
    pieces c (s ++ c :: t) = pieces c s ++ pieces c t := by
  rw [pieces, split_append, List.filter_append, ← pieces, ← pieces]

theorem pieces_of_not_mem (h : c ∉ s) (hs : s ≠ []) : pieces c s = [s] := by
  rw [pieces, split_of_not_mem h]
  simp [hs]

/-- A text with a character that is no separator has a piece. -/
theorem pieces_ne_nil (hd : d ∈ s) (hc : d ≠ c) : pieces c s ≠ [] := by
  induction s with
  | nil => cases hd
  | cons e es ih =>
    by_cases he : e = c
    · have hes : d ∈ es := (List.mem_cons.mp hd).resolve_left fun h => hc (h.trans he)
      have htail : pieces c (e :: es) = pieces c es := by
        rw [pieces, split, if_pos he]
        rfl
      rw [htail]
      exact ih hes
    · obtain ⟨piece, rest, -, hsplit⟩ := split_cons_of_ne he es
      rw [pieces, hsplit]
      exact List.cons_ne_nil _ _

theorem pieces_intercalate (c : Char) (parts : List (List Char)) :
    pieces c ([c].intercalate parts) = parts.flatMap (pieces c) := by
  induction parts with
  | nil => rfl
  | cons s rest ih =>
    cases rest with
    | nil => simp
    | cons t rest =>
      rw [List.intercalate_cons_cons, List.append_assoc, List.singleton_append, pieces_append, ih,
        ← List.flatMap_cons]

-- ============================================================================
-- Searching
-- ============================================================================

/-- Between `before` and `behind` the pattern occurs in `s`, and nowhere further
    to the front. -/
def FirstCut (pattern s before behind : List Char) : Prop :=
  s = before ++ pattern ++ behind ∧
    ∀ front back, s = front ++ pattern ++ back → before.length ≤ front.length

theorem cutAt?_eq_none_iff {pattern s : List Char} :
    cutAt? pattern s = none ↔ ¬ pattern <:+: s := by
  induction s with
  | nil => by_cases h : pattern = [] <;> simp [cutAt?, h]
  | cons c cs ih =>
    rw [List.infix_cons_iff, not_or, ← ih, cutAt?]
    by_cases h : pattern <+: c :: cs
    · simp [List.isPrefixOf_iff_prefix.mpr h, h]
    · have hstart : pattern.isPrefixOf (c :: cs) = false := by
        rw [← Bool.not_eq_true, List.isPrefixOf_iff_prefix]
        exact h
      simp [hstart, h]

/-- A cut is made at the first occurrence of the pattern. -/
theorem firstCut_of_cutAt? {pattern s before behind : List Char}
    (h : cutAt? pattern s = some (before, behind)) : FirstCut pattern s before behind := by
  refine ⟨cutAt?_spec h, ?_⟩
  induction s generalizing before with
  | nil =>
    have hs := cutAt?_spec h
    rw [List.append_assoc] at hs
    have hbefore : before = [] := (List.append_eq_nil_iff.mp hs.symm).1
    rw [hbefore]
    exact fun front _ _ => Nat.zero_le front.length
  | cons c cs ih =>
    rw [cutAt?] at h
    split at h
    · cases h
      exact fun front _ _ => Nat.zero_le front.length
    · rename_i hstart
      obtain ⟨⟨rest, behind⟩, hcut, heq⟩ := Option.map_eq_some_iff.mp h
      cases heq
      intro front back hfront
      cases front with
      | nil =>
        -- The pattern would stand at the very start.
        rw [List.isPrefixOf_iff_prefix] at hstart
        exact absurd ⟨back, hfront.symm⟩ hstart
      | cons d front =>
        obtain ⟨-, htail⟩ := List.cons.inj hfront
        have hle := ih hcut front back htail
        exact Nat.succ_le_succ hle

/-- A pattern has one first occurrence. -/
theorem FirstCut.unique {pattern s before behind before' behind' : List Char}
    (h : FirstCut pattern s before behind) (h' : FirstCut pattern s before' behind') :
    before = before' ∧ behind = behind' := by
  have hlength : before.length = before'.length :=
    Nat.le_antisymm (h.2 before' behind' h'.1) (h'.2 before behind h.1)
  have heq := h.1.symm.trans h'.1
  rw [List.append_assoc, List.append_assoc] at heq
  obtain ⟨hbefore, hrest⟩ := List.append_inj heq hlength
  exact ⟨hbefore, List.append_cancel_left hrest⟩

/-- A pattern is found behind a text without its first character. -/
theorem cutAt?_append {before : List Char} (h : c ∉ before) (pattern behind : List Char) :
    cutAt? (c :: pattern) (before ++ c :: (pattern ++ behind)) = some (before, behind) := by
  induction before with
  | nil => simp [cutAt?]
  | cons d ds ih =>
    rw [List.mem_cons, not_or] at h
    have hstart : (c :: pattern).isPrefixOf (d :: (ds ++ c :: (pattern ++ behind))) = false := by
      simp [List.isPrefixOf, h.1]
    simp [cutAt?, hstart, ih h.2]

/-- Whether a pattern was found says whether it occurs. -/
theorem contains_iff (s pattern : String) :
    contains s pattern = true ↔ pattern.toList <:+: s.toList := by
  rw [contains, Option.isSome_iff_ne_none, ne_eq, cutAt?_eq_none_iff, not_not]

-- ============================================================================
-- Searching for the end of a word
-- ============================================================================

variable {word rest : List Char}

/-- A word and the separator behind it occur in a text if the first piece of the
    text ends in the word, or if they occur behind that piece: they are not
    found across the separator. -/
theorem infix_append_cons_iff (hword : c ∉ word) (hs : c ∉ s) :
    word ++ [c] <:+: s ++ c :: rest ↔ word <:+ s ∨ word ++ [c] <:+: rest := by
  constructor
  · rintro ⟨front, back, h⟩
    have hcut := cut?_append hs rest
    by_cases hfront : c ∈ front
    · -- the piece ends within `front`
      obtain ⟨piece, tail, rfl, hpiece⟩ := List.eq_append_cons_of_mem hfront
      have heq : piece ++ c :: (tail ++ (word ++ [c]) ++ back) = s ++ c :: rest := by
        rw [← h]
        simp
      rw [← heq, cut?_append hpiece] at hcut
      obtain ⟨-, hrest⟩ := Prod.mk.inj (Option.some.inj hcut)
      exact .inr ⟨tail, back, hrest⟩
    · have hend : c ∉ front ++ word := by simp [hfront, hword]
      have heq : (front ++ word) ++ c :: back = s ++ c :: rest := by
        rw [← h]
        simp
      rw [← heq, cut?_append hend] at hcut
      obtain ⟨hpiece, -⟩ := Prod.mk.inj (Option.some.inj hcut)
      exact .inl ⟨front, hpiece⟩
  · rintro (⟨front, rfl⟩ | hrest)
    · exact ⟨front, rest, by simp⟩
    · exact hrest.trans ((List.suffix_cons c rest).trans (List.suffix_append s _)).isInfix

/-- A word and the separator behind it occur in joined pieces just if one of the
    pieces, but not the last, ends in the word. -/
theorem infix_intercalate_iff (hword : c ∉ word) {parts : List (List Char)}
    (hparts : ∀ part ∈ parts, c ∉ part) :
    word ++ [c] <:+: [c].intercalate parts ↔ ∃ part ∈ parts.dropLast, word <:+ part := by
  induction parts with
  | nil => simp
  | cons first more ih =>
    obtain ⟨hfirst, hmore⟩ := List.forall_mem_cons.mp hparts
    cases more with
    | nil =>
      have hnone : ¬ word ++ [c] <:+: first := fun h => hfirst (h.subset (by simp))
      simp [hnone]
    | cons next more =>
      rw [List.intercalate_cons_cons, List.append_assoc, List.singleton_append,
        infix_append_cons_iff hword hfirst, ih hmore, List.dropLast_cons_cons,
        List.exists_mem_cons_iff]

end StructuralDiff.Text
