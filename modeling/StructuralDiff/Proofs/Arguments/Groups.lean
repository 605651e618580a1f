/-
  StructuralDiff.Proofs.Arguments.Groups

  Removing bracketed groups from a text.

  Groups are removed one at a time, and the text is searched again from its
  start each time.  Still it is enough to look at what stands first: a part
  without an opening bracket stays (`withoutGroups_append`), and a group that is
  closed goes with all that is in it (`withoutGroups_group`).
-/

import StructuralDiff.RawArguments

namespace StructuralDiff.RawArguments

variable {o c : Char} {s : List Char}

-- ============================================================================
-- Closing brackets
-- ============================================================================

theorem bne_of_not_mem (h : c ∉ s) : ∀ d ∈ s, (d != c) = true := by
  intro d hd
  rw [bne_iff_ne]
  rintro rfl
  exact h hd

theorem behindClose_append {group : List Char} (h : c ∉ group) (behind : List Char) :
    behindClose c (group ++ c :: behind) = behind := by
  rw [behindClose, List.dropWhile_append_of_pos (bne_of_not_mem h),
    List.dropWhile_cons_of_neg (by simp)]

theorem behindClose_of_not_mem (h : c ∉ s) : behindClose c s = s := by
  have hs : (s ++ []).dropWhile (· != c) = [].dropWhile (· != c) :=
    List.dropWhile_append_of_pos (bne_of_not_mem h)
  rw [List.append_nil] at hs
  rw [behindClose, hs]
  rfl

theorem behindClose_suffix (c : Char) (s : List Char) : behindClose c s <:+ s := by
  rw [behindClose]
  split
  · rename_i d behind hdrop
    have hsuffix : d :: behind <:+ s := hdrop ▸ List.dropWhile_suffix (· != c)
    exact (List.suffix_cons d behind).trans hsuffix
  · exact List.suffix_refl s

-- ============================================================================
-- Groups
-- ============================================================================

theorem withoutGroups_of_not_mem (c : Char) (h : o ∉ s) : withoutGroups o c s = s := by
  rw [withoutGroups]
  split
  · rfl
  · rename_i hcut
    rw [Text.cut?_eq_none_iff.mpr h] at hcut
    cases hcut

/-- One round: the first group is removed. -/
theorem withoutGroups_round {before : List Char} (h : o ∉ before) (behind : List Char) :
    withoutGroups o c (before ++ o :: behind) =
      withoutGroups o c (before ++ behindClose c behind) := by
  rw [withoutGroups]
  split
  · rename_i hcut
    rw [Text.cut?_append h] at hcut
    cases hcut
  · rename_i hcut
    rw [Text.cut?_append h] at hcut
    cases hcut
    rfl

/-- What stands before the first opening bracket stays as it is. -/
theorem withoutGroups_append {kept : List Char} (h : o ∉ kept) (s : List Char) :
    withoutGroups o c (kept ++ s) = kept ++ withoutGroups o c s := by
  fun_induction withoutGroups o c s with
  | case1 s hcut =>
    have hs : o ∉ s := Text.cut?_eq_none_iff.mp hcut
    apply withoutGroups_of_not_mem
    rw [List.mem_append, not_or]
    exact ⟨h, hs⟩
  | case2 s before behind hcut ih =>
    obtain ⟨rfl, hbefore⟩ := Text.cut?_spec hcut
    have hfree : o ∉ kept ++ before := by
      rw [List.mem_append, not_or]
      exact ⟨h, hbefore⟩
    rw [← List.append_assoc, withoutGroups_round hfree, List.append_assoc, ih]

/-- A closed group is removed with all that is in it. -/
theorem withoutGroups_group {group : List Char} (h : c ∉ group) (s : List Char) :
    withoutGroups o c (o :: (group ++ c :: s)) = withoutGroups o c s := by
  have hround := withoutGroups_round (c := c) (List.not_mem_nil (a := o)) (group ++ c :: s)
  rw [behindClose_append h] at hround
  exact hround

/-- Removing groups only takes characters away. -/
theorem withoutGroups_sublist (o c : Char) (s : List Char) :
    (withoutGroups o c s).Sublist s := by
  fun_induction withoutGroups o c s with
  | case1 s hcut => exact List.Sublist.refl s
  | case2 s before behind hcut ih =>
    have hbehind : (behindClose c behind).Sublist (o :: behind) :=
      (behindClose_suffix c behind).sublist.cons o
    rw [(Text.cut?_spec hcut).1]
    exact ih.trans (hbehind.append_left before)

/-- No opening bracket is left. -/
theorem not_mem_withoutGroups (o c : Char) (s : List Char) : o ∉ withoutGroups o c s := by
  fun_induction withoutGroups o c s with
  | case1 s hcut => exact Text.cut?_eq_none_iff.mp hcut
  | case2 s before behind hcut ih => exact ih

theorem not_mem_flattened (s : List Char) : '(' ∉ flattened s ∧ '<' ∉ flattened s := by
  rw [flattened]
  refine ⟨fun h => ?_, not_mem_withoutGroups _ _ _⟩
  exact not_mem_withoutGroups _ _ _ ((withoutGroups_sublist _ _ _).subset h)

/-- Removing groups from joined texts, none of whose groups reaches over its
    end. -/
theorem withoutGroups_intercalate {β : Type} {sep : Char} (hsep : o ≠ sep)
    {text bare : β → List Char} {xs : List β}
    (h : ∀ x ∈ xs, ∀ s, withoutGroups o c (text x ++ s) = bare x ++ withoutGroups o c s) :
    withoutGroups o c ([sep].intercalate (xs.map text)) = [sep].intercalate (xs.map bare) := by
  induction xs with
  | nil => exact withoutGroups_of_not_mem c List.not_mem_nil
  | cons x xs ih =>
    obtain ⟨hx, hxs⟩ := List.forall_mem_cons.mp h
    have hfree : o ∉ [sep] := by
      rw [List.mem_singleton]
      exact hsep
    cases xs with
    | nil =>
      have hlast := hx []
      rw [withoutGroups_of_not_mem c List.not_mem_nil, List.append_nil, List.append_nil] at hlast
      rw [List.map_singleton, List.map_singleton, List.intercalate_singleton,
        List.intercalate_singleton]
      exact hlast
    | cons y xs =>
      rw [List.map_cons, List.map_cons, List.intercalate_cons_cons, List.map_cons, List.map_cons,
        List.intercalate_cons_cons, List.append_assoc, hx, withoutGroups_append hfree,
        ← List.map_cons, ih hxs, List.map_cons, List.append_assoc]

end StructuralDiff.RawArguments
