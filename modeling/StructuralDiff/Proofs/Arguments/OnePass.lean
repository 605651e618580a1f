/-
  StructuralDiff.Proofs.Arguments.OnePass

  Removing groups in one pass over the text.

  The loop removes one group in each round and starts again at the front of the
  text that is left (`Round`, `Rounds`).  What stands before the first opening
  bracket stays free of opening brackets, and joining it with what stands behind
  the group brings none in, so the next round finds its bracket behind the place
  where the last one was.  Hence the loop comes to what `onePass` comes to, which
  looks at each character from left to right and never goes back
  (`withoutGroups_eq_onePass`).  Each round takes an opening bracket away
  (`Round.count_lt`), so the loop ends, and no two rules apply to one text, so
  it ends in one way.
-/

import StructuralDiff.Proofs.Arguments.Slicing

namespace StructuralDiff.RawArguments

variable {o c : Char} {m n : Nat} {s t u group : List Char}

-- ============================================================================
-- The pass
-- ============================================================================

/-- Copy the text up to an opening bracket; then go on behind the first closing
    bracket that follows, or behind the opening one if none follows. -/
def onePass (opening closing : Char) : List Char → List Char
  | [] => []
  | x :: s =>
    if x ≠ opening then x :: onePass opening closing s
    else if closing ∈ s then onePass opening closing (s.dropWhile (· != closing)).tail
    else onePass opening closing s
termination_by s => s.length
decreasing_by
  · exact Nat.lt_succ_self _
  · have hle := (List.dropWhile_sublist (l := s) (· != closing)).length_le
    rw [List.length_tail, List.length_cons]
    omega
  · exact Nat.lt_succ_self _

theorem tail_dropWhile_append (h : c ∉ group) (s : List Char) :
    ((group ++ c :: s).dropWhile (· != c)).tail = s := by
  rw [List.dropWhile_append_of_pos (bne_of_not_mem h), List.dropWhile_cons_of_neg (by simp),
    List.tail_cons]

/-- The pass and the loop leave the same text.  One case for each thing that the
    pass can do next. -/
theorem withoutGroups_eq_onePass (o c : Char) (s : List Char) :
    withoutGroups o c s = onePass o c s := by
  fun_induction onePass o c s with
  | case1 => exact withoutGroups_of_not_mem c List.not_mem_nil
  | case2 x s hx ih =>
    have hfree : o ∉ [x] := by
      rw [List.mem_singleton]
      exact hx.symm
    rw [← ih]
    exact withoutGroups_append hfree s
  | case3 x s hx hc ih =>
    obtain ⟨group, behind, rfl, hgroup⟩ := List.eq_append_cons_of_mem hc
    rw [not_ne_iff.mp hx, withoutGroups_group hgroup, ← ih, tail_dropWhile_append hgroup]
  | case4 x s hx hc ih =>
    have hround := withoutGroups_round (c := c) (List.not_mem_nil (a := o)) s
    rw [behindClose_of_not_mem hc] at hround
    rw [not_ne_iff.mp hx, ← ih]
    exact hround

example : onePass '(' ')' "a)(b(c)d)(e(f".toList = "a)d)ef".toList := by
  decide +kernel

-- ============================================================================
-- The loop
-- ============================================================================

/-- One round of the loop: the first opening bracket goes, with the text up to
    the first closing bracket behind it if there is one. -/
inductive Round (o c : Char) : List Char → List Char → Prop where
  | closed {before group behind : List Char} (hbefore : o ∉ before) (hgroup : c ∉ group) :
      Round o c (before ++ o :: (group ++ c :: behind)) (before ++ behind)
  | unclosed {before behind : List Char} (hbefore : o ∉ before) (hbehind : c ∉ behind) :
      Round o c (before ++ o :: behind) (before ++ behind)

/-- The loop goes through the given number of rounds and ends, with no opening
    bracket left. -/
inductive Rounds (o c : Char) : Nat → List Char → List Char → Prop where
  | done {s : List Char} (hs : o ∉ s) : Rounds o c 0 s s
  | round {n : Nat} {s t u : List Char} (hst : Round o c s t) (htu : Rounds o c n t u) :
      Rounds o c (n + 1) s u

/-- A round is a cut at the first opening bracket. -/
theorem round_iff : Round o c s t ↔
    ∃ before behind, Text.cut? o s = some (before, behind) ∧
      t = before ++ behindClose c behind := by
  constructor
  · rintro (⟨hbefore, hgroup⟩ | ⟨hbefore, hbehind⟩)
    · refine ⟨_, _, Text.cut?_append hbefore _, ?_⟩
      rw [behindClose_append hgroup]
    · refine ⟨_, _, Text.cut?_append hbefore _, ?_⟩
      rw [behindClose_of_not_mem hbehind]
  · rintro ⟨before, behind, hcut, rfl⟩
    obtain ⟨rfl, hbefore⟩ := Text.cut?_spec hcut
    by_cases hc : c ∈ behind
    · obtain ⟨group, behind, rfl, hgroup⟩ := List.eq_append_cons_of_mem hc
      rw [behindClose_append hgroup]
      exact .closed hbefore hgroup
    · rw [behindClose_of_not_mem hc]
      exact .unclosed hbefore hc

theorem Round.unique (ht : Round o c s t) (hu : Round o c s u) : t = u := by
  obtain ⟨before, behind, hcut, rfl⟩ := round_iff.mp ht
  obtain ⟨before', behind', hcut', rfl⟩ := round_iff.mp hu
  rw [hcut] at hcut'
  cases hcut'
  rfl

theorem Round.mem (h : Round o c s t) : o ∈ s := by
  cases h <;> simp

/-- A round takes at least one opening bracket away. -/
theorem Round.count_lt (h : Round o c s t) : t.count o < s.count o := by
  obtain ⟨before, behind, hcut, rfl⟩ := round_iff.mp h
  have hle := (behindClose_suffix c behind).sublist.count_le o
  rw [(Text.cut?_spec hcut).1, List.count_append, List.count_append, List.count_cons_self]
  omega

theorem Rounds.le_count (h : Rounds o c n s t) : n ≤ s.count o := by
  induction h with
  | done => exact Nat.zero_le _
  | round hst _ ih =>
    have hlt := hst.count_lt
    omega

theorem Rounds.unique (ht : Rounds o c n s t) (hu : Rounds o c m s u) : n = m ∧ t = u := by
  induction ht generalizing m u with
  | done hs =>
    cases hu with
    | done => exact ⟨rfl, rfl⟩
    | round hst => exact absurd hst.mem hs
  | round hst _ ih =>
    cases hu with
    | done hs => exact absurd hst.mem hs
    | round hst' htu' =>
      cases hst.unique hst'
      obtain ⟨rfl, rfl⟩ := ih htu'
      exact ⟨rfl, rfl⟩

/-- The loop ends, and it leaves what `withoutGroups` gives. -/
theorem exists_rounds (o c : Char) (s : List Char) : ∃ n, Rounds o c n s (withoutGroups o c s) := by
  fun_induction withoutGroups o c s with
  | case1 s hcut => exact ⟨0, .done (Text.cut?_eq_none_iff.mp hcut)⟩
  | case2 s before behind hcut ih =>
    obtain ⟨n, hn⟩ := ih
    exact ⟨n + 1, .round (round_iff.mpr ⟨before, behind, hcut, rfl⟩) hn⟩

-- ============================================================================
-- The loop is one pass
-- ============================================================================

/-- **Groups are removed in one pass.**  For any text and any two characters, the
    loop that searches the whole text again in each round ends in one way, after
    no more rounds than there are opening brackets, with the text that one pass
    from left to right leaves; so does the loop on slices of bytes, none of
    which fails.  No opening bracket is left, so that removing groups again
    changes nothing.  What is left of arguments without their parentheses and
    then without their angle brackets has no opening bracket of either kind. -/
theorem groups_removed_in_one_pass (o c : Char) (s : List Char) :
    (∃ n ≤ s.count o, ∀ m t, Rounds o c m s t ↔ m = n ∧ t = onePass o c s) ∧
    withoutGroups o c s = onePass o c s ∧
    withoutGroupsByOffset? o c s = some (onePass o c s) ∧
    o ∉ withoutGroups o c s ∧
    withoutGroups o c (withoutGroups o c s) = withoutGroups o c s ∧
    flattened s = onePass '<' '>' (onePass '(' ')' s) ∧
    '(' ∉ flattened s ∧ '<' ∉ flattened s := by
  obtain ⟨n, hn⟩ := exists_rounds o c s
  have hpass := withoutGroups_eq_onePass o c s
  have hfree := not_mem_withoutGroups o c s
  refine ⟨⟨n, hn.le_count, fun m t => ⟨fun h => ?_, ?_⟩⟩, hpass, ?_, hfree,
    withoutGroups_of_not_mem c hfree, ?_, not_mem_flattened s⟩
  · obtain ⟨rfl, rfl⟩ := h.unique hn
    exact ⟨rfl, hpass⟩
  · rintro ⟨rfl, rfl⟩
    rw [← hpass]
    exact hn
  · rw [withoutGroupsByOffset?_eq, hpass]
  · rw [flattened, withoutGroups_eq_onePass, withoutGroups_eq_onePass]

end StructuralDiff.RawArguments
