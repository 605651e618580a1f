/-
  StructuralDiff.Proofs.Text.Brackets

  Texts with brackets.

  A text is balanced when it is built from plain characters and from pairs of
  brackets around balanced texts; `Nested o c n` says so and bounds by `n` how
  many pairs stand around any one character.  Counting the pairs that are open
  comes to the same (`nested_iff_closesAll`), and it tells what lies outside of
  every pair (`outside`): all plain characters, and nothing of a group.
-/

import Mathlib.Data.List.Infix

namespace StructuralDiff.Text

variable {o c : Char} {n : Nat} {s inner : List Char}

-- ============================================================================
-- Balanced texts
-- ============================================================================

/-- In the text every bracket has its partner, and at most `n` pairs stand around
    any one character. -/
inductive Nested (o c : Char) : Nat → List Char → Prop where
  | nil {n : Nat} : Nested o c n []
  | plain {n : Nat} {x : Char} {s : List Char} (ho : x ≠ o) (hc : x ≠ c) (hs : Nested o c n s) :
      Nested o c n (x :: s)
  | group {n : Nat} {inner s : List Char} (hinner : Nested o c n inner)
      (hs : Nested o c (n + 1) s) : Nested o c (n + 1) (o :: (inner ++ c :: s))

/-- Read from the front with `d` pairs open, the text closes them all and has at
    most `n` open at any point. -/
def closesAll (o c : Char) (n : Nat) : Nat → List Char → Bool
  | d, [] => d == 0
  | d, x :: s =>
    if x = o then decide (d < n) && closesAll o c n (d + 1) s
    else if x = c then decide (0 < d) && closesAll o c n (d - 1) s
    else closesAll o c n d s

theorem closesAll_append (hoc : o ≠ c) (hinner : Nested o c n inner) {m d : Nat}
    (hd : d + n ≤ m) (s : List Char) : closesAll o c m d (inner ++ s) = closesAll o c m d s := by
  induction hinner generalizing d s with
  | nil => rfl
  | plain ho hc _ ih =>
    rw [List.cons_append, closesAll, if_neg ho, if_neg hc]
    exact ih hd s
  | @group n inner t _ _ ihinner iht =>
    have hlt : d < m := by omega
    have hle : d + 1 + n ≤ m := by omega
    rw [List.cons_append, List.append_assoc, List.cons_append, closesAll, if_pos rfl,
      ihinner hle, closesAll, if_neg hoc.symm, if_pos rfl]
    simp only [hlt, Nat.succ_pos, decide_true, Bool.true_and, Nat.add_sub_cancel]
    exact iht hd s

/-- What closes an open pair is a balanced text up to its closing bracket. -/
theorem exists_of_closesAll {d : Nat} (h : closesAll o c n (d + 1) s = true) (hdn : d < n) :
    ∃ inner rest, s = inner ++ c :: rest ∧ Nested o c (n - (d + 1)) inner ∧
      closesAll o c n d rest = true := by
  induction hlen : s.length using Nat.strong_induction_on generalizing s d with
  | _ len ih =>
    subst hlen
    cases s with
    | nil => cases h
    | cons x s =>
      have hshort : s.length < (x :: s).length := Nat.lt_succ_self _
      rw [closesAll] at h
      split at h
      · -- a group inside comes first, then the rest up to the closing bracket
        rename_i hx
        subst hx
        rw [Bool.and_eq_true, decide_eq_true_eq] at h
        obtain ⟨first, rest, rfl, hfirst, hrest⟩ := ih _ hshort h.2 h.1 rfl
        have hshorter : rest.length < (x :: (first ++ c :: rest)).length := by
          simp only [List.length_cons, List.length_append]
          omega
        obtain ⟨second, rest, rfl, hsecond, hclosed⟩ := ih _ hshorter hrest hdn rfl
        have hroom : n - (d + 1) = n - (d + 1 + 1) + 1 := by omega
        refine ⟨x :: (first ++ c :: second), rest, ?_, ?_, hclosed⟩
        · simp only [List.cons_append, List.append_assoc]
        · rw [hroom] at hsecond ⊢
          exact .group hfirst hsecond
      · rename_i hxo
        split at h
        · rename_i hxc
          subst hxc
          rw [Bool.and_eq_true] at h
          exact ⟨[], s, rfl, .nil, h.2⟩
        · rename_i hxc
          obtain ⟨inner, rest, rfl, hinner, hclosed⟩ := ih _ hshort h hdn rfl
          exact ⟨x :: inner, rest, rfl, .plain hxo hxc hinner, hclosed⟩

/-- A text is balanced just when counting the open pairs says so. -/
theorem nested_iff_closesAll (hoc : o ≠ c) : Nested o c n s ↔ closesAll o c n 0 s = true := by
  constructor
  · intro hs
    have hclosed := closesAll_append hoc hs (Nat.le_of_eq (Nat.zero_add n)) []
    rw [List.append_nil] at hclosed
    exact hclosed
  · intro h
    induction hlen : s.length using Nat.strong_induction_on generalizing s with
    | _ len ih =>
      subst hlen
      cases s with
      | nil => exact .nil
      | cons x s =>
        rw [closesAll] at h
        split at h
        · rename_i hx
          subst hx
          rw [Bool.and_eq_true, decide_eq_true_eq] at h
          obtain ⟨inner, rest, rfl, hinner, hrest⟩ := exists_of_closesAll h.2 h.1
          have hshort : rest.length < (x :: (inner ++ c :: rest)).length := by
            simp only [List.length_cons, List.length_append]
            omega
          have hroom : n = n - (0 + 1) + 1 := by omega
          have hs := ih _ hshort hrest rfl
          rw [hroom] at hs ⊢
          exact .group hinner hs
        · rename_i hxo
          split at h
          · cases h
          · rename_i hxc
            exact .plain hxo hxc (ih _ (Nat.lt_succ_self _) h rfl)

/-- A balanced text without an opening bracket has no bracket at all. -/
theorem Nested.plain_of_not_mem (hs : Nested o c n s) (ho : o ∉ s) :
    c ∉ s ∧ ∀ m, Nested o c m s := by
  induction hs with
  | nil => exact ⟨List.not_mem_nil, fun _ => .nil⟩
  | plain hxo hxc _ ih =>
    rw [List.mem_cons, not_or] at ho ⊢
    obtain ⟨hfree, hall⟩ := ih ho.2
    exact ⟨⟨hxc.symm, hfree⟩, fun m => .plain hxo hxc (hall m)⟩
  | group => exact absurd List.mem_cons_self ho

theorem Nested.not_mem_of_zero (hs : Nested o c 0 s) : o ∉ s ∧ c ∉ s := by
  generalize hm : 0 = m at hs
  induction hs with
  | nil => exact ⟨List.not_mem_nil, List.not_mem_nil⟩
  | plain hxo hxc _ ih =>
    obtain ⟨ho, hc⟩ := ih hm
    rw [List.mem_cons, List.mem_cons, not_or, not_or]
    exact ⟨⟨hxo.symm, ho⟩, ⟨hxc.symm, hc⟩⟩
  | group => cases hm

/-- Behind every opening bracket of a balanced text there is a closing one. -/
theorem Nested.closing_of_suffix (hoc : o ≠ c) (hs : Nested o c n s) {t : List Char}
    (ht : o :: t <:+ s) : c ∈ t := by
  induction hs with
  | nil => cases List.suffix_nil.mp ht
  | plain hxo _ _ ih =>
    rcases List.suffix_cons_iff.mp ht with heq | ht
    · exact absurd (List.cons.inj heq).1.symm hxo
    · exact ih ht
  | @group n inner s _ _ _ ih =>
    rcases List.suffix_cons_iff.mp ht with heq | ht
    · rw [(List.cons.inj heq).2]
      exact List.mem_append_right _ List.mem_cons_self
    · rcases List.suffix_or_suffix_of_suffix ht (List.suffix_append inner (c :: s)) with h | h
      · rcases List.suffix_cons_iff.mp h with heq | h
        · exact absurd (List.cons.inj heq).1 hoc
        · exact ih h
      · rcases List.suffix_cons_iff.mp h with heq | h
        · exact absurd (List.cons.inj heq).1.symm hoc
        · exact h.subset List.mem_cons_self

-- ============================================================================
-- Outside every pair
-- ============================================================================

/-- The characters of the text that lie outside every pair of brackets, where `d`
    pairs are open at its start. -/
def outsideFrom (o c : Char) : Nat → List Char → List Char
  | _, [] => []
  | d, x :: s =>
    if x = o then outsideFrom o c (d + 1) s
    else if x = c then outsideFrom o c (d - 1) s
    else if d = 0 then x :: outsideFrom o c d s
    else outsideFrom o c d s

/-- The characters that lie outside every pair of brackets, in order. -/
def outside (o c : Char) (s : List Char) : List Char := outsideFrom o c 0 s

theorem outside_plain {x : Char} (ho : x ≠ o) (hc : x ≠ c) (s : List Char) :
    outside o c (x :: s) = x :: outside o c s := by
  simp [outside, outsideFrom, ho, hc]

theorem outsideFrom_append (hoc : o ≠ c) (hinner : Nested o c n inner) (d : Nat)
    (s : List Char) : outsideFrom o c (d + 1) (inner ++ s) = outsideFrom o c (d + 1) s := by
  induction hinner generalizing d s with
  | nil => rfl
  | plain ho hc _ ih =>
    rw [List.cons_append, outsideFrom, if_neg ho, if_neg hc, if_neg (Nat.succ_ne_zero d)]
    exact ih d s
  | group _ _ ihinner ih =>
    rw [List.cons_append, List.append_assoc, List.cons_append, outsideFrom, if_pos rfl, ihinner,
      outsideFrom, if_neg hoc.symm, if_pos rfl]
    exact ih d s

/-- Nothing of a group lies outside. -/
theorem outside_group (hoc : o ≠ c) (hinner : Nested o c n inner) (s : List Char) :
    outside o c (o :: (inner ++ c :: s)) = outside o c s := by
  rw [outside, outsideFrom, if_pos rfl, outsideFrom_append hoc hinner, outsideFrom,
    if_neg hoc.symm, if_pos rfl]
  rfl

theorem not_mem_outsideFrom (d : Nat) (s : List Char) :
    o ∉ outsideFrom o c d s ∧ c ∉ outsideFrom o c d s := by
  induction s generalizing d with
  | nil => exact ⟨List.not_mem_nil, List.not_mem_nil⟩
  | cons x s ih =>
    rw [outsideFrom]
    split
    · exact ih (d + 1)
    · rename_i ho
      split
      · exact ih (d - 1)
      · rename_i hc
        split
        · simp only [List.mem_cons, not_or]
          exact ⟨⟨Ne.symm ho, (ih d).1⟩, ⟨Ne.symm hc, (ih d).2⟩⟩
        · exact ih d

theorem outsideFrom_sublist (o c : Char) (d : Nat) (s : List Char) :
    (outsideFrom o c d s).Sublist s := by
  induction s generalizing d with
  | nil => exact .slnil
  | cons x s ih =>
    rw [outsideFrom]
    split
    · exact (ih (d + 1)).cons x
    · split
      · exact (ih (d - 1)).cons x
      · split
        · exact (ih d).cons_cons x
        · exact (ih d).cons x

end StructuralDiff.Text
