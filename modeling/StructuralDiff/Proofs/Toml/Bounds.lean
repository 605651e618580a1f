/-
  StructuralDiff.Proofs.Toml.Bounds

  The bounds of the readers are never felt.

  The readers that repeat something are bounded in how often they may do so, and
  are given more than the length of their text.  Each round goes on with a shorter
  text, so that a larger bound changes nothing (`bound_unfelt`), and no text is
  refused because of its size (`statements_bound`, `parse_eq`).  The number of parts
  of a key and of containers within one another is bounded for good.
-/

import StructuralDiff.Proofs.Toml.Remainders

namespace StructuralDiff.Toml

variable {β : Type} {s t rest : List Char}

-- ============================================================================
-- Statements
-- ============================================================================

theorem newline?_shorter (h : newline? s = some rest) : rest.length < s.length := by
  unfold newline? at h
  split at h
  · cases h; exact Nat.lt_succ_self _
  · cases h; exact Nat.lt_succ_of_lt (Nat.lt_succ_self _)
  · cases h

theorem lineEnd?_shorter (h : lineEnd? s = some rest) (hs : s ≠ []) : rest.length < s.length := by
  have hskip : (skipComment (skipBlanks s)).length ≤ s.length :=
    ((skipComment_suffix _).trans (skipBlanks_suffix s)).length_le
  unfold lineEnd? at h
  split at h
  · cases h; exact List.length_pos_iff.mpr hs
  · exact Nat.lt_of_lt_of_le (newline?_shorter h) hskip

theorem statement_shorter {x : Statement} (h : statement s = some (x, rest)) :
    rest.length < s.length := by
  unfold statement at h
  split at h
  · next t =>
    simp only [Option.bind_eq_bind, Option.bind_eq_some_iff] at h
    obtain ⟨⟨k, s₁⟩, hkey, s₂, h₂, s₃, h₃, s₄, h₄, h⟩ := h
    cases h
    have hrest : rest <:+ t := (lineEnd?_suffix h₄).trans ((behind?_suffix h₃).trans
      ((behind?_suffix h₂).trans (splitKey_leaves _ _ _ hkey)))
    exact Nat.lt_succ_of_lt (Nat.lt_succ_of_le hrest.length_le)
  · next t _ =>
    simp only [Option.bind_eq_bind, Option.bind_eq_some_iff] at h
    obtain ⟨⟨k, s₁⟩, hkey, s₂, h₂, s₃, h₃, h⟩ := h
    cases h
    have hrest : rest <:+ t := (lineEnd?_suffix h₃).trans
      ((behind?_suffix h₂).trans (splitKey_leaves _ _ _ hkey))
    exact Nat.lt_succ_of_le hrest.length_le
  · simp only [Option.bind_eq_bind, Option.bind_eq_some_iff] at h
    obtain ⟨⟨p, s₁⟩, hpair, s₂, h₂, h⟩ := h
    cases h
    obtain ⟨t, hs₁, ht⟩ := pair_takes (valueWithin_leaves deepest) hpair
    have hrest : rest <:+ t := (lineEnd?_suffix h₂).trans hs₁
    exact Nat.lt_of_le_of_lt hrest.length_le ht.length_le

-- ============================================================================
-- Bounds
-- ============================================================================

/-- A reader whose rounds go on with shorter texts only reads alike under all
    bounds above the length of its text. -/
theorem bound_unfelt {read : Nat → List Char → β} {m n : Nat}
    (hround : ∀ s m n, (∀ t, t.length < s.length → read m t = read n t) →
      read (m + 1) s = read (n + 1) s)
    (hm : s.length < m) (hn : s.length < n) : read m s = read n s := by
  induction m generalizing n s with
  | zero => exact absurd hm (Nat.not_lt_zero _)
  | succ m ih =>
    cases n with
    | zero => exact absurd hn (Nat.not_lt_zero _)
    | succ n =>
      refine hround s m n fun t ht => ih ?_ ?_
      · exact Nat.lt_of_lt_of_le ht (Nat.le_of_lt_succ hm)
      · exact Nat.lt_of_lt_of_le ht (Nat.le_of_lt_succ hn)

section

variable {m n : Nat}

theorem basicString_bound (hm : s.length < m) (hn : s.length < n) :
    basicString m s = basicString n s := by
  refine bound_unfelt (fun s m n hrec => ?_) hm hn
  unfold basicString
  split
  · next hzero => cases hzero
  · rfl
  · next t hsize =>
    cases hsize
    refine Option.bind_congr fun p hp => ?_
    rw [hrec p.2 (Nat.lt_succ_of_le (escape_leaves _ _ _ hp).length_le)]
  · next c t _ _ hsize =>
    cases hsize
    rw [hrec t (Nat.lt_succ_self _)]
  · rfl

theorem basicLines_bound (hm : s.length < m) (hn : s.length < n) :
    basicLines m s = basicLines n s := by
  refine bound_unfelt (fun s m n hrec => ?_) hm hn
  unfold basicLines
  split
  · next hzero => cases hzero
  · rfl
  · next t hsize =>
    cases hsize
    split
    · next next hnext =>
      have hskip := (skipBlankLines_suffix next).trans
        ((newline?_suffix hnext).trans (skipBlanks_suffix t))
      exact hrec _ (Nat.lt_succ_of_le hskip.length_le)
    · refine Option.bind_congr fun p hp => ?_
      rw [hrec p.2 (Nat.lt_succ_of_le (escape_leaves _ _ _ hp).length_le)]
  · next t hsize =>
    cases hsize
    rw [hrec t (Nat.lt_succ_of_lt (Nat.lt_succ_self _))]
  · next c t _ _ _ hsize =>
    cases hsize
    rw [hrec t (Nat.lt_succ_self _)]
  · rfl

variable {item : Reader Item}

theorem arrayItems_bound (hitem : Leaves item) (hm : s.length < m) (hn : s.length < n) :
    arrayItems item m s = arrayItems item n s := by
  refine bound_unfelt (fun s m n hrec => ?_) hm hn
  rw [arrayItems, arrayItems]
  refine Option.bind_congr fun s₁ h₁ => ?_
  by_cases hclose : s₁.head? = some ']'
  · rw [if_pos hclose, if_pos hclose]
  · rw [if_neg hclose, if_neg hclose]
    refine Option.bind_congr fun x hx => Option.bind_congr fun s₃ h₃ => ?_
    have hs₃ : s₃ <:+ s := (skipFiller?_suffix h₃).trans
      ((hitem _ _ _ hx).trans (skipFiller?_suffix h₁))
    split
    · rw [hrec _ (Nat.lt_of_lt_of_le (Nat.lt_succ_self _) hs₃.length_le)]
    · rfl
    · rfl

theorem morePairs_bound (hitem : Leaves item) (hm : s.length < m) (hn : s.length < n) :
    morePairs item m s = morePairs item n s := by
  refine bound_unfelt (fun s m n hrec => ?_) hm hn
  rw [morePairs, morePairs]
  split
  · rfl
  · next t heq =>
    have ht : ',' :: t <:+ s := heq ▸ skipBlanks_suffix s
    refine Option.bind_congr fun p hp => ?_
    have hlt : p.2.length < s.length :=
      Nat.lt_of_le_of_lt (pair_suffix hitem hp).length_le ht.length_le
    simp only [hrec p.2 hlt]
  · rfl

/-- **No document is too long.**  The statements of a text are the same whatever
    number of lines may be read, as long as it is above the length of the
    text. -/
theorem statements_bound (hm : s.length < m) (hn : s.length < n) :
    statements m s = statements n s := by
  refine bound_unfelt (fun s m n hrec => ?_) hm hn
  have hskip := (skipBlanks_suffix s).length_le
  rw [statements, statements]
  split
  · rfl
  · next heq =>
    refine Option.bind_congr fun t ht => hrec t ?_
    rw [heq] at hskip
    exact Nat.lt_of_lt_of_le (lineEnd?_shorter ht (List.cons_ne_nil _ _)) hskip
  · next t heq =>
    rw [heq] at hskip
    exact hrec t hskip
  · next heq =>
    refine Option.bind_congr fun t ht => hrec t ?_
    rw [heq] at hskip
    exact Nat.lt_of_lt_of_le (newline?_shorter ht) hskip
  · next heq =>
    refine Option.bind_congr fun p hp => ?_
    rw [heq] at hskip
    simp only [hrec p.2 (Nat.lt_of_lt_of_le (statement_shorter hp) hskip)]

end

/-- A document, with any bound on its lines that is above its length. -/
theorem parse_eq (text : String) {n : Nat} (hn : (skipMark text.toList).length < n) :
    parse text = (statements n (skipMark text.toList)).bind fun lines =>
      (lines.foldlM Progress.run ⟨[], []⟩).map Progress.root := by
  rw [parse, statements_bound (Nat.lt_succ_self _) hn]
  refine Option.bind_congr fun lines _ => ?_
  rw [Option.map_eq_bind]
  rfl

end StructuralDiff.Toml
