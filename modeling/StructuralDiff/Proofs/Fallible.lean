/-
  StructuralDiff.Proofs.Fallible

  Steps that may fail, one after the other.

  A run of such steps succeeds just if each step does on what the one before it
  gave, and what every step keeps is kept by the run.
-/

namespace StructuralDiff

/-- One step and the rest of the run. -/
theorem bind_eq_ok_iff {ε α β : Type} {first : Except ε α} {next : α → Except ε β} {b : β} :
    (first >>= next) = .ok b ↔ ∃ a, first = .ok a ∧ next a = .ok b := by
  constructor
  · intro h
    cases first with
    | ok a => exact ⟨a, rfl, h⟩
    | error e => cases h
  · rintro ⟨a, rfl, h⟩
    exact h

/-- What every step of a fold keeps, the fold keeps. -/
theorem foldlM_keeps {α σ : Type} {run : σ → α → Option σ} {P : σ → Prop} {l : List α} {b b' : σ}
    (hrun : ∀ b b', ∀ a ∈ l, P b → run b a = some b' → P b') (hb : P b)
    (h : l.foldlM run b = some b') : P b' := by
  induction l generalizing b with
  | nil => cases h; exact hb
  | cons a l ih =>
    rw [List.foldlM_cons] at h
    obtain ⟨c, hc, h⟩ := Option.bind_eq_some_iff.mp h
    exact ih (fun b b' d hd => hrun b b' d (List.mem_cons_of_mem a hd))
      (hrun b c a List.mem_cons_self hb hc) h

end StructuralDiff
