/-
  StructuralDiff.Proofs.Types.Independence

  An application does not depend on what was drawn before it.

  Two runs of one application, at two values of the supply above everything in
  use, are compared step by step.  While the declaration is copied the states
  of the two runs stay `Shifted`: they know the same variables, and where one
  run chose the number `k + i` the other chose `k' + i`.  The shift leaves the
  argument alone and is injective if it moves upwards, so unification and
  resolution carry it to the answers; the other direction is its inverse.
-/

import StructuralDiff.Proofs.Types.Copies
import StructuralDiff.Proofs.Types.Equivariance
import StructuralDiff.Proofs.Types.Solutions

namespace StructuralDiff

-- ============================================================================
-- Shifting what was drawn
-- ============================================================================

namespace Var

variable {k k' : Nat} {x : Var}

/-- Move the numbers from `k` on to the numbers from `k'` on. -/
def shift (k k' : Nat) (x : Var) : Var := if k ≤ x.id then ⟨x.name, k' + (x.id - k)⟩ else x

theorem shift_of_le (h : k ≤ x.id) : shift k k' x = ⟨x.name, k' + (x.id - k)⟩ := if_pos h

theorem shift_of_lt (h : x.id < k) : shift k k' x = x := if_neg (Nat.not_le.mpr h)

theorem name_shift (k k' : Nat) (x : Var) : (shift k k' x).name = x.name := by
  rw [shift]
  split <;> rfl

/-- Moving up and down again changes nothing. -/
theorem shift_shift (h : k ≤ k') (x : Var) : shift k' k (shift k k' x) = x := by
  rcases Nat.lt_or_ge x.id k with hx | hx
  · rw [shift_of_lt hx, shift_of_lt (by omega)]
  · have hid : k + (k' + (x.id - k) - k') = x.id := by omega
    rw [shift_of_le hx, shift_of_le (Nat.le_add_right k' _), hid]

theorem shift_injective (h : k ≤ k') : Function.Injective (shift k k') :=
  Function.LeftInverse.injective (shift_shift h)

end Var

-- ============================================================================
-- Two copies side by side
-- ============================================================================

namespace Renaming

variable {r r' : Renaming} {k k' : Nat}

/-- Two copies that began at `k` and at `k'` have met the same variables and
    have chosen targets that are shifts of each other. -/
structure Shifted (k k' : Nat) (r r' : Renaming) : Prop where
  start_le : k ≤ r.supply.next
  next_eq : r'.supply.next = k' + (r.supply.next - k)
  find?_eq : ∀ x, r'.targets.find? x = (r.targets.find? x).map (Var.shift k k')

theorem shifted_start (k k' : Nat) : Shifted k k' (start ⟨k⟩) (start ⟨k'⟩) where
  start_le := le_rfl
  next_eq := by simp [start]
  find?_eq _ := rfl

theorem Shifted.renameVar (h : Shifted k k' r r') (x : Var) :
    Shifted k k' (r.renameVar x).2 (r'.renameVar x).2 := by
  have hfind := h.find?_eq x
  cases hx : r.targets.find? x with
  | some y =>
    rw [hx] at hfind
    rw [renameVar_of_some hx, renameVar_of_some hfind]
    exact h
  | none =>
    rw [hx] at hfind
    rw [renameVar_of_none hx, renameVar_of_none hfind]
    have hle := h.start_le
    have hnext := h.next_eq
    refine ⟨by simp only; omega, by simp only; omega, fun z => ?_⟩
    simp only [OrderedMap.find?_insert]
    split
    · rw [Option.map_some, Var.shift_of_le hle, hnext]
    · exact h.find?_eq z

theorem Shifted.meet (h : Shifted k k' r r') (xs : List Var) :
    Shifted k k' (r.meet xs) (r'.meet xs) := by
  induction xs generalizing r r' with
  | nil => exact h
  | cons x xs ih => exact ih (h.renameVar x)

theorem Shifted.target_eq (h : Shifted k k' r r') {x y : Var} (hx : r.targets.find? x = some y) :
    r'.target x = Var.shift k k' (r.target x) := by
  have hx' := h.find?_eq x
  rw [hx] at hx'
  rw [target_of_some hx, target_of_some hx']

end Renaming

-- ============================================================================
-- Two applications side by side
-- ============================================================================

theorem TypeMismatch.message_congr {e e' : TypeMismatch} (hf : e'.functor = e.functor)
    (hexpected : e'.expected.display = e.expected.display)
    (hfound : e'.found.display = e.found.display) : e'.message = e.message := by
  unfold message
  rw [hf, hexpected, hfound]

/-- The answer of an application with its variables replaced. -/
def renameAnswer (σ : Var → Var) : Except TypeMismatch Ty → Except TypeMismatch Ty
  | .ok R => .ok (R.rename σ)
  | .error e => .error ⟨e.functor, e.expected.rename σ, e.found.rename σ⟩

theorem renameAnswer_of_leftInverse {σ τ : Var → Var} (h : ∀ x, τ (σ x) = x)
    (a : Except TypeMismatch Ty) : renameAnswer τ (renameAnswer σ a) = a := by
  have hty : ∀ t : Ty, (t.rename σ).rename τ = t := fun t => by
    rw [Ty.rename_rename]
    exact Ty.rename_eq_self fun x _ => h x
  cases a with
  | ok R => exact congrArg Except.ok (hty R)
  | error e => rw [renameAnswer, renameAnswer, hty, hty]

namespace Constructor

variable {c : Constructor} {arg t : Ty} {k k' : Nat}

theorem rename_copying (k k' : Nat) (ht : ∀ x, t.mentions x → c.Mentions x) :
    t.rename (c.copying ⟨k'⟩).target =
      (t.rename (c.copying ⟨k⟩).target).rename (Var.shift k k') := by
  have hshifted : Renaming.Shifted k k' (c.copying ⟨k⟩) (c.copying ⟨k'⟩) :=
    (Renaming.shifted_start k k').meet _
  rw [Ty.rename_rename]
  refine Ty.rename_congr fun x hx => ?_
  obtain ⟨y, hy⟩ := find?_copying ⟨k⟩ (ht x hx)
  exact hshifted.target_eq hy

theorem applyType_shift_of_le (hkk' : k ≤ k') (hk : c.OlderThan arg ⟨k⟩) :
    (c.applyType arg ⟨k'⟩).1 = renameAnswer (Var.shift k k') (c.applyType arg ⟨k⟩).1 := by
  have hσ := Var.shift_injective hkk'
  have harg : arg.rename (Var.shift k k') = arg :=
    Ty.rename_eq_self fun x hx => Var.shift_of_lt (hk x (.inr hx))
  have hunify := Substitution.unify_rename Substitution.acyclic_empty hσ
    (c.argument.rename (c.copying ⟨k⟩).target) arg
  rw [Substitution.rename_empty, harg, ← rename_copying k k' fun x hx => .inl hx] at hunify
  rw [applyType_eq, applyType_eq, hunify]
  cases Substitution.empty.unify (c.argument.rename (c.copying ⟨k⟩).target) arg with
  | some s =>
    simp only [Option.map_some, renameAnswer]
    rw [rename_copying k k' fun x hx => .inr hx, Substitution.resolve_rename hσ]
  | none =>
    simp only [Option.map_none, renameAnswer]
    rw [harg, rename_copying k k' fun x hx => .inl hx]

theorem applyType_shift (hk : c.OlderThan arg ⟨k⟩) (hk' : c.OlderThan arg ⟨k'⟩) :
    (c.applyType arg ⟨k'⟩).1 = renameAnswer (Var.shift k k') (c.applyType arg ⟨k⟩).1 := by
  rcases Nat.le_total k k' with hkk' | hkk'
  · exact applyType_shift_of_le hkk' hk
  · rw [applyType_shift_of_le hkk' hk', renameAnswer_of_leftInverse (Var.shift_shift hkk')]

theorem next_applyType (c : Constructor) (arg : Ty) (k : Nat) :
    (c.applyType arg ⟨k⟩).2.next = k + c.declared.card := by
  rw [applyType_eq]
  exact c.next_copying k

/-- **Applications do not influence one another.**  At any two values of the
    supply above everything in use, an application gives types that are shifts
    of each other or reports with the same texts, and draws one number for each
    declared variable. -/
theorem applyType_independent (c : Constructor) (arg : Ty) (k k' : Nat)
    (hk : c.OlderThan arg ⟨k⟩) (hk' : c.OlderThan arg ⟨k'⟩) :
    (∀ R, (c.applyType arg ⟨k⟩).1 = .ok R →
      (c.applyType arg ⟨k'⟩).1 = .ok (R.rename (Var.shift k k'))) ∧
    (∀ e, (c.applyType arg ⟨k⟩).1 = .error e →
      ∃ e', (c.applyType arg ⟨k'⟩).1 = .error e' ∧ e'.functor = e.functor ∧
        e'.expected.display = e.expected.display ∧ e'.found.display = e.found.display ∧
        e'.message = e.message) ∧
    (c.applyType arg ⟨k⟩).2.next = k + c.declared.card ∧
    (c.applyType arg ⟨k'⟩).2.next = k' + c.declared.card := by
  have hshift := applyType_shift hk hk'
  refine ⟨fun R hR => ?_, fun e he => ?_, next_applyType c arg k, next_applyType c arg k'⟩
  · rw [hshift, hR, renameAnswer]
  · rw [he] at hshift
    have hexpected := e.expected.display_rename fun x _ => Var.name_shift k k' x
    have hfound := e.found.display_rename fun x _ => Var.name_shift k k' x
    exact ⟨_, hshift, rfl, hexpected, hfound, TypeMismatch.message_congr rfl hexpected hfound⟩

open Sample in
/-- Both variables of the type are drawn by the application. -/
theorem applyType_independent_drawn :
    pairing.OlderThan (.var b) ⟨9⟩ ∧ pairing.OlderThan (.var b) ⟨2⟩ ∧
    (pairing.applyType (.var b) ⟨9⟩).1 = .ok (pair (.var ⟨"a", 9⟩) (.var ⟨"b", 10⟩)) ∧
    (pairing.applyType (.var b) ⟨2⟩).1 =
      .ok ((pair (.var ⟨"a", 9⟩) (.var ⟨"b", 10⟩)).rename (Var.shift 9 2)) ∧
    (pairing.applyType (.var b) ⟨9⟩).2.next = 9 + pairing.declared.card ∧
    (pairing.applyType (.var b) ⟨2⟩).2.next = 2 + pairing.declared.card := by
  have h := applyType_independent pairing (.var b) 9 2 (by decide) (by decide)
  have hok : (pairing.applyType (.var b) ⟨9⟩).1 =
      .ok (pair (.var ⟨"a", 9⟩) (.var ⟨"b", 10⟩)) := rfl
  exact ⟨by decide, by decide, hok, h.1 _ hok, h.2.2⟩

end Constructor
end StructuralDiff
