/-
  StructuralDiff.Proofs.Types.Equations

  Lists of equations, solved one after the other.

  Two runs over the same equations may bind different variables, in different
  directions, so the substitutions they end with are not equal.  But each of
  them has the solutions of the first substitution under which all equations
  hold (`unifyEach_solvedBy_iff`), and what a substitution resolves alike is
  exactly what all its solutions make equal (`resolve_eq_iff`).  Neither the
  order of the equations nor the order of their sides matters to that.
-/

import Mathlib.Data.List.Forall2
import Mathlib.Data.List.Perm.Basic
import StructuralDiff.Proofs.Types.Solutions

namespace StructuralDiff
namespace Substitution

variable {s s' : Substitution} {t u : Ty} {θ : Var → Ty} {eqs eqs' : List (Ty × Ty)}

-- ============================================================================
-- Solving one after the other
-- ============================================================================

/-- Unify both sides of each equation, under the substitution that the earlier
    equations left. -/
def unifyEach (s : Substitution) : List (Ty × Ty) → Option Substitution
  | [] => some s
  | (t, u) :: eqs => (s.unify t u).bind fun s' => s'.unifyEach eqs

theorem unifyEach_cons_eq_some :
    s.unifyEach ((t, u) :: eqs) = some s' ↔ ∃ r, s.unify t u = some r ∧ r.unifyEach eqs = some s' :=
  Option.bind_eq_some_iff

theorem acyclic_of_unifyEach (hs : s.Acyclic) (h : s.unifyEach eqs = some s') : s'.Acyclic := by
  induction eqs generalizing s with
  | nil =>
    cases h
    exact hs
  | cons e eqs ih =>
    obtain ⟨r, hr, hrest⟩ := unifyEach_cons_eq_some.mp h
    exact ih (acyclic_of_unify hs hr) hrest

theorem keptIn_of_unifyEach (hs : s.Acyclic) (h : s.unifyEach eqs = some s') : s.KeptIn s' := by
  induction eqs generalizing s with
  | nil =>
    cases h
    exact .refl _
  | cons e eqs ih =>
    obtain ⟨r, hr, hrest⟩ := unifyEach_cons_eq_some.mp h
    exact (confined_of_unify hs hr).2.trans (ih (acyclic_of_unify hs hr) hrest)

/-- The solutions of the substitution found are the old ones under which every
    equation holds; if there are none, none is found. -/
theorem unifyEach_solvedBy_iff (hs : s.Acyclic) (eqs : List (Ty × Ty)) (θ : Var → Ty) :
    (∃ s', s.unifyEach eqs = some s' ∧ s'.SolvedBy θ) ↔ s.SolvedBy θ ∧ SolvesAll θ eqs := by
  induction eqs generalizing s with
  | nil => simp [unifyEach, SolvesAll]
  | cons e eqs ih =>
    obtain ⟨t, u⟩ := e
    rw [solvesAll_cons, ← and_assoc, ← unify_solvedBy_iff hs t u θ]
    constructor
    · rintro ⟨s', h, hθ⟩
      obtain ⟨r, hr, hrest⟩ := unifyEach_cons_eq_some.mp h
      have hboth := (ih (acyclic_of_unify hs hr)).mp ⟨s', hrest, hθ⟩
      exact ⟨⟨r, hr, hboth.1⟩, hboth.2⟩
    · rintro ⟨⟨r, hr, hθ⟩, heqs⟩
      obtain ⟨s', hrest, hθ'⟩ := (ih (acyclic_of_unify hs hr)).mpr ⟨hθ, heqs⟩
      exact ⟨s', unifyEach_cons_eq_some.mpr ⟨r, hr, hrest⟩, hθ'⟩

/-- The solutions of a substitution that was found. -/
theorem solvedBy_of_unifyEach (hs : s.Acyclic) (h : s.unifyEach eqs = some s') (θ : Var → Ty) :
    s'.SolvedBy θ ↔ s.SolvedBy θ ∧ SolvesAll θ eqs := by
  rw [← unifyEach_solvedBy_iff hs eqs θ, h]
  simp

/-- A substitution resolves two types alike exactly if all its solutions make
    them equal: resolving is itself one of the solutions. -/
theorem resolve_eq_iff (hs : s.Acyclic) (t u : Ty) :
    s.resolve t = s.resolve u ↔ ∀ θ, s.SolvedBy θ → t.bind θ = u.bind θ := by
  constructor
  · intro h θ hθ
    rw [← hθ.bind_resolve t, h, hθ.bind_resolve u]
  · intro h
    rw [resolve_eq_bind, resolve_eq_bind s u]
    exact h _ (solvedBy_resolve hs)

-- ============================================================================
-- Order and orientation
-- ============================================================================

/-- The same equations in another order, any of them with its sides
    exchanged. -/
def Rearranged (eqs eqs' : List (Ty × Ty)) : Prop :=
  ∃ turned, List.Forall₂ (fun e e' => e' = e ∨ e' = e.swap) eqs turned ∧ turned.Perm eqs'

theorem solvesAll_iff_of_turned {turned : List (Ty × Ty)}
    (h : List.Forall₂ (fun e e' => e' = e ∨ e' = e.swap) eqs turned) :
    SolvesAll θ eqs ↔ SolvesAll θ turned := by
  induction h with
  | nil => rfl
  | @cons e e' eqs turned he _ ih =>
    have hside : e.1.bind θ = e.2.bind θ ↔ e'.1.bind θ = e'.2.bind θ := by
      rcases he with rfl | rfl
      · rfl
      · exact eq_comm
    show SolvesAll θ ((e.1, e.2) :: eqs) ↔ SolvesAll θ ((e'.1, e'.2) :: turned)
    rw [solvesAll_cons, solvesAll_cons, hside, ih]

theorem Rearranged.solvesAll_iff (h : Rearranged eqs eqs') :
    SolvesAll θ eqs ↔ SolvesAll θ eqs' := by
  obtain ⟨turned, hturned, hperm⟩ := h
  rw [solvesAll_iff_of_turned hturned]
  constructor
  · intro hθ e he
    exact hθ e (hperm.mem_iff.mpr he)
  · intro hθ e he
    exact hθ e (hperm.mem_iff.mp he)

/-- Where some equations can be solved, so can all others that hold under the
    same assignments. -/
theorem exists_unifyEach_of_solvesAll (hs : s.Acyclic)
    (hsolves : ∀ θ, SolvesAll θ eqs → SolvesAll θ eqs') (h : s.unifyEach eqs = some s') :
    ∃ r, s.unifyEach eqs' = some r := by
  have hs' : s'.Acyclic := acyclic_of_unifyEach hs h
  have hboth := (solvedBy_of_unifyEach hs h _).mp (solvedBy_resolve hs')
  obtain ⟨r, hr, -⟩ := (unifyEach_solvedBy_iff hs eqs' _).mpr ⟨hboth.1, hsolves _ hboth.2⟩
  exact ⟨r, hr⟩

/-- **The order and the orientation of equations do not matter.**  Solved one
    after the other from the same substitution, two arrangements of the same
    equations both succeed or both fail, and the two substitutions found
    resolve the same types alike. -/
theorem unifyEach_rearranged (hs : s.Acyclic) (h : Rearranged eqs eqs') :
    ((∃ r, s.unifyEach eqs = some r) ↔ ∃ r, s.unifyEach eqs' = some r) ∧
    ∀ s₁ s₂, s.unifyEach eqs = some s₁ → s.unifyEach eqs' = some s₂ →
      ∀ t u, s₁.resolve t = s₁.resolve u ↔ s₂.resolve t = s₂.resolve u := by
  refine ⟨⟨?_, ?_⟩, ?_⟩
  · rintro ⟨r, hr⟩
    exact exists_unifyEach_of_solvesAll hs (fun θ => h.solvesAll_iff.mp) hr
  · rintro ⟨r, hr⟩
    exact exists_unifyEach_of_solvesAll hs (fun θ => h.solvesAll_iff.mpr) hr
  · intro s₁ s₂ h₁ h₂ t u
    have hsame : ∀ θ, s₁.SolvedBy θ ↔ s₂.SolvedBy θ := by
      intro θ
      rw [solvedBy_of_unifyEach hs h₁, solvedBy_of_unifyEach hs h₂, h.solvesAll_iff]
    rw [resolve_eq_iff (acyclic_of_unifyEach hs h₁), resolve_eq_iff (acyclic_of_unifyEach hs h₂)]
    simp only [hsame]

open Sample in
/-- Where `?a` is a list of `?b`, the equations `?c = ?b` and `?a = List<Int>`
    bind `?c` to `?b` in one arrangement and to `Int` in the other. -/
theorem unifyEach_rearranged_chain :
    let eqs := [(.var c, .var b), (.var a, list (.atomic "Int"))]
    let eqs' := [(list (.atomic "Int"), .var a), (.var b, .var c)]
    ∃ s₁ s₂, chain.Acyclic ∧ Rearranged eqs eqs' ∧ chain.unifyEach eqs = some s₁ ∧
      chain.unifyEach eqs' = some s₂ ∧ s₁.lookup c = some (.var b) ∧
      s₂.lookup c = some (.atomic "Int") ∧
      (s₁.resolve (.var c) = s₁.resolve (.atomic "Int") ↔
        s₂.resolve (.var c) = s₂.resolve (.atomic "Int")) := by
  intro eqs eqs'
  have hturned : List.Forall₂ (fun e e' => e' = e ∨ e' = e.swap) eqs
      [(.var b, .var c), (list (.atomic "Int"), .var a)] :=
    .cons (.inr rfl) (.cons (.inr rfl) .nil)
  have hrearranged : Rearranged eqs eqs' := ⟨_, hturned, .swap _ _ _⟩
  have h₁ : chain.unifyEach eqs =
      some ((chain.set c (.var b)).set b (.atomic "Int")) := rfl
  have h₂ : chain.unifyEach eqs' =
      some ((chain.set b (.atomic "Int")).set c (.atomic "Int")) := rfl
  have h := (unifyEach_rearranged acyclic_chain hrearranged).2 _ _ h₁ h₂
  exact ⟨_, _, acyclic_chain, hrearranged, h₁, h₂, rfl, rfl, h _ _⟩

end Substitution
end StructuralDiff
