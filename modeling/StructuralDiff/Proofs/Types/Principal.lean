/-
  StructuralDiff.Proofs.Types.Principal

  The type of an application is the principal one.

  The copy that an application works on shares no variable with the argument,
  so two assignments, one for the variables of the declaration and one for
  those of the argument, are the two halves of one assignment for the copy and
  the argument (`Renaming.split`).  That turns an agreement of declaration and
  argument under independent assignments into a solution of the equation that
  the application solves, and the most general solution into the most general
  agreement, also where both sides mention the same variables.
-/

import StructuralDiff.Proofs.Types.Copies
import StructuralDiff.Proofs.Types.Solutions

namespace StructuralDiff

-- ============================================================================
-- Two assignments as one
-- ============================================================================

namespace Renaming

variable {r : Renaming} {k : Nat} {x y : Var} {α σ : Var → Ty} {t : Ty}

open Classical in
/-- The assignment that treats a target as `α` treats what it stands for, and
    any other variable as `σ` does. -/
noncomputable def split (r : Renaming) (α σ : Var → Ty) (y : Var) : Ty :=
  if h : ∃ x, r.targets.find? x = some y then α h.choose else σ y

theorem Fresh.split_target (hr : r.Fresh k) (hx : r.targets.find? x = some y) :
    r.split α σ y = α x := by
  have h : ∃ x, r.targets.find? x = some y := ⟨x, hx⟩
  rw [split, dif_pos h, hr.injective _ _ y h.choose_spec hx]

theorem Fresh.split_of_lt (hr : r.Fresh k) (hy : y.id < k) : r.split α σ y = σ y := by
  have h : ¬ ∃ x, r.targets.find? x = some y := by
    rintro ⟨x, hx⟩
    have hle := hr.le_id x y hx
    omega
  rw [split, dif_neg h]

/-- The copy of a type becomes under both halves what the type becomes under
    the first. -/
theorem Fresh.bind_split_rename (hr : r.Fresh k)
    (ht : ∀ x, t.mentions x → ∃ y, r.targets.find? x = some y) :
    (t.rename r.target).bind (r.split α σ) = t.bind α := by
  rw [Ty.rename_bind]
  refine Ty.bind_congr fun x hx => ?_
  obtain ⟨y, hy⟩ := ht x hx
  rw [target_of_some hy, hr.split_target hy]

/-- A type from before the copy becomes under both halves what it becomes
    under the second. -/
theorem Fresh.bind_split (hr : r.Fresh k) (ht : ∀ x, t.mentions x → x.id < k) :
    t.bind (r.split α σ) = t.bind σ :=
  Ty.bind_congr fun x hx => hr.split_of_lt (ht x hx)

end Renaming

-- ============================================================================
-- The type of an application
-- ============================================================================

namespace Constructor

variable {c : Constructor} {arg R : Ty} {k : Nat} {x : Var} {α σ : Var → Ty}
variable {s : Substitution}

theorem applyType_ok_iff (supply : VarSupply) :
    (c.applyType arg supply).1 = .ok R ↔
      ∃ s, Substitution.empty.unify (c.argument.rename (c.copying supply).target) arg = some s ∧
        s.resolve (c.result.toTy.rename (c.copying supply).target) = R := by
  rw [applyType_eq]
  cases Substitution.empty.unify (c.argument.rename (c.copying supply).target) arg with
  | none => simp
  | some s => simp

/-- Declaration and argument agree under two assignments: then both halves
    together solve the equation of the application. -/
theorem exists_unify_of_agree (harg : ∀ x, arg.mentions x → x.id < k)
    (hagree : c.argument.bind α = arg.bind σ) :
    ∃ s, Substitution.empty.unify (c.argument.rename (c.copying ⟨k⟩).target) arg = some s ∧
      s.SolvedBy ((c.copying ⟨k⟩).split α σ) := by
  refine (Substitution.unify_solvedBy_iff Substitution.acyclic_empty _ _ _).mpr
    ⟨Substitution.solvedBy_empty _, ?_⟩
  have hfresh := c.fresh_copying k
  rw [hfresh.bind_split_rename fun x hx => find?_copying ⟨k⟩ (.inl hx), hfresh.bind_split harg]
  exact hagree

/-- What the application answers is an agreement of declaration and argument:
    resolve each variable of the copy, and each one of the argument. -/
theorem agree_of_unify {supply : VarSupply}
    (h : Substitution.empty.unify (c.argument.rename (c.copying supply).target) arg = some s) :
    c.argument.bind (fun x => s.resolve (.var ((c.copying supply).target x))) =
      arg.bind fun x => s.resolve (.var x) := by
  have heq := Substitution.resolve_eq_of_unify Substitution.acyclic_empty h
  rw [Substitution.resolve_eq_bind, Ty.rename_bind, Substitution.resolve_eq_bind] at heq
  exact heq

/-- A variable of the copy has a number drawn by the application and the name
    of a declared variable. -/
theorem drawn_of_mentions_copy {t : Ty} (ht : ∀ y, t.mentions y → c.Mentions y)
    (hx : (t.rename (c.copying ⟨k⟩).target).mentions x) :
    (∃ y, c.Mentions y ∧ x.name = y.name) ∧ k ≤ x.id ∧ x.id < (c.copying ⟨k⟩).supply.next := by
  obtain ⟨y, hy, rfl⟩ := (Ty.mentions_rename t _ x).mp hx
  obtain ⟨z, hz⟩ := find?_copying ⟨k⟩ (ht y hy)
  have hfresh := c.fresh_copying k
  rw [Renaming.target_of_some hz]
  exact ⟨⟨y, ht y hy, hfresh.name_eq y z hz⟩, hfresh.le_id y z hz, hfresh.id_lt y z hz⟩

/-- **An application has the principal type.**  It is typed exactly if the
    declared argument type and the given one agree under two independent
    assignments.  Its type is then the declared result type under one such
    pair, every such pair gives an instance of it, and it mentions variables of
    the argument and newly drawn ones only. -/
theorem applyType_principal (c : Constructor) (arg : Ty) (supply : VarSupply)
    (hnew : c.OlderThan arg supply) :
    ((∃ R, (c.applyType arg supply).1 = .ok R) ↔ ∃ α σ, c.argument.bind α = arg.bind σ) ∧
    ∀ R, (c.applyType arg supply).1 = .ok R →
      (∃ α σ, c.argument.bind α = arg.bind σ ∧ c.result.toTy.bind α = R) ∧
      (∀ α σ, c.argument.bind α = arg.bind σ → ∃ θ, R.bind θ = c.result.toTy.bind α) ∧
      ∀ x, R.mentions x → arg.mentions x ∨
        (∃ y, c.Mentions y ∧ x.name = y.name) ∧ supply.next ≤ x.id ∧
          x.id < (c.applyType arg supply).2.next := by
  obtain ⟨k⟩ := supply
  have harg : ∀ x, arg.mentions x → x.id < k := fun x hx => hnew x (.inr hx)
  refine ⟨⟨?_, ?_⟩, fun R hR => ?_⟩
  · rintro ⟨R, hR⟩
    obtain ⟨s, hs, -⟩ := (applyType_ok_iff _).mp hR
    exact ⟨_, _, agree_of_unify hs⟩
  · rintro ⟨α, σ, hagree⟩
    obtain ⟨s, hs, -⟩ := exists_unify_of_agree harg hagree
    exact ⟨_, (applyType_ok_iff _).mpr ⟨s, hs, rfl⟩⟩
  · obtain ⟨s, hs, rfl⟩ := (applyType_ok_iff _).mp hR
    refine ⟨⟨_, _, agree_of_unify hs, ?_⟩, fun α σ hagree => ?_, fun x hx => ?_⟩
    · rw [Substitution.resolve_eq_bind, Ty.rename_bind]
    · obtain ⟨s', hs', hsolved⟩ := exists_unify_of_agree harg hagree
      rw [hs] at hs'
      cases hs'
      refine ⟨(c.copying ⟨k⟩).split α σ, ?_⟩
      rw [hsolved.bind_resolve]
      exact (c.fresh_copying k).bind_split_rename fun x hx => find?_copying ⟨k⟩ (.inr hx)
    · rw [applyType_eq]
      rcases Substitution.mentions_resolve hx with hcopy | hsub
      · exact .inr (drawn_of_mentions_copy (fun y hy => .inr hy) hcopy)
      · rcases Substitution.mentions_of_unify Substitution.acyclic_empty hs hsub with
          hempty | hcopy | hmen
        · obtain ⟨y, r, hy, -⟩ := hempty
          cases hy
        · exact .inr (drawn_of_mentions_copy (fun y hy => .inl hy) hcopy)
        · exact .inl hmen

open Sample in
/-- The declared `?b` as an argument stands for a tuple of two variables that
    only the application knows. -/
theorem applyType_principal_declared :
    pairing.OlderThan (.var b) ⟨2⟩ ∧
    (pairing.applyType (.var b) ⟨2⟩).1 = .ok (pair (.var ⟨"a", 2⟩) (.var ⟨"b", 3⟩)) ∧
    ∀ α σ, (Ty.tuple [.var a, .var b]).bind α = (Ty.var b).bind σ →
      ∃ θ, (pair (.var ⟨"a", 2⟩) (.var ⟨"b", 3⟩)).bind θ = (pair (.var a) (.var b)).bind α :=
  ⟨by decide, rfl, ((applyType_principal pairing (.var b) ⟨2⟩ (by decide)).2 _ rfl).2.1⟩

end Constructor
end StructuralDiff
