/-
  StructuralDiff.Proofs.Types.Reached

  What every unification leaves behind, and the substitutions that can be
  reached.

  An acyclic substitution stays acyclic, keeps its bindings, and gains only
  bindings of unbound variables over variables already in use.  So whatever is
  built from the empty substitution by solving equations and by extending
  unbound variables is acyclic, and on acyclic substitutions every search and
  every unification has exactly one run (`Proofs.Types.Runs`), which ends with
  the answer that the bounded function computes.
-/

import StructuralDiff.Proofs.Types.Solutions

namespace StructuralDiff
namespace Substitution

variable {s s' : Substitution} {x : Var} {t u r : Ty}

-- ============================================================================
-- The only answer
-- ============================================================================

theorem walksTo_iff (hs : s.Acyclic) (t r : Ty) : s.WalksTo t r ↔ s.walk t = r :=
  ⟨fun h => (walksTo_walk hs t).unique h, fun h => h ▸ walksTo_walk hs t⟩

theorem resolvesTo_iff (hs : s.Acyclic) (t r : Ty) : s.ResolvesTo t r ↔ s.resolve t = r :=
  ⟨fun h => (resolvesTo_resolve hs t).unique h, fun h => h ▸ resolvesTo_resolve hs t⟩

theorem meets_iff (hs : s.Acyclic) (x : Var) (t : Ty) (b : Bool) :
    s.Meets x t b ↔ s.occurs x t = b :=
  ⟨fun h => (meets_occurs hs x t).unique h, fun h => h ▸ meets_occurs hs x t⟩

theorem unifies_iff (hs : s.Acyclic) (t u : Ty) (o : Option Substitution) :
    s.Unifies [(t, u)] o ↔ s.unify t u = o :=
  ⟨fun h => (unifies_unify hs t u).unique h, fun h => h ▸ unifies_unify hs t u⟩

-- ============================================================================
-- Reached substitutions
-- ============================================================================

/-- Built from the empty substitution by solving equations and by extending
    unbound variables. -/
inductive Reached : Substitution → Prop where
  | empty : Reached empty
  | unify {s s' : Substitution} {t u : Ty} (hs : Reached s) (h : s.unify t u = some s') :
      Reached s'
  | extend {s s' : Substitution} {x : Var} {t : Ty} (hs : Reached s) (hx : s.lookup x = none)
      (h : s.extend x t = some s') : Reached s'

theorem acyclic_of_extend (hs : s.Acyclic) (hx : s.lookup x = none)
    (h : s.extend x t = some s') : s'.Acyclic := by
  rw [extend] at h
  split at h
  · cases h
  · rename_i hocc
    cases h
    exact acyclic_set hs hx (Bool.eq_false_iff.mpr hocc)

theorem Reached.acyclic (hs : Reached s) : s.Acyclic := by
  induction hs with
  | empty => exact acyclic_empty
  | unify _ h ih => exact acyclic_of_unify ih h
  | extend _ hx h ih => exact acyclic_of_extend ih hx h

/-- A binding that a unification added is for an unbound variable in use and
    mentions only variables in use. -/
theorem lookup_of_unify (hs : s.Acyclic) (h : s.unify t u = some s')
    (hx : s'.lookup x = some r) :
    s.lookup x = some r ∨ s.lookup x = none ∧
      ∀ y, y = x ∨ r.mentions y → s.Mentions y ∨ t.mentions y ∨ u.mentions y := by
  cases hold : s.lookup x with
  | none => exact .inr ⟨rfl, fun y hy => mentions_of_unify hs h ⟨x, r, hx, hy⟩⟩
  | some r' =>
    have hkept : s'.lookup x = some r' := (confined_of_unify hs h).2 x r' hold
    rw [hx] at hkept
    exact .inl hkept.symm

/-- **Unification ends and keeps substitutions acyclic.**  In an acyclic
    substitution walking, resolving, the occurs check and unification each
    have exactly one finite run, and it ends with the computed answer.  A
    substitution that unification finds is acyclic, keeps all bindings, binds
    only unbound variables in use to types over variables in use, and resolves
    both types alike.  All reached substitutions are acyclic. -/
theorem unify_terminates_acyclic :
    (∀ s : Substitution, s.Acyclic →
      (∀ t r, s.WalksTo t r ↔ s.walk t = r) ∧
      (∀ t r, s.ResolvesTo t r ↔ s.resolve t = r) ∧
      (∀ x t b, s.Meets x t b ↔ s.occurs x t = b) ∧
      ∀ t u, (∀ o, s.Unifies [(t, u)] o ↔ s.unify t u = o) ∧
        ∀ s', s.unify t u = some s' →
          s'.Acyclic ∧ s.KeptIn s' ∧
          (∀ x r, s'.lookup x = some r → s.lookup x = some r ∨ s.lookup x = none ∧
            ∀ y, y = x ∨ r.mentions y → s.Mentions y ∨ t.mentions y ∨ u.mentions y) ∧
          s'.resolve t = s'.resolve u) ∧
    ∀ s : Substitution, Reached s → s.Acyclic := by
  refine ⟨fun s hs => ⟨walksTo_iff hs, resolvesTo_iff hs, meets_iff hs, fun t u => ?_⟩,
    fun s hs => hs.acyclic⟩
  refine ⟨unifies_iff hs t u, fun s' h => ⟨acyclic_of_unify hs h, ?_, ?_, ?_⟩⟩
  · exact (confined_of_unify hs h).2
  · exact fun x r hx => lookup_of_unify hs h hx
  · exact resolve_eq_of_unify hs h

open Sample in
theorem unify_terminates_acyclic_chain :
    chain.Acyclic ∧
    chain.Unifies [(pair (.var a) (.var b), pair (.var c) (.atomic "Int"))] (some solved) ∧
    solved.resolve (pair (.var a) (.var b)) = solved.resolve (pair (.var c) (.atomic "Int")) ∧
    Reached solved ∧ solved.Acyclic := by
  have hunify : chain.unify (pair (.var a) (.var b)) (pair (.var c) (.atomic "Int")) =
      some solved := rfl
  have h := (unify_terminates_acyclic.1 chain acyclic_chain).2.2.2 (pair (.var a) (.var b))
    (pair (.var c) (.atomic "Int"))
  have hextend : empty.extend a (list (.var b)) = some chain := rfl
  have hreached : Reached solved := .unify (.extend .empty rfl hextend) hunify
  exact ⟨acyclic_chain, (h.1 _).mpr hunify, (h.2 solved hunify).2.2.2, hreached,
    unify_terminates_acyclic.2 solved hreached⟩

end Substitution
end StructuralDiff
