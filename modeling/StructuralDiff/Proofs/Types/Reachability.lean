/-
  StructuralDiff.Proofs.Types.Reachability

  The occurs check and the graph of the bindings.

  Resolving a type goes along the bindings of the variables in it, so an
  unbound variable is left in the resolved type just when the bindings lead to
  it from a variable of the type (`mentions_resolve_iff`).  A new binding of
  that variable closes the way back, and no other way back is there in an
  acyclic substitution (`circle_set_iff`).

  Main statement: the occurs check refuses exactly the bindings that would lead
  their variable back to itself, and every other one is added as it is
  (`extend_refused_iff_circle`).
-/

import StructuralDiff.Proofs.Types.Solutions

namespace StructuralDiff

namespace Substitution

open Relation

variable {s : Substitution} {x y z : Var} {t : Ty}

-- ============================================================================
-- A new binding
-- ============================================================================

theorem entries_set (hx : s.lookup x = none) (t : Ty) :
    (s.set x t).bindings.entries = s.bindings.entries ++ [(x, t)] :=
  OrderedMap.insertIn_of_not_mem ((s.bindings.find?_eq_none_iff x).mp hx) t

/-- Every way along the old bindings is still there. -/
theorem chain_set (hx : s.lookup x = none) (t : Ty) (h : ReflTransGen s.LeadsTo y z) :
    ReflTransGen (s.set x t).LeadsTo y z := by
  refine h.lift id fun u v hstep => ?_
  obtain ⟨r, hr, hmen⟩ := hstep
  exact ⟨r, keptIn_set hx t u r hr, hmen⟩

-- ============================================================================
-- Circles
-- ============================================================================

/-- A new binding closes a circle just when its variable is met in its type. -/
theorem circle_set_iff (hs : s.Acyclic) (hx : s.lookup x = none) (t : Ty) :
    TransGen (s.set x t).LeadsTo x x ↔ s.occurs x t = true := by
  constructor
  · intro hcircle
    rw [← Bool.not_eq_false]
    exact fun hocc => acyclic_set hs hx hocc x hcircle
  · intro hocc
    rw [occurs_eq_mentions, mentions_resolve_iff hs hx] at hocc
    obtain ⟨y, hy, hyx⟩ := hocc
    have hstep : (s.set x t).LeadsTo x y := by
      refine ⟨t, ?_, hy⟩
      rw [lookup_set, if_pos rfl]
    exact .head' hstep (chain_set hx t hyx)

/-- **The occurs check is exact.**  A variable is met in a type just when the
    resolved type mentions it.  So a binding of an unbound variable is refused
    exactly if it would lead the variable back to itself; any other one is
    added behind the bindings there are, and the substitution stays acyclic. -/
theorem extend_refused_iff_circle (hs : s.Acyclic) :
    (∀ x t, s.occurs x t = true ↔ (s.resolve t).mentions x = true) ∧
    ∀ x t, s.lookup x = none →
      (s.extend x t = none ↔ TransGen (s.set x t).LeadsTo x x) ∧
      (¬ TransGen (s.set x t).LeadsTo x x →
        s.extend x t = some (s.set x t) ∧
        (s.set x t).bindings.entries = s.bindings.entries ++ [(x, t)] ∧
        (∀ y, (s.set x t).lookup y = if x = y then some t else s.lookup y) ∧
        (s.set x t).Acyclic) := by
  refine ⟨fun x t => by rw [occurs_eq_mentions], fun x t hx => ⟨?_, fun hcircle => ?_⟩⟩
  · rw [circle_set_iff hs hx, extend]
    simp
  · rw [circle_set_iff hs hx, Bool.not_eq_true] at hcircle
    refine ⟨?_, entries_set hx t, lookup_set s x t, acyclic_set hs hx hcircle⟩
    rw [extend, hcircle]
    rfl

open Sample in
/-- Where `?a` is a list of `?b`, no tuple with `?a` in it can be bound to `?b`,
    but one with `?c` can. -/
theorem extend_refused_iff_circle_chain :
    chain.Acyclic ∧ chain.lookup b = none ∧
    chain.extend b (.tuple [.var a]) = none ∧
    TransGen (chain.set b (.tuple [.var a])).LeadsTo b b ∧
    chain.extend b (.tuple [.var c]) = some (chain.set b (.tuple [.var c])) ∧
    (chain.set b (.tuple [.var c])).Acyclic := by
  have hexact := (extend_refused_iff_circle acyclic_chain).2
  have hrefused := (hexact b (.tuple [.var a]) rfl).1
  have hopen : ¬ TransGen (chain.set b (.tuple [.var c])).LeadsTo b b := by
    rw [← (hexact b (.tuple [.var c]) rfl).1]
    exact Option.some_ne_none _
  have hadded := (hexact b (.tuple [.var c]) rfl).2 hopen
  exact ⟨acyclic_chain, rfl, rfl, hrefused.mp rfl, hadded.1, hadded.2.2.2⟩

end Substitution
end StructuralDiff
