/-
  StructuralDiff.Proofs.Types.Resolution

  What resolving a type leaves to be done: nothing.

  A resolved type mentions unbound variables only, and any later substitution
  that keeps the bindings resolves it to what it resolves the type itself to
  (`resolve_resolve_of_keptIn`).  So resolving early or late makes no
  difference (`resolve_complete`).

  An equation whose sides are resolved alike never comes to a binding: a run on
  such equations ends with the substitution it began with
  (`Unifies.unchanged`).  Together with what all solutions of a substitution
  make equal this tells exactly when unification changes nothing
  (`unify_unchanged_iff`).
-/

import StructuralDiff.Proofs.Types.Equations

namespace StructuralDiff

-- ============================================================================
-- Maps that hold the same
-- ============================================================================

namespace OrderedMap

variable {κ ν : Type} [DecidableEq κ]

/-- Two maps agree when every look-up has the same answer in both. -/
theorem agrees_iff [DecidableEq ν] (m n : OrderedMap κ ν) :
    m.agrees n = true ↔ ∀ k, m.find? k = n.find? k := by
  have hkept : m.entries.all (fun e => n.find? e.1 = some e.2) = true ↔ m.KeptIn n := by
    simp only [List.all_eq_true, decide_eq_true_eq, KeptIn, find?_eq_some_iff, Prod.forall]
  have hlength : m.size = n.size ↔ m.keys.length = n.keys.length := by
    rw [keys, keys, List.length_map, List.length_map]
    rfl
  rw [agrees, Bool.and_eq_true, beq_iff_eq, hkept, hlength]
  constructor
  · rintro ⟨hlen, hmn⟩ k
    have hsub : m.keys ⊆ n.keys := by
      intro q hq
      obtain ⟨x, hx⟩ := (m.mem_keys_iff q).mp hq
      exact (n.mem_keys_iff q).mpr ⟨x, hmn q x hx⟩
    -- no key of `n` is left over, as there are no more of them than of `m`
    have hperm : m.keys.Perm n.keys :=
      (m.keys_nodup.subperm hsub).perm_of_length_le hlen.ge
    cases hk : m.find? k with
    | some x => exact (hmn k x hk).symm
    | none =>
      rw [find?_eq_none_iff, hperm.mem_iff, ← find?_eq_none_iff] at hk
      exact hk.symm
  · intro hsame
    have hm : m.keys.Nodup := m.keys_nodup
    have hn : n.keys.Nodup := n.keys_nodup
    have hperm : m.keys.Perm n.keys := by
      refine (List.perm_ext_iff_of_nodup hm hn).mpr fun k => ?_
      rw [mem_keys_iff, mem_keys_iff, hsame]
    exact ⟨hperm.length_eq, fun k x hx => hsame k ▸ hx⟩

end OrderedMap

namespace Substitution

variable {s s' : Substitution} {x : Var} {t u r : Ty} {eqs : List (Ty × Ty)}

-- ============================================================================
-- Resolving twice
-- ============================================================================

theorem unbound_of_mentions_resolve (hs : s.Acyclic) (hx : (s.resolve t).mentions x) :
    s.lookup x = none := by
  induction t using resolve_induction hs with
  | var t y hw hy =>
    rw [hy, Ty.mentions_var] at hx
    exact hx ▸ hw.unbound
  | node t u h ps hw hu hn ih =>
    obtain ⟨q, hq, hqx⟩ := (hn.mentions_iff x).mp hx
    obtain ⟨p, hp, rfl⟩ := List.mem_map.mp hq
    exact ih p hp hqx

/-- A later substitution resolves a type and what it resolved to earlier
    alike: as an assignment it solves the earlier bindings, too. -/
theorem resolve_resolve_of_keptIn (hs' : s'.Acyclic) (hk : s.KeptIn s') (t : Ty) :
    s'.resolve (s.resolve t) = s'.resolve t := by
  have hsolved : s.SolvedBy fun x => s'.resolve (.var x) :=
    fun x r hx => solvedBy_resolve hs' x r (hk x r hx)
  rw [resolve_eq_bind s', resolve_eq_bind s' t]
  exact hsolved.bind_resolve t

/-- **Resolving is complete, and stable under further solving.**  A resolved
    type mentions no bound variable, resolving it again changes nothing, and
    whatever equations are solved later, the type and what it was resolved to
    stay resolved alike. -/
theorem resolve_complete (hs : s.Acyclic) (t : Ty) :
    (∀ x, (s.resolve t).mentions x → s.lookup x = none) ∧
    s.resolve (s.resolve t) = s.resolve t ∧
    ∀ eqs s', s.unifyEach eqs = some s' → s'.resolve (s.resolve t) = s'.resolve t := by
  refine ⟨fun x hx => unbound_of_mentions_resolve hs hx, ?_, fun eqs s' h => ?_⟩
  · exact resolve_resolve_of_keptIn hs (.refl _) t
  · exact resolve_resolve_of_keptIn (acyclic_of_unifyEach hs h) (keptIn_of_unifyEach hs h) t

open Sample in
/-- Where `?a` is a list of `?b`, the type `?a` is resolved to has `?b` left;
    solving `?c = ?a` and `?b = Int` later resolves both to the same list. -/
theorem resolve_complete_chain :
    let eqs := [(.var c, .var a), (.var b, .atomic "Int")]
    ∃ s', chain.Acyclic ∧ chain.resolve (.var a) = list (.var b) ∧ chain.lookup b = none ∧
      chain.unifyEach eqs = some s' ∧ s'.resolve (list (.var b)) = list (.atomic "Int") ∧
      s'.resolve (list (.var b)) = s'.resolve (.var a) := by
  intro eqs
  have hresolve : chain.resolve (.var a) = list (.var b) := rfl
  have h := resolve_complete acyclic_chain (.var a)
  have hfree := h.1 b (by rw [hresolve]; decide)
  have hunify : chain.unifyEach eqs =
      some ((chain.set c (list (.var b))).set b (.atomic "Int")) := rfl
  have hlater := h.2.2 eqs _ hunify
  exact ⟨_, acyclic_chain, hresolve, hfree, hunify, rfl, hlater⟩

-- ============================================================================
-- Nothing to solve
-- ============================================================================

/-- The variable that an equation asks to bind does not resolve to its new
    type. -/
theorem AsksFor.resolve_ne (hask : s.AsksFor t u x r) :
    s.resolve (.var x) ≠ s.resolve r := by
  have hx : s.resolve (.var x) = .var x := resolve_var_of_none hask.unbound
  rw [hx]
  rcases hask.var_or_node with ⟨y, rfl, hyx, hy⟩ | ⟨h, ps, hr⟩
  · rw [resolve_var_of_none hy]
    rintro ⟨⟩
    exact hyx rfl
  · exact ((resolve_node s hr).ne_var x).symm

/-- Equations whose sides are resolved alike are solved without a binding. -/
theorem Unifies.unchanged {o : Option Substitution} (hrun : Unifies s eqs o) (hs : s.Acyclic)
    (heqs : SolvesAll (fun x => s.resolve (.var x)) eqs) : o = some s := by
  have hsolved := solvedBy_resolve hs
  induction hrun with
  | done => rfl
  | same _ _ _ ih => exact ih hs (solvesAll_cons.mp heqs).2 hsolved
  | bind hask =>
    have heq := (hask.bind_eq_iff hsolved).mp (solvesAll_cons.mp heqs).1
    exact absurd heq hask.resolve_ne
  | circle hask =>
    have heq := (hask.bind_eq_iff hsolved).mp (solvesAll_cons.mp heqs).1
    exact absurd heq hask.resolve_ne
  | parts ht hu ht' hu' hlen _ ih =>
    obtain ⟨hfirst, hrest⟩ := solvesAll_cons.mp heqs
    rw [ht.bind_eq hsolved, hu.bind_eq hsolved, (ht'.bind _).eq_iff (hu'.bind _)] at hfirst
    exact ih hs (solvesAll_append.mpr ⟨(solvesAll_zip_iff hlen).mpr hfirst.2, hrest⟩) hsolved
  | clash ht hu ht' hu' hne =>
    have hfirst := (solvesAll_cons.mp heqs).1
    rw [ht.bind_eq hsolved, hu.bind_eq hsolved, (ht'.bind _).eq_iff (hu'.bind _)] at hfirst
    have hlen := congrArg List.length hfirst.2
    rw [List.length_map, List.length_map] at hlen
    exact absurd ⟨hfirst.1, hlen⟩ hne

theorem unify_eq_self (hs : s.Acyclic) (h : s.resolve t = s.resolve u) :
    s.unify t u = some s := by
  refine (unifies_unify hs t u).unchanged hs (solvesAll_cons.mpr ⟨?_, ?_⟩)
  · rw [← resolve_eq_bind, ← resolve_eq_bind]
    exact h
  · exact fun e he => absurd he List.not_mem_nil

/-- Substitutions that agree have the same solutions. -/
theorem solvedBy_iff_of_agrees (h : s'.agrees s = true) (θ : Var → Ty) :
    s'.SolvedBy θ ↔ s.SolvedBy θ := by
  have hsame : ∀ x, s'.lookup x = s.lookup x := (OrderedMap.agrees_iff _ _).mp h
  simp only [SolvedBy, hsame]

/-- **Unification changes nothing exactly when there is nothing to solve.**  A
    substitution with the same bindings is found just when both sides resolve
    alike already, and then the substitution itself is returned.  So an
    equation once solved is solved again without a change. -/
theorem unify_unchanged_iff (hs : s.Acyclic) (t u : Ty) :
    ((∃ s', s.unify t u = some s' ∧ s'.agrees s = true) ↔ s.resolve t = s.resolve u) ∧
    (s.resolve t = s.resolve u → s.unify t u = some s) ∧
    ∀ s', s.unify t u = some s' → s'.unify t u = some s' := by
  refine ⟨⟨?_, fun h => ?_⟩, unify_eq_self hs, fun s' h => ?_⟩
  · rintro ⟨s', h, hagrees⟩
    refine (resolve_eq_iff hs t u).mpr fun θ hθ => ?_
    have hθ' : s'.SolvedBy θ := (solvedBy_iff_of_agrees hagrees θ).mpr hθ
    exact ((unify_solvedBy_iff hs t u θ).mp ⟨s', h, hθ'⟩).2
  · exact ⟨s, unify_eq_self hs h, (OrderedMap.agrees_iff _ _).mpr fun _ => rfl⟩
  · exact unify_eq_self (acyclic_of_unify hs h) (resolve_eq_of_unify hs h)

open Sample in
/-- `?a` and `List<?b>` are the same under the chain, so their equation leaves
    it as it is; two more equations are solved once and stay solved. -/
theorem unify_unchanged_iff_chain :
    chain.Acyclic ∧ chain.resolve (.var a) = chain.resolve (list (.var b)) ∧
    chain.unify (.var a) (list (.var b)) = some chain ∧
    chain.unify (pair (.var a) (.var b)) (pair (.var c) (.atomic "Int")) = some solved ∧
    solved.unify (pair (.var a) (.var b)) (pair (.var c) (.atomic "Int")) = some solved := by
  have hsolved : chain.unify (pair (.var a) (.var b)) (pair (.var c) (.atomic "Int")) =
      some solved := rfl
  have hsame := (unify_unchanged_iff acyclic_chain (.var a) (list (.var b))).2.1
  have hagain := (unify_unchanged_iff acyclic_chain _ _).2.2 solved hsolved
  exact ⟨acyclic_chain, rfl, hsame rfl, hsolved, hagain⟩

end Substitution
end StructuralDiff
