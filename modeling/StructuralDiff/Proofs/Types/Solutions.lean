/-
  StructuralDiff.Proofs.Types.Solutions

  What a substitution says about its variables.

  An assignment of types to variables solves a substitution when it gives both
  sides of every binding the same type.  Read this way, the rules of the
  unifier lose nothing and add nothing: an assignment solves the substitution
  in which a run ends exactly if it solves the one in which the run began and
  every equation of the run (`Unifies.solvedBy_iff`).  A run that ends without
  a substitution has no such assignment, and `unify` is an instance.
-/

import StructuralDiff.Proofs.Types.Termination

namespace StructuralDiff
namespace Substitution

variable {s s' : Substitution} {x : Var} {t u r : Ty} {θ : Var → Ty}

/-- The assignment gives both sides of every binding the same type. -/
def SolvedBy (s : Substitution) (θ : Var → Ty) : Prop := ∀ x t, s.lookup x = some t → θ x = t.bind θ

theorem solvedBy_empty (θ : Var → Ty) : empty.SolvedBy θ := by
  intro x t hx
  cases hx

theorem solvedBy_set (hx : s.lookup x = none) :
    (s.set x r).SolvedBy θ ↔ s.SolvedBy θ ∧ θ x = r.bind θ := by
  constructor
  · intro hθ
    refine ⟨fun y t hy => hθ y t (keptIn_set hx r y t hy), hθ x r ?_⟩
    rw [lookup_set, if_pos rfl]
  · rintro ⟨hθ, hxr⟩ y t hy
    rw [lookup_set] at hy
    split at hy
    · rename_i hxy
      cases hy
      exact hxy ▸ hxr
    · exact hθ y t hy

/-- Resolving is itself an assignment that solves an acyclic substitution. -/
theorem solvedBy_resolve (hs : s.Acyclic) : s.SolvedBy fun x => s.resolve (.var x) := by
  intro x t hx
  rw [← resolve_eq_bind]
  exact resolve_var_of_lookup hs hx

theorem SolvedBy.bind_resolveVar (hθ : s.SolvedBy θ) (n : Nat) (x : Var) :
    (s.resolveVar n x).bind θ = θ x := by
  induction n generalizing x with
  | zero => rfl
  | succ n ih =>
    rw [resolveVar]
    cases hx : s.lookup x with
    | none => rfl
    | some t =>
      simp only
      rw [hθ x t hx, Ty.bind_bind]
      exact Ty.bind_congr fun y _ => ih y

/-- A solution makes no difference between a type and what it resolves to. -/
theorem SolvedBy.bind_resolve (hθ : s.SolvedBy θ) (t : Ty) : (s.resolve t).bind θ = t.bind θ := by
  rw [resolve, Ty.bind_bind]
  exact Ty.bind_congr fun x _ => hθ.bind_resolveVar s.size x

-- ============================================================================
-- What the searches say about a solution
-- ============================================================================

theorem WalksTo.bind_eq (hw : s.WalksTo t u) (hθ : s.SolvedBy θ) : t.bind θ = u.bind θ := by
  induction hw with
  | stop => rfl
  | hop hx _ ih => rw [Ty.bind_var, hθ _ _ hx, ih]

/-- A variable that is met in a type becomes a part of what the type
    becomes. -/
theorem Meets.size_le (hm : s.Meets x t true) (hθ : s.SolvedBy θ) :
    (θ x).size ≤ (t.bind θ).size := by
  generalize hb : true = b at hm
  induction hm with
  | var ht =>
    rw [ht.bind_eq hθ, Ty.bind_var, eq_of_beq hb.symm]
  | found ht hu _ _ _ ih =>
    have hlt := (hu.bind θ).size_lt (List.mem_map_of_mem (List.mem_append_right _ List.mem_cons_self))
    rw [ht.bind_eq hθ]
    exact (ih rfl).trans hlt.le
  | absent => cases hb

theorem AsksFor.bind_eq_iff (hask : s.AsksFor t u x r) (hθ : s.SolvedBy θ) :
    t.bind θ = u.bind θ ↔ θ x = r.bind θ := by
  cases hask with
  | left ht hu => rw [ht.bind_eq hθ, hu.bind_eq hθ, Ty.bind_var]
  | right ht _ hu => rw [ht.bind_eq hθ, hu.bind_eq hθ, Ty.bind_var, eq_comm]

/-- A binding is asked for with a type that is another unbound variable or a
    node. -/
theorem AsksFor.var_or_node (hask : s.AsksFor t u x r) :
    (∃ y, r = .var y ∧ y ≠ x ∧ s.lookup y = none) ∨ ∃ h ps, r.Node h ps := by
  cases hask with
  | left ht hu hr =>
    rcases r.var_or_node with ⟨y, rfl⟩ | hnode
    · exact .inl ⟨y, rfl, fun hyx => hr (by rw [hyx]), hu.unbound⟩
    · exact .inr hnode
  | right _ hr => exact .inr ⟨_, _, hr⟩

/-- A variable met inside a node is smaller than the node under every
    solution, so the two never become equal. -/
theorem AsksFor.bind_ne_of_meets (hask : s.AsksFor t u x r) (hm : s.Meets x r true)
    (hθ : s.SolvedBy θ) : θ x ≠ r.bind θ := by
  generalize hb : true = b at hm
  rcases hask.var_or_node with ⟨y, rfl, hyx, hy⟩ | ⟨h, ps, hr⟩
  · cases hm with
    | var ht =>
      cases ht.eq_of_unbound hy
      exact absurd (eq_of_beq hb.symm) hyx
    | found ht hu => exact absurd (ht.eq_of_unbound hy) (hu.ne_var y)
    | absent => cases hb
  · cases hm with
    | var ht => exact absurd (ht.eq_of_node hr).symm (hr.ne_var _)
    | found ht hu _ hp =>
      cases ht.eq_of_node hr
      have hlt := (hu.bind θ).size_lt
        (List.mem_map_of_mem (List.mem_append_right _ List.mem_cons_self))
      have hle := hp.size_le hθ
      intro heq
      rw [heq] at hle
      omega
    | absent => cases hb

-- ============================================================================
-- What a run says about a solution
-- ============================================================================

/-- The assignment makes both sides of every equation equal. -/
def SolvesAll (θ : Var → Ty) (eqs : List (Ty × Ty)) : Prop := ∀ e ∈ eqs, e.1.bind θ = e.2.bind θ

theorem solvesAll_cons {eqs : List (Ty × Ty)} :
    SolvesAll θ ((t, u) :: eqs) ↔ t.bind θ = u.bind θ ∧ SolvesAll θ eqs :=
  List.forall_mem_cons

theorem solvesAll_append {eqs eqs' : List (Ty × Ty)} :
    SolvesAll θ (eqs ++ eqs') ↔ SolvesAll θ eqs ∧ SolvesAll θ eqs' :=
  List.forall_mem_append

theorem solvesAll_zip_iff {ps qs : List Ty} (hlen : ps.length = qs.length) :
    SolvesAll θ (ps.zip qs) ↔ ps.map (Ty.bind θ) = qs.map (Ty.bind θ) := by
  induction ps generalizing qs with
  | nil =>
    cases qs with
    | nil => simp [SolvesAll]
    | cons q qs => simp at hlen
  | cons p ps ih =>
    cases qs with
    | nil => simp at hlen
    | cons q qs =>
      rw [List.zip_cons_cons, solvesAll_cons, ih (Nat.succ.inj hlen), List.map_cons,
        List.map_cons, List.cons.injEq]

/-- A run keeps exactly the assignments that solve the substitution it began
    with and its equations; without a substitution at its end there are
    none. -/
theorem Unifies.solvedBy_iff {eqs : List (Ty × Ty)} {o : Option Substitution}
    (hrun : Unifies s eqs o) (θ : Var → Ty) :
    (∃ s', o = some s' ∧ s'.SolvedBy θ) ↔ s.SolvedBy θ ∧ SolvesAll θ eqs := by
  induction hrun with
  | done => simp [SolvesAll]
  | same ht hu _ ih =>
    rw [ih, solvesAll_cons]
    refine and_congr_right fun hθ => ⟨fun hrest => ⟨?_, hrest⟩, And.right⟩
    rw [ht.bind_eq hθ, hu.bind_eq hθ]
  | bind hask _ _ ih =>
    rw [ih, solvedBy_set hask.unbound, solvesAll_cons, and_assoc]
    exact and_congr_right fun hθ => and_congr_left fun _ => (hask.bind_eq_iff hθ).symm
  | circle hask hm =>
    rw [solvesAll_cons]
    constructor
    · rintro ⟨_, hnone, _⟩
      cases hnone
    · rintro ⟨hθ, heq, _⟩
      exact absurd ((hask.bind_eq_iff hθ).mp heq) (hask.bind_ne_of_meets hm hθ)
  | parts ht hu ht' hu' hlen _ ih =>
    rw [ih, solvesAll_append, solvesAll_cons]
    refine and_congr_right fun hθ => and_congr_left fun _ => ?_
    rw [ht.bind_eq hθ, hu.bind_eq hθ, (ht'.bind θ).eq_iff (hu'.bind θ), solvesAll_zip_iff hlen]
    exact (and_iff_right rfl).symm
  | clash ht hu ht' hu' hne =>
    rw [solvesAll_cons]
    constructor
    · rintro ⟨_, hnone, _⟩
      cases hnone
    · rintro ⟨hθ, heq, _⟩
      rw [ht.bind_eq hθ, hu.bind_eq hθ, (ht'.bind θ).eq_iff (hu'.bind θ)] at heq
      have hlen := congrArg List.length heq.2
      rw [List.length_map, List.length_map] at hlen
      exact absurd ⟨heq.1, hlen⟩ hne

theorem unify_solvedBy_iff (hs : s.Acyclic) (t u : Ty) (θ : Var → Ty) :
    (∃ s', s.unify t u = some s' ∧ s'.SolvedBy θ) ↔ s.SolvedBy θ ∧ t.bind θ = u.bind θ := by
  rw [(unifies_unify hs t u).solvedBy_iff θ, solvesAll_cons]
  simp [SolvesAll]

/-- Both sides of a solved equation resolve to the same type. -/
theorem resolve_eq_of_unify (hs : s.Acyclic) (h : s.unify t u = some s') :
    s'.resolve t = s'.resolve u :=
  ((unify_solvedBy_iff hs t u _).mp ⟨s', h, solvedBy_resolve (acyclic_of_unify hs h)⟩).2

/-- **Unification computes exactly the most general solution.**  The solutions
    of the substitution found are the solutions of the old one under which the
    two types agree; where none is found, no solution makes them agree. -/
theorem unify_mostGeneral (hs : s.Acyclic) (t u : Ty) :
    (∀ s', s.unify t u = some s' →
      ∀ θ, s'.SolvedBy θ ↔ s.SolvedBy θ ∧ t.bind θ = u.bind θ) ∧
    (s.unify t u = none → ∀ θ, ¬ (s.SolvedBy θ ∧ t.bind θ = u.bind θ)) := by
  constructor
  · intro s' h θ
    rw [← unify_solvedBy_iff hs t u θ, h]
    simp
  · intro h θ hθ
    obtain ⟨s', hs', -⟩ := (unify_solvedBy_iff hs t u θ).mpr hθ
    rw [h] at hs'
    cases hs'

-- ============================================================================
-- A chain of bindings
-- ============================================================================

end Substitution

namespace Sample

open Substitution

/-- `?a` is a list of `?b`, which is still open. -/
def chain : Substitution := empty.set a (list (.var b))

/-- `?a` and `?c` are lists of `?b`, which is an integer. -/
def solved : Substitution := (chain.set c (list (.var b))).set b (.atomic "Int")

theorem acyclic_chain : chain.Acyclic := acyclic_set acyclic_empty rfl rfl

end Sample

open Sample in
theorem Substitution.unify_mostGeneral_chain :
    chain.Acyclic ∧
    chain.unify (pair (.var a) (.var b)) (pair (.var c) (.atomic "Int")) = some solved ∧
    (∀ θ, solved.SolvedBy θ ↔ chain.SolvedBy θ ∧
      (pair (.var a) (.var b)).bind θ = (pair (.var c) (.atomic "Int")).bind θ) ∧
    chain.unify (.tuple [.var a]) (.tuple [.var b]) = none ∧
    ∀ θ, ¬ (chain.SolvedBy θ ∧ (Ty.tuple [.var a]).bind θ = (Ty.tuple [.var b]).bind θ) :=
  ⟨acyclic_chain, rfl, (unify_mostGeneral acyclic_chain _ _).1 solved rfl, rfl,
    (unify_mostGeneral acyclic_chain _ _).2 rfl⟩

end StructuralDiff
