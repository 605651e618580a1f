/-
  StructuralDiff.Proofs.Types.Runs

  The searches through a substitution and the unifier as they run when nothing
  bounds them.

  Each is an inductive relation between a question and its answer whose rules
  are the steps of the search.  A derivation is finite, so a question that has
  one is a question on which the search comes to an end.  The unifier is a run
  on a list of equations: the first one is being solved, the others are what
  is still to do, and the parts of two nodes go to the front of the list.

  In an acyclic substitution every question has a run, and the functions with
  their built-in bounds give its answer: `walksTo_walk`, `resolvesTo_resolve`
  and `meets_occurs` here, the unifier in `Proofs.Types.Termination`.
-/

import StructuralDiff.Proofs.Types.Chains

namespace StructuralDiff
namespace Substitution

-- ============================================================================
-- The rules
-- ============================================================================

/-- The bindings lead from `t` to `u`, where no binding goes on. -/
inductive WalksTo (s : Substitution) : Ty → Ty → Prop where
  | stop {t : Ty} (ht : ∀ x, t = .var x → s.lookup x = none) : WalksTo s t t
  | hop {x : Var} {t u : Ty} (hx : s.lookup x = some t) (htu : WalksTo s t u) :
      WalksTo s (.var x) u

/-- Walking, then going on in the parts, turns `t` into `r`. -/
inductive ResolvesTo (s : Substitution) : Ty → Ty → Prop where
  | var {t : Ty} {x : Var} (ht : s.WalksTo t (.var x)) : ResolvesTo s t (.var x)
  | node {t u r : Ty} {h : Ty.Head} {ps rs : List Ty} (ht : s.WalksTo t u) (hu : u.Node h ps)
      (hr : r.Node h rs) (hlen : ps.length = rs.length)
      (hparts : ∀ e ∈ ps.zip rs, ResolvesTo s e.1 e.2) : ResolvesTo s t r

/-- The search for `x` in `t`, part by part from left to right, ends with the
    given answer. -/
inductive Meets (s : Substitution) (x : Var) : Ty → Bool → Prop where
  | var {t : Ty} {y : Var} (ht : s.WalksTo t (.var y)) : Meets s x t (y == x)
  | found {t u p : Ty} {h : Ty.Head} {ps qs : List Ty} (ht : s.WalksTo t u)
      (hu : u.Node h (ps ++ p :: qs)) (hps : ∀ q ∈ ps, Meets s x q false)
      (hp : Meets s x p true) : Meets s x t true
  | absent {t u : Ty} {h : Ty.Head} {ps : List Ty} (ht : s.WalksTo t u) (hu : u.Node h ps)
      (hps : ∀ p ∈ ps, Meets s x p false) : Meets s x t false

/-- The equation of `t` and `u` asks for the binding of `x` to `r`: one side
    walks to the variable, the left one by preference, and the other to `r`. -/
inductive AsksFor (s : Substitution) : Ty → Ty → Var → Ty → Prop where
  | left {t u r : Ty} {x : Var} (ht : s.WalksTo t (.var x)) (hu : s.WalksTo u r)
      (hr : r ≠ .var x) : AsksFor s t u x r
  | right {t u r : Ty} {x : Var} {h : Ty.Head} {ps : List Ty} (ht : s.WalksTo t r)
      (hr : r.Node h ps) (hu : s.WalksTo u (.var x)) : AsksFor s t u x r

/-- Solving the equations one after the other ends with the given
    substitution, or with none. -/
inductive Unifies : Substitution → List (Ty × Ty) → Option Substitution → Prop where
  | done {s : Substitution} : Unifies s [] (some s)
  | same {s : Substitution} {t u : Ty} {x : Var} {eqs : List (Ty × Ty)}
      {o : Option Substitution} (ht : s.WalksTo t (.var x)) (hu : s.WalksTo u (.var x))
      (hrest : Unifies s eqs o) : Unifies s ((t, u) :: eqs) o
  | bind {s : Substitution} {t u r : Ty} {x : Var} {eqs : List (Ty × Ty)}
      {o : Option Substitution} (hask : s.AsksFor t u x r) (hx : s.Meets x r false)
      (hrest : Unifies (s.set x r) eqs o) : Unifies s ((t, u) :: eqs) o
  | circle {s : Substitution} {t u r : Ty} {x : Var} {eqs : List (Ty × Ty)}
      (hask : s.AsksFor t u x r) (hx : s.Meets x r true) : Unifies s ((t, u) :: eqs) none
  | parts {s : Substitution} {t u t' u' : Ty} {h : Ty.Head} {ps qs : List Ty}
      {eqs : List (Ty × Ty)} {o : Option Substitution} (ht : s.WalksTo t t')
      (hu : s.WalksTo u u') (ht' : t'.Node h ps) (hu' : u'.Node h qs)
      (hlen : ps.length = qs.length) (hrest : Unifies s (ps.zip qs ++ eqs) o) :
      Unifies s ((t, u) :: eqs) o
  | clash {s : Substitution} {t u t' u' : Ty} {h k : Ty.Head} {ps qs : List Ty}
      {eqs : List (Ty × Ty)} (ht : s.WalksTo t t') (hu : s.WalksTo u u') (ht' : t'.Node h ps)
      (hu' : u'.Node k qs) (hne : ¬ (h = k ∧ ps.length = qs.length)) :
      Unifies s ((t, u) :: eqs) none

-- ============================================================================
-- Walking
-- ============================================================================

variable {s s' : Substitution} {x y : Var} {t u : Ty} {h : Ty.Head} {ps : List Ty}

/-- A walk that ends at a variable ends at an unbound one. -/
theorem WalksTo.unbound (hw : s.WalksTo t (.var y)) : s.lookup y = none := by
  generalize hu : Ty.var y = u at hw
  induction hw with
  | stop ht => exact ht y hu.symm
  | hop _ _ ih => exact ih hu

theorem WalksTo.eq_of_node (ht : t.Node h ps) (hw : s.WalksTo t u) : u = t := by
  cases hw with
  | stop => rfl
  | hop => exact absurd ht Ty.Node.not_var

theorem WalksTo.eq_of_unbound (hx : s.lookup x = none) (hw : s.WalksTo (.var x) u) :
    u = .var x := by
  cases hw with
  | stop => rfl
  | hop hx' => rw [hx] at hx'; cases hx'

/-- Both ends of a walk resolve alike, also once more bindings were added. -/
theorem resolve_eq_of_walksTo (hs' : s'.Acyclic) (hk : s.KeptIn s') (hw : s.WalksTo t u) :
    s'.resolve t = s'.resolve u := by
  induction hw with
  | stop => rfl
  | hop hx _ ih => rw [resolve_var_of_lookup hs' (hk _ _ hx), ih]

theorem walkWithin_of_node (ht : t.Node h ps) (n : Nat) : s.walkWithin n t = t := by
  cases ht <;> cases n <;> rfl

theorem walksTo_walkWithin (hs : s.Acyclic) {n : Nat} (hn : ∀ x, t = .var x → s.rank x ≤ n) :
    s.WalksTo t (s.walkWithin n t) := by
  induction n generalizing t with
  | zero =>
    refine .stop fun x hx => ?_
    cases hlook : s.lookup x with
    | none => rfl
    | some u =>
      have hpos := rank_pos_of_lookup hlook
      have hle := hn x hx
      omega
  | succ n ih =>
    rcases t.var_or_node with ⟨x, rfl⟩ | ⟨h, ps, ht⟩
    · rw [walkWithin]
      cases hlook : s.lookup x with
      | none =>
        refine .stop fun y hy => ?_
        cases hy
        exact hlook
      | some u =>
        refine .hop hlook (ih fun y hy => ?_)
        have hlt := rank_lt_of_leadsTo hs ⟨u, hlook, hy ▸ (Ty.mentions_var y y).mpr rfl⟩
        have hle := hn x rfl
        omega
    · rw [walkWithin_of_node ht]
      exact .stop fun x hx => absurd hx (ht.ne_var x)

theorem walksTo_walk (hs : s.Acyclic) (t : Ty) : s.WalksTo t (s.walk t) :=
  walksTo_walkWithin hs fun x _ => s.rank_le_size x

-- ============================================================================
-- Resolving and the occurs check
-- ============================================================================

/-- A walk ends at an unbound variable, which is what the type resolves to, or
    at a node, whose parts are resolved in turn. -/
theorem walksTo_var_or_node (hs : s.Acyclic) (t : Ty) :
    (∃ y, s.WalksTo t (.var y) ∧ s.resolve t = .var y) ∨
      ∃ u h ps, s.WalksTo t u ∧ u.Node h ps ∧ (s.resolve t).Node h (ps.map s.resolve) := by
  have hw := walksTo_walk hs t
  have heq := resolve_eq_of_walksTo hs (.refl _) hw
  rcases (s.walk t).var_or_node with ⟨y, hy⟩ | ⟨h, ps, hn⟩
  · rw [hy] at hw heq
    rw [resolve_var_of_none hw.unbound] at heq
    exact .inl ⟨y, hw, heq⟩
  · refine .inr ⟨_, h, ps, hw, hn, ?_⟩
    rw [heq]
    exact resolve_node s hn

/-- Induction along the resolved type: an unbound variable, or a node whose
    parts have been dealt with. -/
theorem resolve_induction (hs : s.Acyclic) {P : Ty → Prop}
    (var : ∀ t y, s.WalksTo t (.var y) → s.resolve t = .var y → P t)
    (node : ∀ t u h ps, s.WalksTo t u → u.Node h ps → (s.resolve t).Node h (ps.map s.resolve) →
      (∀ p ∈ ps, P p) → P t) (t : Ty) : P t := by
  generalize hr : s.resolve t = r
  induction r using Ty.nodeInduction generalizing t with
  | var y =>
    rcases walksTo_var_or_node hs t with ⟨z, hw, hz⟩ | ⟨u, h, ps, _, _, hn⟩
    · exact var t z hw hz
    · exact absurd hr (hn.ne_var y)
  | node r k rs hk ih =>
    rcases walksTo_var_or_node hs t with ⟨z, hw, hz⟩ | ⟨u, h, ps, hw, hu, hn⟩
    · exact var t z hw hz
    · refine node t u h ps hw hu hn fun p hp => ?_
      obtain ⟨-, rfl⟩ := (hr ▸ hn).unique hk
      exact ih _ (List.mem_map_of_mem hp) p rfl

theorem resolvesTo_resolve (hs : s.Acyclic) (t : Ty) : s.ResolvesTo t (s.resolve t) := by
  induction t using resolve_induction hs with
  | var t y hw hy =>
    rw [hy]
    exact .var hw
  | node t u h ps hw hu hn ih =>
    refine .node hw hu hn (List.length_map _).symm fun e he => ?_
    rw [← List.map_prod_left_eq_zip, List.mem_map] at he
    obtain ⟨p, hp, rfl⟩ := he
    exact ih p hp

theorem meets_occurs (hs : s.Acyclic) (x : Var) (t : Ty) : s.Meets x t (s.occurs x t) := by
  rw [occurs_eq_mentions]
  induction t using resolve_induction hs with
  | var t y hw hy =>
    rw [hy]
    exact .var hw
  | node t u h ps hw hu hn ih =>
    have hmen : (s.resolve t).mentions x ↔ ∃ p ∈ ps, (s.resolve p).mentions x := by
      simp only [hn.mentions_iff, List.mem_map, exists_exists_and_eq_and]
    cases hfind : ps.find? (fun p => (s.resolve p).mentions x) with
    | none =>
      have hnot := List.find?_eq_none.mp hfind
      rw [Bool.eq_false_iff.mpr fun hx => (hmen.mp hx).elim fun p hp => hnot p hp.1 hp.2]
      exact .absent hw hu fun p hp => Bool.eq_false_iff.mpr (hnot p hp) ▸ ih p hp
    | some p =>
      -- the search stops at the first part in which `x` is met
      obtain ⟨hp, before, after, rfl, hbefore⟩ := List.find?_eq_some_iff_append.mp hfind
      have hmem : p ∈ before ++ p :: after := by simp
      rw [hmen.mpr ⟨p, hmem, hp⟩]
      refine .found hw hu (fun q hq => ?_) (hp ▸ ih p hmem)
      have hnot : (s.resolve q).mentions x = false := by simpa using hbefore q hq
      exact hnot ▸ ih q (List.mem_append_left _ hq)

-- ============================================================================
-- One answer
-- ============================================================================

theorem WalksTo.unique {u' : Ty} (hw : s.WalksTo t u) (hw' : s.WalksTo t u') : u = u' := by
  induction hw with
  | stop ht =>
    cases hw' with
    | stop => rfl
    | hop hx => rw [ht _ rfl] at hx; cases hx
  | hop hx _ ih =>
    cases hw' with
    | stop ht => rw [ht _ rfl] at hx; cases hx
    | hop hx' hw' =>
      rw [hx] at hx'
      cases hx'
      exact ih hw'

/-- A walk does not end both at a variable and at a node. -/
theorem WalksTo.not_var_and_node (hw : s.WalksTo t (.var y)) (hw' : s.WalksTo t u) :
    ¬ u.Node h ps := by
  cases hw.unique hw'
  exact Ty.Node.not_var

theorem ResolvesTo.unique {r r' : Ty} (hr : s.ResolvesTo t r) (hr' : s.ResolvesTo t r') :
    r = r' := by
  induction hr generalizing r' with
  | var ht =>
    cases hr' with
    | var ht' => exact ht.unique ht'
    | node ht' hu => exact absurd hu (ht.not_var_and_node ht')
  | @node t u r h ps rs ht hu hn hlen _ ih =>
    cases hr' with
    | var ht' => exact absurd hu (ht'.not_var_and_node ht)
    | @node _ u' _ k ps' rs' ht' hu' hn' hlen' hparts' =>
      cases ht.unique ht'
      obtain ⟨rfl, rfl⟩ := hu.unique hu'
      refine (hn.eq_iff hn').mpr ⟨rfl, List.ext_getElem (hlen.symm.trans hlen') fun i hi hi' => ?_⟩
      have hmem : (ps[i], rs[i]) ∈ ps.zip rs := List.mem_iff_getElem.mpr
        ⟨i, by rw [List.length_zip]; omega, List.getElem_zip⟩
      have hmem' : (ps[i], rs'[i]) ∈ ps.zip rs' := List.mem_iff_getElem.mpr
        ⟨i, by rw [List.length_zip]; omega, List.getElem_zip⟩
      exact ih _ hmem (hparts' _ hmem')

theorem Meets.unique {b b' : Bool} (hm : s.Meets x t b) (hm' : s.Meets x t b') : b = b' := by
  induction hm generalizing b' with
  | var ht =>
    cases hm' with
    | var ht' => cases ht.unique ht'; rfl
    | found ht' hu => exact absurd hu (ht.not_var_and_node ht')
    | absent ht' hu => exact absurd hu (ht.not_var_and_node ht')
  | found ht hu _ _ _ ih =>
    cases hm' with
    | var ht' => exact absurd hu (ht'.not_var_and_node ht)
    | found => rfl
    | absent ht' hu' hps' =>
      cases ht.unique ht'
      obtain ⟨-, rfl⟩ := hu.unique hu'
      exact ih (hps' _ (List.mem_append_right _ List.mem_cons_self))
  | absent ht hu _ ih =>
    cases hm' with
    | var ht' => exact absurd hu (ht'.not_var_and_node ht)
    | found ht' hu' _ hp' =>
      cases ht.unique ht'
      obtain ⟨-, rfl⟩ := hu.unique hu'
      exact ih _ (List.mem_append_right _ List.mem_cons_self) hp'
    | absent => rfl

theorem AsksFor.unique {r r' : Ty} (hask : s.AsksFor t u x r) (hask' : s.AsksFor t u y r') :
    x = y ∧ r = r' := by
  cases hask with
  | left ht hu =>
    cases hask' with
    | left ht' hu' => cases ht.unique ht'; exact ⟨rfl, hu.unique hu'⟩
    | right ht' hr' => exact absurd hr' (ht.not_var_and_node ht')
  | right ht hr hu =>
    cases hask' with
    | left ht' => exact absurd hr (ht'.not_var_and_node ht)
    | right ht' _ hu' => cases hu.unique hu'; exact ⟨rfl, ht.unique ht'⟩

theorem AsksFor.not_same {r : Ty} (hask : s.AsksFor t u x r) (ht : s.WalksTo t (.var y)) :
    ¬ s.WalksTo u (.var y) := by
  intro hu
  cases hask with
  | left ht' hu' hr' =>
    cases ht.unique ht'
    exact hr' (hu'.unique hu)
  | right ht' hr' => exact ht.not_var_and_node ht' hr'

theorem AsksFor.not_nodes {r t' u' : Ty} {k : Ty.Head} {qs : List Ty} (hask : s.AsksFor t u x r)
    (ht : s.WalksTo t t') (hu : s.WalksTo u u') (ht' : t'.Node h ps) : ¬ u'.Node k qs := by
  cases hask with
  | left hx => exact absurd ht' (hx.not_var_and_node ht)
  | right _ _ hx => exact hx.not_var_and_node hu

/-- No two rules of the unifier apply to one equation. -/
theorem Unifies.unique {eqs : List (Ty × Ty)} {o o' : Option Substitution}
    (hrun : Unifies s eqs o) (hrun' : Unifies s eqs o') : o = o' := by
  induction hrun generalizing o' with
  | done => cases hrun'; rfl
  | same ht hu _ ih =>
    cases hrun' with
    | same _ _ hrest' => exact ih hrest'
    | bind hask' => exact absurd hu (hask'.not_same ht)
    | circle hask' => exact absurd hu (hask'.not_same ht)
    | parts ht' _ hn' => exact absurd hn' (ht.not_var_and_node ht')
    | clash ht' _ hn' => exact absurd hn' (ht.not_var_and_node ht')
  | bind hask hx _ ih =>
    cases hrun' with
    | same ht' hu' => exact absurd hu' (hask.not_same ht')
    | bind hask' _ hrest' =>
      obtain ⟨rfl, rfl⟩ := hask.unique hask'
      exact ih hrest'
    | circle hask' hx' =>
      obtain ⟨rfl, rfl⟩ := hask.unique hask'
      cases hx.unique hx'
    | parts ht' hu' hn' hk' => exact absurd hk' (hask.not_nodes ht' hu' hn')
    | clash ht' hu' hn' hk' => exact absurd hk' (hask.not_nodes ht' hu' hn')
  | circle hask hx =>
    cases hrun' with
    | same ht' hu' => exact absurd hu' (hask.not_same ht')
    | bind hask' hx' =>
      obtain ⟨rfl, rfl⟩ := hask.unique hask'
      cases hx.unique hx'
    | circle => rfl
    | parts ht' hu' hn' hk' => exact absurd hk' (hask.not_nodes ht' hu' hn')
    | clash => rfl
  | parts ht hu hn hk hlen _ ih =>
    cases hrun' with
    | same ht' => exact absurd hn (ht'.not_var_and_node ht)
    | bind hask' => exact absurd hk (hask'.not_nodes ht hu hn)
    | circle hask' => exact absurd hk (hask'.not_nodes ht hu hn)
    | parts ht' hu' hn' hk' _ hrest' =>
      cases ht.unique ht'
      cases hu.unique hu'
      obtain ⟨-, rfl⟩ := hn.unique hn'
      obtain ⟨-, rfl⟩ := hk.unique hk'
      exact ih hrest'
    | clash ht' hu' hn' hk' hne' =>
      cases ht.unique ht'
      cases hu.unique hu'
      obtain ⟨rfl, rfl⟩ := hn.unique hn'
      obtain ⟨rfl, rfl⟩ := hk.unique hk'
      exact absurd ⟨rfl, hlen⟩ hne'
  | clash ht hu hn hk hne =>
    cases hrun' with
    | same ht' => exact absurd hn (ht'.not_var_and_node ht)
    | bind hask' => exact absurd hk (hask'.not_nodes ht hu hn)
    | circle => rfl
    | parts ht' hu' hn' hk' hlen' =>
      cases ht.unique ht'
      cases hu.unique hu'
      obtain ⟨rfl, rfl⟩ := hn.unique hn'
      obtain ⟨rfl, rfl⟩ := hk.unique hk'
      exact absurd ⟨rfl, hlen'⟩ hne
    | clash => rfl

end Substitution
end StructuralDiff
