/-
  StructuralDiff.Proofs.Types.Equivariance

  Nothing that unification does depends on which variables it works on.

  An injective renaming `σ`, applied to the bindings of a substitution and to
  all types in play, turns each rule of the searches and of the unifier into
  the same rule.  So a run becomes a run of the same shape (`Unifies.rename`),
  and since runs have one answer, `unify` and `resolve` commute with `σ`.
  Injectivity is used in two places: a variable that is unbound stays unbound,
  and the occurs check tells the same variables apart.
-/

import StructuralDiff.Proofs.Types.Termination

namespace StructuralDiff

-- ============================================================================
-- Renaming the bindings
-- ============================================================================

theorem OrderedMap.findIn_map {κ ν : Type} [DecidableEq κ] {f : κ → κ}
    (hf : Function.Injective f) (g : ν → ν) (k : κ) (l : List (κ × ν)) :
    findIn (f k) (l.map (Prod.map f g)) = (findIn k l).map g := by
  induction l with
  | nil => rfl
  | cons e l ih =>
    obtain ⟨k', x⟩ := e
    simp only [List.map_cons, Prod.map_apply, findIn, hf.eq_iff]
    split
    · rfl
    · exact ih

theorem OrderedMap.insertIn_map {κ ν : Type} [DecidableEq κ] {f : κ → κ}
    (hf : Function.Injective f) (g : ν → ν) (k : κ) (x : ν) (l : List (κ × ν)) :
    insertIn (f k) (g x) (l.map (Prod.map f g)) = (insertIn k x l).map (Prod.map f g) := by
  induction l with
  | nil => rfl
  | cons e l ih =>
    obtain ⟨k', y⟩ := e
    simp only [List.map_cons, Prod.map_apply, insertIn, hf.eq_iff]
    split
    · rfl
    · rw [ih, List.map_cons, Prod.map_apply]

namespace Substitution

variable {s s' : Substitution} {x y : Var} {t u r : Ty} {σ : Var → Var}
variable {hσ : Function.Injective σ}

/-- The substitution with every variable replaced, on both sides of the
    bindings. -/
def rename (s : Substitution) (σ : Var → Var) (hσ : Function.Injective σ) : Substitution where
  bindings :=
    { entries := s.bindings.entries.map (Prod.map σ (Ty.rename σ))
      keys_nodup := by
        have hnodup := s.bindings.keys_nodup.map hσ
        rw [List.map_map] at hnodup ⊢
        exact hnodup }

theorem rename_empty : empty.rename σ hσ = empty := rfl

theorem size_rename : (s.rename σ hσ).size = s.size := List.length_map _

theorem lookup_rename (x : Var) :
    (s.rename σ hσ).lookup (σ x) = (s.lookup x).map (Ty.rename σ) :=
  OrderedMap.findIn_map hσ _ x _

theorem lookup_rename_of_some (hx : s.lookup x = some t) :
    (s.rename σ hσ).lookup (σ x) = some (t.rename σ) := by
  rw [lookup_rename, hx, Option.map_some]

theorem lookup_rename_of_none (hx : s.lookup x = none) :
    (s.rename σ hσ).lookup (σ x) = none := by
  rw [lookup_rename, hx, Option.map_none]

theorem rename_set (x : Var) (t : Ty) :
    (s.set x t).rename σ hσ = (s.rename σ hσ).set (σ x) (t.rename σ) := by
  have hentries := OrderedMap.insertIn_map hσ (Ty.rename σ) x t s.bindings.entries
  simp only [rename, set, OrderedMap.insert, hentries]

theorem lookup_of_rename (hx : (s.rename σ hσ).lookup y = some r) :
    ∃ x t, y = σ x ∧ r = t.rename σ ∧ s.lookup x = some t := by
  have hmem := (OrderedMap.find?_eq_some_iff _ y r).mp hx
  obtain ⟨e, he, heq⟩ := List.mem_map.mp hmem
  cases heq
  exact ⟨e.1, e.2, rfl, rfl, (s.bindings.find?_eq_some_iff _ _).mpr he⟩

theorem leadsTo_of_rename (h : (s.rename σ hσ).LeadsTo (σ x) y) : ∃ z, y = σ z ∧ s.LeadsTo x z := by
  obtain ⟨r, hx, hy⟩ := h
  obtain ⟨x', t, hxx', rfl, ht⟩ := lookup_of_rename hx
  obtain ⟨z, hz, rfl⟩ := (Ty.mentions_rename t σ y).mp hy
  exact ⟨z, rfl, t, hσ hxx' ▸ ht, hz⟩

theorem acyclic_rename (hs : s.Acyclic) : (s.rename σ hσ).Acyclic := by
  -- a chain that starts at a renamed variable is a renamed chain
  have hchain : ∀ x y, Relation.TransGen (s.rename σ hσ).LeadsTo (σ x) y →
      ∃ z, y = σ z ∧ Relation.TransGen s.LeadsTo x z := by
    intro x y h
    induction h with
    | single hxy =>
      obtain ⟨z, rfl, hz⟩ := leadsTo_of_rename hxy
      exact ⟨z, rfl, .single hz⟩
    | tail _ hyz ih =>
      obtain ⟨y', rfl, hy'⟩ := ih
      obtain ⟨z, rfl, hz⟩ := leadsTo_of_rename hyz
      exact ⟨z, rfl, hy'.tail hz⟩
  intro y h
  obtain ⟨z, ⟨r, hy, -⟩, -⟩ := Relation.TransGen.head'_iff.mp h
  obtain ⟨x, t, rfl, -, -⟩ := lookup_of_rename hy
  obtain ⟨x', hxx', hcircle⟩ := hchain x _ h
  exact hs x (hσ hxx' ▸ hcircle)

-- ============================================================================
-- Renaming a search
-- ============================================================================

theorem WalksTo.rename (hw : s.WalksTo t u) :
    (s.rename σ hσ).WalksTo (t.rename σ) (u.rename σ) := by
  induction hw with
  | @stop t ht =>
    refine .stop fun y hy => ?_
    rcases t.var_or_node with ⟨x, rfl⟩ | ⟨h, ps, hn⟩
    · cases hy
      exact lookup_rename_of_none (ht x rfl)
    · exact absurd hy ((hn.rename σ).ne_var y)
  | hop hx _ ih => exact .hop (lookup_rename_of_some hx) ih

theorem Meets.rename {b : Bool} (hm : s.Meets x t b) :
    (s.rename σ hσ).Meets (σ x) (t.rename σ) b := by
  induction hm with
  | @var t y ht =>
    have hbeq : (y == x) = (σ y == σ x) := Bool.eq_iff_iff.mpr (by simp [hσ.eq_iff])
    rw [hbeq]
    exact .var ht.rename
  | found ht hu _ _ ihps ihp =>
    have hu' := hu.rename σ
    rw [List.map_append, List.map_cons] at hu'
    exact .found ht.rename hu' (List.forall_mem_map.mpr ihps) ihp
  | absent ht hu _ ih => exact .absent ht.rename (hu.rename σ) (List.forall_mem_map.mpr ih)

theorem AsksFor.rename (hask : s.AsksFor t u x r) :
    (s.rename σ hσ).AsksFor (t.rename σ) (u.rename σ) (σ x) (r.rename σ) := by
  cases hask with
  | left ht hu hr =>
    refine .left ht.rename hu.rename fun hr' => hr ?_
    rcases r.var_or_node with ⟨y, rfl⟩ | ⟨h, ps, hn⟩
    · exact congrArg Ty.var (hσ (Ty.var.inj hr'))
    · exact absurd hr' ((hn.rename σ).ne_var _)
  | right ht hr hu => exact .right ht.rename (hr.rename σ) hu.rename

/-- A renamed run solves the renamed equations. -/
theorem Unifies.rename {eqs : List (Ty × Ty)} {o : Option Substitution}
    (hrun : Unifies s eqs o) :
    Unifies (s.rename σ hσ) (eqs.map (Prod.map (Ty.rename σ) (Ty.rename σ)))
      (o.map fun s' => s'.rename σ hσ) := by
  induction hrun with
  | done => exact .done
  | same ht hu _ ih => exact .same ht.rename hu.rename ih
  | bind hask hm _ ih =>
    rw [rename_set] at ih
    exact .bind hask.rename hm.rename ih
  | circle hask hm => exact .circle hask.rename hm.rename
  | parts ht hu ht' hu' hlen _ ih =>
    rw [List.map_append, ← List.zip_map] at ih
    refine .parts ht.rename hu.rename (ht'.rename σ) (hu'.rename σ) ?_ ih
    rw [List.length_map, List.length_map, hlen]
  | clash ht hu ht' hu' hne =>
    refine .clash ht.rename hu.rename (ht'.rename σ) (hu'.rename σ) ?_
    rw [List.length_map, List.length_map]
    exact hne

-- ============================================================================
-- Renaming the answer
-- ============================================================================

theorem unify_rename (hs : s.Acyclic) (hσ : Function.Injective σ) (t u : Ty) :
    (s.rename σ hσ).unify (t.rename σ) (u.rename σ) =
      (s.unify t u).map fun s' => s'.rename σ hσ :=
  (unifies_unify (acyclic_rename hs) _ _).unique (unifies_unify hs t u).rename

theorem resolveVar_rename (n : Nat) (x : Var) :
    (s.rename σ hσ).resolveVar n (σ x) = (s.resolveVar n x).rename σ := by
  induction n generalizing x with
  | zero => rfl
  | succ n ih =>
    rw [resolveVar, resolveVar, lookup_rename]
    cases s.lookup x with
    | none => rfl
    | some t =>
      simp only [Option.map_some]
      rw [Ty.rename_bind, Ty.bind_rename]
      exact Ty.bind_congr fun y _ => ih y

theorem resolve_rename (hσ : Function.Injective σ) (t : Ty) :
    (s.rename σ hσ).resolve (t.rename σ) = (s.resolve t).rename σ := by
  rw [resolve, resolve, size_rename, Ty.rename_bind, Ty.bind_rename]
  exact Ty.bind_congr fun x _ => resolveVar_rename s.size x

end Substitution
end StructuralDiff
