/-
  StructuralDiff.Proofs.Types.Chains

  Where the bindings of a substitution lead.

  In an acyclic substitution every variable has a `rank`, the number of bound
  variables on the chains that start at it.  A variable ranks above every
  variable that its type mentions, and no rank exceeds the number of bindings;
  so the bounds inside `walk`, `resolve` and `occurs` are never met
  (`resolveVar_eq_of_rank_le`), and facts about them go by induction on ranks.

  `acyclic_set` is the point of the occurs check: binding an unbound variable
  that is not met in its new type closes no circle.
-/

import Mathlib.Data.Finset.Card
import Mathlib.Logic.Relation
import StructuralDiff.Proofs.Types.Traversal
import StructuralDiff.Types.Substitution

namespace StructuralDiff
namespace Substitution

open Relation

variable {s s' : Substitution} {x y z : Var} {t u : Ty}

-- ============================================================================
-- Bindings
-- ============================================================================

theorem lookup_set (s : Substitution) (x : Var) (t : Ty) (y : Var) :
    (s.set x t).lookup y = if x = y then some t else s.lookup y :=
  OrderedMap.find?_insert s.bindings x y t

/-- Every binding of `s` stands unchanged in `s'`. -/
def KeptIn (s s' : Substitution) : Prop := s.bindings.KeptIn s'.bindings

theorem keptIn_set (hx : s.lookup x = none) (t : Ty) : s.KeptIn (s.set x t) :=
  OrderedMap.keptIn_insert hx t

-- ============================================================================
-- Ranks
-- ============================================================================

open Classical in
/-- The number of bound variables on the chains that start at `x`. -/
noncomputable def rank (s : Substitution) (x : Var) : Nat :=
  (s.bindings.keys.toFinset.filter (ReflTransGen s.LeadsTo x)).card

theorem rank_le_size (s : Substitution) (x : Var) : s.rank x ≤ s.size := by
  classical
  calc s.rank x ≤ s.bindings.keys.toFinset.card := Finset.card_filter_le _ _
    _ ≤ s.bindings.keys.length := List.toFinset_card_le _
    _ = s.size := List.length_map _

theorem rank_pos_of_lookup (h : s.lookup x = some t) : 0 < s.rank x := by
  classical
  refine Finset.card_pos.mpr ⟨x, Finset.mem_filter.mpr ⟨?_, .refl⟩⟩
  exact List.mem_toFinset.mpr (OrderedMap.mem_keys_of_find? h)

theorem lookup_of_rank_le_zero (h : s.rank x ≤ 0) : s.lookup x = none := by
  rw [Option.eq_none_iff_forall_ne_some]
  intro t hx
  have hpos := rank_pos_of_lookup hx
  omega

/-- Following a binding leads to a variable of smaller rank: the variable one
    came from is no longer ahead. -/
theorem rank_lt_of_leadsTo (hs : s.Acyclic) (h : s.LeadsTo x y) : s.rank y < s.rank x := by
  classical
  obtain ⟨t, ht, -⟩ := id h
  refine Finset.card_lt_card ⟨fun z hz => ?_, fun hsub => ?_⟩
  · rw [Finset.mem_filter] at hz ⊢
    exact ⟨hz.1, .head h hz.2⟩
  · have hx := List.mem_toFinset.mpr (OrderedMap.mem_keys_of_find? ht)
    have hback := (Finset.mem_filter.mp (hsub (Finset.mem_filter.mpr ⟨hx, .refl⟩))).2
    exact hs x (.head' h hback)

/-- Any numbering that every binding decreases rules circles out. -/
theorem acyclic_of_rank (r : Var → Nat) (hr : ∀ x y, s.LeadsTo x y → r y < r x) : s.Acyclic := by
  have hlt : ∀ x y, TransGen s.LeadsTo x y → r y < r x := by
    intro x y h
    induction h with
    | single h => exact hr _ _ h
    | tail _ h ih => exact (hr _ _ h).trans ih
  exact fun x h => lt_irrefl _ (hlt x x h)

theorem acyclic_empty : empty.Acyclic := by
  refine acyclic_of_rank (fun _ => 0) ?_
  rintro x y ⟨t, ht, -⟩
  cases ht

-- ============================================================================
-- Resolving
-- ============================================================================

/-- A bound of at least the rank of a variable is as good as any other. -/
theorem resolveVar_eq_of_rank_le (hs : s.Acyclic) {m n : Nat} (hm : s.rank x ≤ m)
    (hn : s.rank x ≤ n) : s.resolveVar m x = s.resolveVar n x := by
  induction m generalizing n x with
  | zero =>
    have hx := lookup_of_rank_le_zero hm
    cases n <;> simp [resolveVar, hx]
  | succ m ih =>
    cases hx : s.lookup x with
    | none => cases n <;> simp [resolveVar, hx]
    | some t =>
      have hpos := rank_pos_of_lookup hx
      obtain ⟨n, rfl⟩ := Nat.exists_eq_succ_of_ne_zero (show n ≠ 0 by omega)
      simp only [resolveVar, hx]
      refine Ty.bind_congr fun y hy => ?_
      have hlt := rank_lt_of_leadsTo hs ⟨t, hx, hy⟩
      exact ih (by omega) (by omega)

/-- Resolving is replacing each variable by what it resolves to. -/
theorem resolve_eq_bind (s : Substitution) (t : Ty) :
    s.resolve t = t.bind fun x => s.resolve (.var x) := rfl

theorem resolve_var_of_none (hx : s.lookup x = none) : s.resolve (.var x) = .var x := by
  rw [resolve, Ty.bind_var]
  cases s.size <;> simp [resolveVar, hx]

theorem resolve_var_of_lookup (hs : s.Acyclic) (hx : s.lookup x = some t) :
    s.resolve (.var x) = s.resolve t := by
  have hle := s.rank_le_size x
  calc s.resolve (.var x) = s.resolveVar (s.size + 1) x :=
        resolveVar_eq_of_rank_le hs hle (hle.trans (Nat.le_succ _))
    _ = s.resolve t := by simp only [resolveVar, hx, resolve]

theorem resolve_node {h : Ty.Head} {ps : List Ty} (s : Substitution) (ht : t.Node h ps) :
    (s.resolve t).Node h (ps.map s.resolve) :=
  ht.bind _

theorem height_resolve_le {m : Nat} (hs : ∀ x t, s.lookup x = some t → t.height ≤ m) (t : Ty) :
    (s.resolve t).height ≤ t.height + s.size * m := by
  have hvar : ∀ n x, (s.resolveVar n x).height ≤ n * m := by
    intro n
    induction n with
    | zero => simp [resolveVar, Ty.height]
    | succ n ih =>
      intro x
      rw [resolveVar]
      cases hx : s.lookup x with
      | none => simp [Ty.height]
      | some u =>
        have hu := hs x u hx
        have hbind := Ty.height_bind_le (t := u) fun y _ => ih y
        rw [Nat.succ_mul]
        simp only
        omega
  exact Ty.height_bind_le fun x _ => hvar _ x

-- ============================================================================
-- The occurs check
-- ============================================================================

theorem reaches_eq_mentions (s : Substitution) (x : Var) (n : Nat) (y : Var) :
    s.reaches x n y = (s.resolveVar n y).mentions x := by
  induction n generalizing y with
  | zero => rfl
  | succ n ih =>
    rw [reaches, resolveVar]
    cases hy : s.lookup y with
    | none => rfl
    | some t =>
      rw [Bool.eq_iff_iff, Ty.anyVar_iff, Ty.mentions_bind]
      simp only [ih]

/-- A variable is met in a type when the resolved type mentions it. -/
theorem occurs_eq_mentions (s : Substitution) (x : Var) (t : Ty) :
    s.occurs x t = (s.resolve t).mentions x := by
  rw [occurs, resolve, Bool.eq_iff_iff, Ty.anyVar_iff, Ty.mentions_bind]
  simp only [reaches_eq_mentions]

/-- Resolving follows the bindings to whatever unbound variable they lead to. -/
theorem mentions_resolve_of_chain (hs : s.Acyclic) (h : ReflTransGen s.LeadsTo y x)
    (hx : s.lookup x = none) : (s.resolve (.var y)).mentions x := by
  induction h using ReflTransGen.head_induction_on with
  | refl => rw [resolve_var_of_none hx, Ty.mentions_var]
  | head hstep _ ih =>
    obtain ⟨t, ht, hmen⟩ := hstep
    rw [resolve_var_of_lookup hs ht, resolve_eq_bind, Ty.mentions_bind]
    exact ⟨_, hmen, ih⟩

/-- Resolving a variable meets only variables that the bindings lead to. -/
theorem chain_of_mentions_resolveVar {n : Nat} (hx : (s.resolveVar n y).mentions x) :
    ReflTransGen s.LeadsTo y x := by
  induction n generalizing y with
  | zero =>
    obtain rfl := (Ty.mentions_var x y).mp hx
    exact .refl
  | succ n ih =>
    rw [resolveVar] at hx
    cases hy : s.lookup y with
    | none =>
      rw [hy] at hx
      obtain rfl := (Ty.mentions_var x y).mp hx
      exact .refl
    | some r =>
      simp only [hy, Ty.mentions_bind] at hx
      obtain ⟨z, hz, hzx⟩ := hx
      exact .head ⟨r, hy, hz⟩ (ih hzx)

/-- An unbound variable is left in a resolved type when the bindings lead to it
    from some variable of the type. -/
theorem mentions_resolve_iff (hs : s.Acyclic) (hx : s.lookup x = none) (t : Ty) :
    (s.resolve t).mentions x ↔ ∃ y, t.mentions y ∧ ReflTransGen s.LeadsTo y x := by
  rw [resolve_eq_bind, Ty.mentions_bind]
  constructor
  · rintro ⟨y, hy, hyx⟩
    exact ⟨y, hy, chain_of_mentions_resolveVar hyx⟩
  · rintro ⟨y, hy, hyx⟩
    exact ⟨y, hy, mentions_resolve_of_chain hs hyx hx⟩

theorem leadsTo_set (h : (s.set x t).LeadsTo y z) :
    s.LeadsTo y z ∨ y = x ∧ t.mentions z := by
  obtain ⟨u, hu, hmen⟩ := h
  rw [lookup_set] at hu
  split at hu
  · rename_i hxy
    cases hu
    exact .inr ⟨hxy.symm, hmen⟩
  · exact .inl ⟨u, hu, hmen⟩

/-- Binding an unbound variable to a type in which it is not met keeps a
    substitution acyclic. -/
theorem acyclic_set (hs : s.Acyclic) (hx : s.lookup x = none) (hocc : s.occurs x t = false) :
    (s.set x t).Acyclic := by
  classical
  -- the variables that lead to `x` move above all others
  let r (y : Var) : Nat :=
    if ReflTransGen s.LeadsTo y x then s.rank y + (s.size + 1) else s.rank y
  refine acyclic_of_rank r fun y z h => ?_
  rcases leadsTo_set h with hold | ⟨rfl, hmen⟩
  · have hlt := rank_lt_of_leadsTo hs hold
    by_cases hz : ReflTransGen s.LeadsTo z x
    · have hy : ReflTransGen s.LeadsTo y x := .head hold hz
      simp only [r, if_pos hy, if_pos hz]
      omega
    · simp only [r, if_neg hz]
      split <;> omega
  · have hz : ¬ ReflTransGen s.LeadsTo z y := by
      intro hz
      have hmet : (s.resolve t).mentions y :=
        (mentions_resolve_iff hs hx t).mpr ⟨z, hmen, hz⟩
      rw [occurs_eq_mentions, hmet] at hocc
      cases hocc
    have hle := s.rank_le_size z
    have hy : ReflTransGen s.LeadsTo y y := .refl
    simp only [r, if_neg hz, if_pos hy]
    omega

end Substitution
end StructuralDiff
