/-
  StructuralDiff.Proofs.Types.Termination

  Unification comes to an end, and `unify` computes a depth that it never uses
  up.

  A unification only ever binds variables that were in use when it began, and
  only to parts of types that were there: every substitution on the way is
  `Confined` to a finite set `V` of variables and to types of height at most
  `m`.  In such a substitution a type of height at most `m` resolves to one of
  height at most `(card V + 1) * m`.  The unifier goes down one level of a
  resolved type at a time, also when bindings are added meanwhile, since the
  bound holds for every confined substitution that is still to come
  (`DeepEnough`).
-/

import StructuralDiff.Proofs.Types.Runs
import StructuralDiff.Types.Unification

namespace StructuralDiff

/-- The type mentions variables of `V` only and has height at most `m`. -/
structure Ty.Within (V : Finset Var) (m : Nat) (t : Ty) : Prop where
  mem : ∀ x, t.mentions x → x ∈ V
  height_le : t.height ≤ m

namespace Substitution

variable {V : Finset Var} {m : Nat} {s s' : Substitution} {x : Var} {t u r : Ty}
variable {h k : Ty.Head} {ps qs : List Ty}

-- ============================================================================
-- Confined substitutions
-- ============================================================================

/-- An acyclic substitution that binds variables of `V` to types within `V`
    and `m`. -/
structure Confined (V : Finset Var) (m : Nat) (s : Substitution) : Prop where
  acyclic : s.Acyclic
  mem : ∀ x t, s.lookup x = some t → x ∈ V
  within : ∀ x t, s.lookup x = some t → t.Within V m

theorem within_part (ht : t.Node h ps) (hw : t.Within V m) {p : Ty} (hp : p ∈ ps) :
    p.Within V m where
  mem x hx := hw.mem x ((ht.mentions_iff x).mpr ⟨p, hp, hx⟩)
  height_le := (ht.height_lt hp).le.trans hw.height_le

theorem Confined.within_of_walksTo (hs : s.Confined V m) (ht : t.Within V m)
    (hw : s.WalksTo t u) : u.Within V m := by
  induction hw with
  | stop => exact ht
  | hop hx _ ih => exact ih (hs.within _ _ hx)

theorem Confined.set (hs : s.Confined V m) (hx : s.lookup x = none) (hxV : x ∈ V)
    (hr : r.Within V m) (hocc : s.occurs x r = false) : (s.set x r).Confined V m where
  acyclic := acyclic_set hs.acyclic hx hocc
  mem y u hy := by
    rw [lookup_set] at hy
    split at hy
    · rename_i hxy
      exact hxy ▸ hxV
    · exact hs.mem y u hy
  within y u hy := by
    rw [lookup_set] at hy
    split at hy
    · cases hy
      exact hr
    · exact hs.within y u hy

theorem Confined.size_le (hs : s.Confined V m) : s.size ≤ V.card := by
  have hsub : s.bindings.keys.toFinset ⊆ V := by
    intro x hx
    cases hlook : s.lookup x with
    | none => exact absurd (List.mem_toFinset.mp hx) ((s.bindings.find?_eq_none_iff x).mp hlook)
    | some t => exact hs.mem x t hlook
  calc s.size = s.bindings.keys.length := (List.length_map _).symm
    _ = s.bindings.keys.toFinset.card := (List.toFinset_card_of_nodup s.bindings.keys_nodup).symm
    _ ≤ V.card := Finset.card_le_card hsub

theorem Confined.height_resolve_le (hs : s.Confined V m) (ht : t.Within V m) :
    (s.resolve t).height ≤ (V.card + 1) * m := by
  have hle := Substitution.height_resolve_le (fun x u hx => (hs.within x u hx).height_le) t
  have hsize := Nat.mul_le_mul_right m hs.size_le
  have hheight := ht.height_le
  rw [Nat.succ_mul]
  omega

-- ============================================================================
-- Deep enough
-- ============================================================================

/-- However the bindings grow from `s` on, `t` resolves to a type of height
    less than `d`. -/
def DeepEnough (V : Finset Var) (m d : Nat) (s : Substitution) (t : Ty) : Prop :=
  ∀ s', s'.Confined V m → s.KeptIn s' → (s'.resolve t).height < d

theorem DeepEnough.of_keptIn {d : Nat} (hd : DeepEnough V m d s t) (hk : s.KeptIn s') :
    DeepEnough V m d s' t :=
  fun _ hs hk' => hd _ hs (hk.trans hk')

/-- One level less is enough for the parts. -/
theorem DeepEnough.part {d : Nat} (hd : DeepEnough V m (d + 1) s t) (hw : s.WalksTo t u)
    (hu : u.Node h ps) {p : Ty} (hp : p ∈ ps) : DeepEnough V m d s p := by
  intro s' hs hk
  have hlt := hd s' hs hk
  rw [resolve_eq_of_walksTo hs.acyclic hk hw] at hlt
  have hpart := (resolve_node s' hu).height_lt (List.mem_map_of_mem hp)
  omega

theorem deepEnough_of_within {d : Nat} (ht : t.Within V m) (hd : (V.card + 1) * m < d) :
    DeepEnough V m d s t :=
  fun _ hs _ => (hs.height_resolve_le ht).trans_lt hd

-- ============================================================================
-- One step of the unifier
-- ============================================================================

theorem unifyWithin_var_left (d : Nat) (ht : s.walk t = .var x) :
    unifyWithin (d + 1) s t u =
      if s.walk u = .var x then .solved s else .ofExtension (s.extend x (s.walk u)) := by
  simp only [unifyWithin, ht]

theorem unifyWithin_var_right (d : Nat) (ht : (s.walk t).Node h ps) (hu : s.walk u = .var x) :
    unifyWithin (d + 1) s t u = .ofExtension (s.extend x (s.walk t)) := by
  simp only [unifyWithin, hu]
  generalize s.walk t = t' at ht
  cases ht <;> rfl

theorem unifyWithin_node (d : Nat) (ht : (s.walk t).Node h ps) (hu : (s.walk u).Node k qs) :
    unifyWithin (d + 1) s t u =
      if h = k ∧ ps.length = qs.length then unifyPairs (unifyWithin d) s (ps.zip qs)
      else .clash := by
  simp only [unifyWithin]
  generalize s.walk t = t' at ht
  generalize s.walk u = u' at hu
  cases ht <;> cases hu <;> simp [unifyParts, unifyPairs, ite_and]

-- ============================================================================
-- Every attempt is settled
-- ============================================================================

/-- The outcome decides the equations: it is reached by a run that then goes
    on with whatever else is to be solved. -/
inductive Settled (V : Finset Var) (m : Nat) (s : Substitution) (eqs : List (Ty × Ty)) :
    UnifyOutcome → Prop where
  | solved {s' : Substitution} (hs' : s'.Confined V m) (hk : s.KeptIn s')
      (hrun : ∀ rest o, Unifies s' rest o → Unifies s (eqs ++ rest) o) :
      Settled V m s eqs (.solved s')
  | clash (hrun : ∀ rest, Unifies s (eqs ++ rest) none) : Settled V m s eqs .clash

theorem AsksFor.unbound (hask : s.AsksFor t u x r) : s.lookup x = none := by
  cases hask with
  | left ht => exact ht.unbound
  | right _ _ hu => exact hu.unbound

theorem settled_extend (hs : s.Confined V m) (hask : s.AsksFor t u x r) (hx : x ∈ V)
    (hr : r.Within V m) : Settled V m s [(t, u)] (.ofExtension (s.extend x r)) := by
  have hmeets := meets_occurs hs.acyclic x r
  rw [extend]
  cases hocc : s.occurs x r with
  | true =>
    rw [hocc] at hmeets
    exact .clash fun rest => .circle hask hmeets
  | false =>
    rw [hocc] at hmeets
    exact .solved (hs.set hask.unbound hx hr hocc) (keptIn_set hask.unbound r)
      fun rest o hrest => .bind hask hmeets hrest

theorem settled_unifyPairs {step : Substitution → Ty → Ty → UnifyOutcome} {eqs : List (Ty × Ty)}
    (hs : s.Confined V m)
    (hstep : ∀ s', s'.Confined V m → s.KeptIn s' → ∀ e ∈ eqs,
      Settled V m s' [e] (step s' e.1 e.2)) :
    Settled V m s eqs (unifyPairs step s eqs) := by
  induction eqs generalizing s with
  | nil => exact .solved hs (.refl _) fun _ _ hrest => hrest
  | cons e eqs ih =>
    have hfirst := hstep s hs (.refl _) e List.mem_cons_self
    obtain ⟨t, u⟩ := e
    rw [unifyPairs]
    generalize step s t u = out at hfirst
    cases hfirst with
    | clash hrun => exact .clash fun rest => hrun (eqs ++ rest)
    | @solved s₁ hs₁ hk₁ hrun₁ =>
      have hrest := ih hs₁ fun s' hs' hk' e he =>
        hstep s' hs' (hk₁.trans hk') e (List.mem_cons_of_mem _ he)
      simp only
      generalize unifyPairs step s₁ eqs = out at hrest
      cases hrest with
      | clash hrun => exact .clash fun rest => hrun₁ _ _ (hrun rest)
      | solved hs₂ hk₂ hrun₂ =>
        exact .solved hs₂ (hk₁.trans hk₂) fun rest o h => hrun₁ _ _ (hrun₂ rest o h)

/-- Induction on the depth; the parts of two nodes are pairs that one level
    less settles in every substitution that the earlier pairs may leave. -/
theorem settled_unifyWithin {d : Nat} (hs : s.Confined V m) (ht : t.Within V m)
    (hu : u.Within V m) (hd : DeepEnough V m d s t) :
    Settled V m s [(t, u)] (unifyWithin d s t u) := by
  induction d generalizing s t u with
  | zero => exact absurd (hd s hs (.refl _)) (Nat.not_lt_zero _)
  | succ d ih =>
    have hwt := walksTo_walk hs.acyclic t
    have hwu := walksTo_walk hs.acyclic u
    have ht' := hs.within_of_walksTo ht hwt
    have hu' := hs.within_of_walksTo hu hwu
    rcases (s.walk t).var_or_node with ⟨x, hx⟩ | ⟨h, ps, hn⟩
    · rw [unifyWithin_var_left d hx]
      rw [hx] at hwt ht'
      split
      · rename_i hsame
        rw [hsame] at hwu
        exact .solved hs (.refl _) fun rest o hrest => .same hwt hwu hrest
      · rename_i hne
        exact settled_extend hs (.left hwt hwu hne) (ht'.mem x ((Ty.mentions_var x x).mpr rfl)) hu'
    · rcases (s.walk u).var_or_node with ⟨y, hy⟩ | ⟨k, qs, hk⟩
      · rw [unifyWithin_var_right d hn hy]
        rw [hy] at hwu hu'
        exact settled_extend hs (.right hwt hn hwu) (hu'.mem y ((Ty.mentions_var y y).mpr rfl)) ht'
      · rw [unifyWithin_node d hn hk]
        split
        · rename_i heq
          obtain ⟨rfl, hlen⟩ := heq
          have hpairs : Settled V m s (ps.zip qs) (unifyPairs (unifyWithin d) s (ps.zip qs)) := by
            refine settled_unifyPairs hs fun s' hs' hkept e he => ?_
            have hp := (List.of_mem_zip he).1
            have hq := (List.of_mem_zip he).2
            exact ih hs' (within_part hn ht' hp) (within_part hk hu' hq)
              ((hd.part hwt hn hp).of_keptIn hkept)
          generalize unifyPairs (unifyWithin d) s (ps.zip qs) = out at hpairs
          cases hpairs with
          | solved hs' hkept hrun =>
            exact .solved hs' hkept fun rest o h => .parts hwt hwu hn hk hlen (hrun rest o h)
          | clash hrun => exact .clash fun rest => .parts hwt hwu hn hk hlen (hrun rest)
        · rename_i hne
          exact .clash fun rest => .clash hwt hwu hn hk hne

-- ============================================================================
-- What is in use
-- ============================================================================

/-- The variable stands in a binding of the substitution, on either side. -/
def Mentions (s : Substitution) (x : Var) : Prop :=
  ∃ y r, s.lookup y = some r ∧ (x = y ∨ r.mentions x)

theorem mentions_resolveVar {n : Nat} {y : Var} (hx : (s.resolveVar n y).mentions x) :
    x = y ∨ s.Mentions x := by
  have hchain := chain_of_mentions_resolveVar hx
  rcases (Relation.ReflTransGen.cases_tail_iff _ _ _).mp hchain with heq | ⟨z, -, r, hz, hmen⟩
  · exact .inl heq
  · exact .inr ⟨z, r, hz, .inr hmen⟩

/-- Resolving a type brings in variables of the substitution only. -/
theorem mentions_resolve (hx : (s.resolve t).mentions x) : t.mentions x ∨ s.Mentions x := by
  rw [resolve, Ty.mentions_bind] at hx
  obtain ⟨y, hy, hxy⟩ := hx
  rcases mentions_resolveVar hxy with rfl | hmen
  · exact .inl hy
  · exact .inr hmen

/-- The variables that a unification of `t` and `u` has to do with. -/
def scope (s : Substitution) (t u : Ty) : List Var :=
  s.bindings.entries.flatMap (fun e => e.1 :: e.2.vars) ++ (t.vars ++ u.vars)

theorem mem_scope (s : Substitution) (t u : Ty) (x : Var) :
    x ∈ s.scope t u ↔ s.Mentions x ∨ t.mentions x ∨ u.mentions x := by
  simp only [scope, Mentions, lookup, OrderedMap.find?_eq_some_iff, List.mem_append,
    List.mem_flatMap, List.mem_cons, Ty.mem_vars, Prod.exists]

theorem length_bound_vars_le (es : List (Var × Ty)) :
    (es.flatMap fun e => e.1 :: e.2.vars).length ≤ Ty.sizeAll (es.map Prod.snd) + es.length := by
  induction es with
  | nil => simp
  | cons e es ih =>
    have hvars := e.2.length_vars_le
    rw [List.flatMap_cons, List.length_append, List.length_cons, List.map_cons, Ty.sizeAll,
      List.length_cons]
    omega

theorem length_scope_le (s : Substitution) (t u : Ty) :
    (s.scope t u).length ≤ s.weight + t.size + u.size := by
  have hbound : (s.bindings.entries.flatMap fun e => e.1 :: e.2.vars).length ≤ s.weight :=
    length_bound_vars_le s.bindings.entries
  have ht := t.length_vars_le
  have hu := u.length_vars_le
  rw [scope, List.length_append, List.length_append]
  omega

theorem size_lt_weight {x : Var} {r : Ty} (hx : s.lookup x = some r) : r.size < s.weight := by
  have hmem := (s.bindings.find?_eq_some_iff x r).mp hx
  have hsize : r.size ≤ Ty.sizeAll s.bindings.values := Ty.size_le_sizeAll (List.mem_map_of_mem hmem)
  have hpos : 0 < s.size := List.length_pos_of_mem hmem
  rw [weight]
  omega

/-- The depth that `unify` computes settles the equation. -/
theorem settled_unify (hs : s.Acyclic) (t u : Ty) :
    Settled (s.scope t u).toFinset (s.weight + t.size + u.size) s [(t, u)]
      (unifyWithin (s.unifyDepth t u) s t u) := by
  have hmem : ∀ x, s.Mentions x ∨ t.mentions x ∨ u.mentions x → x ∈ (s.scope t u).toFinset :=
    fun x hx => List.mem_toFinset.mpr ((mem_scope s t u x).mpr hx)
  have ht := t.height_lt_size
  have hu := u.height_lt_size
  have htw : t.Within (s.scope t u).toFinset (s.weight + t.size + u.size) :=
    ⟨fun x hx => hmem x (.inr (.inl hx)), by omega⟩
  have huw : u.Within (s.scope t u).toFinset (s.weight + t.size + u.size) :=
    ⟨fun x hx => hmem x (.inr (.inr hx)), by omega⟩
  refine settled_unifyWithin ⟨hs, ?_, ?_⟩ htw huw (deepEnough_of_within htw ?_)
  · exact fun x r hx => hmem x (.inl ⟨x, r, hx, .inl rfl⟩)
  · intro x r hx
    have hr := r.height_lt_size
    have hlt := size_lt_weight hx
    exact ⟨fun y hy => hmem y (.inl ⟨x, r, hx, .inr hy⟩), by omega⟩
  · have hcard := (List.toFinset_card_le (s.scope t u)).trans (length_scope_le s t u)
    rw [unifyDepth]
    generalize s.weight + t.size + u.size = m at hcard
    exact Nat.mul_lt_mul_of_le_of_lt (Nat.succ_le_succ hcard) (Nat.lt_succ_self m)
      (Nat.succ_pos m)

/-- The unifier, run without a bound, ends with the answer of `unify`. -/
theorem unifies_unify (hs : s.Acyclic) (t u : Ty) : s.Unifies [(t, u)] (s.unify t u) := by
  have hsettled := settled_unify hs t u
  rw [unify]
  generalize unifyWithin (s.unifyDepth t u) s t u = out at hsettled
  cases hsettled with
  | solved _ _ hrun => exact hrun [] _ .done
  | clash hrun => exact hrun []

theorem confined_of_unify (hs : s.Acyclic) (h : s.unify t u = some s') :
    s'.Confined (s.scope t u).toFinset (s.weight + t.size + u.size) ∧ s.KeptIn s' := by
  have hsettled := settled_unify hs t u
  rw [unify] at h
  generalize unifyWithin (s.unifyDepth t u) s t u = out at hsettled h
  cases hsettled with
  | solved hs' hk _ =>
    cases h
    exact ⟨hs', hk⟩
  | clash => cases h

theorem acyclic_of_unify (hs : s.Acyclic) (h : s.unify t u = some s') : s'.Acyclic :=
  (confined_of_unify hs h).1.acyclic

/-- A unification binds variables in use to types over variables in use. -/
theorem mentions_of_unify (hs : s.Acyclic) (h : s.unify t u = some s') (hx : s'.Mentions x) :
    s.Mentions x ∨ t.mentions x ∨ u.mentions x := by
  have hconf := (confined_of_unify hs h).1
  obtain ⟨y, r, hy, rfl | hmen⟩ := hx
  · exact (mem_scope s t u x).mp (List.mem_toFinset.mp (hconf.mem x r hy))
  · exact (mem_scope s t u x).mp (List.mem_toFinset.mp ((hconf.within y r hy).mem x hmen))

end Substitution
end StructuralDiff
