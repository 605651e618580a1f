/-
  StructuralDiff.Proofs.Types.Saturation

  Types whose composites all have as many arguments as their constructors take.

  Replacing variables gives such a type exactly if it was given one, and one for
  each variable in it (`Ty.saturated_bind_iff`).  A unifier stores nothing but
  what it finds by walking from the two sides and from the parts of what it
  finds, so it stores such types only if it is given such types
  (`Unifies.saturated`).

  `rebuild` resolves a type as `resolve` does, but has each composite built by
  its constructor, which refuses a wrong number of arguments: it walks, resolves
  the parts of what it finds and builds that anew (`rebuild_eq_of_walk`).  It is
  refused nothing as long as what it comes to is saturated, and it comes to what
  `resolve` comes to (`rebuild_eq_ok_iff`).
-/

import StructuralDiff.Proofs.Fallible
import StructuralDiff.Proofs.Types.Copies
import StructuralDiff.Proofs.Types.Reached

namespace StructuralDiff

-- ============================================================================
-- Saturated types
-- ============================================================================

namespace Ty

variable {t u p q r : Ty} {h : Head} {ps ts : List Ty}

/-- The type `p` stands in `t`: it is `t`, or it stands in a part of `t`. -/
inductive Inside (p : Ty) : Ty → Prop where
  | self : Inside p p
  | part {t q : Ty} {h : Head} {ps : List Ty} (ht : t.Node h ps) (hq : q ∈ ps)
      (hp : Inside p q) : Inside p t

theorem Inside.trans (hp : p.Inside q) (hq : q.Inside t) : p.Inside t := by
  induction hq with
  | self => exact hp
  | part ht hmem _ ih => exact .part ht hmem ih

/-- Every composite in the type has as many arguments as its constructor
    takes. -/
def Saturated (t : Ty) : Prop := ∀ c args, (composite c args).Inside t → args.length = c.arity

theorem Saturated.inside (ht : t.Saturated) (hp : p.Inside t) : p.Saturated := by
  intro c args hc
  exact ht c args (hc.trans hp)

/-- The head may stand over `n` parts: a constructor only over as many as it
    takes. -/
def Head.Takes : Head → Nat → Prop
  | .composite c, n => n = c.arity
  | .atomic _, _ => True
  | .tuple, _ => True

theorem saturated_var (x : Var) : (var x).Saturated := by
  intro c args hc
  cases hc with
  | part ht => exact absurd ht Node.not_var

theorem Node.saturated_iff (ht : t.Node h ps) :
    t.Saturated ↔ h.Takes ps.length ∧ ∀ p ∈ ps, p.Saturated := by
  constructor
  · intro hs
    refine ⟨?_, fun p hp => hs.inside (.part ht hp .self)⟩
    cases ht with
    | atomic n => exact trivial
    | tuple ts => exact trivial
    | composite c ts => exact hs c _ .self
  · rintro ⟨htakes, hparts⟩ c args hc
    cases hc with
    | self =>
      cases ht
      exact htakes
    | part ht' hq hin =>
      obtain ⟨rfl, rfl⟩ := ht.unique ht'
      exact hparts _ hq c args hin

theorem saturated_atomic (n : String) : (atomic n).Saturated :=
  (Node.atomic n).saturated_iff.mpr ⟨trivial, fun _ hp => absurd hp List.not_mem_nil⟩

theorem saturated_tuple_iff : (tuple ts).Saturated ↔ ∀ t ∈ ts, t.Saturated :=
  (Node.tuple ts).saturated_iff.trans (and_iff_right trivial)

theorem saturated_composite_iff {c : TypeConstructor} :
    (composite c ts).Saturated ↔ ts.length = c.arity ∧ ∀ t ∈ ts, t.Saturated :=
  (Node.composite c ts).saturated_iff

/-- Replacing variables neither adds arguments nor takes any away. -/
theorem saturated_bind_iff (t : Ty) (f : Var → Ty) :
    (t.bind f).Saturated ↔ t.Saturated ∧ ∀ x, t.mentions x → (f x).Saturated := by
  induction t using nodeInduction with
  | var x => simp [saturated_var]
  | node t h ps ht ih =>
    rw [(ht.bind f).saturated_iff, ht.saturated_iff, List.length_map, List.forall_mem_map, and_assoc]
    refine and_congr_right fun _ => ⟨fun hall => ⟨fun p hp => ?_, fun x hx => ?_⟩, ?_⟩
    · exact ((ih p hp).mp (hall p hp)).1
    · obtain ⟨p, hp, hpx⟩ := (ht.mentions_iff x).mp hx
      exact ((ih p hp).mp (hall p hp)).2 x hpx
    · rintro ⟨hparts, hvars⟩ p hp
      refine (ih p hp).mpr ⟨hparts p hp, fun x hx => hvars x ?_⟩
      exact (ht.mentions_iff x).mpr ⟨p, hp, hx⟩

theorem saturated_rename_iff (t : Ty) (σ : Var → Var) : (t.rename σ).Saturated ↔ t.Saturated := by
  rw [rename, saturated_bind_iff]
  exact and_iff_left fun x _ => saturated_var (σ x)

end Ty

/-- A copy with new variables has the composites of what it is a copy of. -/
theorem Renaming.saturated_renameTy_iff (r : Renaming) (t : Ty) :
    (r.renameTy t).1.Saturated ↔ t.Saturated := by
  rw [fst_renameTy t r (.refl _), Ty.saturated_rename_iff]

theorem Renaming.saturated_renameComposite_iff (r : Renaming) (c : CompositeTy) :
    (r.renameComposite c).1.toTy.Saturated ↔ c.toTy.Saturated :=
  r.saturated_renameTy_iff c.toTy

-- ============================================================================
-- Saturated substitutions
-- ============================================================================

namespace Substitution

variable {s s' : Substitution} {x : Var} {t u r : Ty}

/-- Every type that the substitution stores is saturated. -/
def Saturated (s : Substitution) : Prop := ∀ x t, s.lookup x = some t → t.Saturated

theorem saturated_empty : empty.Saturated := by
  intro x t hx
  cases hx

theorem Saturated.set (hs : s.Saturated) (ht : t.Saturated) (x : Var) : (s.set x t).Saturated := by
  intro y u hy
  rw [lookup_set] at hy
  split at hy
  · cases hy
    exact ht
  · exact hs y u hy

theorem Saturated.extend (hs : s.Saturated) (ht : t.Saturated) (h : s.extend x t = some s') :
    s'.Saturated := by
  rw [Substitution.extend] at h
  split at h
  · cases h
  · cases h
    exact hs.set ht x

theorem Saturated.resolveVar (hs : s.Saturated) (n : Nat) (x : Var) :
    (s.resolveVar n x).Saturated := by
  induction n generalizing x with
  | zero => exact Ty.saturated_var x
  | succ n ih =>
    rw [Substitution.resolveVar]
    cases hx : s.lookup x with
    | none => exact Ty.saturated_var x
    | some t => exact (t.saturated_bind_iff _).mpr ⟨hs x t hx, fun y _ => ih y⟩

theorem Saturated.resolve (hs : s.Saturated) (ht : t.Saturated) : (s.resolve t).Saturated :=
  (t.saturated_bind_iff _).mpr ⟨ht, fun x _ => hs.resolveVar s.size x⟩

theorem WalksTo.saturated (hw : s.WalksTo t u) (hs : s.Saturated) (ht : t.Saturated) :
    u.Saturated := by
  induction hw with
  | stop => exact ht
  | hop hx _ ih => exact ih (hs _ _ hx)

theorem AsksFor.saturated (hask : s.AsksFor t u x r) (hs : s.Saturated) (ht : t.Saturated)
    (hu : u.Saturated) : r.Saturated := by
  cases hask with
  | left _ hur => exact hur.saturated hs hu
  | right htr => exact htr.saturated hs ht

/-- A run of the unifier stores saturated types only, if it is given no others. -/
theorem Unifies.saturated {eqs : List (Ty × Ty)} {o : Option Substitution}
    (hrun : Unifies s eqs o) (hs : s.Saturated)
    (heqs : ∀ e ∈ eqs, e.1.Saturated ∧ e.2.Saturated) (ho : o = some s') : s'.Saturated := by
  induction hrun with
  | done =>
    cases ho
    exact hs
  | same _ _ _ ih => exact ih hs (List.forall_mem_cons.mp heqs).2 ho
  | bind hask _ _ ih =>
    obtain ⟨⟨ht, hu⟩, hrest⟩ := List.forall_mem_cons.mp heqs
    exact ih (hs.set (hask.saturated hs ht hu) _) hrest ho
  | circle => cases ho
  | parts htw huw ht' hu' _ _ ih =>
    -- the parts of what was walked to take the place of the equation
    obtain ⟨⟨ht, hu⟩, hrest⟩ := List.forall_mem_cons.mp heqs
    have hps := (ht'.saturated_iff.mp (htw.saturated hs ht)).2
    have hqs := (hu'.saturated_iff.mp (huw.saturated hs hu)).2
    refine ih hs (List.forall_mem_append.mpr ⟨fun e he => ?_, hrest⟩) ho
    exact ⟨hps _ (List.of_mem_zip he).1, hqs _ (List.of_mem_zip he).2⟩
  | clash => cases ho

theorem Saturated.unify (hs : s.Saturated) (hacyclic : s.Acyclic) (ht : t.Saturated)
    (hu : u.Saturated) (h : s.unify t u = some s') : s'.Saturated := by
  have hrun := unifies_unify hacyclic t u
  refine hrun.saturated hs ?_ h
  rw [List.forall_mem_singleton]
  exact ⟨ht, hu⟩

end Substitution

-- ============================================================================
-- Building composites anew
-- ============================================================================

theorem TypeConstructor.apply_eq_ok_iff {c : TypeConstructor} {args : List Ty} {d : CompositeTy} :
    c.apply args = .ok d ↔ args.length = c.arity ∧ d = ⟨c, args⟩ := by
  rw [apply]
  split
  · rename_i h
    rw [and_iff_right h, Except.ok.injEq, eq_comm]
  · rename_i h
    constructor
    · intro hrefused
      cases hrefused
    · exact fun hd => absurd hd.1 h

namespace Ty

variable {f : Var → Except ArityError Ty} {g : Var → Ty} {ts : List Ty}

mutual
/-- Replace every variable, and have every composite built by its constructor:
    the arguments from left to right, then the composite around them. -/
def rebuild (f : Var → Except ArityError Ty) : Ty → Except ArityError Ty
  | .atomic n => .ok (.atomic n)
  | .var x => f x
  | .tuple ts => do
    let items ← rebuildAll f ts
    return .tuple items
  | .composite c ts => do
    let args ← rebuildAll f ts
    let built ← c.apply args
    return built.toTy

/-- The same for each type of a list. -/
def rebuildAll (f : Var → Except ArityError Ty) : List Ty → Except ArityError (List Ty)
  | [] => .ok []
  | t :: ts => do
    let u ← rebuild f t
    let us ← rebuildAll f ts
    return u :: us
end

theorem rebuildAll_eq_mapM (ts : List Ty) : rebuildAll f ts = ts.mapM (rebuild f) := by
  induction ts with
  | nil => rfl
  | cons t ts ih => rw [rebuildAll, List.mapM_cons, ih]

theorem rebuildAll_congr {f' : Var → Except ArityError Ty}
    (h : ∀ t ∈ ts, t.rebuild f = t.rebuild f') : rebuildAll f ts = rebuildAll f' ts := by
  induction ts with
  | nil => rfl
  | cons t ts ih =>
    obtain ⟨ht, hts⟩ := List.forall_mem_cons.mp h
    rw [rebuildAll, rebuildAll, ht, ih hts]

theorem rebuild_congr {f' : Var → Except ArityError Ty} {t : Ty}
    (h : ∀ x, t.mentions x → f x = f' x) : t.rebuild f = t.rebuild f' := by
  induction t using nodeInduction with
  | var x => exact h x ((mentions_var x x).mpr rfl)
  | node t k ps ht ih =>
    have hall : rebuildAll f ps = rebuildAll f' ps :=
      rebuildAll_congr fun p hp => ih p hp fun x hx => h x ((ht.mentions_iff x).mpr ⟨p, hp, hx⟩)
    cases ht with
    | atomic n => rfl
    | tuple ts => rw [rebuild, rebuild, hall]
    | composite c ts => rw [rebuild, rebuild, hall]

theorem rebuildAll_eq_ok_iff
    (h : ∀ t ∈ ts, ∀ r, t.rebuild f = .ok r ↔ r = t.bind g ∧ r.Saturated) (rs : List Ty) :
    rebuildAll f ts = .ok rs ↔ rs = ts.map (bind g) ∧ ∀ r ∈ rs, r.Saturated := by
  induction ts generalizing rs with
  | nil =>
    rw [rebuildAll, Except.ok.injEq, List.map_nil, eq_comm]
    exact ⟨fun hrs => ⟨hrs, by simp [hrs]⟩, And.left⟩
  | cons t ts ih =>
    obtain ⟨ht, hts⟩ := List.forall_mem_cons.mp h
    rw [rebuildAll, bind_eq_ok_iff]
    constructor
    · rintro ⟨u, hu, hrest⟩
      obtain ⟨us, hus, heq⟩ := bind_eq_ok_iff.mp hrest
      obtain ⟨rfl, hsat⟩ := (ht u).mp hu
      obtain ⟨rfl, hall⟩ := (ih hts us).mp hus
      cases heq
      exact ⟨rfl, List.forall_mem_cons.mpr ⟨hsat, hall⟩⟩
    · rintro ⟨rfl, hall⟩
      obtain ⟨hsat, hrest⟩ := List.forall_mem_cons.mp hall
      refine ⟨t.bind g, (ht _).mpr ⟨rfl, hsat⟩, bind_eq_ok_iff.mpr ⟨ts.map (bind g), ?_, rfl⟩⟩
      exact (ih hts _).mpr ⟨rfl, hrest⟩

/-- Building anew gives what replacing the variables gives, just if that is
    saturated. -/
theorem rebuild_eq_ok_iff (h : ∀ x r, f x = .ok r ↔ r = g x ∧ r.Saturated) (t r : Ty) :
    t.rebuild f = .ok r ↔ r = t.bind g ∧ r.Saturated := by
  induction t using nodeInduction generalizing r with
  | var x => exact h x r
  | node t k ps ht ih =>
    have hall := rebuildAll_eq_ok_iff ih
    cases ht with
    | atomic n =>
      rw [rebuild, bind, Except.ok.injEq, eq_comm]
      exact ⟨fun hr => ⟨hr, hr ▸ saturated_atomic n⟩, And.left⟩
    | tuple ts =>
      rw [rebuild, bind, bindAll_eq_map, bind_eq_ok_iff]
      constructor
      · rintro ⟨items, hitems, heq⟩
        obtain ⟨rfl, hsat⟩ := (hall items).mp hitems
        cases heq
        exact ⟨rfl, saturated_tuple_iff.mpr hsat⟩
      · rintro ⟨rfl, hsat⟩
        exact ⟨_, (hall _).mpr ⟨rfl, saturated_tuple_iff.mp hsat⟩, rfl⟩
    | composite c ts =>
      rw [rebuild, bind, bindAll_eq_map, bind_eq_ok_iff]
      constructor
      · rintro ⟨args, hargs, hrest⟩
        obtain ⟨built, hbuilt, heq⟩ := bind_eq_ok_iff.mp hrest
        obtain ⟨rfl, hsat⟩ := (hall args).mp hargs
        obtain ⟨hlength, rfl⟩ := TypeConstructor.apply_eq_ok_iff.mp hbuilt
        cases heq
        exact ⟨rfl, saturated_composite_iff.mpr ⟨hlength, hsat⟩⟩
      · rintro ⟨rfl, hsat⟩
        obtain ⟨hlength, hargs⟩ := saturated_composite_iff.mp hsat
        refine ⟨_, (hall _).mpr ⟨rfl, hargs⟩, bind_eq_ok_iff.mpr ⟨⟨c, _⟩, ?_, rfl⟩⟩
        exact TypeConstructor.apply_eq_ok_iff.mpr ⟨hlength, rfl⟩

end Ty

namespace Substitution

variable {s : Substitution} {x : Var} {t u : Ty}

/-- The type of a variable once everything bound in it is replaced, its
    composites built anew. -/
def rebuildVar (s : Substitution) : Nat → Var → Except ArityError Ty
  | 0, x => .ok (.var x)
  | depth + 1, x =>
    match s.lookup x with
    | some t => t.rebuild (s.rebuildVar depth)
    | none => .ok (.var x)

/-- Replace every bound variable of a type, and have every composite built by
    its constructor. -/
def rebuild (s : Substitution) (t : Ty) : Except ArityError Ty := t.rebuild (s.rebuildVar s.size)

/-- A bound of at least the rank of a variable is as good as any other. -/
theorem rebuildVar_eq_of_rank_le (hs : s.Acyclic) {m n : Nat} (hm : s.rank x ≤ m)
    (hn : s.rank x ≤ n) : s.rebuildVar m x = s.rebuildVar n x := by
  induction m generalizing n x with
  | zero =>
    have hx := lookup_of_rank_le_zero hm
    cases n <;> simp [rebuildVar, hx]
  | succ m ih =>
    cases hx : s.lookup x with
    | none => cases n <;> simp [rebuildVar, hx]
    | some t =>
      have hpos := rank_pos_of_lookup hx
      obtain ⟨n, rfl⟩ := Nat.exists_eq_succ_of_ne_zero (show n ≠ 0 by omega)
      simp only [rebuildVar, hx]
      refine Ty.rebuild_congr fun y hy => ?_
      have hlt := rank_lt_of_leadsTo hs ⟨t, hx, hy⟩
      exact ih (by omega) (by omega)

theorem rebuild_var_of_lookup (hs : s.Acyclic) (hx : s.lookup x = some t) :
    s.rebuild (.var x) = s.rebuild t := by
  have hle := s.rank_le_size x
  calc s.rebuild (.var x) = s.rebuildVar (s.size + 1) x :=
        rebuildVar_eq_of_rank_le hs hle (hle.trans (Nat.le_succ _))
    _ = s.rebuild t := by simp only [rebuildVar, hx, rebuild]

theorem WalksTo.rebuild_eq (hw : s.WalksTo t u) (hs : s.Acyclic) : s.rebuild t = s.rebuild u := by
  induction hw with
  | stop => rfl
  | hop hx _ ih => exact (rebuild_var_of_lookup hs hx).trans ih

/-- Building a type anew begins at the end of its chain of bindings and goes on
    with the parts of what stands there. -/
theorem rebuild_eq_of_walk (hs : s.Acyclic) (t : Ty) :
    s.rebuild t =
      match s.walk t with
      | .tuple ts => do
        let items ← ts.mapM s.rebuild
        return .tuple items
      | .composite c ts => do
        let args ← ts.mapM s.rebuild
        let built ← c.apply args
        return built.toTy
      | u => .ok u := by
  have hw : s.WalksTo t (s.walk t) := walksTo_walk hs t
  have hparts : ∀ ts, Ty.rebuildAll (s.rebuildVar s.size) ts = ts.mapM s.rebuild :=
    Ty.rebuildAll_eq_mapM
  rw [hw.rebuild_eq hs]
  cases hu : s.walk t with
  | atomic n => rfl
  | var x =>
    rw [hu] at hw
    rw [rebuild, Ty.rebuild]
    cases s.size <;> simp [rebuildVar, hw.unbound]
  | tuple ts => rw [rebuild, Ty.rebuild, hparts]
  | composite c ts => rw [rebuild, Ty.rebuild, hparts]

theorem ok_var_eq_iff {x : Var} {r : Ty} :
    (.ok (.var x) : Except ArityError Ty) = .ok r ↔ r = .var x ∧ r.Saturated := by
  rw [Except.ok.injEq, eq_comm]
  exact ⟨fun hr => ⟨hr, hr ▸ Ty.saturated_var x⟩, And.left⟩

theorem rebuildVar_eq_ok_iff (s : Substitution) (n : Nat) (x : Var) (r : Ty) :
    s.rebuildVar n x = .ok r ↔ r = s.resolveVar n x ∧ r.Saturated := by
  induction n generalizing x r with
  | zero => exact ok_var_eq_iff
  | succ n ih =>
    rw [rebuildVar, resolveVar]
    cases s.lookup x with
    | none => exact ok_var_eq_iff
    | some t => exact Ty.rebuild_eq_ok_iff ih t r

theorem rebuild_eq_ok_iff (s : Substitution) (t r : Ty) :
    s.rebuild t = .ok r ↔ r = s.resolve t ∧ r.Saturated :=
  Ty.rebuild_eq_ok_iff (s.rebuildVar_eq_ok_iff s.size) t r

/-- No constructor refuses the arguments that resolving gives it. -/
theorem Saturated.rebuild_eq (hs : s.Saturated) (ht : t.Saturated) :
    s.rebuild t = .ok (s.resolve t) :=
  (s.rebuild_eq_ok_iff t _).mpr ⟨rfl, hs.resolve ht⟩

end Substitution

-- ============================================================================
-- Applications
-- ============================================================================

namespace Constructor

variable {c : Constructor} {arg r : Ty}

/-- Argument and result of the declaration are saturated. -/
structure Saturated (c : Constructor) : Prop where
  argument : c.argument.Saturated
  result : c.result.toTy.Saturated

/-- The type of applying the constructor, the composites in it built by their
    constructors. -/
def rebuildType (c : Constructor) (arg : Ty) (supply : VarSupply) :
    Except ArityError (Except TypeMismatch Ty × VarSupply) :=
  let (expected, r) := (Renaming.start supply).renameTy c.argument
  let (result, r') := r.renameComposite c.result
  match Substitution.empty.unify expected arg with
  | some s => do
    let t ← s.rebuild result.toTy
    return (.ok t, r'.supply)
  | none => .ok (.error ⟨c.functor, expected, arg⟩, r'.supply)

/-- The substitution under which an application resolves its result is
    saturated. -/
theorem Saturated.unify (hc : c.Saturated) (harg : arg.Saturated) {r : Renaming}
    {s : Substitution} (h : Substitution.empty.unify (r.renameTy c.argument).1 arg = some s) :
    s.Saturated := by
  have hexpected := (r.saturated_renameTy_iff c.argument).mpr hc.argument
  exact Substitution.saturated_empty.unify Substitution.acyclic_empty hexpected harg h

theorem Saturated.renamed_result (hc : c.Saturated) (r : Renaming) :
    (r.renameComposite c.result).1.toTy.Saturated :=
  (r.saturated_renameComposite_iff c.result).mpr hc.result

/-- No constructor refuses the arguments that an application gives it. -/
theorem Saturated.rebuildType_eq (hc : c.Saturated) (harg : arg.Saturated) (supply : VarSupply) :
    c.rebuildType arg supply = .ok (c.applyType arg supply) := by
  simp only [rebuildType, applyType]
  cases hunify : Substitution.empty.unify
      ((Renaming.start supply).renameTy c.argument).1 arg with
  | none => rfl
  | some s =>
    have hs : s.Saturated := hc.unify harg hunify
    simp only [hs.rebuild_eq (hc.renamed_result _)]
    rfl

/-- The type of an application is saturated. -/
theorem Saturated.applyType (hc : c.Saturated) (harg : arg.Saturated) {supply : VarSupply}
    (h : (c.applyType arg supply).1 = .ok r) : r.Saturated := by
  simp only [Constructor.applyType] at h
  cases hunify : Substitution.empty.unify
      ((Renaming.start supply).renameTy c.argument).1 arg with
  | none =>
    rw [hunify] at h
    cases h
  | some s =>
    have hs : s.Saturated := hc.unify harg hunify
    rw [hunify] at h
    cases h
    exact hs.resolve (hc.renamed_result _)

end Constructor
end StructuralDiff
