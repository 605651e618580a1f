/-
  StructuralDiff.Proofs.Types.Copies

  Copying types with new variables.

  What a copy does to its state depends on the list of variables of the type
  only: `renameTy` leaves the state that is reached by meeting them one after
  the other (`snd_renameTy`), and the copy is the type with every variable
  replaced by its target in that state, or in any later one (`fst_renameTy`).
  A renaming that starts at a supply stays `Fresh`: its targets are told
  apart, carry the old names, and fill the numbers from the supply on without
  a gap.

  For constructors: `applyType_eq` says the type of an application in terms of
  the one renaming that both the argument and the result type are copied by.
-/

import StructuralDiff.Proofs.Types.Traversal
import StructuralDiff.Types.Constructor
import Mathlib.Data.Finset.Card

namespace StructuralDiff
namespace Renaming

variable {r r' : Renaming} {x y : Var} {xs ys : List Var} {k : Nat}

-- ============================================================================
-- Meeting one variable
-- ============================================================================

theorem renameVar_of_some (h : r.targets.find? x = some y) : r.renameVar x = (y, r) := by
  simp only [renameVar, h]

theorem renameVar_of_none (h : r.targets.find? x = none) :
    r.renameVar x = (⟨x.name, r.supply.next⟩,
      ⟨r.targets.insert x ⟨x.name, r.supply.next⟩, ⟨r.supply.next + 1⟩⟩) := by
  simp only [renameVar, h, VarSupply.fresh]

theorem keptIn_renameVar (r : Renaming) (x : Var) : r.targets.KeptIn (r.renameVar x).2.targets := by
  cases hx : r.targets.find? x with
  | some y =>
    rw [renameVar_of_some hx]
    exact .refl _
  | none =>
    rw [renameVar_of_none hx]
    exact OrderedMap.keptIn_insert hx _

theorem find?_renameVar (r : Renaming) (x : Var) :
    (r.renameVar x).2.targets.find? x = some (r.renameVar x).1 := by
  cases hx : r.targets.find? x with
  | some y => rw [renameVar_of_some hx, hx]
  | none => rw [renameVar_of_none hx, OrderedMap.find?_insert_self]

/-- The variable that stands for `x`, and `x` itself as long as it was not
    met. -/
def target (r : Renaming) (x : Var) : Var := (r.targets.find? x).getD x

theorem target_of_some (h : r.targets.find? x = some y) : r.target x = y := by
  rw [target, h, Option.getD_some]

-- ============================================================================
-- Meeting the variables of a type
-- ============================================================================

/-- The state once the variables of a list were met one after the other. -/
def meet (r : Renaming) (xs : List Var) : Renaming := xs.foldl (fun r x => (r.renameVar x).2) r

theorem meet_cons (r : Renaming) (x : Var) (xs : List Var) :
    r.meet (x :: xs) = (r.renameVar x).2.meet xs := rfl

theorem meet_append (r : Renaming) (xs ys : List Var) :
    r.meet (xs ++ ys) = (r.meet xs).meet ys :=
  List.foldl_append

theorem keptIn_meet (r : Renaming) (xs : List Var) : r.targets.KeptIn (r.meet xs).targets := by
  induction xs generalizing r with
  | nil => exact .refl _
  | cons x xs ih => exact (keptIn_renameVar r x).trans (ih _)

theorem find?_meet (r : Renaming) (hx : x ∈ xs) : ∃ y, (r.meet xs).targets.find? x = some y := by
  induction xs generalizing r with
  | nil => cases hx
  | cons z xs ih =>
    rw [meet_cons]
    rcases List.mem_cons.mp hx with rfl | hx
    · exact ⟨_, keptIn_meet _ xs x _ (find?_renameVar r x)⟩
    · exact ih _ hx

theorem renameTy_node {t : Ty} {h : Ty.Head} {ps : List Ty} (ht : t.Node h ps) (r : Renaming) :
    (r.renameTy t).1.Node h (r.renameTys ps).1 ∧ (r.renameTy t).2 = (r.renameTys ps).2 := by
  cases ht with
  | atomic n => exact ⟨.atomic n, rfl⟩
  | tuple ts => exact ⟨.tuple _, rfl⟩
  | composite c ts => exact ⟨.composite c _, rfl⟩

theorem snd_renameTys_of_forall {ps : List Ty}
    (h : ∀ p ∈ ps, ∀ r : Renaming, (r.renameTy p).2 = r.meet p.vars) (r : Renaming) :
    (r.renameTys ps).2 = r.meet (ps.flatMap Ty.vars) := by
  induction ps generalizing r with
  | nil => rfl
  | cons p ps ih =>
    rw [List.forall_mem_cons] at h
    rw [List.flatMap_cons, meet_append, ← h.1 r, ← ih h.2]
    rfl

theorem snd_renameTy (t : Ty) (r : Renaming) : (r.renameTy t).2 = r.meet t.vars := by
  induction t using Ty.nodeInduction generalizing r with
  | var x => rfl
  | node t h ps ht ih =>
    rw [(renameTy_node ht r).2, ht.vars]
    exact snd_renameTys_of_forall ih r

theorem snd_renameTys (ps : List Ty) (r : Renaming) :
    (r.renameTys ps).2 = r.meet (ps.flatMap Ty.vars) :=
  snd_renameTys_of_forall (fun p _ => snd_renameTy p) r

/-- A copy replaces each variable by its target, as the targets stand in any
    state that keeps those of the copy. -/
theorem fst_renameTy (t : Ty) (r : Renaming) (hr : (r.renameTy t).2.targets.KeptIn r'.targets) :
    (r.renameTy t).1 = t.rename r'.target := by
  induction t using Ty.nodeInduction generalizing r with
  | var x =>
    have hx := hr x _ (find?_renameVar r x)
    exact congrArg Ty.var (target_of_some hx).symm
  | node t h ps ht ih =>
    rw [(renameTy_node ht r).2] at hr
    refine ((renameTy_node ht r).1.eq_iff (ht.rename r'.target)).mpr ⟨rfl, ?_⟩
    clear ht
    induction ps generalizing r with
    | nil => rfl
    | cons p ps ihps =>
      rw [List.forall_mem_cons] at ih
      have hkept : (r.renameTy p).2.targets.KeptIn
          ((r.renameTy p).2.renameTys ps).2.targets := by
        rw [snd_renameTys]
        exact keptIn_meet _ _
      exact congrArg₂ List.cons (ih.1 r (hkept.trans hr)) (ihps ih.2 _ hr)

-- ============================================================================
-- Fresh targets
-- ============================================================================

theorem mem_keys_renameVar (r : Renaming) (x : Var) :
    y ∈ (r.renameVar x).2.targets.keys ↔ y ∈ r.targets.keys ∨ y = x := by
  cases hx : r.targets.find? x with
  | some z =>
    have hmem := OrderedMap.mem_keys_of_find? hx
    rw [renameVar_of_some hx]
    exact ⟨.inl, fun h => h.elim id fun hyx => hyx ▸ hmem⟩
  | none =>
    have hnot := (r.targets.find?_eq_none_iff x).mp hx
    rw [renameVar_of_none hx, OrderedMap.keys_insert, if_neg hnot, List.mem_append,
      List.mem_singleton]

theorem mem_keys_meet (r : Renaming) (xs : List Var) :
    y ∈ (r.meet xs).targets.keys ↔ y ∈ r.targets.keys ∨ y ∈ xs := by
  induction xs generalizing r with
  | nil => simp [meet]
  | cons x xs ih => rw [meet_cons, ih, mem_keys_renameVar, List.mem_cons, or_assoc]

/-- The targets are told apart, carry the names of what they stand for, and
    take up the numbers from `k` to the next one of the supply. -/
structure Fresh (k : Nat) (r : Renaming) : Prop where
  supply_eq : r.supply.next = k + r.targets.keys.length
  name_eq : ∀ x y, r.targets.find? x = some y → y.name = x.name
  le_id : ∀ x y, r.targets.find? x = some y → k ≤ y.id
  id_lt : ∀ x y, r.targets.find? x = some y → y.id < r.supply.next
  injective : ∀ x x' y, r.targets.find? x = some y → r.targets.find? x' = some y → x = x'

theorem fresh_start (k : Nat) : Fresh k (start ⟨k⟩) := by
  constructor <;> intros <;> first | rfl | contradiction

theorem Fresh.renameVar (hr : r.Fresh k) (x : Var) : (r.renameVar x).2.Fresh k := by
  cases hx : r.targets.find? x with
  | some y =>
    rw [renameVar_of_some hx]
    exact hr
  | none =>
    rw [renameVar_of_none hx]
    have hnot := (r.targets.find?_eq_none_iff x).mp hx
    have hsupply := hr.supply_eq
    -- the new target has the next number, which no earlier target has
    have hcases : ∀ z y,
        (r.targets.insert x ⟨x.name, r.supply.next⟩).find? z = some y →
          z = x ∧ y = ⟨x.name, r.supply.next⟩ ∨ r.targets.find? z = some y := by
      intro z y hz
      rw [OrderedMap.find?_insert] at hz
      split at hz
      · rename_i hxz
        cases hz
        exact .inl ⟨hxz.symm, rfl⟩
      · exact .inr hz
    refine ⟨?_, ?_, ?_, ?_, ?_⟩
    · simp only [OrderedMap.keys_insert, if_neg hnot, List.length_append, List.length_singleton]
      omega
    · intro z y hz
      rcases hcases z y hz with ⟨rfl, rfl⟩ | hold
      · rfl
      · exact hr.name_eq z y hold
    · intro z y hz
      rcases hcases z y hz with ⟨rfl, rfl⟩ | hold
      · simp only
        omega
      · exact hr.le_id z y hold
    · intro z y hz
      rcases hcases z y hz with ⟨rfl, rfl⟩ | hold
      · exact Nat.lt_succ_self _
      · exact (hr.id_lt z y hold).trans (Nat.lt_succ_self _)
    · intro z z' y hz hz'
      rcases hcases z y hz with ⟨hzx, hy⟩ | hold <;>
        rcases hcases z' y hz' with ⟨hzx', hy'⟩ | hold'
      · rw [hzx, hzx']
      · rw [hy] at hold'
        exact absurd (hr.id_lt z' _ hold') (lt_irrefl _)
      · rw [hy'] at hold
        exact absurd (hr.id_lt z _ hold) (lt_irrefl _)
      · exact hr.injective z z' y hold hold'

theorem Fresh.meet (hr : r.Fresh k) (xs : List Var) : (r.meet xs).Fresh k := by
  induction xs generalizing r with
  | nil => exact hr
  | cons x xs ih => exact ih (hr.renameVar x)

end Renaming

-- ============================================================================
-- The copy that an application works on
-- ============================================================================

namespace Constructor

variable {c : Constructor} {x y : Var}

/-- The variable stands in the declaration. -/
def Mentions (c : Constructor) (x : Var) : Prop :=
  c.argument.mentions x ∨ c.result.toTy.mentions x

/-- Declaration and argument are older than the supply: whatever is drawn
    from it is new to both. -/
def OlderThan (c : Constructor) (arg : Ty) (supply : VarSupply) : Prop :=
  ∀ x, c.Mentions x ∨ arg.mentions x → x.id < supply.next

instance (c : Constructor) (arg : Ty) (supply : VarSupply) : Decidable (c.OlderThan arg supply) :=
  decidable_of_iff
    (∀ x ∈ (c.argument.vars ++ c.result.toTy.vars) ++ arg.vars, x.id < supply.next)
    (by simp only [OlderThan, Mentions, List.mem_append, Ty.mem_vars])

/-- The renaming by which an application copies the argument type, then the
    result type. -/
def copying (c : Constructor) (supply : VarSupply) : Renaming :=
  (Renaming.start supply).meet (c.argument.vars ++ c.result.toTy.vars)

theorem find?_copying (supply : VarSupply) (hx : c.Mentions x) :
    ∃ y, (c.copying supply).targets.find? x = some y := by
  refine Renaming.find?_meet _ ?_
  rw [List.mem_append, Ty.mem_vars, Ty.mem_vars]
  exact hx

theorem fresh_copying (c : Constructor) (k : Nat) : (c.copying ⟨k⟩).Fresh k :=
  (Renaming.fresh_start k).meet _

/-- Only declared variables have targets, each of them one. -/
theorem mem_keys_copying (supply : VarSupply) :
    x ∈ (c.copying supply).targets.keys ↔ c.Mentions x := by
  rw [copying, Renaming.mem_keys_meet, List.mem_append, Ty.mem_vars, Ty.mem_vars]
  exact or_iff_right List.not_mem_nil

/-- The variables of the declaration, each of them once. -/
def declared (c : Constructor) : Finset Var := (c.argument.vars ++ c.result.toTy.vars).toFinset

theorem mem_declared : x ∈ c.declared ↔ c.Mentions x := by
  rw [declared, List.mem_toFinset, List.mem_append, Ty.mem_vars, Ty.mem_vars]
  exact Iff.rfl

/-- The copy draws one number for every declared variable. -/
theorem next_copying (c : Constructor) (k : Nat) :
    (c.copying ⟨k⟩).supply.next = k + c.declared.card := by
  have hkeys : (c.copying ⟨k⟩).targets.keys.toFinset = c.declared := by
    ext x
    rw [List.mem_toFinset, mem_keys_copying, mem_declared]
  have hnodup : (c.copying ⟨k⟩).targets.keys.Nodup := (c.copying ⟨k⟩).targets.keys_nodup
  rw [(c.fresh_copying k).supply_eq, ← hkeys, List.toFinset_card_of_nodup hnodup]

/-- An application unifies the copied argument type with the given one and
    resolves the copied result type. -/
theorem applyType_eq (c : Constructor) (arg : Ty) (supply : VarSupply) :
    c.applyType arg supply =
      (match Substitution.empty.unify (c.argument.rename (c.copying supply).target) arg with
        | some s => .ok (s.resolve (c.result.toTy.rename (c.copying supply).target))
        | none => .error ⟨c.functor, c.argument.rename (c.copying supply).target, arg⟩,
        (c.copying supply).supply) := by
  rw [applyType, copying]
  generalize Renaming.start supply = start
  rw [start.meet_append]
  have hstate : (start.renameTy c.argument).2 = start.meet c.argument.vars :=
    Renaming.snd_renameTy _ _
  have hstate' : ((start.renameTy c.argument).2.renameComposite c.result).2 =
      (start.meet c.argument.vars).meet c.result.toTy.vars := by
    rw [hstate]
    exact Renaming.snd_renameTy c.result.toTy _
  rw [← hstate']
  have harg : (start.renameTy c.argument).1 = c.argument.rename
      ((start.renameTy c.argument).2.renameComposite c.result).2.target := by
    refine Renaming.fst_renameTy _ _ ?_
    rw [hstate', hstate]
    exact Renaming.keptIn_meet _ _
  have hres : ((start.renameTy c.argument).2.renameComposite c.result).1.toTy =
      c.result.toTy.rename ((start.renameTy c.argument).2.renameComposite c.result).2.target :=
    Renaming.fst_renameTy c.result.toTy _ (.refl _)
  rw [← harg, ← hres]
  rcases start.renameTy c.argument with ⟨expected, r⟩
  simp only
  rcases r.renameComposite c.result with ⟨result, r'⟩
  cases Substitution.empty.unify expected arg <;> rfl

end Constructor

namespace Sample

/-- `pair/2 :: <?a, ?b> -> Pair<?a, ?b>` -/
def pairing : Constructor :=
  ⟨⟨"pair", 2⟩, .tuple [.var a, .var b], ⟨⟨"Pair", 2⟩, [.var a, .var b]⟩⟩

end Sample
end StructuralDiff
