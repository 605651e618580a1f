/-
  StructuralDiff.Proofs.Types.Traversal

  How types are taken apart.  A type is either a variable or a *node*: a head
  (an atomic name, the tuple former, a type constructor) over a list of parts.
  `nodeInduction` is induction along that view, so that a fact about types has
  two cases instead of four and no companion about lists.

  On top of it: what `bind` does to a type as a function of what it does to the
  variables that the type mentions, and two measures, the list of variables
  and the height.
-/

import StructuralDiff.Types.Ty

namespace StructuralDiff
namespace Ty

-- ============================================================================
-- Nodes
-- ============================================================================

/-- What a type that is no variable is built by, its parts left out. -/
inductive Head where
  | atomic (name : String)
  | tuple
  | composite (former : TypeConstructor)
deriving DecidableEq

/-- `t.Node h ps`: the type `t` is no variable, but the head `h` over the
    parts `ps`. -/
inductive Node : Ty → Head → List Ty → Prop where
  | atomic (n : String) : Node (.atomic n) (.atomic n) []
  | tuple (ts : List Ty) : Node (.tuple ts) .tuple ts
  | composite (c : TypeConstructor) (ts : List Ty) : Node (.composite c ts) (.composite c) ts

mutual
/-- Induction over types: variables, and nodes from their parts. -/
theorem nodeInduction {P : Ty → Prop} (var : ∀ x, P (.var x))
    (node : ∀ t h ps, Node t h ps → (∀ p ∈ ps, P p) → P t) : ∀ t, P t
  | .atomic n => node _ _ _ (.atomic n) (by simp)
  | .var x => var x
  | .tuple ts => node _ _ _ (.tuple ts) (nodeInductionAll var node ts)
  | .composite c ts => node _ _ _ (.composite c ts) (nodeInductionAll var node ts)

/-- The same for every type of a list. -/
theorem nodeInductionAll {P : Ty → Prop} (var : ∀ x, P (.var x))
    (node : ∀ t h ps, Node t h ps → (∀ p ∈ ps, P p) → P t) :
    ∀ ts : List Ty, ∀ t ∈ ts, P t
  | [] => by simp
  | t :: ts => List.forall_mem_cons.mpr ⟨nodeInduction var node t, nodeInductionAll var node ts⟩
end

theorem var_or_node (t : Ty) : (∃ x, t = .var x) ∨ ∃ h ps, t.Node h ps := by
  cases t with
  | atomic n => exact .inr ⟨_, _, .atomic n⟩
  | var x => exact .inl ⟨x, rfl⟩
  | tuple ts => exact .inr ⟨_, _, .tuple ts⟩
  | composite c ts => exact .inr ⟨_, _, .composite c ts⟩

theorem size_le_sizeAll {t : Ty} {ts : List Ty} (ht : t ∈ ts) : t.size ≤ sizeAll ts := by
  induction ts with
  | nil => cases ht
  | cons u us ih =>
    rw [sizeAll]
    rcases List.mem_cons.mp ht with rfl | ht
    · omega
    · have hle := ih ht
      omega

namespace Node

variable {t u : Ty} {h k : Head} {ps qs : List Ty}

theorem ne_var (ht : t.Node h ps) (x : Var) : t ≠ .var x := by
  rintro rfl
  cases ht

theorem not_var {x : Var} : ¬ (Ty.var x).Node h ps := fun ht => ht.ne_var x rfl

/-- A node has one head and one list of parts. -/
theorem unique (ht : t.Node h ps) (hu : t.Node k qs) : h = k ∧ ps = qs := by
  cases ht <;> cases hu <;> exact ⟨rfl, rfl⟩

/-- Head and parts make the node. -/
theorem ext (ht : t.Node h ps) (hu : u.Node h ps) : t = u := by
  cases ht <;> cases hu <;> rfl

theorem eq_iff (ht : t.Node h ps) (hu : u.Node k qs) : t = u ↔ h = k ∧ ps = qs := by
  constructor
  · rintro rfl
    exact ht.unique hu
  · rintro ⟨rfl, rfl⟩
    exact ht.ext hu

/-- Replacing variables keeps the head and goes on in the parts. -/
theorem bind (ht : t.Node h ps) (f : Var → Ty) : (t.bind f).Node h (ps.map (Ty.bind f)) := by
  cases ht with
  | atomic n => exact .atomic n
  | tuple ts =>
    rw [Ty.bind, bindAll_eq_map]
    exact .tuple _
  | composite c ts =>
    rw [Ty.bind, bindAll_eq_map]
    exact .composite c _

theorem anyVar (ht : t.Node h ps) (p : Var → Bool) : t.anyVar p = ps.any (Ty.anyVar p) := by
  cases ht with
  | atomic n => rfl
  | tuple ts => rw [Ty.anyVar, anyVarAll_eq_any]
  | composite c ts => rw [Ty.anyVar, anyVarAll_eq_any]

theorem size (ht : t.Node h ps) : t.size = sizeAll ps + 1 := by
  cases ht <;> rfl

theorem size_lt (ht : t.Node h ps) {p : Ty} (hp : p ∈ ps) : p.size < t.size := by
  have hle := size_le_sizeAll hp
  rw [ht.size]
  omega

theorem mentions_iff (ht : t.Node h ps) (x : Var) :
    t.mentions x ↔ ∃ p ∈ ps, p.mentions x := by
  simp only [mentions, ht.anyVar, List.any_eq_true]

end Node

theorem size_pos (t : Ty) : 0 < t.size := by
  cases t <;> simp [size]

-- ============================================================================
-- Replacing variables
-- ============================================================================

@[simp] theorem bind_var (f : Var → Ty) (x : Var) : (Ty.var x).bind f = f x := rfl

@[simp] theorem mentions_var (x y : Var) : (Ty.var y).mentions x ↔ y = x := by
  simp [mentions, anyVar]

theorem anyVar_iff (t : Ty) (p : Var → Bool) : t.anyVar p ↔ ∃ x, t.mentions x ∧ p x := by
  induction t using nodeInduction with
  | var y => simp [anyVar]
  | node t h ps ht ih =>
    rw [ht.anyVar, List.any_eq_true]
    constructor
    · rintro ⟨q, hq, hp⟩
      obtain ⟨x, hx, hpx⟩ := (ih q hq).mp hp
      exact ⟨x, (ht.mentions_iff x).mpr ⟨q, hq, hx⟩, hpx⟩
    · rintro ⟨x, hx, hpx⟩
      obtain ⟨q, hq, hqx⟩ := (ht.mentions_iff x).mp hx
      exact ⟨q, hq, (ih q hq).mpr ⟨x, hqx, hpx⟩⟩

/-- Only the variables that a type mentions matter to `bind`. -/
theorem bind_congr {t : Ty} {f g : Var → Ty} (hfg : ∀ x, t.mentions x → f x = g x) :
    t.bind f = t.bind g := by
  induction t using nodeInduction with
  | var x => exact hfg x ((mentions_var x x).mpr rfl)
  | node t h ps ht ih =>
    refine ((ht.bind f).eq_iff (ht.bind g)).mpr ⟨rfl, ?_⟩
    refine List.map_congr_left fun p hp => ih p hp fun x hx => ?_
    exact hfg x ((ht.mentions_iff x).mpr ⟨p, hp, hx⟩)

theorem bind_bind (t : Ty) (f g : Var → Ty) :
    (t.bind f).bind g = t.bind fun x => (f x).bind g := by
  induction t using nodeInduction with
  | var x => rfl
  | node t h ps ht ih =>
    refine (((ht.bind f).bind g).eq_iff (ht.bind _)).mpr ⟨rfl, ?_⟩
    rw [List.map_map]
    exact List.map_congr_left ih

theorem bind_self (t : Ty) : t.bind .var = t := by
  induction t using nodeInduction with
  | var x => rfl
  | node t h ps ht ih =>
    refine ((ht.bind _).eq_iff ht).mpr ⟨rfl, ?_⟩
    rw [List.map_congr_left ih, List.map_id']

theorem mentions_bind (t : Ty) (f : Var → Ty) (y : Var) :
    (t.bind f).mentions y ↔ ∃ x, t.mentions x ∧ (f x).mentions y := by
  induction t using nodeInduction with
  | var x => simp
  | node t h ps ht ih =>
    rw [(ht.bind f).mentions_iff]
    constructor
    · rintro ⟨q, hq, hy⟩
      obtain ⟨p, hp, rfl⟩ := List.mem_map.mp hq
      obtain ⟨x, hx, hxy⟩ := (ih p hp).mp hy
      exact ⟨x, (ht.mentions_iff x).mpr ⟨p, hp, hx⟩, hxy⟩
    · rintro ⟨x, hx, hxy⟩
      obtain ⟨p, hp, hpx⟩ := (ht.mentions_iff x).mp hx
      exact ⟨_, List.mem_map_of_mem hp, (ih p hp).mpr ⟨x, hpx, hxy⟩⟩

-- ============================================================================
-- Renaming variables
-- ============================================================================

/-- Replace every variable by another one. -/
def rename (σ : Var → Var) (t : Ty) : Ty := t.bind fun x => .var (σ x)

theorem Node.rename {t : Ty} {h : Head} {ps : List Ty} (ht : t.Node h ps) (σ : Var → Var) :
    (t.rename σ).Node h (ps.map (Ty.rename σ)) :=
  ht.bind _

theorem rename_congr {t : Ty} {σ τ : Var → Var} (h : ∀ x, t.mentions x → σ x = τ x) :
    t.rename σ = t.rename τ :=
  bind_congr fun x hx => by rw [h x hx]

theorem rename_eq_self {t : Ty} {σ : Var → Var} (h : ∀ x, t.mentions x → σ x = x) :
    t.rename σ = t :=
  (rename_congr h).trans t.bind_self

theorem rename_bind (t : Ty) (σ : Var → Var) (f : Var → Ty) :
    (t.rename σ).bind f = t.bind fun x => f (σ x) :=
  bind_bind t _ f

theorem bind_rename (t : Ty) (f : Var → Ty) (σ : Var → Var) :
    (t.bind f).rename σ = t.bind fun x => (f x).rename σ :=
  bind_bind t f _

theorem rename_rename (t : Ty) (σ τ : Var → Var) :
    (t.rename σ).rename τ = t.rename fun x => τ (σ x) :=
  rename_bind t σ _

theorem mentions_rename (t : Ty) (σ : Var → Var) (y : Var) :
    (t.rename σ).mentions y ↔ ∃ x, t.mentions x ∧ σ x = y := by
  simp only [rename, mentions_bind, mentions_var]

theorem displayRest_map {ts : List Ty} {f : Ty → Ty} (h : ∀ t ∈ ts, (f t).display = t.display) :
    displayRest (ts.map f) = displayRest ts := by
  induction ts with
  | nil => rfl
  | cons t ts ih =>
    rw [List.forall_mem_cons] at h
    rw [List.map_cons, displayRest, displayRest, h.1, ih h.2]

/-- The text of a type shows the names of its variables only. -/
theorem display_rename (t : Ty) {σ : Var → Var} (h : ∀ x, t.mentions x → (σ x).name = x.name) :
    (t.rename σ).display = t.display := by
  induction t using nodeInduction with
  | var x =>
    have hx := h x ((mentions_var x x).mpr rfl)
    simp only [rename, bind_var, display, Var.display, hx]
  | node t k ps ht ih =>
    have hps : ∀ p ∈ ps, (p.rename σ).display = p.display := fun p hp =>
      ih p hp fun x hx => h x ((ht.mentions_iff x).mpr ⟨p, hp, hx⟩)
    have hn := ht.rename σ
    generalize t.rename σ = t' at hn
    cases ht with
    | atomic n => cases hn; rfl
    | tuple ts =>
      cases hn
      cases ps with
      | nil => rfl
      | cons p ps =>
        rw [List.forall_mem_cons] at hps
        simp only [display, List.map_cons, displayAll, hps.1, displayRest_map hps.2]
    | composite c ts =>
      cases hn
      cases ps with
      | nil => rfl
      | cons p ps =>
        rw [List.forall_mem_cons] at hps
        simp only [display, List.map_cons, hps.1, displayRest_map hps.2]

-- ============================================================================
-- The variables of a type
-- ============================================================================

mutual
/-- The variables of a type in the order in which they stand, with
    repetitions. -/
def vars : Ty → List Var
  | .atomic _ => []
  | .var x => [x]
  | .tuple ts => varsAll ts
  | .composite _ ts => varsAll ts

/-- The variables of the types of a list. -/
def varsAll : List Ty → List Var
  | [] => []
  | t :: ts => vars t ++ varsAll ts
end

theorem varsAll_eq_flatMap (ts : List Ty) : varsAll ts = ts.flatMap vars := by
  induction ts with
  | nil => rfl
  | cons t ts ih => rw [varsAll, ih, List.flatMap_cons]

theorem Node.vars {t : Ty} {h : Head} {ps : List Ty} (ht : t.Node h ps) :
    t.vars = ps.flatMap Ty.vars := by
  cases ht with
  | atomic n => rfl
  | tuple ts => rw [Ty.vars, varsAll_eq_flatMap]
  | composite c ts => rw [Ty.vars, varsAll_eq_flatMap]

theorem mem_vars (t : Ty) (x : Var) : x ∈ t.vars ↔ t.mentions x := by
  induction t using nodeInduction with
  | var y => rw [vars, List.mem_singleton, mentions_var, eq_comm]
  | node t h ps ht ih =>
    rw [ht.vars, List.mem_flatMap, ht.mentions_iff]
    exact exists_congr fun p => and_congr_right fun hp => ih p hp

theorem length_flatMap_vars_le {ts : List Ty} (h : ∀ t ∈ ts, t.vars.length ≤ t.size) :
    (ts.flatMap vars).length ≤ sizeAll ts := by
  induction ts with
  | nil => simp
  | cons t ts ih =>
    rw [List.forall_mem_cons] at h
    have hle := ih h.2
    rw [List.flatMap_cons, List.length_append, sizeAll]
    omega

theorem length_vars_le (t : Ty) : t.vars.length ≤ t.size := by
  induction t using nodeInduction with
  | var x => simp [vars, size]
  | node t h ps ht ih =>
    have hle := length_flatMap_vars_le ih
    rw [ht.vars, ht.size]
    omega

-- ============================================================================
-- The height of a type
-- ============================================================================

mutual
/-- The number of steps from a type down to its deepest part. -/
def height : Ty → Nat
  | .atomic _ => 0
  | .var _ => 0
  | .tuple ts => heightAll ts
  | .composite _ ts => heightAll ts

/-- The height of a node over the types of a list. -/
def heightAll : List Ty → Nat
  | [] => 0
  | t :: ts => max (height t + 1) (heightAll ts)
end

theorem heightAll_le_iff (ts : List Ty) (m : Nat) :
    heightAll ts ≤ m ↔ ∀ t ∈ ts, t.height < m := by
  induction ts with
  | nil => simp [heightAll]
  | cons t ts ih => rw [heightAll, Nat.max_le, ih, List.forall_mem_cons, Nat.succ_le_iff]

namespace Node

variable {t : Ty} {h : Head} {ps : List Ty}

theorem height_le_iff (ht : t.Node h ps) (m : Nat) : t.height ≤ m ↔ ∀ p ∈ ps, p.height < m := by
  rw [← heightAll_le_iff]
  cases ht <;> simp [Ty.height, heightAll]

theorem height_lt (ht : t.Node h ps) {p : Ty} (hp : p ∈ ps) : p.height < t.height :=
  (ht.height_le_iff _).mp (Nat.le_refl _) p hp

end Node

theorem height_lt_size (t : Ty) : t.height < t.size := by
  induction t using nodeInduction with
  | var x => simp [height, size]
  | node t h ps ht ih =>
    have hpos := t.size_pos
    have hle : t.height ≤ t.size - 1 := by
      refine (ht.height_le_iff _).mpr fun p hp => ?_
      have hp' := ih p hp
      have hsize := ht.size_lt hp
      omega
    omega

/-- Replacing variables by types of height at most `m` adds at most `m` to the
    height. -/
theorem height_bind_le {t : Ty} {f : Var → Ty} {m : Nat}
    (hf : ∀ x, t.mentions x → (f x).height ≤ m) : (t.bind f).height ≤ t.height + m := by
  induction t using nodeInduction with
  | var x =>
    have hx := hf x ((mentions_var x x).mpr rfl)
    simpa [height] using hx
  | node t h ps ht ih =>
    refine ((ht.bind f).height_le_iff _).mpr fun q hq => ?_
    obtain ⟨p, hp, rfl⟩ := List.mem_map.mp hq
    have hle := ih p hp fun x hx => hf x ((ht.mentions_iff x).mpr ⟨p, hp, hx⟩)
    have hlt := ht.height_lt hp
    omega

end Ty

-- ============================================================================
-- A few types
-- ============================================================================

namespace Sample

def list (t : Ty) : Ty := .composite ⟨"List", 1⟩ [t]

def pair (t u : Ty) : Ty := .composite ⟨"Pair", 2⟩ [t, u]

def a : Var := ⟨"a", 0⟩

def b : Var := ⟨"b", 1⟩

def c : Var := ⟨"c", 2⟩

end Sample
end StructuralDiff
