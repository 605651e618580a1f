/-
  StructuralDiff.Types.Substitution

  Substitutions in triangular form: each binding names the next type, which may
  mention bound variables again.  `walk` follows the bindings of a variable to
  the end of the chain, `resolve` replaces every bound variable at every depth,
  `occurs` asks whether a variable is met while doing so.

  A chain without a repetition passes through each binding at most once, so
  the number of bindings bounds every search.  `Acyclic` says that no variable
  leads back to itself; `extend` keeps it for variables that are still
  unbound.
-/

import StructuralDiff.OrderedMap
import StructuralDiff.Types.Ty

namespace StructuralDiff

/-- A finite map from type variables to types. -/
structure Substitution where
  /-- The bindings, oldest first. -/
  bindings : OrderedMap Var Ty
deriving Inhabited

namespace Substitution

/-- The substitution that binds nothing. -/
def empty : Substitution := ⟨.empty⟩

/-- The type bound to `x`, as it stands in the substitution. -/
def lookup (s : Substitution) (x : Var) : Option Ty := s.bindings.find? x

/-- The number of bindings. -/
def size (s : Substitution) : Nat := s.bindings.size

/-- Whether two substitutions bind the same variables to the same types. -/
def agrees (s s' : Substitution) : Bool := s.bindings.agrees s'.bindings

-- ============================================================================
-- Following bindings
-- ============================================================================

/-- Follow the bindings of a variable through at most `hops` bindings. -/
def walkWithin (s : Substitution) : Nat → Ty → Ty
  | hops + 1, .var x =>
    match s.lookup x with
    | some t => s.walkWithin hops t
    | none => .var x
  | _, t => t

/-- Follow the bindings of a variable to a type that is no bound variable; any
    other type stays as it is. -/
def walk (s : Substitution) (t : Ty) : Ty := s.walkWithin s.size t

/-- The type of a variable once everything bound in it is replaced, looking
    through at most `depth` bindings. -/
def resolveVar (s : Substitution) : Nat → Var → Ty
  | 0, x => .var x
  | depth + 1, x =>
    match s.lookup x with
    | some t => t.bind (s.resolveVar depth)
    | none => .var x

/-- Replace every bound variable of a type, at every depth. -/
def resolve (s : Substitution) (t : Ty) : Ty := t.bind (s.resolveVar s.size)

/-- Whether `x` is met when `y` is resolved, looking through at most `depth`
    bindings. -/
def reaches (s : Substitution) (x : Var) : Nat → Var → Bool
  | 0, y => y == x
  | depth + 1, y =>
    match s.lookup y with
    | some t => t.anyVar (s.reaches x depth)
    | none => y == x

/-- Whether `x` is met when `t` is resolved. -/
def occurs (s : Substitution) (x : Var) (t : Ty) : Bool := t.anyVar (s.reaches x s.size)

-- ============================================================================
-- Adding bindings
-- ============================================================================

/-- Bind `x` to `t` without looking where `t` leads. -/
def set (s : Substitution) (x : Var) (t : Ty) : Substitution := ⟨s.bindings.insert x t⟩

/-- Bind `x` to `t`, unless `x` is met when `t` is resolved. -/
def extend (s : Substitution) (x : Var) (t : Ty) : Option Substitution :=
  if s.occurs x t then none else some (s.set x t)

-- ============================================================================
-- Acyclic substitutions
-- ============================================================================

/-- Variable `y` is mentioned by the type bound to `x`. -/
def LeadsTo (s : Substitution) (x y : Var) : Prop :=
  ∃ t, s.lookup x = some t ∧ t.mentions y = true

/-- Following the bindings from no variable ever leads back to it. -/
def Acyclic (s : Substitution) : Prop := ∀ x, ¬ Relation.TransGen s.LeadsTo x x

-- ============================================================================
-- Text
-- ============================================================================

/-- The bindings in the order of their variables' numbers, each as the variable
    and its type. -/
def listing (s : Substitution) : List String :=
  (s.bindings.entries.mergeSort (fun a b => a.1.id ≤ b.1.id)).map
    (fun e => e.1.displayWithId ++ ": " ++ e.2.displayWithId)

end Substitution
end StructuralDiff
