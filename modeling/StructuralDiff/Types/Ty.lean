/-
  StructuralDiff.Types.Ty

  Types of terms: atomic types, type variables, tuples, and composites built
  by a named type constructor of fixed arity (`List<Int>`).

  All traversals are instances of two: `Ty.bind` replaces every variable by a
  type, `Ty.anyVar` asks whether some variable passes a test.
-/

import StructuralDiff.Types.Var

namespace StructuralDiff

-- ============================================================================
-- The types
-- ============================================================================

/-- A named type former of fixed arity, such as `List` of arity 1. -/
structure TypeConstructor where
  name : String
  arity : Nat
deriving DecidableEq, Inhabited

/-- A type. -/
inductive Ty where
  /-- A type without parts, known by its name. -/
  | atomic (name : String)
  /-- A type variable. -/
  | var (x : Var)
  /-- A tuple of types. -/
  | tuple (items : List Ty)
  /-- A type constructor applied to argument types. -/
  | composite (former : TypeConstructor) (args : List Ty)
deriving Inhabited

/-- A type constructor together with its argument types. -/
structure CompositeTy where
  former : TypeConstructor
  args : List Ty
deriving Inhabited

/-- A composite seen as a type. -/
def CompositeTy.toTy (c : CompositeTy) : Ty := .composite c.former c.args

namespace Ty

mutual
/-- Whether two types are built alike from the same parts. -/
def decEq : (t u : Ty) → Decidable (t = u)
  | .atomic m, .atomic n =>
    if h : m = n then isTrue (by rw [h]) else isFalse (by simpa using h)
  | .var x, .var y =>
    if h : x = y then isTrue (by rw [h]) else isFalse (by simpa using h)
  | .tuple ts, .tuple us =>
    match decEqAll ts us with
    | isTrue h => isTrue (by rw [h])
    | isFalse h => isFalse (by simpa using h)
  | .composite c ts, .composite d us =>
    if h : c = d then
      match decEqAll ts us with
      | isTrue h' => isTrue (by rw [h, h'])
      | isFalse h' => isFalse (by simp [h'])
    else isFalse (by simp [h])
  | .atomic _, .var _ | .atomic _, .tuple _ | .atomic _, .composite _ _
  | .var _, .atomic _ | .var _, .tuple _ | .var _, .composite _ _
  | .tuple _, .atomic _ | .tuple _, .var _ | .tuple _, .composite _ _
  | .composite _ _, .atomic _ | .composite _ _, .var _ | .composite _ _, .tuple _ =>
    isFalse (by simp)

/-- Whether two lists hold the same types in the same order. -/
def decEqAll : (ts us : List Ty) → Decidable (ts = us)
  | [], [] => isTrue rfl
  | [], _ :: _ => isFalse (by simp)
  | _ :: _, [] => isFalse (by simp)
  | t :: ts, u :: us =>
    match decEq t u with
    | isTrue h =>
      match decEqAll ts us with
      | isTrue h' => isTrue (by rw [h, h'])
      | isFalse h' => isFalse (by simp [h'])
    | isFalse h => isFalse (by simp [h])
end

instance : DecidableEq Ty := decEq

-- ============================================================================
-- Traversals
-- ============================================================================

mutual
/-- Replace every variable `x` by the type `f x`. -/
def bind (f : Var → Ty) : Ty → Ty
  | .atomic n => .atomic n
  | .var x => f x
  | .tuple ts => .tuple (bindAll f ts)
  | .composite c ts => .composite c (bindAll f ts)

/-- Replace every variable in each type of a list. -/
def bindAll (f : Var → Ty) : List Ty → List Ty
  | [] => []
  | t :: ts => bind f t :: bindAll f ts
end

mutual
/-- Whether some variable of the type passes the test. -/
def anyVar (p : Var → Bool) : Ty → Bool
  | .atomic _ => false
  | .var x => p x
  | .tuple ts => anyVarAll p ts
  | .composite _ ts => anyVarAll p ts

/-- Whether some variable of some type of a list passes the test. -/
def anyVarAll (p : Var → Bool) : List Ty → Bool
  | [] => false
  | t :: ts => anyVar p t || anyVarAll p ts
end

mutual
/-- The number of nodes of a type. -/
def size : Ty → Nat
  | .atomic _ => 1
  | .var _ => 1
  | .tuple ts => sizeAll ts + 1
  | .composite _ ts => sizeAll ts + 1

/-- The number of nodes of the types of a list. -/
def sizeAll : List Ty → Nat
  | [] => 0
  | t :: ts => size t + sizeAll ts
end

theorem bindAll_eq_map (f : Var → Ty) (ts : List Ty) : bindAll f ts = ts.map (bind f) := by
  induction ts with
  | nil => rfl
  | cons t ts ih => simp [bindAll, ih]

theorem anyVarAll_eq_any (p : Var → Bool) (ts : List Ty) : anyVarAll p ts = ts.any (anyVar p) := by
  induction ts with
  | nil => rfl
  | cons t ts ih => simp [anyVarAll, ih]

/-- Whether `x` stands anywhere in the type. -/
def mentions (t : Ty) (x : Var) : Bool := t.anyVar (· == x)

/-- The variable that the type is, if it is one. -/
def asVar? : Ty → Option Var
  | .var x => some x
  | _ => none

-- ============================================================================
-- Text
-- ============================================================================

mutual
/-- The text of a type: tuples in angle brackets, the arguments of a composite
    in angle brackets after its name. -/
def display : Ty → String
  | .atomic n => n
  | .var x => x.display
  | .tuple ts => "<" ++ displayAll ts ++ ">"
  | .composite c [] => c.name
  | .composite c (t :: ts) => c.name ++ "<" ++ display t ++ displayRest ts ++ ">"

/-- The texts of some types, with a comma and a blank between any two. -/
def displayAll : List Ty → String
  | [] => ""
  | t :: ts => display t ++ displayRest ts

/-- The texts of the types that follow another, each after a comma and a
    blank. -/
def displayRest : List Ty → String
  | [] => ""
  | t :: ts => ", " ++ display t ++ displayRest ts
end

/-- The text of a type that shows the number of a variable standing alone. -/
def displayWithId : Ty → String
  | .var x => x.displayWithId
  | t => t.display

end Ty

-- ============================================================================
-- Building composites
-- ============================================================================

/-- A type constructor met a number of arguments other than its arity. -/
structure ArityError where
  /-- How many arguments there were. -/
  given : Nat
  /-- How many the constructor takes. -/
  declared : Nat
deriving DecidableEq

/-- The report of a wrong number of type arguments. -/
def ArityError.message (e : ArityError) : String :=
  "assertion `left == right` failed: wrong number of type arguments\n  left: "
    ++ toString e.given ++ "\n right: " ++ toString e.declared

namespace TypeConstructor

/-- The constructor's name and arity, as `List/1`. -/
def display (c : TypeConstructor) : String := c.name ++ "/" ++ toString c.arity

/-- Build a composite type; the number of arguments has to be the arity. -/
def apply (c : TypeConstructor) (args : List Ty) : Except ArityError CompositeTy :=
  if args.length = c.arity then .ok ⟨c, args⟩ else .error ⟨args.length, c.arity⟩

end TypeConstructor

namespace CompositeTy

instance : DecidableEq CompositeTy := fun c d =>
  if h : c.former = d.former ∧ c.args = d.args then
    isTrue (by cases c; cases d; simp_all)
  else isFalse (by intro he; exact h (he ▸ ⟨rfl, rfl⟩))

/-- The text of a composite type. -/
def display (c : CompositeTy) : String := c.toTy.display

/-- The text of a composite type with the numbers of the variables among its
    arguments. -/
def displayWithId (c : CompositeTy) : String :=
  c.former.name ++ "[" ++ ", ".intercalate (c.args.map Ty.displayWithId) ++ "]"

end CompositeTy
end StructuralDiff
