/-
  StructuralDiff.Types.Term

  Terms: constants, variables, tuples, and compound terms made by a
  constructor from one argument term, which is a tuple when the constructor
  takes several.
-/

import StructuralDiff.Types.Constructor

namespace StructuralDiff

/-- A term. -/
inductive Term where
  | constant (text : String)
  | var (x : Var)
  | tuple (items : List Term)
  /-- A constructor applied to its argument. -/
  | compound (functor : Constructor) (argument : Term)
deriving Inhabited

namespace Term

mutual
/-- Whether two terms are built alike from the same parts. -/
def decEq : (t u : Term) → Decidable (t = u)
  | .constant m, .constant n =>
    if h : m = n then isTrue (by rw [h]) else isFalse (by simpa using h)
  | .var x, .var y =>
    if h : x = y then isTrue (by rw [h]) else isFalse (by simpa using h)
  | .tuple ts, .tuple us =>
    match decEqAll ts us with
    | isTrue h => isTrue (by rw [h])
    | isFalse h => isFalse (by simpa using h)
  | .compound c t, .compound d u =>
    if h : c = d then
      match decEq t u with
      | isTrue h' => isTrue (by rw [h, h'])
      | isFalse h' => isFalse (by simp [h'])
    else isFalse (by simp [h])
  | .constant _, .var _ | .constant _, .tuple _ | .constant _, .compound _ _
  | .var _, .constant _ | .var _, .tuple _ | .var _, .compound _ _
  | .tuple _, .constant _ | .tuple _, .var _ | .tuple _, .compound _ _
  | .compound _ _, .constant _ | .compound _ _, .var _ | .compound _ _, .tuple _ =>
    isFalse (by simp)

/-- Whether two lists hold the same terms in the same order. -/
def decEqAll : (ts us : List Term) → Decidable (ts = us)
  | [], [] => isTrue rfl
  | [], _ :: _ => isFalse (by simp)
  | _ :: _, [] => isFalse (by simp)
  | t :: ts, u :: us =>
    match decEq t u with
    | isTrue h =>
      match decEqAll ts us with
      | isTrue h' => isTrue (by rw [h, h'])
      | isFalse h' => isFalse (by simp [h'])
    | isFalse h => isFalse (by simp [h])
end

instance : DecidableEq Term := decEq

mutual
/-- Whether no variable stands in the term. -/
def isGround : Term → Bool
  | .constant _ => true
  | .var _ => false
  | .tuple ts => allGround ts
  | .compound _ t => isGround t

/-- Whether no variable stands in any term of a list. -/
def allGround : List Term → Bool
  | [] => true
  | t :: ts => isGround t && allGround ts
end

/-- The parts of an argument: the items of a tuple, else the term alone. -/
def parts : Term → List Term
  | .tuple items => items
  | t => [t]

mutual
/-- The text of a term: tuples in angle brackets, the parts of a compound term
    in angle brackets after the name of its constructor. -/
def display : Term → String
  | .constant text => text
  | .var x => x.display
  | .tuple ts => "<" ++ displayAll ts ++ ">"
  | .compound c t => c.functor.name ++ "<" ++ displayParts t ++ ">"

/-- The text of an argument inside the brackets of its compound term. -/
def displayParts : Term → String
  | .tuple ts => displayAll ts
  | .constant text => text
  | .var x => x.display
  | .compound c t => c.functor.name ++ "<" ++ displayParts t ++ ">"

/-- The texts of some terms, with a comma between any two. -/
def displayAll : List Term → String
  | [] => ""
  | t :: ts => display t ++ displayRest ts

/-- The texts of the terms that follow another, each after a comma. -/
def displayRest : List Term → String
  | [] => ""
  | t :: ts => "," ++ display t ++ displayRest ts
end

end Term

/-- Build a compound term from several arguments. -/
def Constructor.applyAll (c : Constructor) (args : List Term) : Term := .compound c (.tuple args)

end StructuralDiff
