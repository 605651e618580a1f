/-
  StructuralDiff.Types.Unification

  Unification of types under a triangular substitution.  Both sides are first
  walked to the end of their chains; a variable is then bound to the other
  side unless it occurs there, and two tuples, or two composites of one
  constructor, are unified part by part from left to right, each part under
  the substitution that the earlier parts left.

  Descending into parts is bounded by a depth.  `unify` computes one that an
  acyclic substitution cannot use up: in every substitution met on the way,
  a resolved type has at most (number of variables + 1) times the height of a
  stored type many levels, and the total size bounds both factors.
-/

import StructuralDiff.Types.Substitution

namespace StructuralDiff

/-- How an attempt to unify ends. -/
inductive UnifyOutcome where
  /-- The two sides agree under the extended substitution. -/
  | solved (s : Substitution)
  /-- The two sides can never agree. -/
  | clash
  /-- The depth was used up before the question was settled. -/
  | tooDeep
deriving Inhabited

namespace UnifyOutcome

/-- The substitution that was reached, if the two sides agree under one. -/
def toOption : UnifyOutcome → Option Substitution
  | .solved s => some s
  | .clash => none
  | .tooDeep => none

/-- A binding that was either made or refused. -/
def ofExtension : Option Substitution → UnifyOutcome
  | some s => .solved s
  | none => .clash

end UnifyOutcome

namespace Substitution

/-- Unify pairs from left to right with `step`, each under the substitution
    that the earlier ones left. -/
def unifyPairs (step : Substitution → Ty → Ty → UnifyOutcome) :
    Substitution → List (Ty × Ty) → UnifyOutcome
  | s, [] => .solved s
  | s, (t, u) :: rest =>
    match step s t u with
    | .solved s' => unifyPairs step s' rest
    | .clash => .clash
    | .tooDeep => .tooDeep

/-- Unify two lists of parts with `step`; lists of different lengths clash. -/
def unifyParts (step : Substitution → Ty → Ty → UnifyOutcome) (s : Substitution)
    (ts us : List Ty) : UnifyOutcome :=
  if ts.length = us.length then unifyPairs step s (ts.zip us) else .clash

/-- Unify two types, descending at most `depth` levels. -/
def unifyWithin : Nat → Substitution → Ty → Ty → UnifyOutcome
  | 0, _, _, _ => .tooDeep
  | depth + 1, s, t, u =>
    match s.walk t, s.walk u with
    | .var x, u' =>
      if u' = .var x then .solved s else .ofExtension (s.extend x u')
    | t', .var y => .ofExtension (s.extend y t')
    | .atomic m, .atomic n => if m = n then .solved s else .clash
    | .tuple ts, .tuple us => unifyParts (unifyWithin depth) s ts us
    | .composite c ts, .composite d us =>
      if c = d then unifyParts (unifyWithin depth) s ts us else .clash
    | _, _ => .clash

/-- The number of nodes of the types that a substitution binds, and of its
    variables. -/
def weight (s : Substitution) : Nat := Ty.sizeAll s.bindings.values + s.size

/-- A depth that unifying `t` and `u` under an acyclic substitution never uses
    up. -/
def unifyDepth (s : Substitution) (t u : Ty) : Nat :=
  let total := s.weight + t.size + u.size + 1
  total * total

/-- Extend the substitution so that `t` and `u` agree, if it can be done. -/
def unify (s : Substitution) (t u : Ty) : Option Substitution :=
  (unifyWithin (s.unifyDepth t u) s t u).toOption

end Substitution
end StructuralDiff
