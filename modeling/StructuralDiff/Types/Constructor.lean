/-
  StructuralDiff.Types.Constructor

  Term constructors and their generic types.  A constructor's type maps an
  argument type to a composite result type; the variables in it stand for
  any types.  Each application works on a copy with new variables, so no
  application ever constrains the declaration or another application.
-/

import StructuralDiff.Types.Renaming
import StructuralDiff.Types.Unification

namespace StructuralDiff

/-- The name and arity of a term constructor. -/
structure FunctorId where
  name : String
  arity : Nat
deriving DecidableEq, Inhabited

/-- The text of a functor, as `pair/2`. -/
def FunctorId.display (f : FunctorId) : String := f.name ++ "/" ++ toString f.arity

/-- The type of a constructor: from the type of its argument to the type of the
    compound term. -/
structure Constructor where
  functor : FunctorId
  argument : Ty
  result : CompositeTy
deriving DecidableEq, Inhabited

/-- A constructor was applied to an argument whose type it cannot take. -/
structure TypeMismatch where
  functor : FunctorId
  /-- The copy of the declared argument type. -/
  expected : Ty
  /-- The type of the argument. -/
  found : Ty
deriving DecidableEq

/-- The report of a type mismatch. -/
def TypeMismatch.message (e : TypeMismatch) : String :=
  "type mismatch applying " ++ e.functor.display ++ ": expected " ++ e.expected.display
    ++ ", found " ++ e.found.display

namespace Constructor

/-- The number of arguments: the width of a tuple, and 1 for any other argument
    type. -/
def arity (c : Constructor) : Nat :=
  match c.argument with
  | .tuple items => items.length
  | _ => 1

/-- The text of a constructor's declaration. -/
def display (c : Constructor) : String :=
  c.functor.name ++ " :: " ++ c.argument.display ++ " -> " ++ c.result.display

/-- The type of applying the constructor to an argument of type `arg`: the
    result type of a new copy, resolved once the copy's argument type is
    unified with `arg`.  The supply moves on also when they do not unify. -/
def applyType (c : Constructor) (arg : Ty) (supply : VarSupply) :
    Except TypeMismatch Ty × VarSupply :=
  let (expected, r) := (Renaming.start supply).renameTy c.argument
  let (result, r') := r.renameComposite c.result
  match Substitution.empty.unify expected arg with
  | some s => (.ok (s.resolve result.toTy), r'.supply)
  | none => (.error ⟨c.functor, expected, arg⟩, r'.supply)

end Constructor
end StructuralDiff
