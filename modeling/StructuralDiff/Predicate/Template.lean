/-
  StructuralDiff.Predicate.Template

  Predicates with arguments: which arguments fit a signature, the arguments
  with which a predicate concludes a rule template, and the logical order of
  the arguments of access facts.
-/

import StructuralDiff.Binding
import StructuralDiff.Predicate.Basic

namespace StructuralDiff
namespace Predicate

/-- Whether each argument fits the tag at its position, and there are as many
    arguments as tags. -/
def argumentsFit : List Binding → List Tag → Bool
  | [], [] => true
  | b :: bs, t :: ts => b.fits t && argumentsFit bs ts
  | _, _ => false

/-- Whether the arguments fit the predicate's signature. -/
def accepts (p : Predicate) (args : List Binding) : Bool := argumentsFit args p.signature

/-- Variables for the positions from `position` on: a free one at the key
    position, constant holders elsewhere.  Each sort is numbered apart. -/
def templateFrom (key : Option Nat) (position : Nat) (free holders : List Variable) :
    List Tag → List Binding
  | [] => []
  | t :: ts =>
    if key = some position then
      let v := Variable.newFree free t
      .variable v :: templateFrom key (position + 1) (free ++ [v]) holders ts
    else
      let v := Variable.newHolder holders t
      .variable v :: templateFrom key (position + 1) free (holders ++ [v]) ts

/-- The arguments with which the predicate concludes a rule template. -/
def template (p : Predicate) : List Binding := templateFrom p.keyArgument? 0 [] [] p.signature

/-- The arguments in logical order: those of access facts name the method
    first. -/
def inLogicalOrder (p : Predicate) (args : List Binding) : List Binding :=
  match args with
  | a :: b :: rest => if p.suffix = Family.accesses.word then b :: a :: rest else a :: b :: rest
  | short => short

end Predicate
end StructuralDiff
