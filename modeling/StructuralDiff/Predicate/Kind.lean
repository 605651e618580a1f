/-
  StructuralDiff.Predicate.Kind

  The temporal kind of a predicate, read off its name.  A name says whether
  its facts hold before the change, after it, or describe the change itself
  (deleted, added, modified); kinds of change may be primed, which the name
  shows by `p_` behind the tense.
-/

import StructuralDiff.Text.Search
import StructuralDiff.Tag

namespace StructuralDiff

/-- The temporal kind of a predicate. -/
inductive Kind where
  | before
  | after
  | deleted (primed : Bool)
  | added (primed : Bool)
  | modified (primed : Bool)
  /-- The name bears no tense. -/
  | undefined
deriving DecidableEq, Inhabited

namespace Kind

/-- The kind that a name shows.  Of several tenses in one name the first in the
    order before, after, deleted, added, modified counts. -/
def ofName (name : String) : Kind :=
  if Text.contains name "before_" then .before
  else if Text.contains name "after_" then .after
  else if Text.contains name "deleted_" then .deleted (Text.contains name "deleted_p_")
  else if Text.contains name "added_" then .added (Text.contains name "added_p_")
  else if Text.contains name "modified_" then .modified (Text.contains name "modified_p_")
  else .undefined

/-- Whether the kind is a primed one. -/
def isPrimed : Kind → Bool
  | .deleted primed => primed
  | .added primed => primed
  | .modified primed => primed
  | _ => false

/-- Whether facts of this kind hold in the program before the change. -/
def holdsBefore : Kind → Bool
  | .before => true
  | .deleted _ => true
  | _ => false

/-- Whether facts of this kind hold in the program after the change. -/
def holdsAfter : Kind → Bool
  | .after => true
  | .added _ => true
  | _ => false

/-- Whether predicates of this kind may conclude a rule: the unprimed kinds of
    change. -/
def isConclusion : Kind → Bool
  | .deleted primed => !primed
  | .added primed => !primed
  | .modified primed => !primed
  | _ => false

/-- Whether facts of this kind belong to the two programs compared: those that
    hold in one of them, and the primed changes. -/
def isOfPrograms : Kind → Bool
  | .before => true
  | .after => true
  | kind => kind.isPrimed

/-- Whether predicates of this kind may support a rule. -/
def isAntecedent : Kind → Bool
  | .before => true
  | _ => false

end Kind

/-- How large the entities are that a predicate is about. -/
inductive Level where
  | packages
  | classes
  | methods
deriving DecidableEq, Inhabited

/-- The level that the first tag of a signature shows. -/
def Level.ofSignature : List Tag → Level
  | .package :: _ => .packages
  | .type :: _ => .classes
  | _ => .methods

end StructuralDiff
