/-
  StructuralDiff.Catalog.Standard

  The standard catalog: every family of facts bare and in four tenses, the
  modified entities, the dependencies between classes in four tenses, and the
  changed type.  On request the conclusions come in a primed form as well.
-/

import StructuralDiff.Catalog.Related

namespace StructuralDiff
namespace Catalog

/-- What a catalog is built with. -/
structure Options where
  /-- Conclusions also come in a primed form. -/
  primedConclusions : Bool := false
deriving DecidableEq, Inhabited

/-- The families of facts and their signatures. -/
def families : List (Family × String) :=
  [(.package, "p"), (.type, "tap"), (.field, "f"), (.method, "mct"), (.return, "mt"),
   (.subtype, "tt"), (.accesses, "fm"), (.calls, "mm"), (.inheritedField, "btt"),
   (.inheritedMethod, "ctt"), (.fieldOfType, "ft"), (.typeInType, "tt"), (.extends, "tt"),
   (.implements, "tt")]

/-- The families whose entities can be modified, and their signatures. -/
def modifiable : List (Family × String) :=
  [(.package, "p"), (.type, "tap"), (.method, "mct"), (.field, "f")]

/-- The tenses of facts. -/
def tenses : List String := ["before", "after", "deleted", "added"]

/-- The registrations under each of some stems, of every family of a list. -/
def underStems (stems : List String) (rows : List (Family × String)) : List (String × String) :=
  rows.flatMap (fun row => stems.map (fun stem => (PredicateName.join stem row.1.word, row.2)))

/-- The registrations of the standard catalog, in order. -/
def plainEntries : List (String × String) :=
  families.flatMap (fun row => (row.1.word, row.2) :: underStems tenses [row])
    ++ underStems ["modified"] modifiable
    ++ underStems tenses [(.dependency, "tt")]
    ++ [(changedType, "t")]

/-- The registrations of the primed conclusions, in order. -/
def primedEntries : List (String × String) :=
  underStems ["deleted_p", "added_p"] families ++ underStems ["modified_p"] modifiable

/-- The catalog built with the given options. -/
def ofOptions (options : Options) : Catalog :=
  ofRegistrations (plainEntries ++ if options.primedConclusions then primedEntries else [])

/-- The catalog without primed conclusions. -/
def standard : Catalog := ofOptions {}

end Catalog
end StructuralDiff
