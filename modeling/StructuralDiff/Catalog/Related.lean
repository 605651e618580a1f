/-
  StructuralDiff.Catalog.Related

  Predicates of a catalog that belong to another one: its siblings under other
  stems, the class-level predicate that it counts towards, and the method
  dependencies under its stem.
-/

import StructuralDiff.Catalog.Basic

namespace StructuralDiff
namespace Catalog

/-- The predicate with the suffix of `p` under another stem. -/
def sibling? (c : Catalog) (p : Predicate) (stem : String) : Option Predicate :=
  c.find? (PredicateName.join stem p.suffix)

/-- The predicate that every conclusion counts towards at class level. -/
def changedType : String := "changed_type"

/-- The class-level predicate that `p` counts towards: for conclusions the
    changed type, for method dependencies the dependency of the same tense, and
    otherwise `p` itself. -/
def classLevel? (c : Catalog) (p : Predicate) : Option Predicate :=
  if p.kind.isConclusion then c.find? changedType
  else if p.isMethodDependency then
    (PredicateName.leading? p.name).bind (fun tense => c.find? (PredicateName.join tense Family.dependency.word))
  else some p

/-- The call and access predicates under the stem of `p`. -/
def methodDependencies (c : Catalog) (p : Predicate) : List Predicate :=
  [Family.calls, Family.accesses].filterMap (fun f => c.find? (PredicateName.join p.stem f.word))

end Catalog
end StructuralDiff
