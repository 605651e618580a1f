/-
  StructuralDiff.Pairing.Basic

  Which predicates may stand in one rule.  The kinds of conclusion and
  antecedent have to suit each other; on request, dependence rules that look at
  the names decide first, and conclusions are limited to a list.
-/

import StructuralDiff.Predicate.Basic

namespace StructuralDiff
namespace Pairing

/-- The choices that a policy leaves open. -/
structure Options where
  /-- Only predicates of the list may conclude a rule. -/
  limitConclusions : Bool := false
  /-- Dependence rules decide before the kinds do. -/
  preferDependence : Bool := false
  /-- Predicates of the later program may support added facts. -/
  allowAfter : Bool := false
deriving DecidableEq, Inhabited

-- ============================================================================
-- Conclusions
-- ============================================================================

/-- The names that may conclude a rule when conclusions are limited. -/
def conclusionNames : List String :=
  ["modified_method", "modified_type", "added_accesses", "deleted_accesses", "added_calls",
   "deleted_calls", "added_return", "deleted_return", "added_fieldoftype",
   "deleted_fieldoftype"]

/-- Whether a predicate may conclude a rule. -/
def mayConclude (options : Options) (p : Predicate) : Bool :=
  !options.limitConclusions || conclusionNames.contains p.name

-- ============================================================================
-- Antecedents
-- ============================================================================

/-- Whether a name holds one of some texts. -/
def holdsAny (name : String) (texts : List String) : Bool := texts.any (Text.contains name)

/-- A rule on names: conclusions that hold one of some texts are supported by
    antecedents that hold one of others. -/
structure DependenceRule where
  conclusions : List String
  antecedents : List String

/-- The dependence rules; the first that covers a conclusion decides. -/
def dependenceRules : List DependenceRule :=
  [⟨["added_calls"],
     ["deleted_accesses", "deleted_calls", "deleted_fieldoftype", "deleted_inheritedmethod"]⟩,
   ⟨["deleted_accesses", "added_accesses"], ["before_calls"]⟩,
   ⟨["added_return"], ["deleted_return"]⟩,
   -- No predicate of the standard catalog has this text in its name.
   ⟨["deleted_return"], ["add_return"]⟩,
   ⟨["_method"], ["before_calls", "before_accesses", "before_inheritedmethod"]⟩,
   ⟨["_type"], ["before_subtype", "before_extends", "before_implements"]⟩,
   ⟨["_inherited"], ["_subtype", "_extends", "_implements"]⟩]

/-- What the dependence rules say of a pair of names, if one covers the
    conclusion. -/
def dependence? (conclusion antecedent : String) : Option Bool :=
  (dependenceRules.find? (fun r => holdsAny conclusion r.conclusions)).map
    (fun r => holdsAny antecedent r.antecedents)

/-- Whether an antecedent of one kind may support a conclusion of another. -/
def kindsSuit (allowAfter : Bool) (conclusion antecedent : Kind) : Bool :=
  match conclusion, antecedent with
  | .deleted false, .before => true
  | .added false, .deleted false => true
  | .added false, .before => true
  | .added false, .after => allowAfter
  | .modified false, .before => true
  | _, _ => false

/-- Whether `p` may support `conclusion` in a rule.  Once an antecedent was
    chosen, further ones are of the same kind. -/
def maySupport (options : Options) (conclusion : Predicate) (chosen : Option Predicate)
    (p : Predicate) : Bool :=
  match chosen with
  | some q => p.kind == q.kind
  | none =>
    let byKind := kindsSuit options.allowAfter conclusion.kind p.kind
    if options.preferDependence then (dependence? conclusion.name p.name).getD byKind else byKind

end Pairing
end StructuralDiff
