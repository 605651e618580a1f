/-
  StructuralDiff.Predicate.Family

  Families of facts: what a predicate states, apart from its tense.  A family
  fixes which argument a rule template leaves free, which argument refers to
  another entity, and which entities the fact is about.
-/

import StructuralDiff.Tag

namespace StructuralDiff

/-- A family of facts. -/
inductive Family where
  | package
  | type
  | field
  | method
  | return
  | subtype
  | accesses
  | calls
  | inheritedField
  | inheritedMethod
  | fieldOfType
  | typeInType
  | extends
  | implements
  | dependency
  /-- No family of this list. -/
  | unknown
deriving DecidableEq, Inhabited

namespace Family

/-- The families that have a word in predicate names. -/
def named : List Family :=
  [.package, .type, .field, .method, .return, .subtype, .accesses, .calls, .inheritedField,
   .inheritedMethod, .fieldOfType, .typeInType, .extends, .implements, .dependency]

/-- The word that stands for a family in predicate names. -/
def word : Family → String
  | .package => "package"
  | .type => "type"
  | .field => "field"
  | .method => "method"
  | .return => "return"
  | .subtype => "subtype"
  | .accesses => "accesses"
  | .calls => "calls"
  | .inheritedField => "inheritedfield"
  | .inheritedMethod => "inheritedmethod"
  | .fieldOfType => "fieldoftype"
  | .typeInType => "typeintype"
  | .extends => "extends"
  | .implements => "implements"
  | .dependency => "dependency"
  | .unknown => ""

/-- The family that a word stands for. -/
def ofWord (text : String) : Family := (named.find? (fun f => f.word == text)).getD .unknown

/-- The position of the argument that a rule template leaves free. -/
def keyArgument? : Family → Option Nat
  | .accesses | .inheritedField | .inheritedMethod => some 1
  | .dependency | .unknown => none
  | _ => some 0

/-- The position of the argument that refers to another entity. -/
def referenceArgument : Family → Nat
  | .subtype | .accesses => 1
  | .inheritedField | .inheritedMethod => 2
  | _ => 0

/-- The tags of the entities that facts of the family are about; for the other
    families these are all of the signature. -/
def primaryTags? : Family → Option (List Tag)
  | .type | .dependency | .typeInType => some [.type]
  | .field => some [.field]
  | .method => some [.method]
  | .inheritedMethod => some [.method, .type]
  | .inheritedField => some [.field, .type]
  | _ => none

/-- The groups of argument positions that identify the subject of a fact; for
    the other families all positions form one group. -/
def primaryGroups? : Family → Option (List (List Nat))
  | .type | .typeInType => some [[0]]
  | .field | .method => some [[0], [1, 2]]
  | _ => none

end Family
end StructuralDiff
