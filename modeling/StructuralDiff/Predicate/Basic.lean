/-
  StructuralDiff.Predicate.Basic

  Predicates: a name and a signature.  All other properties are read off these
  two, so predicates with equal names and signatures are equal.

  What an argument list has to look like is the business of
  `StructuralDiff.Predicate.Template`.
-/

import StructuralDiff.Predicate.Family
import StructuralDiff.Predicate.Kind
import StructuralDiff.Predicate.Name
import StructuralDiff.Text.Quoted

namespace StructuralDiff

-- ============================================================================
-- Predicates
-- ============================================================================

/-- A named relation over program entities. -/
structure Predicate where
  name : String
  /-- The tags of the arguments. -/
  signature : List Tag
  /-- There is at least one argument. -/
  signature_ne_nil : signature ≠ []
deriving DecidableEq

/-- Why a signature cannot be used. -/
inductive SignatureError where
  /-- The first of its characters that is no tag. -/
  | invalidTag (letter : Char)
  /-- It has no tags. -/
  | empty
deriving DecidableEq

namespace Predicate

/-- The predicate of a name and a written signature. -/
def ofText (name signature : String) : Except SignatureError Predicate :=
  match Tag.ofLetters signature.toList with
  | .error c => .error (.invalidTag c)
  | .ok [] => .error .empty
  | .ok (t :: ts) => .ok ⟨name, t :: ts, by simp⟩

/-- The number of arguments. -/
def arity (p : Predicate) : Nat := p.signature.length

/-- The temporal kind. -/
def kind (p : Predicate) : Kind := .ofName p.name

/-- The level of the first argument. -/
def level (p : Predicate) : Level := .ofSignature p.signature

/-- The text behind the last underscore of the name. -/
def suffix (p : Predicate) : String := PredicateName.suffix p.name

/-- The text before the last underscore of the name. -/
def stem (p : Predicate) : String := PredicateName.stem p.name

/-- The family that the suffix names. -/
def family (p : Predicate) : Family := .ofWord p.suffix

/-- The family that the text behind the first underscore names. -/
def rootFamily (p : Predicate) : Family := .ofWord (PredicateName.root p.name)

/-- The written form: the name, and the letters of the signature in
    parentheses. -/
def display (p : Predicate) : String :=
  p.name ++ "(" ++ ",".intercalate (p.signature.map (fun t => String.singleton t.letter)) ++ ")"

/-- The name without the mark of a primed kind. -/
def unprimedName (p : Predicate) : String :=
  if p.kind.isPrimed then Text.replaceFirst p.name "_p_" "_" else p.name

/-- Whether two predicates have the same name once the marks of primed kinds are
    left out. -/
def sameUnprimed (p q : Predicate) : Bool := p.unprimedName == q.unprimedName

-- ============================================================================
-- Classification
-- ============================================================================

/-- Whether the predicate is about single entities. -/
def isElement (p : Predicate) : Bool := p.arity == 1

/-- Whether the predicate is about parts of classes. -/
def isMethodLevel (p : Predicate) : Bool := p.level == .methods

/-- Whether the predicate states that a method depends on another member. -/
def isMethodDependency (p : Predicate) : Bool :=
  Text.contains p.name "accesses" || Text.contains p.name "calls"

/-- Whether the predicate may stand in a rule about methods: it is no dependency
    between classes. -/
def suitsMethodLevel (p : Predicate) : Bool := !Text.sameLetters p.suffix "dependency"

/-- Whether any argument has one of the tags. -/
def hasTagAmong (p : Predicate) (tags : List Tag) : Bool :=
  p.signature.any (fun t => tags.contains t)

-- ============================================================================
-- Arguments
-- ============================================================================

/-- The position that a rule template leaves free.  Names without a stem of
    their own have none. -/
def keyArgument? (p : Predicate) : Option Nat :=
  if p.stem = p.name then none else p.family.keyArgument?

/-- The position of the argument that refers to another entity. -/
def referenceArgument (p : Predicate) : Nat := p.family.referenceArgument

/-- The groups of positions that identify the subject of a fact.  Groups that
    reach past the last argument are left out. -/
def primaryArguments (p : Predicate) : List (List Nat) :=
  match p.family.primaryGroups? with
  | some groups => groups.filter (fun g => g.all (· < p.arity))
  | none => [List.range p.arity]

/-- The tags of the entities that facts of the predicate are about. -/
def primaryTags (p : Predicate) : List Tag := p.rootFamily.primaryTags?.getD p.signature

end Predicate
end StructuralDiff
