/-
  StructuralDiff.Catalog.Basic

  The catalog of the predicates that rules may mention.  A catalog is built by
  registering names with written signatures.  A signature that cannot be used
  drops its registration, a name that is registered again replaces the earlier
  predicate where it stands, and both leave a remark.
-/

import StructuralDiff.OrderedMap
import StructuralDiff.Predicate.Basic

namespace StructuralDiff

/-- A remark on a registration. -/
inductive CatalogRemark where
  /-- The registration was dropped: a character of the signature is no tag. -/
  | invalidTag (name : String) (letter : Char)
  /-- The registration was dropped: the signature is empty. -/
  | emptySignature (name : String)
  /-- The registration replaced an earlier one. -/
  | duplicateName (name : String)
deriving DecidableEq

/-- The wording of a remark. -/
def CatalogRemark.message : CatalogRemark → String
  | .invalidTag name letter =>
    "predicate " ++ name ++ ": invalid type tag " ++ Text.quotedChar letter
  | .emptySignature name => "predicate " ++ name ++ ": empty type signature"
  | .duplicateName name => "predicate " ++ name ++ " registered twice"

/-- The remark on a registration under `name` whose signature cannot be used. -/
def SignatureError.remark (name : String) : SignatureError → CatalogRemark
  | .invalidTag letter => .invalidTag name letter
  | .empty => .emptySignature name

/-- The predicates that rules may mention, under their names.  The same with the
    list of predicates apart from an index of their names is a `Directory`, and it
    answers alike (`Directory.ofRegistrations_answers`). -/
structure Catalog where
  predicates : OrderedMap String Predicate
  /-- The remarks made while the catalog was built, oldest first. -/
  remarks : List CatalogRemark

namespace Catalog

/-- The catalog without predicates. -/
def empty : Catalog := ⟨.empty, []⟩

instance : Inhabited Catalog := ⟨empty⟩

/-- The predicate of a name. -/
def find? (c : Catalog) (name : String) : Option Predicate := c.predicates.find? name

/-- All predicates, in the order in which their names were first registered. -/
def all (c : Catalog) : List Predicate := c.predicates.values

/-- The number of predicates. -/
def size (c : Catalog) : Nat := c.predicates.size

/-- Register a predicate under its name. -/
def enter (c : Catalog) (p : Predicate) : Catalog :=
  ⟨c.predicates.insert p.name p,
    if c.predicates.contains p.name then c.remarks ++ [.duplicateName p.name] else c.remarks⟩

/-- Register a name with a written signature. -/
def register (c : Catalog) (name signature : String) : Catalog :=
  match Predicate.ofText name signature with
  | .ok p => c.enter p
  | .error e => ⟨c.predicates, c.remarks ++ [e.remark name]⟩

/-- The catalog of some registrations, made in order. -/
def ofRegistrations (entries : List (String × String)) : Catalog :=
  entries.foldl (fun c e => c.register e.1 e.2) empty

-- ============================================================================
-- Selections
-- ============================================================================

/-- The predicates whose names bear a tense. -/
def withTense (c : Catalog) : List Predicate := c.all.filter (fun p => p.kind != .undefined)

/-- The predicates of a kind that take a given number of arguments. -/
def ofKindAndArity (c : Catalog) (kind : Kind) (arity : Nat) : List Predicate :=
  c.all.filter (fun p => p.kind == kind && p.arity == arity)

/-- The predicates of a kind with an argument of a given tag. -/
def ofKindAndTag (c : Catalog) (kind : Kind) (tag : Tag) : List Predicate :=
  c.all.filter (fun p => p.kind == kind && p.signature.contains tag)

end Catalog
end StructuralDiff
