/-
  StructuralDiff.FactBase

  A store of ground facts, one table of rows per predicate name.  Only facts
  that a catalog accepts are stored.  A query gives a source over the table as
  it stands, so later facts never show up in an enumeration under way.
-/

import StructuralDiff.Catalog.Basic
import StructuralDiff.Predicate.Template
import StructuralDiff.Source.Drain

namespace StructuralDiff

/-- The argument values of a fact, in the order of the signature. -/
abbrev Row := List String

/-- Why a fact was not stored. -/
inductive FactError where
  /-- The catalog has no predicate of that name. -/
  | unknownPredicate (name : String)
  /-- The arguments do not fit the signature. -/
  | illTyped (p : Predicate)
  /-- An argument is a variable. -/
  | notGround (name : String) (position : Nat)
deriving DecidableEq

/-- The report of a fact that was not stored. -/
def FactError.message : FactError → String
  | .unknownPredicate name => "unknown predicate " ++ name
  | .illTyped p => "fact does not type check against " ++ p.display
  | .notGround name position =>
    "fact for " ++ name ++ " has a variable at position " ++ toString position

/-- The facts stored so far. -/
structure FactBase where
  /-- The rows of each name, oldest first. -/
  tables : OrderedMap String (List Row)
deriving Inhabited

namespace FactBase

/-- The store without facts. -/
def empty : FactBase := ⟨.empty⟩

/-- The rows stored under a name, oldest first. -/
def rows (db : FactBase) (name : String) : List Row := (db.tables.find? name).getD []

/-- The number of facts stored under a name. -/
def count (db : FactBase) (name : String) : Nat := (db.rows name).length

-- ============================================================================
-- Storing
-- ============================================================================

/-- The values of ground arguments, or the first position, counted from
    `position`, that holds a variable. -/
def groundRow (position : Nat) : List Binding → Except Nat Row
  | [] => .ok []
  | .variable _ :: _ => .error position
  | .ground value _ :: rest =>
    match groundRow (position + 1) rest with
    | .ok row => .ok (value :: row)
    | .error i => .error i

/-- The row of a fact that the catalog accepts. -/
def checkedRow (catalog : Catalog) (name : String) (args : List Binding) :
    Except FactError Row :=
  match catalog.find? name with
  | none => .error (.unknownPredicate name)
  | some p =>
    if p.accepts args then
      match groundRow 0 args with
      | .ok row => .ok row
      | .error position => .error (.notGround name position)
    else .error (.illTyped p)

/-- Store a row under a name, behind the others. -/
def push (db : FactBase) (name : String) (row : Row) : FactBase :=
  ⟨db.tables.insert name (db.rows name ++ [row])⟩

/-- Store a fact, if the catalog accepts it. -/
def insert (db : FactBase) (catalog : Catalog) (name : String) (args : List Binding) :
    Except FactError FactBase :=
  match checkedRow catalog name args with
  | .ok row => .ok (db.push name row)
  | .error e => .error e

-- ============================================================================
-- Queries
-- ============================================================================

/-- What a query asks of a row: a value at each bound position, anything at the
    free ones and behind the last. -/
abbrev Pattern := List (Option String)

/-- Whether a row has the asked value at every bound position.  A row ends
    before any bound position that lies behind it. -/
def matchesRow : Pattern → Row → Bool
  | [], _ => true
  | none :: ps, row => matchesRow ps row.tail
  | some _ :: _, [] => false
  | some value :: ps, x :: row => x == value && matchesRow ps row

/-- The facts under a name that match a pattern, oldest first. -/
def query (db : FactBase) (name : String) (pattern : Pattern) : Source String Row :=
  match db.tables.find? name with
  | none => .empty name
  | some rows => .ofList name (rows.filter (matchesRow pattern))

/-- The facts under each of some names that match a pattern, one name after the
    other. -/
def queryAll (db : FactBase) (names : List String) (pattern : Pattern) : Source String Row :=
  (Source.composite "" (names.map (fun name => db.query name pattern))).simplify

end FactBase
end StructuralDiff
