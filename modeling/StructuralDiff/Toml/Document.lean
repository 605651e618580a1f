/-
  StructuralDiff.Toml.Document

  Reading TOML documents: values, statements, and the tree that the statements
  of a document build up.  Statements are read line by line; a header opens a
  table, and the values that follow go into the table opened last.  No table comes
  to have a key twice (`parse_tidy`), and no text is too long to be read
  (`statements_bound`).
-/

import StructuralDiff.Toml.Item

namespace StructuralDiff.Toml

-- ============================================================================
-- Values
-- ============================================================================

/-- A value that has no values inside. -/
def scalar : Reader Item
  | 't' :: 'r' :: 'u' :: 'e' :: rest => some (.boolean true, rest)
  | 'f' :: 'a' :: 'l' :: 's' :: 'e' :: rest => some (.boolean false, rest)
  | s =>
    match string s with
    | some (text, rest) => some (.text (.ofList text), rest)
    | none =>
      match moment s with
      | some (m, rest) => some (.moment m, rest)
      | none => (number s).map (fun p => (.number p.1, p.2))

/-- A dotted key with the part behind its last point apart. -/
def splitKey : Reader (List String × String) := fun s =>
  (key deepest s).bind (fun p => p.1.getLast?.map (fun last => ((p.1.dropLast, last), p.2)))

/-- The items of an array, behind its opening bracket or a comma.  At most `size`
    items are read. -/
def arrayItems (item : Reader Item) : (size : Nat) → Reader (List Item)
  | 0, _ => none
  | size + 1, s => do
    let s ← skipFiller? false s
    if s.head? = some ']' then return ([], s.tail)
    let (x, s) ← item s
    let s ← skipFiller? false s
    match s with
    | ',' :: rest => (arrayItems item size rest).map (fun p => (x :: p.1, p.2))
    | ']' :: rest => return ([x], rest)
    | _ => none

/-- A key, an equals sign and a value. -/
def pair (item : Reader Item) (s : List Char) :
    Option (((List String × String) × Item) × List Char) := do
  let (k, s) ← splitKey s
  let s ← behind? '=' s
  let (x, s) ← item (skipBlanks s)
  return ((k, x), s)

/-- The pairs of a table in braces from the second on, each behind its comma, up
    to the closing brace.  At most `size` pairs are read. -/
def morePairs (item : Reader Item) : (size : Nat) → Reader (List ((List String × String) × Item))
  | 0, _ => none
  | size + 1, s =>
    match skipBlanks s with
    | '\x7d' :: rest => some ([], rest)
    | ',' :: rest => do
      let (p, s) ← pair item rest
      let (ps, s) ← morePairs item size s
      return (p :: ps, s)
    | _ => none

/-- The pairs of a table in braces, behind the opening one. -/
def tablePairs (item : Reader Item) (s : List Char) :
    Option (List ((List String × String) × Item) × List Char) :=
  match skipBlanks s with
  | '\x7d' :: rest => some ([], rest)
  | _ => do
    let (p, s) ← pair item s
    let (ps, s) ← morePairs item (s.length + 1) s
    return (p :: ps, s)

/-- A value that has at most `depth` containers around any part of it. -/
def valueWithin : (depth : Nat) → Reader Item
  | depth + 1, '[' :: rest =>
    (arrayItems (valueWithin depth) (rest.length + 1) rest).map (fun p => (.array p.1, p.2))
  | depth + 1, '\x7b' :: rest => do
    let (pairs, s) ← tablePairs (valueWithin depth) rest
    let entries ← ofPairs pairs
    return (.table .braces entries, s)
  | _, s => scalar s

-- ============================================================================
-- Statements
-- ============================================================================

/-- A line of a document. -/
inductive Statement where
  /-- Put a value under a dotted key. -/
  | set (path : List String) (key : String) (item : Item)
  /-- Open a table. -/
  | header (path : List String) (key : String)
  /-- Open one more table of an array of tables. -/
  | element (path : List String) (key : String)

/-- A statement, up to the end of its line. -/
def statement (s : List Char) : Option (Statement × List Char) :=
  match s with
  | '[' :: '[' :: rest => do
    let ((path, k), s) ← splitKey rest
    let s ← behind? ']' s
    let s ← behind? ']' s
    let s ← lineEnd? s
    return (.element path k, s)
  | '[' :: rest => do
    let ((path, k), s) ← splitKey rest
    let s ← behind? ']' s
    let s ← lineEnd? s
    return (.header path k, s)
  | _ => do
    let (((path, k), x), s) ← pair (valueWithin deepest) s
    let s ← lineEnd? s
    return (.set path k x, s)

/-- The statements of a text, in order.  At most `lines` lines are read. -/
def statements : (lines : Nat) → List Char → Option (List Statement)
  | 0, _ => none
  | lines + 1, s =>
    match skipBlanks s with
    | [] => some []
    | '#' :: rest => (lineEnd? ('#' :: rest)).bind (statements lines)
    | '\n' :: rest => statements lines rest
    | '\r' :: rest => (newline? ('\r' :: rest)).bind (statements lines)
    | c :: rest => do
      let (first, s) ← statement (c :: rest)
      let others ← statements lines s
      return first :: others

-- ============================================================================
-- Documents
-- ============================================================================

/-- A document part of the way through: the tree so far and the path of the
    table opened last. -/
structure Progress where
  root : Entries
  opened : List String

/-- Carry out a statement. -/
def Progress.run (p : Progress) : Statement → Option Progress
  | .set path k x =>
    (changeAt .implied (addAt path k x) p.opened .header p.root).map (fun root => { p with root })
  | .header path k => (openTable path k p.root).map (fun root => ⟨root, path ++ [k]⟩)
  | .element path k => (openElement path k p.root).map (fun root => ⟨root, path ++ [k]⟩)

/-- The text behind the mark that may announce the encoding of a file. -/
def skipMark : List Char → List Char
  | '\ufeff' :: rest => rest
  | s => s

/-- The entries of a document; nothing if the text is no document. -/
def parse (text : String) : Option Entries := do
  let s := skipMark text.toList
  let lines ← statements (s.length + 1) s
  let done ← lines.foldlM Progress.run ⟨[], []⟩
  return done.root

end StructuralDiff.Toml
