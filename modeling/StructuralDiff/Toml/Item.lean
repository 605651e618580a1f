/-
  StructuralDiff.Toml.Item

  The tree that a TOML document describes, and the rules on who may add to
  which table.  A table remembers how it came about, because that decides what
  may still be added: a header may turn a table that was only implied by longer
  headers into one of its own, dotted keys may only add to tables that dotted
  keys made, and a table written inline is closed.
-/

import StructuralDiff.OrderedMap
import StructuralDiff.Toml.Number

namespace StructuralDiff.Toml

/-- How a table came about. -/
inductive Origin where
  /-- By a header of its own, or as the document itself. -/
  | header
  /-- As a step on the way to another table in a header. -/
  | implied
  /-- As a step on the way to a value in a dotted key. -/
  | dotted
  /-- Written in braces. -/
  | braces
deriving DecidableEq, Inhabited

/-- What stands under a key. -/
inductive Item where
  | boolean (value : Bool)
  | text (value : String)
  | number (value : Number)
  | moment (value : Moment)
  | array (items : List Item)
  | table (origin : Origin) (entries : List (String × Item))
  /-- An array of tables made by headers: the finished tables, and the last one,
      which is still open. -/
  | tables (finished : List (List (String × Item))) (last : List (String × Item))

/-- The entries of a table, oldest first. -/
abbrev Entries := List (String × Item)

/-- Change the table at the end of a path; steps that are missing are made,
    with origin `made`.  Of an array of tables the last one is meant.  The change
    is told the origin of the table it works on. -/
def changeAt (made : Origin) (change : Origin → Entries → Option Entries) :
    List String → Origin → Entries → Option Entries
  | [], origin, entries => change origin entries
  | k :: path, _, entries => do
    let item ← match OrderedMap.findIn k entries with
      | none => (changeAt made change path made []).map (Item.table made)
      | some (.table origin sub) =>
        if origin = .braces ∨ (made = .dotted ∧ origin = .header) then none
        else (changeAt made change path origin sub).map (Item.table origin)
      | some (.tables finished last) =>
        (changeAt made change path .header last).map (Item.tables finished)
      | some _ => none
    return OrderedMap.insertIn k item entries

/-- Add a value under the last part of a dotted key; the table there was made by
    dotted keys just when there are parts before the last. -/
def addAt (path : List String) (k : String) (item : Item) (origin : Origin) (entries : Entries) :
    Option Entries :=
  changeAt .dotted
    (fun found sub =>
      if found = .dotted ↔ path = [] then none
      else if (OrderedMap.findIn k sub).isSome then none
      else some (OrderedMap.insertIn k item sub))
    path origin entries

/-- Add the values of a table in braces, one after the other. -/
def ofPairs (pairs : List ((List String × String) × Item)) : Option Entries :=
  pairs.foldlM (fun entries p => addAt p.1.1 p.1.2 p.2 .braces entries) []

/-- Open the table of a header: a new one, or one that was only implied. -/
def openTable (path : List String) (k : String) (root : Entries) : Option Entries :=
  changeAt .implied
    (fun _ entries =>
      match OrderedMap.findIn k entries with
      | none => some (OrderedMap.insertIn k (.table .header []) entries)
      | some (.table .implied sub) => some (OrderedMap.insertIn k (.table .header sub) entries)
      | some _ => none)
    path .header root

/-- Open one more table of an array of tables. -/
def openElement (path : List String) (k : String) (root : Entries) : Option Entries :=
  changeAt .implied
    (fun _ entries =>
      match OrderedMap.findIn k entries with
      | none => some (OrderedMap.insertIn k (.tables [] []) entries)
      | some (.tables finished last) =>
        some (OrderedMap.insertIn k (.tables (finished ++ [last]) []) entries)
      | some _ => none)
    path .header root

end StructuralDiff.Toml
