/-
  StructuralDiff.Binding

  What stands at the argument positions of a predicate in a rule or a fact: a
  rule variable or a ground value, each with the tag of what it denotes.

  New variables get names that no variable in use has: a stem and a number,
  counting up from the number of variables in use.
-/

import StructuralDiff.Tag

namespace StructuralDiff

-- ============================================================================
-- Modes
-- ============================================================================

/-- Whether an argument is already instantiated. -/
inductive Mode where
  | bound
  | free
deriving DecidableEq, Inhabited

namespace Mode

/-- A value that is there is bound, a missing one free. -/
def ofOption {α : Type} : Option α → Mode
  | some _ => .bound
  | none => .free

/-- Whether an argument in this mode may stand where `required` is called for: a
    bound one anywhere, a free one where a free one is. -/
def satisfies : Mode → (required : Mode) → Bool
  | .bound, _ => true
  | .free, required => required == .free

/-- The letter of the mode. -/
def letter : Mode → String
  | .bound => "B"
  | .free => "F"

end Mode

-- ============================================================================
-- Variables
-- ============================================================================

/-- How a rule variable is to be read. -/
inductive Quantifier where
  /-- Any value. -/
  | free
  /-- A constant that is filled in later. -/
  | constantHolder
deriving DecidableEq, Inhabited

/-- A rule variable. -/
structure Variable where
  name : String
  /-- What the variable denotes. -/
  tag : Tag
  quantifier : Quantifier
deriving DecidableEq, Inhabited

namespace Variable

/-- The text of a variable whose number is `n`. -/
def numbered (stem : String) (n : Nat) : String := stem ++ toString n

/-- The numbers to try when `count` variables are in use, smallest first.
    Among them there is one more than there are variables. -/
def candidates (count : Nat) : List Nat := (List.range (count + 1)).map (count + ·)

/-- A name with the given stem and the least number, from the number of variables
    in use upward, that makes it unused. -/
def unusedName (stem : String) (inUse : List Variable) : String :=
  match (candidates inUse.length).find?
      (fun n => inUse.all (fun v => v.name != numbered stem n)) with
  | some n => numbered stem n
  | none => ""

/-- A free variable of a given name. -/
def named (name : String) (tag : Tag) : Variable := ⟨name, tag, .free⟩

/-- A free variable whose name is not in use. -/
def newFree (inUse : List Variable) (tag : Tag) : Variable := ⟨unusedName "?x" inUse, tag, .free⟩

/-- A constant holder whose name is not in use. -/
def newHolder (inUse : List Variable) (tag : Tag) : Variable :=
  ⟨unusedName "?c" inUse, tag, .constantHolder⟩

end Variable

-- ============================================================================
-- Bindings
-- ============================================================================

/-- One argument of a predicate. -/
inductive Binding where
  | variable (v : Variable)
  | ground (value : String) (tag : Tag)
deriving DecidableEq, Inhabited

namespace Binding

/-- What the argument denotes. -/
def tag : Binding → Tag
  | .variable v => v.tag
  | .ground _ t => t

/-- Ground values are bound, variables free. -/
def mode : Binding → Mode
  | .variable _ => .free
  | .ground _ _ => .bound

/-- The variable, if the argument is one. -/
def asVariable? : Binding → Option Variable
  | .variable v => some v
  | .ground _ _ => none

/-- The value, if the argument is ground. -/
def groundValue? : Binding → Option String
  | .variable _ => none
  | .ground value _ => some value

/-- Whether the argument may stand where `required` is called for. -/
def fits (b : Binding) (required : Tag) : Bool := b.tag.fits required

/-- The text of an argument: a variable's name, or a value in quotes. -/
def display : Binding → String
  | .variable v => v.name
  | .ground value _ => "\"" ++ value ++ "\""

end Binding
end StructuralDiff
