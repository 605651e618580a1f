/-
  StructuralDiff.RawArguments

  The arguments of facts as they come in: a text with a comma between any two
  arguments, each in quotes, in which parameter lists and type arguments may
  hold further commas.  `converted` gives the argument list of a predicate in
  its own layout: conclusions take one argument apart into its qualified name,
  its simple name and its owner, other predicates keep two arguments in logical
  order.

  `withoutGroups` removes bracketed groups one after the other, each time
  searching the whole text again.
-/

import StructuralDiff.Predicate.Basic

namespace StructuralDiff
namespace RawArguments

-- ============================================================================
-- Groups
-- ============================================================================

/-- The text behind the first `close`, or all of it if there is none. -/
def behindClose (close : Char) (s : List Char) : List Char :=
  match s.dropWhile (· != close) with
  | _ :: behind => behind
  | [] => s

theorem length_behindClose_le (close : Char) (s : List Char) :
    (behindClose close s).length ≤ s.length := by
  have hle : (s.dropWhile (· != close)).length ≤ s.length :=
    (List.dropWhile_sublist (· != close)).length_le
  unfold behindClose
  split
  · rename_i c behind h
    rw [h, List.length_cons] at hle
    omega
  · exact Nat.le_refl _

/-- Remove every group from an `opening` through the first `closing` behind it.
    An `opening` without a `closing` behind it is removed alone. -/
def withoutGroups (opening closing : Char) (s : List Char) : List Char :=
  match _cut : Text.cut? opening s with
  | none => s
  | some (before, behind) => withoutGroups opening closing (before ++ behindClose closing behind)
termination_by s.length
decreasing_by
  have hs := (Text.cut?_spec _cut).1
  have hle := length_behindClose_le closing behind
  simp only [hs, List.length_append, List.length_cons]
  omega

/-- Remove the groups in parentheses, then those in angle brackets. -/
def flattened (s : List Char) : List Char := withoutGroups '<' '>' (withoutGroups '(' ')' s)

/-- The arguments of a text.  Groups are removed first, unless the text falls
    into exactly two arguments as it stands. -/
def arguments (raw : List Char) : List (List Char) :=
  let whole := Text.pieces ',' raw
  if whole.length = 2 then whole else Text.pieces ',' (flattened raw)

-- ============================================================================
-- Single arguments
-- ============================================================================

/-- The text behind the opening quote: all but the first character, which has to
    be a single byte long. -/
def behindQuote : List Char → List Char
  | [] => []
  | c :: cs => if c.utf8Size = 1 then cs else []

/-- An argument without its quotes.  A number sign ends the argument, and if
    there is none, the last quote does; an argument with neither stays as it
    is. -/
def unquoted (s : List Char) : List Char :=
  match (Text.cut? '#' s).or (Text.cutLast? '"' s) with
  | some (before, _) => behindQuote before
  | none => s

/-- A name taken apart. -/
structure QualifiedName where
  /-- The whole name. -/
  qualified : List Char
  /-- The name without its owner. -/
  simple : List Char
  /-- What the name belongs to; nothing if the name does not say. -/
  owner : Option (List Char)

/-- Take a name apart at the first separator between owner and simple name.
    A name that starts with the first character of a separator has no
    owner. -/
def QualifiedName.ofText (s : List Char) : QualifiedName :=
  match Text.cutAt? "%.".toList s with
  | none => ⟨s, s, none⟩
  | some (owner, simple) =>
    ⟨s, simple, if owner.isEmpty || s.head? = some '%' then none else some owner⟩

-- ============================================================================
-- Conversion
-- ============================================================================

/-- A predicate needs an argument that the text does not have. -/
structure MissingArgument where
  predicate : String
  position : Nat
deriving DecidableEq

/-- The report of a missing argument. -/
def MissingArgument.message (e : MissingArgument) : String :=
  "predicate " ++ e.predicate ++ ": missing argument at position " ++ toString e.position

/-- Whether the suffix of a predicate is the word for accesses, in whatever
    case. -/
def isAccess (p : Predicate) : Bool := Text.sameLetters p.suffix Family.accesses.word

/-- The position of the argument that a conclusion takes apart. -/
def subjectPosition (p : Predicate) : Nat :=
  if Text.contains p.suffix "inherited" then 2
  else if Text.sameLetters p.suffix Family.typeInType.word || isAccess p then 1
  else 0

/-- Texts in quotes with commas between them. -/
def quotedList (texts : List (List Char)) : String :=
  ",".intercalate (texts.map (fun s => "\"" ++ .ofList s ++ "\""))

/-- The argument at a position. -/
def argumentAt (p : Predicate) (args : List (List Char)) (position : Nat) :
    Except MissingArgument (List Char) :=
  match args[position]? with
  | some s => .ok s
  | none => .error ⟨p.name, position⟩

/-- The argument list of a predicate, from the text in which it comes in. -/
def converted (p : Predicate) (raw : String) : Except MissingArgument String := do
  let args := arguments raw.toList
  if p.kind.isConclusion then
    let subject ← argumentAt p args (subjectPosition p)
    let name := QualifiedName.ofText (unquoted subject)
    return quotedList [name.qualified, name.simple, name.owner.getD "null".toList]
  else
    let first ← argumentAt p args 0
    let second ← argumentAt p args 1
    if isAccess p then return quotedList [unquoted second, unquoted first]
    else return quotedList [unquoted first, unquoted second]

/-- Three arguments in the layout of fact files. -/
def combined (first second third : String) : String :=
  "\"" ++ first ++ "\", \"" ++ second ++ "\" ,\"" ++ third ++ "\""

end RawArguments
end StructuralDiff
