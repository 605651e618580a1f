/-
  StructuralDiff.Tag

  Tags of predicate arguments.  Four tags stand for program entities and three
  for the simple names of entities; a name tag fits wherever its entity does.
  Signatures are written as one letter per argument.
-/

namespace StructuralDiff

/-- What an argument of a predicate denotes. -/
inductive Tag where
  | package
  | type
  | field
  | method
  /-- The simple name of a type. -/
  | typeName
  /-- The simple name of a field. -/
  | fieldName
  /-- The simple name of a method. -/
  | methodName
deriving DecidableEq, Inhabited

namespace Tag

/-- All tags, entities first. -/
def all : List Tag := [.package, .type, .field, .method, .typeName, .fieldName, .methodName]

/-- The letter that stands for the tag in a signature. -/
def letter : Tag → Char
  | .package => 'p'
  | .type => 't'
  | .field => 'f'
  | .method => 'm'
  | .typeName => 'a'
  | .fieldName => 'b'
  | .methodName => 'c'

/-- The tag that a letter stands for. -/
def ofLetter? (c : Char) : Option Tag := all.find? (fun t => t.letter == c)

/-- The entity that the tag is about. -/
def entity : Tag → Tag
  | .typeName => .type
  | .fieldName => .field
  | .methodName => .method
  | t => t

/-- Whether a value of this tag may stand where `required` is called for: both
    are about the same entity. -/
def fits (t required : Tag) : Bool := t.entity == required.entity

@[simp] theorem ofLetter?_letter (t : Tag) : ofLetter? t.letter = some t := by cases t <;> rfl

theorem letter_of_ofLetter? {c : Char} {t : Tag} (h : ofLetter? c = some t) : t.letter = c := by
  have := List.find?_some h
  simpa using this

-- ============================================================================
-- Signatures
-- ============================================================================

/-- The tags that the letters of a text stand for, or the first letter that
    stands for none. -/
def ofLetters : List Char → Except Char (List Tag)
  | [] => .ok []
  | c :: cs =>
    match ofLetter? c, ofLetters cs with
    | none, _ => .error c
    | some _, .error d => .error d
    | some t, .ok ts => .ok (t :: ts)

/-- The letters of some tags. -/
def letters (ts : List Tag) : List Char := ts.map letter

end Tag
end StructuralDiff
