/-
  StructuralDiff.Toml.Lexical

  The smallest parts of TOML documents: blanks, comments, ends of lines, keys
  and strings.  A reader takes the text that is left and gives what it read
  together with the rest, or nothing if the text does not start with what it
  reads.
-/

namespace StructuralDiff.Toml

/-- Reads a part off the front of a text. -/
abbrev Reader (α : Type) := List Char → Option (α × List Char)

-- ============================================================================
-- Characters
-- ============================================================================

/-- Whether a character is a blank within a line. -/
def isBlank (c : Char) : Bool := c == ' ' || c == '\t'

/-- Whether a character may stand in comments and strings: tabs, and all that are
    no control characters of ASCII. -/
def isText (c : Char) : Bool := c == '\t' || (0x20 ≤ c.toNat && c.toNat != 0x7f)

/-- Whether a character may stand in a key without quotes. -/
def isBare (c : Char) : Bool := c.isAlphanum || c == '_' || c == '-'

/-- The value of a hexadecimal digit. -/
def hexValue? (c : Char) : Option Nat :=
  if '0' ≤ c && c ≤ '9' then some (c.toNat - '0'.toNat)
  else if 'a' ≤ c && c ≤ 'f' then some (c.toNat - 'a'.toNat + 10)
  else if 'A' ≤ c && c ≤ 'F' then some (c.toNat - 'A'.toNat + 10)
  else none

/-- The number that some digits write in the given base. -/
def ofDigits (base : Nat) (digits : List Char) : Nat :=
  digits.foldl (fun n c => n * base + (hexValue? c).getD 0) 0

-- ============================================================================
-- Blanks, comments and ends of lines
-- ============================================================================

/-- The text behind the blanks of a line. -/
def skipBlanks (s : List Char) : List Char := s.dropWhile isBlank

/-- The text behind the end of a line. -/
def newline? : List Char → Option (List Char)
  | '\n' :: rest => some rest
  | '\r' :: '\n' :: rest => some rest
  | _ => none

/-- The text behind a comment, if there is one. -/
def skipComment : List Char → List Char
  | '#' :: rest => rest.dropWhile isText
  | s => s

/-- The text behind what may follow a statement on its line: blanks, a comment,
    and the end of the line or of the document. -/
def lineEnd? (s : List Char) : Option (List Char) :=
  match skipComment (skipBlanks s) with
  | [] => some []
  | rest => newline? rest

/-- The text behind blanks and ends of lines. -/
def skipBlankLines : List Char → List Char
  | '\r' :: '\n' :: rest => skipBlankLines rest
  | '\n' :: rest => skipBlankLines rest
  | ' ' :: rest => skipBlankLines rest
  | '\t' :: rest => skipBlankLines rest
  | s => s

/-- The text behind blanks, ends of lines and comments, each comment with the
    end of its line.  The flag says whether a comment is under way. -/
def skipFiller? : (inComment : Bool) → List Char → Option (List Char)
  | true, '\r' :: '\n' :: rest => skipFiller? false rest
  | true, '\n' :: rest => skipFiller? false rest
  | true, c :: rest => if isText c then skipFiller? true rest else none
  | true, [] => none
  | false, '\r' :: '\n' :: rest => skipFiller? false rest
  | false, '\n' :: rest => skipFiller? false rest
  | false, '#' :: rest => skipFiller? true rest
  | false, ' ' :: rest => skipFiller? false rest
  | false, '\t' :: rest => skipFiller? false rest
  | false, s => some s

-- ============================================================================
-- Strings
-- ============================================================================

/-- The character of a given number of hexadecimal digits; surrogates and numbers
    past the last character have none. -/
def codePoint (digits : Nat) : Reader Char := fun s =>
  let written := s.take digits
  let n := ofDigits 16 written
  if written.length = digits ∧ written.all (fun c => (hexValue? c).isSome) ∧ n.isValidChar then
    some (.ofNat n, s.drop digits)
  else none

/-- The character that an escape stands for, behind its backslash. -/
def escape : Reader Char
  | 'b' :: rest => some ('\x08', rest)
  | 't' :: rest => some ('\t', rest)
  | 'n' :: rest => some ('\n', rest)
  | 'f' :: rest => some ('\x0c', rest)
  | 'r' :: rest => some ('\r', rest)
  | '"' :: rest => some ('"', rest)
  | '\\' :: rest => some ('\\', rest)
  | 'u' :: rest => codePoint 4 rest
  | 'U' :: rest => codePoint 8 rest
  | _ => none

/-- Put a character in front of what a reader read. -/
def andThen (c : Char) (r : Option (List Char × List Char)) : Option (List Char × List Char) :=
  r.map (fun p => (c :: p.1, p.2))

/-- A string of one line with escapes, behind its opening quote.  At most `size`
    characters and escapes are read. -/
def basicString : (size : Nat) → Reader (List Char)
  | 0, _ => none
  | _ + 1, '"' :: rest => some ([], rest)
  | size + 1, '\\' :: rest => (escape rest).bind (fun p => andThen p.1 (basicString size p.2))
  | size + 1, c :: rest => if isText c then andThen c (basicString size rest) else none
  | _ + 1, [] => none

/-- A string of one line without escapes, behind its opening quote. -/
def literalString : Reader (List Char)
  | '\'' :: rest => some ([], rest)
  | c :: rest => if isText c then andThen c (literalString rest) else none
  | [] => none

/-- The quotes that end a string of several lines, behind the first three: up to
    two more belong to the string. -/
def closingQuotes (quote : Char) : List Char → List Char × List Char
  | c :: d :: rest =>
    if c = quote then if d = quote then ([c, d], rest) else ([c], d :: rest) else ([], c :: d :: rest)
  | [c] => if c = quote then ([c], []) else ([], [c])
  | [] => ([], [])

/-- A string of several lines with escapes, behind its opening quotes.  A
    backslash at the end of a line joins it to the next text.  At most `size`
    characters and escapes are read. -/
def basicLines : (size : Nat) → Reader (List Char)
  | 0, _ => none
  | _ + 1, '"' :: '"' :: '"' :: rest => some (closingQuotes '"' rest)
  | size + 1, '\\' :: rest =>
    match newline? (skipBlanks rest) with
    | some next => basicLines size (skipBlankLines next)
    | none => (escape rest).bind (fun p => andThen p.1 (basicLines size p.2))
  | size + 1, '\r' :: '\n' :: rest => andThen '\n' (basicLines size rest)
  | size + 1, c :: rest =>
    if isText c || c == '\n' then andThen c (basicLines size rest) else none
  | _ + 1, [] => none

/-- A string of several lines without escapes, behind its opening quotes. -/
def literalLines : Reader (List Char)
  | '\'' :: '\'' :: '\'' :: rest => some (closingQuotes '\'' rest)
  | '\r' :: '\n' :: rest => andThen '\n' (literalLines rest)
  | c :: rest => if isText c || c == '\n' then andThen c (literalLines rest) else none
  | [] => none

/-- The text behind an end of line, if it starts with one. -/
def dropNewline (s : List Char) : List Char := (newline? s).getD s

/-- A string of any sort. -/
def string : Reader (List Char)
  | '"' :: '"' :: '"' :: rest => basicLines (rest.length + 1) (dropNewline rest)
  | '"' :: rest => basicString (rest.length + 1) rest
  | '\'' :: '\'' :: '\'' :: rest => literalLines (dropNewline rest)
  | '\'' :: rest => literalString rest
  | _ => none

-- ============================================================================
-- Keys
-- ============================================================================

/-- The most parts that a key may have, and the most containers that may lie in
    one another. -/
def deepest : Nat := 79

/-- One part of a key. -/
def keyPart : Reader String
  | '"' :: rest => (basicString (rest.length + 1) rest).map (fun p => (.ofList p.1, p.2))
  | '\'' :: rest => (literalString rest).map (fun p => (.ofList p.1, p.2))
  | s =>
    match s.takeWhile isBare with
    | [] => none
    | word => some (.ofList word, s.dropWhile isBare)

/-- A key: parts with points between them, with blanks around each part.  At
    most `parts` parts are read. -/
def key : (parts : Nat) → Reader (List String)
  | 0, _ => none
  | parts + 1, s =>
    match keyPart (skipBlanks s) with
    | none => none
    | some (part, rest) =>
      match skipBlanks rest with
      | '.' :: more => (key parts more).map (fun p => (part :: p.1, p.2))
      | rest' => some ([part], rest')

end StructuralDiff.Toml
