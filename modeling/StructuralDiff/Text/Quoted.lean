/-
  StructuralDiff.Text.Quoted

  Showing a single character in quotes, as messages do.  Line breaks, the tab,
  the zero character, the quote and the backslash have short escapes; other
  characters that leave no mark of their own on the page are shown by their
  number in hexadecimal.
-/

import StructuralDiff.Text.Markless

namespace StructuralDiff.Text

/-- Whether a character leaves a mark of its own. -/
def hasMark (c : Char) : Bool :=
  !Markless.ranges.any (fun r => r.1 ≤ c.toNat && c.toNat ≤ r.2)

/-- What stands for a character between single quotes. -/
def escaped (c : Char) : String :=
  match c with
  | '\x00' => "\\0"
  | '\t' => "\\t"
  | '\n' => "\\n"
  | '\r' => "\\r"
  | '\'' => "\\'"
  | '\\' => "\\\\"
  | _ =>
    if hasMark c then .singleton c
    else "\\u\x7b" ++ .ofList (Nat.toDigits 16 c.toNat) ++ "\x7d"

/-- A character in single quotes. -/
def quotedChar (c : Char) : String := "'" ++ escaped c ++ "'"

end StructuralDiff.Text
