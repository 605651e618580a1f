/-
  StructuralDiff.Toml.Number

  Numbers, dates and times of TOML documents.  Integers have to fit in 64 bits
  with a sign; a float may be of any size downward, but a positive one that no
  double can hold is refused.  Dates have to exist in the calendar.
-/

import StructuralDiff.Toml.Lexical

namespace StructuralDiff.Toml

-- ============================================================================
-- Digits
-- ============================================================================

/-- The digits that follow a first one, with single underscores between digits
    left out. -/
def moreDigits (isDigit : Char → Bool) : Reader (List Char)
  | [] => some ([], [])
  | ['_'] => none
  | '_' :: c :: rest => if isDigit c then andThen c (moreDigits isDigit rest) else none
  | c :: rest => if isDigit c then andThen c (moreDigits isDigit rest) else some ([], c :: rest)

/-- At least one digit. -/
def someDigits (isDigit : Char → Bool) : Reader (List Char)
  | c :: rest => if isDigit c then andThen c (moreDigits isDigit rest) else none
  | [] => none

/-- The digits of a decimal number without superfluous zeros in front. -/
def decimalDigits : Reader (List Char)
  | '0' :: rest => some (['0'], rest)
  | s => someDigits Char.isDigit s

/-- A sign, true for minus; plus where there is none. -/
def sign : List Char → Bool × List Char
  | '-' :: rest => (true, rest)
  | '+' :: rest => (false, rest)
  | s => (false, s)

-- ============================================================================
-- Integers
-- ============================================================================

/-- Whether a number with this sign and magnitude fits in 64 bits with a
    sign. -/
def fitsInt64 (negative : Bool) (n : Nat) : Bool :=
  if negative then n ≤ Nat.pow 2 63 else n < Nat.pow 2 63

/-- An integer in a base that is a power of two, behind the letters that announce
    it. -/
def integerInBase (base : Nat) (s : List Char) : Option (Int × List Char) :=
  match someDigits (fun c => (hexValue? c).any (· < base)) s with
  | some (digits, rest) =>
    let n := ofDigits base digits
    if fitsInt64 false n then some (n, rest) else none
  | none => none

-- ============================================================================
-- Floats
-- ============================================================================

/-- The smallest magnitude that rounds to no finite double: half a unit above the
    largest one. -/
def doubleLimit : Nat := Nat.pow 2 1024 - Nat.pow 2 970

/-- Whether the number written with these digits, a point `places` digits before
    their end, and this power of ten behind them is too large for a double.
    Powers that decide the question alone are not worked out. -/
def exceedsDouble (digits : List Char) (places : Nat) (exponent : Int) : Bool :=
  let n := ofDigits 10 digits
  let power := exponent - places
  let size := ((digits.dropWhile (· == '0')).length : Int) + power
  if n = 0 || size < 300 then false
  else if 320 < size then true
  else if 0 ≤ power then doubleLimit ≤ n * Nat.pow 10 power.toNat
  else doubleLimit * Nat.pow 10 (-power).toNat ≤ n

/-- The places behind a decimal point; none if there is no point. -/
def fraction : Reader (Option (List Char))
  | '.' :: rest => (someDigits Char.isDigit rest).map (fun p => (some p.1, p.2))
  | s => some (none, s)

/-- A power of ten; none if none is written. -/
def exponent : Reader (Option Int)
  | [] => some (none, [])
  | c :: rest =>
    if c = 'e' || c = 'E' then
      let (negative, unsigned) := sign rest
      (someDigits Char.isDigit unsigned).map (fun p =>
        let n : Int := ofDigits 10 p.1
        (some (if negative then -n else n), p.2))
    else some (none, c :: rest)

-- ============================================================================
-- Numbers
-- ============================================================================

/-- A number. -/
inductive Number where
  | integer (n : Int)
  /-- A float with its digits, how many of them are places, and the power of
      ten. -/
  | float (negative : Bool) (digits : List Char) (places : Nat) (exponent : Int)
  /-- An infinite float. -/
  | infinity (negative : Bool)
  /-- The float that is no number. -/
  | notANumber

/-- A number in decimal notation, behind its sign. -/
def decimal (negative : Bool) (s : List Char) : Option (Number × List Char) := do
  let (whole, s) ← decimalDigits s
  let (places, s) ← fraction s
  let (power, s) ← exponent s
  match places, power with
  | none, none =>
    let n := ofDigits 10 whole
    if fitsInt64 negative n then some (.integer (if negative then -n else n), s) else none
  | _, _ =>
    let behind := places.getD []
    let digits := whole ++ behind
    if !negative && exceedsDouble digits behind.length (power.getD 0) then none
    else some (.float negative digits behind.length (power.getD 0), s)

/-- A number of any notation. -/
def number : Reader Number
  | '0' :: 'x' :: rest => (integerInBase 16 rest).map (fun p => (.integer p.1, p.2))
  | '0' :: 'o' :: rest => (integerInBase 8 rest).map (fun p => (.integer p.1, p.2))
  | '0' :: 'b' :: rest => (integerInBase 2 rest).map (fun p => (.integer p.1, p.2))
  | s =>
    match sign s with
    | (negative, 'i' :: 'n' :: 'f' :: rest) => some (.infinity negative, rest)
    | (_, 'n' :: 'a' :: 'n' :: rest) => some (.notANumber, rest)
    | (negative, unsigned) => decimal negative unsigned

-- ============================================================================
-- Dates and times
-- ============================================================================

/-- A number of exactly `count` digits between two bounds. -/
def fixed (count low high : Nat) : Reader Nat := fun s =>
  let digits := s.take count
  let n := ofDigits 10 digits
  if digits.length = count ∧ digits.all Char.isDigit ∧ low ≤ n ∧ n ≤ high then
    some (n, s.drop count)
  else none

/-- The text behind a given character. -/
def behind? (c : Char) : List Char → Option (List Char)
  | d :: rest => if d = c then some rest else none
  | [] => none

/-- The number of days of a month. -/
def daysOf (year month : Nat) : Nat :=
  if month = 2 then
    if year % 4 = 0 ∧ (year % 100 ≠ 0 ∨ year % 400 = 0) then 29 else 28
  else if month = 4 ∨ month = 6 ∨ month = 9 ∨ month = 11 then 30
  else 31

/-- A day of the calendar. -/
structure Date where
  year : Nat
  month : Nat
  day : Nat

/-- A time of day, to the second; a second of 60 is a leap second. -/
structure Time where
  hour : Nat
  minute : Nat
  second : Nat

/-- A day, as year, month and day. -/
def date (s : List Char) : Option (Date × List Char) := do
  let (year, s) ← fixed 4 0 9999 s
  let s ← behind? '-' s
  let (month, s) ← fixed 2 1 12 s
  let s ← behind? '-' s
  let (day, s) ← fixed 2 1 (daysOf year month) s
  return (⟨year, month, day⟩, s)

/-- The text behind the digits of a fraction of a second, if there is one. -/
def skipFraction : List Char → List Char
  | '.' :: c :: rest => if c.isDigit then rest.dropWhile Char.isDigit else '.' :: c :: rest
  | s => s

/-- A time of day. -/
def time (s : List Char) : Option (Time × List Char) := do
  let (hour, s) ← fixed 2 0 23 s
  let s ← behind? ':' s
  let (minute, s) ← fixed 2 0 59 s
  let s ← behind? ':' s
  let (second, s) ← fixed 2 0 60 s
  return (⟨hour, minute, second⟩, skipFraction s)

/-- The minutes by which a time differs from universal time. -/
def offset (s : List Char) : Option (Int × List Char) :=
  match s with
  | 'Z' :: rest => some (0, rest)
  | 'z' :: rest => some (0, rest)
  | c :: rest => do
    if c != '+' && c != '-' then none
    let (hour, s) ← fixed 2 0 23 rest
    let s ← behind? ':' s
    let (minute, s) ← fixed 2 0 59 s
    let minutes : Int := hour * 60 + minute
    return (if c = '-' then -minutes else minutes, s)
  | [] => none

/-- A moment: a day, a time of day, or both, with the offset if it is known. -/
structure Moment where
  date : Option Date
  time : Option Time
  offset : Option Int

/-- The time that follows a day, with its offset if there is one. -/
def timeOfDay (s : List Char) : Option ((Time × Option Int) × List Char) :=
  match s with
  | c :: rest =>
    if c = 'T' || c = 't' || c = ' ' then
      (time rest).map (fun p =>
        match offset p.2 with
        | some (minutes, rest') => ((p.1, some minutes), rest')
        | none => ((p.1, none), p.2))
    else none
  | [] => none

/-- A day, a time, or a day and a time. -/
def moment (s : List Char) : Option (Moment × List Char) :=
  match date s with
  | some (d, rest) =>
    match timeOfDay rest with
    | some ((t, minutes), rest') => some (⟨some d, some t, minutes⟩, rest')
    | none => some (⟨some d, none, none⟩, rest)
  | none => (time s).map (fun p => (⟨none, some p.1, none⟩, p.2))

end StructuralDiff.Toml
