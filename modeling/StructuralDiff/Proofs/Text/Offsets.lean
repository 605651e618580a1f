/-
  StructuralDiff.Proofs.Text.Offsets

  Places in a text, counted in bytes.

  A character takes from one to four bytes, so not every number of bytes leads
  to a place between two characters.  `splitAt?` cuts a text at an offset, and
  gives nothing where there is no such place: this is so just when the offset is
  no valid position of the string (`isSome_splitAt?_iff`).  The offsets that a
  search finds are always places where the text can be cut, namely those where
  the cuts on characters are made (`offset?_eq`, `lastOffset?_eq`).
-/

import StructuralDiff.Proofs.Text.Pieces

namespace StructuralDiff.Text

variable {c : Char} {n : Nat} {s front back : List Char}

-- ============================================================================
-- Bytes
-- ============================================================================

/-- The number of bytes of a text. -/
def byteLength : List Char → Nat
  | [] => 0
  | c :: s => c.utf8Size + byteLength s

@[simp] theorem byteLength_nil : byteLength [] = 0 := rfl

@[simp] theorem byteLength_cons (c : Char) (s : List Char) :
    byteLength (c :: s) = c.utf8Size + byteLength s := rfl

@[simp] theorem byteLength_append (s t : List Char) :
    byteLength (s ++ t) = byteLength s + byteLength t := by
  induction s with
  | nil => exact (Nat.zero_add _).symm
  | cons c s ih => rw [List.cons_append, byteLength_cons, ih, byteLength_cons, Nat.add_assoc]

theorem utf8ByteSize_ofList (s : List Char) : (String.ofList s).utf8ByteSize = byteLength s := by
  induction s with
  | nil => rfl
  | cons c s ih =>
    rw [String.ofList_cons, String.utf8ByteSize_append, String.utf8ByteSize_singleton, ih,
      byteLength_cons]

-- ============================================================================
-- Cutting at an offset
-- ============================================================================

/-- The text before an offset and the text from there on; nothing if the offset
    lies inside a character or behind the end. -/
def splitAt? : Nat → List Char → Option (List Char × List Char)
  | 0, s => some ([], s)
  | _ + 1, [] => none
  | n + 1, c :: s =>
    if c.utf8Size ≤ n + 1 then
      (splitAt? (n + 1 - c.utf8Size) s).map (fun parts => (c :: parts.1, parts.2))
    else none

/-- The text up to an offset. -/
def upTo? (stop : Nat) (s : List Char) : Option (List Char) := (splitAt? stop s).map Prod.fst

/-- The text from an offset on. -/
def from? (start : Nat) (s : List Char) : Option (List Char) := (splitAt? start s).map Prod.snd

/-- The text between two offsets; nothing if they are reversed, or one of them is
    no place in the text. -/
def between? (start stop : Nat) (s : List Char) : Option (List Char) :=
  (upTo? stop s).bind (from? start)

theorem splitAt?_zero (s : List Char) : splitAt? 0 s = some ([], s) := by
  rw [splitAt?]

theorem splitAt?_cons (hn : 0 < n) (c : Char) (s : List Char) :
    splitAt? n (c :: s) =
      if c.utf8Size ≤ n then
        (splitAt? (n - c.utf8Size) s).map (fun parts => (c :: parts.1, parts.2))
      else none := by
  obtain ⟨m, rfl⟩ := Nat.exists_eq_succ_of_ne_zero (Nat.ne_of_gt hn)
  rw [splitAt?]

/-- A text is cut behind any of its parts. -/
theorem splitAt?_append (front back : List Char) :
    splitAt? (byteLength front) (front ++ back) = some (front, back) := by
  induction front with
  | nil => exact splitAt?_zero back
  | cons c front ih =>
    have hpos := c.utf8Size_pos
    have hle : c.utf8Size ≤ byteLength (c :: front) := by
      rw [byteLength_cons]
      omega
    have hrest : byteLength (c :: front) - c.utf8Size = byteLength front := by
      rw [byteLength_cons]
      omega
    rw [List.cons_append, splitAt?_cons (by omega), if_pos hle, hrest, ih, Option.map_some]

theorem upTo?_append (front back : List Char) :
    upTo? (byteLength front) (front ++ back) = some front := by
  rw [upTo?, splitAt?_append, Option.map_some]

theorem from?_append (front back : List Char) :
    from? (byteLength front) (front ++ back) = some back := by
  rw [from?, splitAt?_append, Option.map_some]

theorem from?_behind (front : List Char) (c : Char) (back : List Char) :
    from? (byteLength front + c.utf8Size) (front ++ c :: back) = some back := by
  have hfrom := from?_append (front ++ [c]) back
  rw [byteLength_append, byteLength_cons, byteLength_nil, List.append_assoc] at hfrom
  exact hfrom

theorem between?_append (start : Nat) (front back : List Char) :
    between? start (byteLength front) (front ++ back) = from? start front := by
  rw [between?, upTo?_append, Option.bind_some]

/-- A cut is made only between two characters. -/
theorem splitAt?_spec (h : splitAt? n s = some (front, back)) :
    s = front ++ back ∧ byteLength front = n := by
  induction s generalizing n front with
  | nil =>
    cases n with
    | zero =>
      rw [splitAt?_zero] at h
      cases h
      exact ⟨rfl, rfl⟩
    | succ n => cases h
  | cons c s ih =>
    rcases Nat.eq_zero_or_pos n with rfl | hn
    · rw [splitAt?_zero] at h
      cases h
      exact ⟨rfl, rfl⟩
    · rw [splitAt?_cons hn] at h
      split at h
      · rename_i hle
        obtain ⟨⟨rest, back⟩, hcut, heq⟩ := Option.map_eq_some_iff.mp h
        cases heq
        obtain ⟨rfl, hrest⟩ := ih hcut
        refine ⟨rfl, ?_⟩
        show byteLength (c :: rest) = n
        rw [byteLength_cons]
        omega
      · cases h

theorem upTo?_spec (h : upTo? n s = some front) : front <+: s ∧ byteLength front = n := by
  obtain ⟨⟨front, back⟩, hcut, rfl⟩ := Option.map_eq_some_iff.mp h
  obtain ⟨rfl, hn⟩ := splitAt?_spec hcut
  exact ⟨List.prefix_append front back, hn⟩

theorem from?_spec (h : from? n s = some back) :
    ∃ front, s = front ++ back ∧ byteLength front = n := by
  obtain ⟨⟨front, back⟩, hcut, rfl⟩ := Option.map_eq_some_iff.mp h
  exact ⟨front, splitAt?_spec hcut⟩

/-- Of two beginnings of a text the one with more bytes is the longer one. -/
theorem length_lt_of_byteLength_lt {front' : List Char} (hfront : front <+: s)
    (hfront' : front' <+: s) (h : byteLength front < byteLength front') :
    front.length < front'.length := by
  rcases List.prefix_or_prefix_of_prefix hfront hfront' with hle | hle
  · obtain ⟨more, rfl⟩ := hle
    cases more with
    | nil =>
      rw [List.append_nil] at h
      exact absurd h (Nat.lt_irrefl _)
    | cons c more =>
      rw [List.length_append, List.length_cons]
      omega
  · obtain ⟨more, rfl⟩ := hle
    rw [byteLength_append] at h
    omega

/-- A text can be cut at just the valid positions of the string. -/
theorem isSome_splitAt?_iff (n : Nat) (s : List Char) :
    (splitAt? n s).isSome = true ↔ (⟨n⟩ : String.Pos.Raw).IsValid (.ofList s) := by
  rw [Option.isSome_iff_exists, String.Pos.Raw.isValid_iff_exists_append]
  constructor
  · rintro ⟨⟨front, back⟩, hcut⟩
    obtain ⟨rfl, rfl⟩ := splitAt?_spec hcut
    refine ⟨.ofList front, .ofList back, String.ofList_append, ?_⟩
    rw [← utf8ByteSize_ofList]
    rfl
  · rintro ⟨front, back, heq, hn⟩
    have hlist : s = front.toList ++ back.toList := by
      rw [← String.toList_append, ← heq, String.toList_ofList]
    have hbytes : n = byteLength front.toList := by
      rw [← utf8ByteSize_ofList, String.ofList_toList]
      exact congrArg String.Pos.Raw.byteIdx hn
    rw [hlist, hbytes]
    exact ⟨_, splitAt?_append _ _⟩

-- ============================================================================
-- Searching for an offset
-- ============================================================================

/-- The offset at which a pattern first occurs. -/
def offset? (pattern : List Char) : List Char → Option Nat
  | [] => if pattern = [] then some 0 else none
  | c :: s =>
    if pattern.isPrefixOf (c :: s) then some 0 else (offset? pattern s).map (c.utf8Size + ·)

/-- The offset at which a character last occurs. -/
def lastOffset? (c : Char) : List Char → Option Nat
  | [] => none
  | d :: s =>
    match lastOffset? c s with
    | some n => some (d.utf8Size + n)
    | none => if d = c then some 0 else none

/-- The offset of a pattern is the length of what stands before it. -/
theorem offset?_eq (pattern s : List Char) :
    offset? pattern s = (cutAt? pattern s).map (fun parts => byteLength parts.1) := by
  induction s with
  | nil =>
    rw [offset?, cutAt?]
    split <;> rfl
  | cons c s ih =>
    rw [offset?, cutAt?]
    split
    · rfl
    · rw [ih, Option.map_map, Option.map_map]
      rfl

theorem lastOffset?_eq (c : Char) (s : List Char) :
    lastOffset? c s = (cutLast? c s).map (fun parts => byteLength parts.1) := by
  induction s with
  | nil => rfl
  | cons d s ih =>
    rw [lastOffset?, cutLast?, ih]
    cases cutLast? c s with
    | some parts => exact congrArg some (byteLength_cons d parts.1).symm
    | none =>
      simp only [Option.map_none]
      split <;> rfl

/-- A character is a pattern of one. -/
theorem cutAt?_singleton (c : Char) (s : List Char) : cutAt? [c] s = cut? c s := by
  induction s with
  | nil => rfl
  | cons d s ih =>
    rw [cutAt?, cut?, ih]
    by_cases h : d = c
    · have hstart : [c].isPrefixOf (d :: s) = true := by
        rw [List.isPrefixOf_iff_prefix, h]
        exact ⟨s, rfl⟩
      rw [if_pos hstart, if_pos h]
      rfl
    · have hstart : ¬ [c].isPrefixOf (d :: s) = true := by
        rw [List.isPrefixOf_iff_prefix, List.cons_prefix_cons]
        exact fun hc => h hc.1.symm
      rw [if_neg hstart, if_neg h]

end StructuralDiff.Text
