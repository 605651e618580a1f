/-
  StructuralDiff.Proofs.Arguments.Slicing

  Conversion of arguments by slices of bytes.

  `convertedByOffset?` finds groups, quotes and separators at their offsets in
  bytes and takes slices of the text there, and it gives nothing as soon as one
  slice does not lie between two characters.  That never happens: it comes to
  what conversion on characters comes to, for every text
  (`convertedByOffset?_eq`).  Only the slice behind an opening quote may be no
  text, and then it counts as empty (`unquotedByOffset`).
-/

import StructuralDiff.Proofs.Arguments.Groups
import StructuralDiff.Proofs.Text.Offsets

namespace StructuralDiff.RawArguments

open Text (byteLength upTo? from? between? offset? lastOffset?)

variable {o c : Char} {start : Nat} {s t : List Char}

-- ============================================================================
-- Groups
-- ============================================================================

/-- The slice behind the first `close`, or the whole text if there is none. -/
def behindCloseByOffset? (close : Char) (s : List Char) : Option (List Char) :=
  match offset? [close] s with
  | some stop => from? (stop + close.utf8Size) s
  | none => some s

theorem behindCloseByOffset?_eq (c : Char) (s : List Char) :
    behindCloseByOffset? c s = some (behindClose c s) := by
  rw [behindCloseByOffset?, Text.offset?_eq, Text.cutAt?_singleton]
  cases hcut : Text.cut? c s with
  | none => exact congrArg some (behindClose_of_not_mem (Text.cut?_eq_none_iff.mp hcut)).symm
  | some parts =>
    obtain ⟨rfl, hgroup⟩ := Text.cut?_spec hcut
    rw [behindClose_append hgroup]
    exact Text.from?_behind parts.1 c parts.2

/-- One round: the group whose `opening` is at the offset `start` is removed. -/
def roundByOffset? (opening closing : Char) (start : Nat) (s : List Char) : Option (List Char) := do
  let before ← upTo? start s
  let behind ← from? (start + opening.utf8Size) s
  let rest ← behindCloseByOffset? closing behind
  return before ++ rest

/-- At least the opening bracket is removed. -/
theorem length_roundByOffset?_lt (h : roundByOffset? o c start s = some t) :
    t.length < s.length := by
  obtain ⟨before, hbefore, h⟩ := Option.bind_eq_some_iff.mp h
  obtain ⟨behind, hbehind, h⟩ := Option.bind_eq_some_iff.mp h
  rw [behindCloseByOffset?_eq] at h
  cases h
  obtain ⟨hinitial, hstart⟩ := Text.upTo?_spec hbefore
  obtain ⟨front, rfl, hfront⟩ := Text.from?_spec hbehind
  have hpos := o.utf8Size_pos
  have hlt : before.length < front.length :=
    Text.length_lt_of_byteLength_lt hinitial (List.prefix_append front behind) (by omega)
  have hle := length_behindClose_le c behind
  simp only [List.length_append]
  omega

/-- Remove every group, searching the whole text for its first opening bracket
    each time. -/
def withoutGroupsByOffset? (opening closing : Char) (s : List Char) : Option (List Char) :=
  match offset? [opening] s with
  | none => some s
  | some start =>
    match _round : roundByOffset? opening closing start s with
    | none => none
    | some t => withoutGroupsByOffset? opening closing t
termination_by s.length
decreasing_by exact length_roundByOffset?_lt _round

theorem withoutGroupsByOffset?_eq (o c : Char) (s : List Char) :
    withoutGroupsByOffset? o c s = some (withoutGroups o c s) := by
  fun_induction withoutGroups o c s with
  | case1 s hcut =>
    rw [withoutGroupsByOffset?, Text.offset?_eq, Text.cutAt?_singleton, hcut]
    rfl
  | case2 s before behind hcut ih =>
    obtain ⟨rfl, -⟩ := Text.cut?_spec hcut
    have hround : roundByOffset? o c (byteLength before) (before ++ o :: behind) =
        some (before ++ behindClose c behind) := by
      rw [roundByOffset?, Text.upTo?_append, Text.from?_behind]
      show (behindCloseByOffset? c behind).bind _ = _
      rw [behindCloseByOffset?_eq]
      rfl
    rw [withoutGroupsByOffset?, Text.offset?_eq, Text.cutAt?_singleton, hcut, Option.map_some]
    split
    · contradiction
    · rename_i hstart
      cases hstart
      split
      · rename_i hnone
        rw [hround] at hnone
        cases hnone
      · rename_i hsome
        rw [hround] at hsome
        cases hsome
        exact ih

-- ============================================================================
-- Single arguments
-- ============================================================================

/-- The slice behind the first byte, up to the first number sign or else to the
    last quote.  It is empty where there is no such slice. -/
def unquotedByOffset (s : List Char) : List Char :=
  match (offset? ['#'] s).or (lastOffset? '"' s) with
  | some stop => (between? 1 stop s).getD []
  | none => s

theorem getD_from?_one (s : List Char) : (from? 1 s).getD [] = behindQuote s := by
  cases s with
  | nil => rfl
  | cons c s =>
    have hpos := c.utf8Size_pos
    rw [from?, Text.splitAt?_cons Nat.one_pos, behindQuote]
    by_cases h : c.utf8Size = 1
    · rw [if_pos (by omega), if_pos h, h, Text.splitAt?_zero]
      rfl
    · rw [if_neg (by omega), if_neg h]
      rfl

theorem unquotedByOffset_eq (s : List Char) : unquotedByOffset s = unquoted s := by
  have hslice : ∀ before behind, s = before ++ behind →
      (between? 1 (byteLength before) s).getD [] = behindQuote before := by
    rintro before behind rfl
    rw [Text.between?_append, getD_from?_one]
  rw [unquotedByOffset, unquoted, Text.offset?_eq, Text.cutAt?_singleton, Text.lastOffset?_eq]
  cases hsign : Text.cut? '#' s with
  | some parts => exact hslice parts.1 _ (Text.cut?_spec hsign).1
  | none =>
    cases hquote : Text.cutLast? '"' s with
    | some parts => exact hslice parts.1 _ (Text.cutLast?_spec hquote).1
    | none => rfl

/-- Take a name apart into the slices behind and before its first separator. -/
def qualifiedByOffset? (s : List Char) : Option QualifiedName :=
  match offset? "%.".toList s with
  | none => some ⟨s, s, none⟩
  | some stop => do
    let simple ← from? (stop + byteLength "%.".toList) s
    let owner ← upTo? stop s
    return ⟨s, simple, if owner.isEmpty || s.head? = some '%' then none else some owner⟩

theorem qualifiedByOffset?_eq (s : List Char) :
    qualifiedByOffset? s = some (QualifiedName.ofText s) := by
  rw [qualifiedByOffset?, QualifiedName.ofText, Text.offset?_eq]
  cases hcut : Text.cutAt? "%.".toList s with
  | none => rfl
  | some parts =>
    obtain ⟨owner, simple⟩ := parts
    have hs := Text.cutAt?_spec hcut
    have hsimple : from? (byteLength owner + byteLength "%.".toList) s = some simple := by
      rw [hs, ← Text.byteLength_append]
      exact Text.from?_append _ simple
    have howner : upTo? (byteLength owner) s = some owner := by
      rw [hs, List.append_assoc]
      exact Text.upTo?_append owner _
    show (from? (byteLength owner + byteLength "%.".toList) s).bind _ = _
    rw [hsimple, howner]
    rfl

-- ============================================================================
-- Conversion
-- ============================================================================

/-- The arguments of a text, whose groups are removed by slices. -/
def argumentsByOffset? (raw : List Char) : Option (List (List Char)) :=
  let whole := Text.pieces ',' raw
  if whole.length = 2 then some whole
  else do
    let unparenthesized ← withoutGroupsByOffset? '(' ')' raw
    let flat ← withoutGroupsByOffset? '<' '>' unparenthesized
    return Text.pieces ',' flat

theorem argumentsByOffset?_eq (raw : List Char) :
    argumentsByOffset? raw = some (arguments raw) := by
  rw [argumentsByOffset?, arguments, withoutGroupsByOffset?_eq]
  show (if _ then _ else (withoutGroupsByOffset? '<' '>' _).bind _) = _
  rw [withoutGroupsByOffset?_eq]
  exact (apply_ite some _ _ _).symm

/-- The argument list of a predicate, by slices of the text in which it comes
    in. -/
def convertedByOffset? (p : Predicate) (raw : String) :
    Option (Except MissingArgument String) := do
  let args ← argumentsByOffset? raw.toList
  if p.kind.isConclusion then
    match argumentAt p args (subjectPosition p) with
    | .error e => return .error e
    | .ok subject =>
      let name ← qualifiedByOffset? (unquotedByOffset subject)
      return .ok (quotedList [name.qualified, name.simple, name.owner.getD "null".toList])
  else
    return do
      let first ← argumentAt p args 0
      let second ← argumentAt p args 1
      if isAccess p then return quotedList [unquotedByOffset second, unquotedByOffset first]
      else return quotedList [unquotedByOffset first, unquotedByOffset second]

/-- No slice fails, and conversion by slices is conversion on characters. -/
theorem convertedByOffset?_eq (p : Predicate) (raw : String) :
    convertedByOffset? p raw = some (converted p raw) := by
  rw [convertedByOffset?, converted, argumentsByOffset?_eq]
  simp only [unquotedByOffset_eq, qualifiedByOffset?_eq, Option.bind_eq_bind, Option.bind_some]
  cases p.kind.isConclusion with
  | true => cases argumentAt p (arguments raw.toList) (subjectPosition p) <;> rfl
  | false => rfl

end StructuralDiff.RawArguments
