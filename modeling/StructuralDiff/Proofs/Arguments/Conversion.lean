/-
  StructuralDiff.Proofs.Arguments.Conversion

  What comes of any text at all.

  `Unquoted` says in bytes what an argument is without its quotes, whatever it
  looks like: a text of which the first character takes several bytes, or whose
  only quote is its first character, leaves nothing.

  Main statement: every text is answered, with a report of the missing argument
  exactly if there are too few, and else with the arguments that the predicate
  takes, and no slice of the text fails on the way (`converted_every_text`).
-/

import StructuralDiff.Proofs.Arguments.Reading
import StructuralDiff.Proofs.Arguments.Slicing

namespace StructuralDiff.RawArguments

open Text (byteLength between?)

-- ============================================================================
-- Single arguments
-- ============================================================================

/-- The argument `s` without its quotes: its bytes behind the first one and before
    the first number sign, or before the last quote if it has no number sign.
    Nothing is left if these bytes are no text, and an argument with neither
    stays as it is. -/
inductive Unquoted (s : List Char) : List Char → Prop where
  | sign {before behind : List Char} (h : s = before ++ '#' :: behind) (hfirst : '#' ∉ before) :
      Unquoted s ((between? 1 (byteLength before) s).getD [])
  | quote {before behind : List Char} (hsign : '#' ∉ s) (h : s = before ++ '"' :: behind)
      (hlast : '"' ∉ behind) : Unquoted s ((between? 1 (byteLength before) s).getD [])
  | bare (hsign : '#' ∉ s) (hquote : '"' ∉ s) : Unquoted s s

/-- Quotes are taken off in one way. -/
theorem Unquoted.unique {s q q' : List Char} (h : Unquoted s q) (h' : Unquoted s q') : q = q' := by
  have hoccurs : ∀ {c : Char} {before behind : List Char}, s = before ++ c :: behind → c ∈ s := by
    rintro c before behind rfl
    exact List.mem_append_right before List.mem_cons_self
  cases h with
  | sign heq hfirst =>
    cases h' with
    | sign heq' hfirst' =>
      have hcut := congrArg (Text.cut? '#') (heq.symm.trans heq')
      rw [Text.cut?_append hfirst, Text.cut?_append hfirst'] at hcut
      cases hcut
      rfl
    | quote hsign => exact absurd (hoccurs heq) hsign
    | bare hsign => exact absurd (hoccurs heq) hsign
  | quote hsign heq hlast =>
    cases h' with
    | sign heq' => exact absurd (hoccurs heq') hsign
    | quote _ heq' hlast' =>
      have hcut := congrArg (Text.cutLast? '"') (heq.symm.trans heq')
      rw [Text.cutLast?_append hlast, Text.cutLast?_append hlast'] at hcut
      cases hcut
      rfl
    | bare _ hquote => exact absurd (hoccurs heq) hquote
  | bare hsign hquote =>
    cases h' with
    | sign heq' => exact absurd (hoccurs heq') hsign
    | quote _ heq' => exact absurd (hoccurs heq') hquote
    | bare => rfl

theorem unquoted_of_unquoted (s : List Char) : Unquoted s (unquoted s) := by
  rw [← unquotedByOffset_eq, unquotedByOffset, Text.offset?_eq, Text.cutAt?_singleton,
    Text.lastOffset?_eq]
  cases hsign : Text.cut? '#' s with
  | some parts =>
    obtain ⟨h, hfirst⟩ := Text.cut?_spec hsign
    exact .sign h hfirst
  | none =>
    have hfree := Text.cut?_eq_none_iff.mp hsign
    cases hquote : Text.cutLast? '"' s with
    | some parts =>
      obtain ⟨h, hlast⟩ := Text.cutLast?_spec hquote
      exact .quote hfree h hlast
    | none => exact .bare hfree (Text.cutLast?_eq_none_iff.mp hquote)

example : unquoted "é\"".toList = [] := by decide

-- ============================================================================
-- All arguments
-- ============================================================================

variable {p : Predicate} {raw : String}

/-- The arguments are the pieces of the text, from which the groups are removed
    unless there are two pieces already. -/
theorem arguments_eq (s : List Char) :
    arguments s = Text.pieces ',' (if (Text.pieces ',' s).length = 2 then s else flattened s) :=
  (apply_ite (Text.pieces ',') _ _ _).symm

/-- A conclusion takes the argument at its position apart. -/
theorem converted_subject (hp : p.kind.isConclusion = true) {a : List Char}
    (h : (arguments raw.toList)[subjectPosition p]? = some a) :
    ∃ q simple owner, Unquoted a q ∧ TakenApart q simple owner ∧
      converted p raw = .ok
        ("\"" ++ .ofList q ++ "\",\"" ++ .ofList simple ++ "\",\"" ++ .ofList owner ++ "\"") := by
  refine ⟨_, _, _, unquoted_of_unquoted a, takenApart_ofText _, ?_⟩
  rw [converted_of_conclusion hp, List.getElem?_map, h, Option.map_some, ← quotedList_triple]

/-- It reports its position exactly if there is no argument there. -/
theorem converted_subject_missing_iff (hp : p.kind.isConclusion = true) :
    converted p raw = .error ⟨p.name, subjectPosition p⟩ ↔
      (arguments raw.toList).length ≤ subjectPosition p := by
  constructor
  · intro herror
    by_contra h
    have hfound := List.getElem?_eq_getElem (Nat.lt_of_not_le h)
    obtain ⟨_, _, _, -, -, hok⟩ := converted_subject hp hfound
    rw [hok] at herror
    cases herror
  · intro h
    rw [converted_of_conclusion hp, List.getElem?_map, List.getElem?_eq_none h, Option.map_none]

/-- Any other predicate keeps the first two arguments, in logical order. -/
theorem converted_first_two (hp : p.kind.isConclusion = false) {a b : List Char}
    {rest : List (List Char)} (h : arguments raw.toList = a :: b :: rest) :
    ∃ first second, Unquoted a first ∧ Unquoted b second ∧
      converted p raw = .ok
        (if Text.sameLetters p.suffix "accesses" then
          "\"" ++ .ofList second ++ "\",\"" ++ .ofList first ++ "\""
        else "\"" ++ .ofList first ++ "\",\"" ++ .ofList second ++ "\"") := by
  refine ⟨_, _, unquoted_of_unquoted a, unquoted_of_unquoted b, ?_⟩
  have hargs := congrArg (List.map unquoted) h
  rw [converted_of_other hp hargs, quotedList_pair, quotedList_pair]
  rfl

/-- It reports the first argument that is missing exactly if there are not two. -/
theorem converted_pair_missing_iff (hp : p.kind.isConclusion = false) :
    converted p raw = .error ⟨p.name, (arguments raw.toList).length⟩ ↔
      (arguments raw.toList).length ≤ 1 := by
  rcases hargs : arguments raw.toList with - | ⟨a, - | ⟨b, rest⟩⟩
  · have hmissing : converted p raw = .error ⟨p.name, 0⟩ := by
      simp only [converted, argumentAt, hp, hargs]
      rfl
    exact iff_of_true hmissing (Nat.zero_le 1)
  · have hmissing : converted p raw = .error ⟨p.name, 1⟩ := by
      simp only [converted, argumentAt, hp, hargs]
      rfl
    exact iff_of_true hmissing (Nat.le_refl 1)
  · obtain ⟨_, _, -, -, hok⟩ := converted_first_two hp hargs
    rw [hok]
    refine iff_of_false (fun h => ?_) (by simp)
    cases h

/-- **Every text is answered.**  The arguments are the pieces of the text, without
    groups unless there are two pieces already.  A conclusion reports its position
    if there is no argument at it, and else takes that argument apart; any other
    predicate reports the first of the two that is missing, and else keeps the
    first two, in logical order.  Every slice of bytes on the way to the answer
    lies between two characters. -/
theorem converted_every_text (p : Predicate) (raw : String) :
    let text := if (Text.pieces ',' raw.toList).length = 2 then raw.toList
      else withoutGroups '<' '>' (withoutGroups '(' ')' raw.toList)
    let args := Text.pieces ',' text
    let k := subjectPosition p
    convertedByOffset? p raw = some (converted p raw) ∧
    (p.kind.isConclusion = true →
      (converted p raw = .error ⟨p.name, k⟩ ↔ args.length ≤ k) ∧
      ∀ a, args[k]? = some a → ∃ q simple owner, Unquoted a q ∧ TakenApart q simple owner ∧
        converted p raw = .ok
          ("\"" ++ .ofList q ++ "\",\"" ++ .ofList simple ++ "\",\"" ++ .ofList owner ++ "\"")) ∧
    (p.kind.isConclusion = false →
      (converted p raw = .error ⟨p.name, args.length⟩ ↔ args.length ≤ 1) ∧
      ∀ a b rest, args = a :: b :: rest → ∃ first second, Unquoted a first ∧ Unquoted b second ∧
        converted p raw = .ok
          (if Text.sameLetters p.suffix "accesses" then
            "\"" ++ .ofList second ++ "\",\"" ++ .ofList first ++ "\""
          else "\"" ++ .ofList first ++ "\",\"" ++ .ofList second ++ "\"")) := by
  intro text args k
  have hargs : args = arguments raw.toList := (arguments_eq raw.toList).symm
  rw [hargs]
  exact ⟨convertedByOffset?_eq p raw,
    fun hp => ⟨converted_subject_missing_iff hp, fun _ => converted_subject hp⟩,
    fun hp => ⟨converted_pair_missing_iff hp, fun _ _ _ => converted_first_two hp⟩⟩

namespace Sample

/-- Methods that are inherited no longer. -/
def inheritedMethod : Predicate :=
  ⟨"deleted_inheritedmethod", [.methodName, .type, .type], List.cons_ne_nil _ _⟩

/-- Two arguments that are not in quotes as they should be. -/
def unkempt : String := "é\",\"b#"

end Sample

open Sample in
/-- Of an argument whose first character takes two bytes nothing is left, and the
    third argument is reported to be missing. -/
theorem converted_every_text_unkempt :
    converted (accesses "before") unkempt = .ok "\"b\",\"\"" ∧
      converted inheritedMethod unkempt = .error ⟨"deleted_inheritedmethod", 2⟩ := by
  obtain ⟨-, -, hpair⟩ := converted_every_text (accesses "before") unkempt
  obtain ⟨-, hsubject, -⟩ := converted_every_text inheritedMethod unkempt
  obtain ⟨first, second, hfirst, hsecond, hconverted⟩ :=
    (hpair (by decide)).2 "é\"".toList "\"b#".toList [] (by decide)
  obtain rfl := hfirst.unique (unquoted_of_unquoted _)
  obtain rfl := hsecond.unique (unquoted_of_unquoted _)
  exact ⟨hconverted, (hsubject (by decide)).1.mpr (by decide)⟩

end StructuralDiff.RawArguments
