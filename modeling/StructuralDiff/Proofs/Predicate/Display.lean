/-
  StructuralDiff.Proofs.Predicate.Display

  The written form of a predicate, taken apart again.

  A name may hold anything, also parentheses, commas and letters that stand for
  tags, so the written form cannot be read from the front.  What is written of the
  signature holds letters and commas only: the last opening parenthesis is the one
  behind the name (`cutLast?_display`), and between the commas behind it stand the
  letters (`pieces_writtenTags`).
-/

import StructuralDiff.Predicate.Basic
import StructuralDiff.Proofs.Text.Pieces

namespace StructuralDiff

namespace Tag

theorem letter_injective : Function.Injective letter := by
  intro s t h
  have hread : ofLetter? s.letter = ofLetter? t.letter := congrArg ofLetter? h
  rw [ofLetter?_letter, ofLetter?_letter] at hread
  exact Option.some.inj hread

theorem letter_not_punctuation (t : Tag) : t.letter ≠ '(' ∧ t.letter ≠ ',' := by
  cases t <;> decide

end Tag

namespace Predicate

variable {p q : Predicate}

-- ============================================================================
-- The written signature
-- ============================================================================

/-- The letters of the signature with commas between them. -/
def writtenTags (p : Predicate) : List Char :=
  [','].intercalate (p.signature.map fun t => [t.letter])

theorem toList_display (p : Predicate) :
    p.display.toList = p.name.toList ++ '(' :: (p.writtenTags ++ [')']) := by
  have hletters : (p.signature.map fun t => String.singleton t.letter).map String.toList =
      p.signature.map fun t => [t.letter] := by
    rw [List.map_map]
    exact List.map_congr_left fun t _ => String.toList_singleton _
  simp only [display, String.toList_append, String.toList_intercalate, hletters, writtenTags]
  simp

theorem parenthesis_not_mem_writtenTags (p : Predicate) : '(' ∉ p.writtenTags := by
  rw [writtenTags]
  induction p.signature with
  | nil => simp
  | cons t ts ih =>
    -- the commas stand between two letters, so the last letter has none behind it
    have hletter : '(' ≠ t.letter := (Tag.letter_not_punctuation t).1.symm
    cases ts with
    | nil => simpa using hletter
    | cons u us =>
      rw [List.map_cons] at ih
      rw [List.map_cons, List.map_cons, List.intercalate_cons_cons]
      simp only [List.mem_append, List.mem_singleton, not_or]
      exact ⟨⟨hletter, by decide⟩, ih⟩

/-- Between the commas stand the letters. -/
theorem pieces_writtenTags (p : Predicate) :
    Text.pieces ',' p.writtenTags = p.signature.map fun t => [t.letter] := by
  have hpiece : ∀ t : Tag, Text.pieces ',' [t.letter] = [[t.letter]] := by
    intro t
    have hcomma : ',' ≠ t.letter := (Tag.letter_not_punctuation t).2.symm
    exact Text.pieces_of_not_mem (by simpa using hcomma) (List.cons_ne_nil _ _)
  rw [writtenTags, Text.pieces_intercalate, List.flatMap_map]
  simp only [hpiece]
  exact List.map_eq_flatMap.symm

/-- The last opening parenthesis stands behind the name. -/
theorem cutLast?_display (p : Predicate) :
    Text.cutLast? '(' p.display.toList = some (p.name.toList, p.writtenTags ++ [')']) := by
  have hfree : '(' ∉ p.writtenTags ++ [')'] := by
    simpa using p.parenthesis_not_mem_writtenTags
  rw [toList_display, Text.cutLast?_append hfree]

theorem signature_eq_of_writtenTags (h : p.writtenTags = q.writtenTags) :
    p.signature = q.signature := by
  have hpieces := congrArg (Text.pieces ',') h
  rw [pieces_writtenTags, pieces_writtenTags] at hpieces
  have hinjective : Function.Injective fun t : Tag => [t.letter] :=
    fun s t hst => Tag.letter_injective (List.singleton_inj.mp hst)
  exact hinjective.list_map hpieces

/-- Equal written forms have equal parts. -/
theorem parts_eq_of_display (h : p.display = q.display) :
    p.name = q.name ∧ p.signature = q.signature := by
  have hcut := p.cutLast?_display
  rw [h, q.cutLast?_display] at hcut
  obtain ⟨hname, htags⟩ := Prod.mk.inj (Option.some.inj hcut)
  exact ⟨String.toList_inj.mp hname.symm,
    signature_eq_of_writtenTags (List.append_cancel_right htags).symm⟩

-- ============================================================================
-- Predicates
-- ============================================================================

/-- Two predicates have the same name and signature, and the same is read off
    them: kind, level, and the families that suffix and root name. -/
structure SameParts (p q : Predicate) : Prop where
  name : p.name = q.name
  signature : p.signature = q.signature
  kind : p.kind = q.kind
  level : p.level = q.level
  family : p.family = q.family
  rootFamily : p.rootFamily = q.rootFamily

theorem SameParts.refl (p : Predicate) : p.SameParts p := ⟨rfl, rfl, rfl, rfl, rfl, rfl⟩

/-- What is read off a predicate depends on name and signature alone. -/
theorem eq_of_parts (hname : p.name = q.name) (hsignature : p.signature = q.signature) : p = q := by
  cases p
  cases q
  cases hname
  cases hsignature
  rfl

/-- **The written form identifies a predicate.**  Two predicates are equal, and
    have the same parts given and read off, just if their written forms are
    equal, whatever their names hold. -/
theorem display_identifies (p q : Predicate) :
    (p = q ↔ p.display = q.display) ∧ (p.SameParts q ↔ p.display = q.display) := by
  have heq : p.display = q.display → p = q := by
    intro h
    obtain ⟨hname, hsignature⟩ := parts_eq_of_display h
    exact eq_of_parts hname hsignature
  refine ⟨⟨congrArg display, heq⟩, fun h => ?_, fun h => ?_⟩
  · exact congrArg display (eq_of_parts h.name h.signature)
  · rw [heq h]
    exact SameParts.refl q

end Predicate
end StructuralDiff
