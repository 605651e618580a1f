/-
  StructuralDiff.Proofs.Predicate.Grammar

  Names in the grammar of the catalog: a word for a family by itself, behind a
  tense (`added_calls`), or behind a tense with the mark of the primed kinds
  (`added_p_calls`).

  The kind of a name is looked for as a text anywhere in it, the stem and the
  suffix at the last underscore, and the mark at its first occurrence.  For the
  names of the grammar all of these find the parts that the name was made of,
  whatever the word for the family is: a tense is found only where a part of the
  name ends in it (`contains_part_iff`), and of the parts in front of an
  underscore just the tense itself does.

  Other names with one underscore bear the tense that the text in front of it ends
  in, and no mark, for the mark takes two (`Kind.isConclusion_join_iff`).
-/

import StructuralDiff.Predicate.Basic
import StructuralDiff.Proofs.Text.Pieces

namespace StructuralDiff

open PredicateName (join)

-- ============================================================================
-- Tenses
-- ============================================================================

/-- The tenses that a name may bear. -/
inductive Tense where
  | before
  | after
  | deleted
  | added
  | modified
deriving DecidableEq

namespace Tense

variable {base pattern : String} {primed : Bool}

/-- In the order in which they are looked for. -/
def all : List Tense := [before, after, deleted, added, modified]

/-- The word that stands for a tense in names. -/
def word : Tense → String
  | before => "before"
  | after => "after"
  | deleted => "deleted"
  | added => "added"
  | modified => "modified"

/-- The kind that a tense shows, without or with the mark of the primed kinds. -/
def kind : Tense → Bool → Kind
  | before, _ => .before
  | after, _ => .after
  | deleted, primed => .deleted primed
  | added, primed => .added primed
  | modified, primed => .modified primed

/-- Whether the tense states a change; these have a primed kind. -/
def isChange : Tense → Bool
  | before | after => false
  | deleted | added | modified => true

/-- What stands in front of the word for the family. -/
def stem (t : Tense) (primed : Bool) : String := if primed then t.word ++ "_p" else t.word

/-- The parts of a name between its underscores. -/
def nameParts (t : Tense) (primed : Bool) (base : String) : List (List Char) :=
  t.word.toList :: if primed then [['p'], base.toList] else [base.toList]

theorem isPrimed_kind (t : Tense) (primed : Bool) :
    (t.kind primed).isPrimed = (t.isChange && primed) := by
  cases t <;> rfl

theorem stem_ne_empty (t : Tense) (primed : Bool) : t.stem primed ≠ "" := by
  cases t <;> cases primed <;> decide

theorem stem_false_ne_true (t : Tense) : t.stem false ≠ t.stem true := by
  cases t <;> decide

theorem underscore_not_mem_word (t : Tense) : '_' ∉ t.word.toList := by
  cases t <;> decide

/-- No tense ends in another one. -/
theorem word_suffix_word_iff (u t : Tense) : u.word.toList <:+ t.word.toList ↔ u = t := by
  cases u <;> cases t <;> decide

theorem word_not_suffix_mark (t : Tense) : ¬ t.word.toList <:+ ['p'] := by
  cases t <;> decide

theorem mark_not_suffix_word (t : Tense) : ¬ "p".toList <:+ t.word.toList := by
  cases t <;> decide

-- ============================================================================
-- What is found in a name
-- ============================================================================

theorem toList_name (t : Tense) (primed : Bool) (base : String) :
    (join (t.stem primed) base).toList = ['_'].intercalate (t.nameParts primed base) := by
  rw [PredicateName.toList_join]
  cases primed with
  | false => simp [stem, nameParts]
  | true => simp [stem, nameParts]

theorem underscore_not_mem_nameParts (t : Tense) (primed : Bool) (hbase : '_' ∉ base.toList) :
    ∀ part ∈ t.nameParts primed base, '_' ∉ part := by
  cases primed <;> simp [nameParts, t.underscore_not_mem_word, hbase]

/-- A word that stands in front of an underscore is the end of the tense or of
    the mark; the word for the family stands in front of none. -/
theorem contains_part_iff (t : Tense) (hbase : '_' ∉ base.toList)
    (hpattern : '_' ∉ pattern.toList) :
    Text.contains (join (t.stem primed) base) (pattern ++ "_") = true ↔
      pattern.toList <:+ t.word.toList ∨ primed = true ∧ pattern.toList <:+ ['p'] := by
  have hparts := t.underscore_not_mem_nameParts primed hbase
  rw [Text.contains_iff, String.toList_append, toList_name]
  refine (Text.infix_intercalate_iff hpattern hparts).trans ?_
  cases primed <;> simp [nameParts]

theorem contains_tense (u t : Tense) (hbase : '_' ∉ base.toList) :
    Text.contains (join (t.stem primed) base) (u.word ++ "_") = decide (u = t) := by
  rw [Bool.eq_iff_iff, contains_part_iff t hbase u.underscore_not_mem_word, word_suffix_word_iff,
    decide_eq_true_iff]
  exact or_iff_left fun h => u.word_not_suffix_mark h.2

theorem contains_mark (t : Tense) (hbase : '_' ∉ base.toList) :
    Text.contains (join (t.stem primed) base) (t.word ++ "_p_") = primed := by
  cases primed with
  | true =>
    rw [Text.contains_iff]
    exact ⟨[], base.toList, by simp [stem, join]⟩
  | false =>
    -- else the tense would end in `p`
    rw [Bool.eq_false_iff, ne_eq, Text.contains_iff]
    intro hmarked
    have hend : "p".toList ++ ['_'] <:+: (t.word ++ "_p_").toList :=
      ⟨t.word.toList ++ ['_'], [], by simp⟩
    have hp : Text.contains (join (t.stem false) base) ("p" ++ "_") = true := by
      rw [Text.contains_iff, String.toList_append]
      exact hend.trans hmarked
    rcases (contains_part_iff t hbase (by decide)).mp hp with h | h
    · exact t.mark_not_suffix_word h
    · cases h.1

end Tense

-- ============================================================================
-- Kinds
-- ============================================================================

/-- Of the tenses in a name the first one counts. -/
theorem Kind.ofName_eq_find (name : String) :
    Kind.ofName name =
      match Tense.all.find? fun t => Text.contains name (t.word ++ "_") with
      | some t => t.kind (Text.contains name (t.word ++ "_p_"))
      | none => .undefined := by
  rw [Kind.ofName]
  simp only [Tense.all, Tense.word, List.find?_cons, List.find?_nil, String.reduceAppend]
  cases Text.contains name "before_" with
  | true => rfl
  | false =>
  cases Text.contains name "after_" with
  | true => rfl
  | false =>
  cases Text.contains name "deleted_" with
  | true => rfl
  | false =>
  cases Text.contains name "added_" with
  | true => rfl
  | false =>
  cases Text.contains name "modified_" with
  | true => rfl
  | false => rfl

theorem Tense.ofName_name (t : Tense) (primed : Bool) {base : String} (hbase : '_' ∉ base.toList) :
    Kind.ofName (join (t.stem primed) base) = t.kind primed := by
  have hfirst : Tense.all.find?
      (fun u => Text.contains (join (t.stem primed) base) (u.word ++ "_")) = some t := by
    rw [funext fun u => contains_tense u t hbase]
    cases t <;> rfl
  rw [Kind.ofName_eq_find, hfirst]
  exact congrArg t.kind (contains_mark t hbase)

/-- A name without an underscore bears no tense. -/
theorem Kind.ofName_of_not_mem {name : String} (h : '_' ∉ name.toList) :
    Kind.ofName name = .undefined := by
  have hnone : Tense.all.find? (fun t => Text.contains name (t.word ++ "_")) = none := by
    rw [List.find?_eq_none]
    intro t _ hfound
    rw [Text.contains_iff, String.toList_append] at hfound
    exact h (hfound.subset (by simp))
  rw [Kind.ofName_eq_find, hnone]

-- ============================================================================
-- Names with one underscore
-- ============================================================================

section OneUnderscore

variable {lead base : String}

theorem Tense.mem_all (t : Tense) : t ∈ all := by cases t <;> decide

/-- A text ends in one tense at most. -/
theorem Tense.eq_of_suffix {t u : Tense} {s : List Char} (ht : t.word.toList <:+ s)
    (hu : u.word.toList <:+ s) : t = u := by
  rcases List.suffix_or_suffix_of_suffix ht hu with h | h
  · exact (t.word_suffix_word_iff u).mp h
  · exact ((u.word_suffix_word_iff t).mp h).symm

/-- A text stands in front of the one underscore just if what is there ends in
    it. -/
theorem PredicateName.contains_join_iff {pattern : String} (hlead : '_' ∉ lead.toList)
    (hbase : '_' ∉ base.toList) (hpattern : '_' ∉ pattern.toList) :
    Text.contains (join lead base) (pattern ++ "_") = true ↔
      pattern.toList <:+ lead.toList := by
  have hbehind : ¬ pattern.toList ++ ['_'] <:+: base.toList := fun h => hbase (h.subset (by simp))
  rw [Text.contains_iff, String.toList_append, PredicateName.toList_join]
  exact (Text.infix_append_cons_iff hpattern hlead).trans (or_iff_left hbehind)

/-- The mark of the primed kinds takes two underscores. -/
theorem Tense.contains_mark_join (t : Tense) (hlead : '_' ∉ lead.toList)
    (hbase : '_' ∉ base.toList) :
    Text.contains (join lead base) (t.word ++ "_p_") = false := by
  rw [Bool.eq_false_iff, ne_eq, Text.contains_iff, PredicateName.toList_join]
  intro hmarked
  have hcount := hmarked.sublist.count_le '_'
  simp [List.count_eq_zero_of_not_mem hlead, List.count_eq_zero_of_not_mem hbase,
    List.count_eq_zero_of_not_mem t.underscore_not_mem_word] at hcount

theorem Tense.isConclusion_kind (t : Tense) : (t.kind false).isConclusion = t.isChange := by
  cases t <;> rfl

/-- Predicates whose names have one underscore conclude rules just if the text in
    front of it ends in a tense of change. -/
theorem Kind.isConclusion_join_iff (hlead : '_' ∉ lead.toList) (hbase : '_' ∉ base.toList) :
    (Kind.ofName (join lead base)).isConclusion = true ↔
      ∃ t : Tense, t.isChange = true ∧ t.word.toList <:+ lead.toList := by
  rw [Kind.ofName_eq_find]
  cases hfind : Tense.all.find? (fun t => Text.contains (join lead base) (t.word ++ "_")) with
  | none =>
    have hnone : ∀ t : Tense, ¬ t.word.toList <:+ lead.toList := by
      intro t ht
      have hfound :=
        (PredicateName.contains_join_iff hlead hbase t.underscore_not_mem_word).mpr ht
      exact List.find?_eq_none.mp hfind t t.mem_all hfound
    simp [Kind.isConclusion, hnone]
  | some t =>
    have hfound := List.find?_some hfind
    have ht : t.word.toList <:+ lead.toList :=
      (PredicateName.contains_join_iff hlead hbase t.underscore_not_mem_word).mp hfound
    simp only [t.contains_mark_join hlead hbase, t.isConclusion_kind]
    constructor
    · exact fun hchange => ⟨t, hchange, ht⟩
    · rintro ⟨u, hchange, hu⟩
      rwa [Tense.eq_of_suffix ht hu]

end OneUnderscore

-- ============================================================================
-- Predicates
-- ============================================================================

namespace Predicate

variable {t : Tense} {base : String} {primed : Bool} {p q r : Predicate}

theorem classified_of_name (hbase : '_' ∉ base.toList) (h : p.name = join (t.stem primed) base) :
    p.kind = t.kind primed ∧ p.stem = t.stem primed ∧ p.suffix = base ∧
      p.family = .ofWord base := by
  have hsuffix : p.suffix = base := by
    rw [suffix, h, PredicateName.suffix_join (t.stem_ne_empty primed) hbase]
  refine ⟨?_, ?_, hsuffix, congrArg Family.ofWord hsuffix⟩
  · rw [kind, h, Tense.ofName_name t primed hbase]
  · rw [stem, h, PredicateName.stem_join (t.stem_ne_empty primed) hbase]

theorem unprimedName_of_change (hbase : '_' ∉ base.toList) (ht : t.isChange = true)
    (h : p.name = join (t.stem primed) base) : p.unprimedName = join t.word base := by
  have hprimed : p.kind.isPrimed = primed := by
    rw [(classified_of_name hbase h).1, Tense.isPrimed_kind, ht, Bool.true_and]
  rw [unprimedName, hprimed, h]
  cases primed with
  | false => rfl
  | true =>
    have hcut : Text.cutAt? "_p_".toList (join (t.stem true) base).toList =
        some (t.word.toList, base.toList) := by
      rw [PredicateName.toList_join]
      simpa [Tense.stem] using Text.cutAt?_append t.underscore_not_mem_word ['p', '_'] base.toList
    rw [if_pos rfl, Text.replaceFirst, hcut]
    simp [join, String.append_assoc]

/-- **Names of the grammar are classified by their parts.**  A word for a family
    by itself shows no kind.  Behind a tense it is the suffix, the tense is the
    stem, and the kind is that of the tense; the mark of the primed kinds belongs
    to the stem and makes a kind of change a primed one.  Left out again, it
    leaves the name without the mark, so the two predicates differ and are the
    same unprimed, whatever their signatures. -/
theorem grammar_classified (t : Tense) (hbase : '_' ∉ base.toList) (hr : r.name = base)
    (hp : p.name = join t.word base) (hq : q.name = join (t.word ++ "_p") base) :
    (r.kind = .undefined ∧ r.family = .ofWord base) ∧
    (p.kind = t.kind false ∧ p.stem = t.word ∧ p.suffix = base ∧ p.family = .ofWord base) ∧
    (q.kind = t.kind true ∧ q.stem = t.word ++ "_p" ∧ q.suffix = base ∧
      q.family = .ofWord base) ∧
    (t.isChange = true → q.unprimedName = p.name ∧ p.sameUnprimed q = true ∧
      q.sameUnprimed p = true ∧ p ≠ q) := by
  have hp : p.name = join (t.stem false) base := hp
  have hq : q.name = join (t.stem true) base := hq
  have hplain := classified_of_name hbase hp
  have hmarked := classified_of_name hbase hq
  have hsuffix : r.suffix = base := by
    rw [suffix, hr, PredicateName.suffix_of_not_mem hbase]
  refine ⟨⟨?_, congrArg Family.ofWord hsuffix⟩, hplain, hmarked, fun ht => ?_⟩
  · rw [kind, hr, Kind.ofName_of_not_mem hbase]
  · have hp' := unprimedName_of_change hbase ht hp
    have hq' := unprimedName_of_change hbase ht hq
    refine ⟨hq'.trans hp.symm, ?_, ?_, ?_⟩
    · exact beq_iff_eq.mpr (hp'.trans hq'.symm)
    · exact beq_iff_eq.mpr (hq'.trans hp'.symm)
    · rintro rfl
      exact t.stem_false_ne_true (hplain.2.1.symm.trans hmarked.2.1)

/-- A word for a family that is itself a tense. -/
theorem grammar_classified_added :
    let r : Predicate := ⟨"added", [.type], List.cons_ne_nil _ _⟩
    let p : Predicate := ⟨"added_added", [.method, .method], List.cons_ne_nil _ _⟩
    let q : Predicate := ⟨"added_p_added", [.type], List.cons_ne_nil _ _⟩
    '_' ∉ "added".toList ∧ r.name = "added" ∧ p.name = join Tense.added.word "added" ∧
      q.name = join (Tense.added.word ++ "_p") "added" ∧ Tense.added.isChange = true ∧
      r.kind = .undefined ∧ p.kind = .added false ∧ q.kind = .added true ∧
      q.unprimedName = "added_added" ∧ p.sameUnprimed q = true ∧ p ≠ q := by
  intro r p q
  have hbase : '_' ∉ "added".toList := by decide
  have hname : p.name = join Tense.added.word "added" := rfl
  have hmarked : q.name = join (Tense.added.word ++ "_p") "added" := rfl
  obtain ⟨hr, hp, hq, hchange⟩ := grammar_classified (r := r) .added hbase rfl hname hmarked
  obtain ⟨hunprimed, hsame, -, hne⟩ := hchange rfl
  exact ⟨hbase, rfl, hname, hmarked, rfl, hr.1, hp.1, hq.1, hunprimed, hsame, hne⟩

end Predicate
end StructuralDiff
