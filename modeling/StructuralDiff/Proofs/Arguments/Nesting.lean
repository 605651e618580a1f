/-
  StructuralDiff.Proofs.Arguments.Nesting

  Groups inside groups.

  Groups are removed up to the first closing bracket behind the opening one, and
  the pairs that are open meanwhile are not counted.  In a balanced text that
  leaves the characters that are no opening bracket and do not have one for the
  nearest bracket in front of them (`withoutGroups_eq_unopened`).  These are the
  characters outside every pair as long as no pair stands inside another; of a
  group around another group the end stays, with its closing bracket
  (`closing_mem_unopened`).

  Main statement: what removing groups does to balanced texts, nested or not,
  and that arguments without nested groups are read as if their groups had
  never been written (`groups_removed_to_first_closing`).
-/

import StructuralDiff.Proofs.Arguments.Reading
import StructuralDiff.Proofs.Text.Brackets

namespace StructuralDiff.RawArguments

open Text (Nested outside)

variable {o c : Char} {n : Nat} {s inner : List Char}

-- ============================================================================
-- Up to the first closing bracket
-- ============================================================================

/-- The characters of the text that are no opening bracket and have none for the
    nearest bracket in front of them; `opened` says whether the nearest bracket
    in front of the text is an opening one. -/
def unopenedFrom (o c : Char) : Bool → List Char → List Char
  | _, [] => []
  | opened, x :: s =>
    if x = o then unopenedFrom o c true s
    else if opened then unopenedFrom o c (x != c) s
    else x :: unopenedFrom o c false s

/-- The characters that are no opening bracket and whose nearest bracket in front,
    if there is one, is a closing bracket, in order. -/
def unopened (o c : Char) (s : List Char) : List Char := unopenedFrom o c false s

theorem unopened_cons {x : Char} (ho : x ≠ o) (s : List Char) :
    unopened o c (x :: s) = x :: unopened o c s := by
  rw [unopened, unopenedFrom, if_neg ho]
  rfl

theorem unopened_append {kept : List Char} (h : o ∉ kept) (s : List Char) :
    unopened o c (kept ++ s) = kept ++ unopened o c s := by
  induction kept with
  | nil => rfl
  | cons x kept ih =>
    rw [List.mem_cons, not_or] at h
    rw [List.cons_append, unopened_cons (Ne.symm h.1), ih h.2, List.cons_append]

theorem unopenedFrom_true_append (hoc : o ≠ c) {group : List Char} (h : c ∉ group)
    (s : List Char) : unopenedFrom o c true (group ++ c :: s) = unopened o c s := by
  induction group with
  | nil =>
    rw [List.nil_append, unopenedFrom, if_neg hoc.symm, if_pos rfl, bne_self_eq_false]
    rfl
  | cons x group ih =>
    rw [List.mem_cons, not_or] at h
    rw [List.cons_append, unopenedFrom]
    split
    · exact ih h.2
    · rw [if_pos rfl, bne_iff_ne.mpr (Ne.symm h.1)]
      exact ih h.2

/-- A group goes up to its first closing bracket. -/
theorem unopened_group (hoc : o ≠ c) {group : List Char} (h : c ∉ group) (s : List Char) :
    unopened o c (o :: (group ++ c :: s)) = unopened o c s := by
  rw [unopened, unopenedFrom, if_pos rfl]
  exact unopenedFrom_true_append hoc h s

/-- Where every opening bracket has a closing one behind it, removing groups one
    at a time leaves what stands outside of the first closing brackets. -/
theorem withoutGroups_eq_unopened (hoc : o ≠ c) (hclosed : ∀ t, o :: t <:+ s → c ∈ t) :
    withoutGroups o c s = unopened o c s := by
  induction hlen : s.length using Nat.strong_induction_on generalizing s with
  | _ len ih =>
    subst hlen
    by_cases ho : o ∈ s
    · obtain ⟨kept, behind, rfl, hkept⟩ := List.eq_append_cons_of_mem ho
      have hc : c ∈ behind := hclosed behind (List.suffix_append kept _)
      obtain ⟨group, rest, rfl, hgroup⟩ := List.eq_append_cons_of_mem hc
      have hsuffix : rest <:+ kept ++ o :: (group ++ c :: rest) :=
        ⟨kept ++ o :: (group ++ [c]), by simp⟩
      have hshort : rest.length < (kept ++ o :: (group ++ c :: rest)).length := by
        simp only [List.length_append, List.length_cons]
        omega
      rw [withoutGroups_append hkept, withoutGroups_group hgroup, unopened_append hkept,
        unopened_group hoc hgroup]
      exact congrArg (kept ++ ·) (ih _ hshort (fun t ht => hclosed t (ht.trans hsuffix)) rfl)
    · have hkept := unopened_append (c := c) ho []
      rw [List.append_nil] at hkept
      rw [withoutGroups_of_not_mem c ho, hkept]
      exact (List.append_nil s).symm

-- ============================================================================
-- Nested or not
-- ============================================================================

/-- Where no pair stands inside another, removing groups leaves what lies outside
    of them, whatever follows. -/
theorem withoutGroups_unnested (hoc : o ≠ c) {a : List Char} (ha : Nested o c 1 a)
    (s : List Char) : withoutGroups o c (a ++ s) = outside o c a ++ withoutGroups o c s := by
  generalize hm : 1 = m at ha
  induction ha with
  | nil => rfl
  | @plain _ x a ho hc _ ih =>
    have hx : o ∉ [x] := by
      rw [List.mem_singleton]
      exact ho.symm
    have hkept := withoutGroups_append (c := c) hx (a ++ s)
    rw [Text.outside_plain ho hc, List.cons_append, List.cons_append, ← ih hm]
    exact hkept
  | group hinner _ _ ih =>
    cases hm
    rw [Text.outside_group hoc hinner, List.cons_append, List.append_assoc, List.cons_append,
      withoutGroups_group hinner.not_mem_of_zero.2, ih rfl]

/-- A balanced text in front of a closing bracket whose partner is gone lets that
    bracket stay, and so does a text with a group behind an opening bracket. -/
theorem closing_mem_append (hoc : o ≠ c) (hs : Nested o c n s) (rest : List Char) :
    c ∈ unopened o c (s ++ c :: rest) ∧
      (o ∈ s → c ∈ unopenedFrom o c true (s ++ c :: rest)) := by
  induction hs generalizing rest with
  | nil =>
    refine ⟨?_, fun ho => absurd ho List.not_mem_nil⟩
    rw [List.nil_append, unopened_cons hoc.symm]
    exact List.mem_cons_self
  | plain hxo hxc _ ih =>
    constructor
    · rw [List.cons_append, unopened_cons hxo]
      exact List.mem_cons_of_mem _ (ih rest).1
    · intro ho
      rw [List.cons_append, unopenedFrom, if_neg hxo, if_pos rfl, bne_iff_ne.mpr hxc]
      exact (ih rest).2 ((List.mem_cons.mp ho).resolve_left hxo.symm)
  | @group n inner s hinner _ ihinner ih =>
    have hstays : c ∈ unopenedFrom o c true (inner ++ c :: (s ++ c :: rest)) := by
      by_cases ho : o ∈ inner
      · exact (ihinner (s ++ c :: rest)).2 ho
      · rw [unopenedFrom_true_append hoc (hinner.plain_of_not_mem ho).1]
        exact (ih rest).1
    rw [List.cons_append, List.append_assoc, List.cons_append, unopened, unopenedFrom, if_pos rfl,
      unopenedFrom, if_pos rfl]
    exact ⟨hstays, fun _ => hstays⟩

/-- Of a group around another group the end stays, with its closing bracket. -/
theorem closing_mem_unopened (hoc : o ≠ c) (hs : Nested o c n s) (hdeep : ¬ Nested o c 1 s) :
    c ∈ unopened o c s := by
  induction hs with
  | nil => exact absurd .nil hdeep
  | plain hxo hxc _ ih =>
    rw [unopened_cons hxo]
    exact List.mem_cons_of_mem _ (ih fun hs => hdeep (.plain hxo hxc hs))
  | @group n inner s hinner _ _ ih =>
    by_cases ho : o ∈ inner
    · rw [unopened, unopenedFrom, if_pos rfl]
      exact (closing_mem_append hoc hinner s).2 ho
    · obtain ⟨hfree, hflat⟩ := hinner.plain_of_not_mem ho
      rw [unopened_group hoc hfree]
      exact ih fun hs => hdeep (.group (hflat 0) hs)

theorem withoutGroups_eq_outside_iff (hoc : o ≠ c) (hs : Nested o c n s) :
    (withoutGroups o c s = outside o c s ↔ Nested o c 1 s) ∧
      (c ∉ withoutGroups o c s ↔ Nested o c 1 s) := by
  have hleft := withoutGroups_eq_unopened hoc fun t ht => hs.closing_of_suffix hoc ht
  have hfree : c ∉ outside o c s := (Text.not_mem_outsideFrom 0 s).2
  have hflat : c ∉ withoutGroups o c s → Nested o c 1 s := by
    rw [hleft]
    exact fun hc => by_contra fun hdeep => hc (closing_mem_unopened hoc hs hdeep)
  have hsame : Nested o c 1 s → withoutGroups o c s = outside o c s := by
    intro h
    have hall := withoutGroups_unnested hoc h []
    rw [withoutGroups_of_not_mem c List.not_mem_nil, List.append_nil, List.append_nil] at hall
    exact hall
  refine ⟨⟨fun h => hflat ?_, hsame⟩, ⟨hflat, fun h => ?_⟩⟩
  · rw [h]
    exact hfree
  · rw [hsame h]
    exact hfree

-- ============================================================================
-- Arguments
-- ============================================================================

/-- No pair of parentheses stands inside another in the argument, and no pair of
    angle brackets inside another in what lies outside the parentheses. -/
structure Unnested (a : List Char) : Prop where
  round : Nested '(' ')' 1 a
  angled : Nested '<' '>' 1 (outside '(' ')' a)

/-- The argument without its groups. -/
def bare (a : List Char) : List Char := outside '<' '>' (outside '(' ')' a)

/-- Arguments with a comma between any two of them. -/
def joined (args : List (List Char)) : List Char := [','].intercalate args

theorem not_mem_bare (a : List Char) : ∀ b ∈ "()<>".toList, b ∉ bare a := by
  have hround : '(' ∉ outside '(' ')' a ∧ ')' ∉ outside '(' ')' a := Text.not_mem_outsideFrom 0 a
  have hangled : '<' ∉ bare a ∧ '>' ∉ bare a := Text.not_mem_outsideFrom 0 (outside '(' ')' a)
  have hsub : bare a ⊆ outside '(' ')' a := (Text.outsideFrom_sublist _ _ 0 _).subset
  show ∀ b ∈ ['(', ')', '<', '>'], b ∉ bare a
  simp only [List.forall_mem_cons]
  exact ⟨fun h => hround.1 (hsub h), fun h => hround.2 (hsub h), hangled.1, hangled.2,
    fun b hb => absurd hb List.not_mem_nil⟩

theorem flattened_joined {args : List (List Char)} (h : ∀ a ∈ args, Unnested a) :
    flattened (joined args) = joined (args.map bare) := by
  have hopening : '(' ≠ ',' ∧ '<' ≠ ',' := by decide
  have hround := withoutGroups_intercalate hopening.1 fun a ha s =>
    withoutGroups_unnested (by decide) (h a ha).round s
  have hangled := withoutGroups_intercalate hopening.2 fun a ha s =>
    withoutGroups_unnested (by decide) (h a ha).angled s
  rw [List.map_id'] at hround
  rw [flattened, joined, hround, hangled]
  rfl

/-- A text without opening brackets falls into arguments at its commas. -/
theorem arguments_of_not_mem (hround : '(' ∉ s) (hangled : '<' ∉ s) :
    arguments s = Text.pieces ',' s := by
  rw [arguments, flattened, withoutGroups_of_not_mem ')' hround,
    withoutGroups_of_not_mem '>' hangled]
  exact ite_self _

/-- All that a conversion takes from a text are its arguments. -/
theorem converted_congr (p : Predicate) {raw raw' : String}
    (h : arguments raw.toList = arguments raw'.toList) : converted p raw = converted p raw' := by
  simp only [converted, h]

/-- **Groups go up to their first closing bracket.**  Of a balanced text, nested to
    any depth, there remain just the characters that are no opening bracket and
    have none for the nearest bracket in front of them.  No opening bracket is
    left; no closing one is left, and what is left is what lies outside every
    pair, exactly if no pair stands inside another.  Where groups are removed,
    arguments without nested groups come to the arguments in their bare texts,
    and these are free of brackets. -/
theorem groups_removed_to_first_closing :
    (∀ o c, o ≠ c → ∀ n s, Nested o c n s →
      withoutGroups o c s = unopened o c s ∧
      o ∉ withoutGroups o c s ∧
      (c ∉ withoutGroups o c s ↔ Nested o c 1 s) ∧
      (withoutGroups o c s = outside o c s ↔ Nested o c 1 s)) ∧
    ∀ args, (∀ a ∈ args, Unnested a) → (Text.pieces ',' (joined args)).length ≠ 2 →
      arguments (joined args) = args.flatMap (fun a => Text.pieces ',' (bare a)) ∧
      (∀ a ∈ args, ∀ b ∈ "()<>".toList, b ∉ bare a) ∧
      ∀ p, converted p (.ofList (joined args)) =
        converted p (.ofList (joined (args.map bare))) := by
  constructor
  · intro o c hoc n s hs
    obtain ⟨hsame, hfree⟩ := withoutGroups_eq_outside_iff hoc hs
    refine ⟨?_, not_mem_withoutGroups o c s, hfree, hsame⟩
    exact withoutGroups_eq_unopened hoc fun t ht => hs.closing_of_suffix hoc ht
  · intro args hargs hother
    have hbare := flattened_joined hargs
    have hpieces : arguments (joined args) = Text.pieces ',' (joined (args.map bare)) := by
      rw [arguments, hbare]
      exact if_neg hother
    refine ⟨?_, fun a _ => not_mem_bare a, fun p => converted_congr p ?_⟩
    · rw [hpieces, joined, Text.pieces_intercalate, List.flatMap_map]
    · obtain ⟨hround, hangled⟩ := not_mem_flattened (joined args)
      rw [hbare] at hround hangled
      rw [String.toList_ofList, String.toList_ofList, hpieces, arguments_of_not_mem hround hangled]

namespace Sample

/-- An argument whose groups are nested only in groups of the other kind, one with
    a group of each kind, and one without. -/
def unnested : List (List Char) :=
  ["\"m(List<Map<K,V>>,int)\"".toList, "\"Pair<T,U>(a,b)\"".toList, "\"x\"".toList]

/-- A type with a group inside a group of its kind. -/
def nestedType : List Char := "Map<List<T>,U>".toList

theorem nested_nestedType : Nested '<' '>' 2 nestedType :=
  (Text.nested_iff_closesAll (by decide)).mpr (by decide)

end Sample

open Sample in
/-- The group around another group leaves its end behind; where no group is nested
    in one of its kind, nothing of a group is left. -/
theorem groups_removed_to_first_closing_kinds :
    Nested '<' '>' 2 nestedType ∧ withoutGroups '<' '>' nestedType = "Map,U>".toList ∧
    '<' ∉ withoutGroups '<' '>' nestedType ∧
    (∀ a ∈ unnested, Unnested a) ∧ (Text.pieces ',' (joined unnested)).length = 7 ∧
    arguments (joined unnested) = ["\"m\"".toList, "\"Pair\"".toList, "\"x\"".toList] ∧
    converted (accesses "before") (.ofList (joined unnested)) = .ok "\"Pair\",\"m\"" := by
  obtain ⟨hleft, hfree, -⟩ :=
    groups_removed_to_first_closing.1 '<' '>' (by decide) 2 nestedType nested_nestedType
  have hunnested : ∀ a ∈ unnested, Unnested a := by
    simp only [unnested, List.forall_mem_cons]
    refine ⟨⟨?_, ?_⟩, ⟨?_, ?_⟩, ⟨?_, ?_⟩, fun a ha => absurd ha List.not_mem_nil⟩ <;>
      exact (Text.nested_iff_closesAll (by decide)).mpr (by decide)
  have hseven : (Text.pieces ',' (joined unnested)).length = 7 := by decide
  obtain ⟨harguments, -, hconverted⟩ :=
    groups_removed_to_first_closing.2 unnested hunnested (by rw [hseven]; decide)
  refine ⟨nested_nestedType, ?_, hfree, hunnested, hseven, ?_, ?_⟩
  · rw [hleft]
    decide
  · rw [harguments]
    decide
  · rw [hconverted]
    decide +kernel

open Sample in
/-- The type in a group around another group is not outside of every pair, but part
    of it is left, with a bracket and a comma, and read as one more argument.  And
    a single argument whose group has one comma is read as two, with the group. -/
theorem nested_group_is_not_removed_whole :
    Nested '<' '>' 2 nestedType ∧ outside '<' '>' nestedType = "Map".toList ∧
    withoutGroups '<' '>' nestedType ≠ outside '<' '>' nestedType ∧
    '>' ∈ withoutGroups '<' '>' nestedType ∧
    converted (accesses "before") "\"m\",\"Map<List<T>,U>\"" ≠ .ok "\"Map\",\"m\"" ∧
    arguments "\"m(int,a.T)\"".toList = ["\"m(int".toList, "a.T)\"".toList] := by
  refine ⟨nested_nestedType, ?_, ?_, ?_, ?_, ?_⟩ <;> decide +kernel

end StructuralDiff.RawArguments
