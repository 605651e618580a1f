/-
  StructuralDiff.Proofs.Arguments.Written

  Reading arguments that are well written.

  A `Written` argument is a name in quotes, perhaps with a parameter list in
  parentheses behind it, which may hold commas, and perhaps with a tail behind a
  number sign.  Two arguments are read as they stand if no comma is in a
  parameter list; in all other cases the parameter lists are removed first
  (`arguments_written`).  Taking the quotes and the tail off each gives back the
  name, in the first case with its parameter list (`unquoted_text`).
-/

import StructuralDiff.Proofs.Arguments.Groups
import StructuralDiff.Proofs.Text.Pieces

namespace StructuralDiff.RawArguments

-- ============================================================================
-- Written arguments
-- ============================================================================

/-- The characters by which an argument is taken apart. -/
def marks : List Char := ['(', ')', '<', '>', '"', '#']

/-- A part that is not there is plain. -/
theorem plain_of_none {ms : List Char} :
    ∀ s, (none : Option (List Char)) = some s → ∀ c ∈ s, c ∉ ms := by
  intro s h
  cases h

/-- An argument in its written form. -/
structure Written where
  name : List Char
  /-- The parameter list, without its parentheses. -/
  parameters : Option (List Char)
  /-- What stands behind the number sign. -/
  tail : Option (List Char)
  name_plain : ∀ c ∈ name, c ∉ ',' :: marks
  parameters_plain : ∀ ps, parameters = some ps → ∀ c ∈ ps, c ∉ marks
  tail_plain : ∀ t, tail = some t → ∀ c ∈ t, c ∉ ',' :: marks

namespace Written

/-- The parameter list with its parentheses. -/
def group (a : Written) : List Char :=
  match a.parameters with
  | some ps => '(' :: ps ++ [')']
  | none => []

/-- The tail with its number sign. -/
def ending (a : Written) : List Char :=
  match a.tail with
  | some t => '#' :: t
  | none => []

/-- The argument as it is written. -/
def text (a : Written) : List Char := '"' :: (a.name ++ a.group ++ a.ending ++ ['"'])

/-- The argument without its parameter list. -/
def bare (a : Written) : Written :=
  { a with parameters := none, parameters_plain := plain_of_none }

theorem group_bare (a : Written) : a.bare.group = [] := rfl

theorem text_eq (a : Written) :
    a.text = ('"' :: a.name) ++ (a.group ++ (a.ending ++ ['"'])) := by
  rw [text, List.append_assoc, List.append_assoc, List.cons_append]

theorem text_bare (a : Written) : a.bare.text = ('"' :: a.name) ++ (a.ending ++ ['"']) := by
  rw [text_eq, group_bare, List.nil_append]
  rfl

theorem text_ne_nil (a : Written) : a.text ≠ [] := List.cons_ne_nil _ _

variable {a : Written} {c : Char}

-- ============================================================================
-- Characters of an argument
-- ============================================================================

theorem not_mem_name (hc : c ∈ ',' :: marks) : c ∉ a.name :=
  fun hmem => a.name_plain c hmem hc

theorem not_mem_ending (hc : c ∈ ',' :: marks) (hsign : c ≠ '#') : c ∉ a.ending := by
  have hplain := a.tail_plain
  rw [ending]
  cases htail : a.tail with
  | none => exact List.not_mem_nil
  | some t =>
    intro hmem
    rcases List.mem_cons.mp hmem with h | h
    · exact hsign h
    · exact hplain t htail c h hc

/-- Of the marks only parentheses are in a group; there may be commas. -/
theorem not_mem_group (hc : c ∈ marks) (hopen : c ≠ '(') (hclose : c ≠ ')') : c ∉ a.group := by
  have hplain := a.parameters_plain
  rw [group]
  cases hps : a.parameters with
  | none => exact List.not_mem_nil
  | some ps =>
    intro hmem
    rcases List.mem_append.mp hmem with h | h
    · rcases List.mem_cons.mp h with h | h
      · exact hopen h
      · exact hplain ps hps c h hc
    · exact hclose (List.mem_singleton.mp h)

/-- A mark that is neither quote nor number sign and not in the group is not in
    the text. -/
theorem not_mem_text (hc : c ∈ ',' :: marks) (hquote : c ≠ '"') (hsign : c ≠ '#')
    (hgroup : c ∉ a.group) : c ∉ a.text := by
  rw [text_eq]
  simp only [List.mem_append, List.mem_cons, List.not_mem_nil, or_false, not_or]
  exact ⟨⟨hquote, not_mem_name hc⟩, hgroup, not_mem_ending hc hsign, hquote⟩

-- ============================================================================
-- Removing parameter lists
-- ============================================================================

theorem withoutGroups_text (a : Written) (s : List Char) :
    withoutGroups '(' ')' (a.text ++ s) = a.bare.text ++ withoutGroups '(' ')' s := by
  have hhead : '(' ∉ '"' :: a.name := by
    rw [List.mem_cons, not_or]
    exact ⟨by decide, not_mem_name (by decide)⟩
  have hlast : '(' ∉ a.ending ++ ['"'] := by
    rw [List.mem_append, not_or]
    exact ⟨not_mem_ending (by decide) (by decide), by decide⟩
  have hgroup : withoutGroups '(' ')' (a.group ++ (a.ending ++ ['"'] ++ s)) =
      a.ending ++ ['"'] ++ withoutGroups '(' ')' s := by
    rw [group]
    cases hps : a.parameters with
    | none => exact withoutGroups_append hlast s
    | some ps =>
      have hclose : ')' ∉ ps := fun hmem => a.parameters_plain ps hps ')' hmem (by decide)
      show withoutGroups '(' ')' ('(' :: ps ++ [')'] ++ (a.ending ++ ['"'] ++ s)) = _
      rw [List.append_assoc, List.cons_append, List.singleton_append, withoutGroups_group hclose,
        withoutGroups_append hlast]
  rw [text_eq, text_bare, List.append_assoc, withoutGroups_append hhead, List.append_assoc a.group,
    hgroup, ← List.append_assoc]

theorem flattened_texts (args : List Written) :
    flattened ([','].intercalate (args.map text)) =
      [','].intercalate (args.map fun a => a.bare.text) := by
  have hangle : ∀ a ∈ args, ∀ s,
      withoutGroups '<' '>' (a.bare.text ++ s) = a.bare.text ++ withoutGroups '<' '>' s := by
    intro a _ s
    apply withoutGroups_append
    exact not_mem_text (by decide) (by decide) (by decide) List.not_mem_nil
  rw [flattened, withoutGroups_intercalate (by decide) fun a _ => withoutGroups_text a,
    withoutGroups_intercalate (by decide) hangle]

-- ============================================================================
-- Splitting at the commas
-- ============================================================================

theorem pieces_text (h : ',' ∉ a.group) : Text.pieces ',' a.text = [a.text] := by
  apply Text.pieces_of_not_mem
  · exact not_mem_text (by decide) (by decide) (by decide) h
  · exact text_ne_nil a

theorem pieces_texts {args : List Written} (h : ∀ a ∈ args, ',' ∉ a.group) :
    Text.pieces ',' ([','].intercalate (args.map text)) = args.map text := by
  rw [Text.pieces_intercalate, List.flatMap_map]
  induction args with
  | nil => rfl
  | cons a args ih =>
    obtain ⟨ha, hargs⟩ := List.forall_mem_cons.mp h
    rw [List.flatMap_cons, pieces_text ha, ih hargs]
    rfl

/-- The opening quote is in the first piece of an argument. -/
theorem pieces_text_ne_nil (a : Written) : Text.pieces ',' a.text ≠ [] :=
  Text.pieces_ne_nil (d := '"') List.mem_cons_self (by decide)

/-- A comma in the parameter list lies between the two quotes, so that both sides
    of it make a piece. -/
theorem two_le_length_pieces_text (h : ',' ∈ a.group) :
    2 ≤ (Text.pieces ',' a.text).length := by
  obtain ⟨front, back, hgroup⟩ := List.append_of_mem h
  have htext : a.text = ('"' :: (a.name ++ front)) ++ ',' :: (back ++ a.ending ++ ['"']) := by
    rw [text_eq, hgroup]
    simp only [List.append_assoc, List.cons_append]
  have hfirst : Text.pieces ',' ('"' :: (a.name ++ front)) ≠ [] :=
    Text.pieces_ne_nil (d := '"') List.mem_cons_self (by decide)
  have hlast : Text.pieces ',' (back ++ a.ending ++ ['"']) ≠ [] :=
    Text.pieces_ne_nil (d := '"') (List.mem_append_right _ List.mem_cons_self) (by decide)
  have hone := List.length_pos_of_ne_nil hfirst
  have htwo := List.length_pos_of_ne_nil hlast
  rw [htext, Text.pieces_append, List.length_append]
  omega

theorem length_le_length_pieces (args : List Written) :
    args.length ≤ (Text.pieces ',' ([','].intercalate (args.map text))).length := by
  rw [Text.pieces_intercalate, List.flatMap_map]
  induction args with
  | nil => exact Nat.le_refl 0
  | cons a args ih =>
    have hpos := List.length_pos_of_ne_nil (pieces_text_ne_nil a)
    rw [List.flatMap_cons, List.length_append, List.length_cons]
    omega

theorem length_lt_length_pieces {args : List Written} (h : ∃ a ∈ args, ',' ∈ a.group) :
    args.length < (Text.pieces ',' ([','].intercalate (args.map text))).length := by
  obtain ⟨a, ha, hcomma⟩ := h
  obtain ⟨front, back, rfl⟩ := List.append_of_mem ha
  have htwo := two_le_length_pieces_text hcomma
  have hfront := length_le_length_pieces front
  have hback := length_le_length_pieces back
  rw [Text.pieces_intercalate] at hfront hback ⊢
  rw [List.map_append, List.map_cons, List.flatMap_append, List.flatMap_cons]
  simp only [List.length_append, List.length_cons]
  omega

-- ============================================================================
-- Single arguments
-- ============================================================================

/-- The quotes and the tail are taken off. -/
theorem unquoted_text (a : Written) : unquoted a.text = a.name ++ a.group := by
  have hsign : '#' ∉ '"' :: (a.name ++ a.group) := by
    simp only [List.mem_cons, List.mem_append, not_or]
    exact ⟨by decide, not_mem_name (by decide), not_mem_group (by decide) (by decide) (by decide)⟩
  have hquote : behindQuote ('"' :: (a.name ++ a.group)) = a.name ++ a.group := rfl
  rw [unquoted, text, ending]
  cases a.tail with
  | some t =>
    have htext : '"' :: (a.name ++ a.group ++ '#' :: t ++ ['"']) =
        '"' :: (a.name ++ a.group) ++ '#' :: (t ++ ['"']) := by
      simp only [List.append_assoc, List.cons_append]
    simp only [htext, Text.cut?_append hsign, Option.some_or, hquote]
  | none =>
    have htext : '"' :: (a.name ++ a.group ++ [] ++ ['"']) =
        '"' :: (a.name ++ a.group) ++ '"' :: [] := by
      simp only [List.append_nil, List.cons_append]
    have hfree : '#' ∉ '"' :: (a.name ++ a.group) ++ '"' :: [] := by
      rw [List.mem_append, not_or]
      exact ⟨hsign, by decide⟩
    simp only [htext, Text.cut?_eq_none_iff.mpr hfree, Text.cutLast?_append List.not_mem_nil,
      Option.none_or, hquote]

end Written

-- ============================================================================
-- All arguments
-- ============================================================================

/-- The arguments with a comma between any two of them. -/
def joinedText (args : List Written) : String := .ofList ([','].intercalate (args.map Written.text))

/-- Whether the arguments are read as they stand: there are two of them, and no
    comma is in a parameter list. -/
def ReadAsTheyStand (args : List Written) : Prop := args.length = 2 ∧ ∀ a ∈ args, ',' ∉ a.group

instance (args : List Written) : Decidable (ReadAsTheyStand args) :=
  inferInstanceAs (Decidable (_ ∧ _))

/-- What is read of the argument `a` among `args`. -/
def readName (args : List Written) (a : Written) : List Char :=
  if ReadAsTheyStand args then a.name ++ a.group else a.name

theorem arguments_written {args : List Written} (hn : 2 ≤ args.length) :
    arguments (joinedText args).toList =
      if ReadAsTheyStand args then args.map Written.text
      else args.map fun a => a.bare.text := by
  rw [joinedText, String.toList_ofList, arguments]
  by_cases h : ReadAsTheyStand args
  · have htwo : (args.map Written.text).length = 2 := by
      rw [List.length_map]
      exact h.1
    simp only [Written.pieces_texts h.2, htwo, if_true, if_pos h]
  · have hbare : Text.pieces ',' ([','].intercalate ((args.map Written.bare).map Written.text)) =
        (args.map Written.bare).map Written.text := by
      apply Written.pieces_texts
      intro b hb
      obtain ⟨a, -, rfl⟩ := List.mem_map.mp hb
      exact List.not_mem_nil
    have hother : (Text.pieces ',' ([','].intercalate (args.map Written.text))).length ≠ 2 := by
      by_cases hcomma : ∃ a ∈ args, ',' ∈ a.group
      · have hlt := Written.length_lt_length_pieces hcomma
        omega
      · have hnone : ∀ a ∈ args, ',' ∉ a.group := fun a ha hmem => hcomma ⟨a, ha, hmem⟩
        rw [Written.pieces_texts hnone, List.length_map]
        exact fun htwo => h ⟨htwo, hnone⟩
    rw [List.map_map] at hbare
    simp only [if_neg hother, if_neg h, Written.flattened_texts]
    exact hbare

/-- What the arguments of a written text are without their quotes. -/
theorem unquoted_arguments {args : List Written} (hn : 2 ≤ args.length) :
    (arguments (joinedText args).toList).map unquoted = args.map (readName args) := by
  rw [arguments_written hn]
  by_cases h : ReadAsTheyStand args
  · rw [if_pos h, List.map_map]
    apply List.map_congr_left
    intro a _
    rw [Function.comp, Written.unquoted_text, readName, if_pos h]
  · rw [if_neg h, List.map_map]
    apply List.map_congr_left
    intro a _
    rw [Function.comp, Written.unquoted_text, Written.group_bare, List.append_nil, readName,
      if_neg h]
    rfl

end StructuralDiff.RawArguments
