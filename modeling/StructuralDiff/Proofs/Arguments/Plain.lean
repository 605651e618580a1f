/-
  StructuralDiff.Proofs.Arguments.Plain

  Plain names as arguments: names without the characters by which arguments are
  taken apart.

  Plain names in quotes are read as they are (`unquoted_arguments_plain`), and
  access facts have the first two of them exchanged.  The bindings of access facts
  are exchanged too, but only where the word for accesses stands in small letters:
  for two names the two orders agree, except with predicates that spell the word
  in another way (`orders_agree_iff`).

  The layout of fact files puts a blank on either side of the second name.  The
  first blank is taken for the opening quote, and the quote behind it is read as
  part of the name (`unquoted_arguments_combined`).  So names in this layout are
  read back just by the conclusions that take the first or the third of them
  (`converted_combined`).
-/

import StructuralDiff.Predicate.Template
import StructuralDiff.Proofs.Arguments.Nesting

namespace StructuralDiff.RawArguments

variable {p : Predicate} {a b c u v : String}

-- ============================================================================
-- Plain names in quotes
-- ============================================================================

/-- The characters by which a text is taken apart. -/
def separators : List Char := ',' :: marks

/-- The name has none of the characters by which a text is taken apart. -/
def Plain (name : String) : Prop := ∀ x ∈ name.toList, x ∉ separators

theorem Plain.not_mem (ha : Plain a) {x : Char} (hx : x ∈ separators) : x ∉ a.toList :=
  fun hmem => ha x hmem hx

/-- A plain name as an argument of its own. -/
def Written.ofPlain (a : String) (ha : Plain a) : Written where
  name := a.toList
  parameters := none
  tail := none
  name_plain := ha
  parameters_plain := plain_of_none
  tail_plain := @plain_of_none separators

theorem Written.text_ofPlain (ha : Plain a) :
    (Written.ofPlain a ha).text = '"' :: (a.toList ++ ['"']) := by
  rw [text_eq]
  rfl

theorem readName_ofPlain (args : List Written) (ha : Plain a) :
    readName args (.ofPlain a ha) = a.toList := by
  rw [readName]
  split
  · exact List.append_nil a.toList
  · rfl

theorem toList_quotedList (texts : List (List Char)) :
    (quotedList texts).toList = [','].intercalate (texts.map fun s => '"' :: (s ++ ['"'])) := by
  have hquoted : ∀ s : List Char,
      ("\"" ++ .ofList s ++ "\"" : String).toList = '"' :: (s ++ ['"']) := by
    intro s
    simp
  rw [quotedList, String.toList_intercalate, List.map_map]
  simp only [Function.comp_def, hquoted]
  rfl

/-- Plain names in quotes are read as they are. -/
theorem unquoted_arguments_plain {names : List String} (h : ∀ a ∈ names, Plain a)
    (hn : 2 ≤ names.length) :
    (arguments (quotedList (names.map String.toList)).toList).map unquoted =
      names.map String.toList := by
  have hlength : 2 ≤ (names.pmap Written.ofPlain h).length := by
    rw [List.length_pmap]
    exact hn
  have htext : joinedText (names.pmap Written.ofPlain h) =
      quotedList (names.map String.toList) := by
    rw [← String.toList_inj, toList_quotedList, joinedText, String.toList_ofList, List.map_pmap,
      List.map_map]
    simp only [Written.text_ofPlain, List.pmap_eq_map]
    rfl
  rw [← htext, unquoted_arguments hlength, List.map_pmap]
  simp only [readName_ofPlain, List.pmap_eq_map]

/-- Behind the first text and its quotes there is no further quote. -/
theorem exists_toList_quotedList_cons (s : List Char) (texts : List (List Char)) :
    ∃ rest, (quotedList (s :: texts)).toList = '"' :: (s ++ '"' :: rest) ∧
      rest.head? ≠ some '"' := by
  rw [toList_quotedList]
  cases texts with
  | nil => exact ⟨[], by simp, by simp⟩
  | cons t texts =>
    rw [List.map_cons, List.map_cons, List.intercalate_cons_cons, List.append_assoc,
      List.cons_append, List.append_assoc]
    exact ⟨_, rfl, by simp⟩

/-- The first text of a quoted list is the one up to the second quote. -/
theorem eq_of_quotedList_eq {s t : List Char} {ss ts : List (List Char)} (hs : '"' ∉ s)
    (ht : '"' ∉ t) (h : quotedList (s :: ss) = quotedList (t :: ts)) : s = t := by
  obtain ⟨rest, hleft, -⟩ := exists_toList_quotedList_cons s ss
  obtain ⟨rest', hright, -⟩ := exists_toList_quotedList_cons t ts
  rw [h, hright] at hleft
  have hcut := congrArg (Text.cut? '"') (List.cons.inj hleft).2
  rw [Text.cut?_append hs, Text.cut?_append ht] at hcut
  cases hcut
  rfl

/-- A quote in front of the first text shows. -/
theorem quotedList_quote_ne {s : List Char} (hs : '"' ∉ s) (ss ts : List (List Char)) :
    quotedList (('"' :: s) :: ss) ≠ quotedList (s :: ts) := by
  intro h
  obtain ⟨rest, hleft, -⟩ := exists_toList_quotedList_cons ('"' :: s) ss
  obtain ⟨rest', hright, hhead⟩ := exists_toList_quotedList_cons s ts
  rw [h, hright] at hleft
  have hcut := congrArg (Text.cut? '"') (List.cons.inj hleft).2
  have hfirst : Text.cut? '"' ('"' :: s ++ '"' :: rest) = some ([], s ++ '"' :: rest) := by
    rw [List.cons_append, Text.cut?, if_pos rfl]
  rw [Text.cut?_append hs, hfirst] at hcut
  cases hcut
  exact hhead rfl

-- ============================================================================
-- Logical order
-- ============================================================================

theorem converted_plain_pair (hp : p.kind.isConclusion = false) (hu : Plain u) (hv : Plain v) :
    converted p (quotedList [u.toList, v.toList]) =
      .ok (if isAccess p then quotedList [v.toList, u.toList]
        else quotedList [u.toList, v.toList]) := by
  have hnames : ∀ a ∈ [u, v], Plain a := by
    rw [List.forall_mem_cons, List.forall_mem_singleton]
    exact ⟨hu, hv⟩
  have hread := unquoted_arguments_plain hnames (Nat.le_refl 2)
  rw [List.map_cons, List.map_singleton] at hread
  exact converted_of_other hp hread

theorem displays_ground (u v : String) (s t : Tag) :
    ",".intercalate ([Binding.ground u s, Binding.ground v t].map Binding.display) =
      quotedList [u.toList, v.toList] := by
  simp only [quotedList, List.map_cons, List.map_nil, Binding.display, String.ofList_toList]

/-- **The two logical orders.**  Two plain names come out of a conversion in the
    order in which the bindings of the names are put, exactly if they are equal or
    the suffix of the predicate, should it be the word for accesses in any case,
    is that word as it stands.  In all other cases the conversion exchanges them
    and the bindings stay as they are. -/
theorem orders_agree_iff (p : Predicate) (hp : p.kind.isConclusion = false) (hu : Plain u)
    (hv : Plain v) (s t : Tag) :
    (converted p ("\"" ++ u ++ "\",\"" ++ v ++ "\"") =
        .ok (",".intercalate ((p.inLogicalOrder [.ground u s, .ground v t]).map Binding.display)) ↔
      u = v ∨ (Text.sameLetters p.suffix "accesses" = true → p.suffix = "accesses")) ∧
    (Text.sameLetters p.suffix "accesses" = true → p.suffix ≠ "accesses" →
      converted p ("\"" ++ u ++ "\",\"" ++ v ++ "\"") = .ok ("\"" ++ v ++ "\",\"" ++ u ++ "\"") ∧
      p.inLogicalOrder [.ground u s, .ground v t] = [.ground u s, .ground v t]) := by
  have hraw : ∀ a b : String,
      "\"" ++ a ++ "\",\"" ++ b ++ "\"" = quotedList [a.toList, b.toList] := by
    intro a b
    rw [quotedList_pair, String.ofList_toList, String.ofList_toList]
  rw [hraw, hraw, converted_plain_pair hp hu hv]
  have haccess : isAccess p = Text.sameLetters p.suffix "accesses" := rfl
  have horder : p.inLogicalOrder [.ground u s, .ground v t] =
      if p.suffix = "accesses" then [.ground v t, .ground u s] else [.ground u s, .ground v t] :=
    rfl
  rw [haccess, horder]
  by_cases hword : p.suffix = "accesses"
  · have hsame : Text.sameLetters p.suffix "accesses" = true := by
      rw [hword]
      decide
    rw [hsame, if_pos rfl, if_pos hword, displays_ground]
    exact ⟨⟨fun _ => .inr fun _ => hword, fun _ => rfl⟩, fun _ hne => absurd hword hne⟩
  · rw [if_neg hword, displays_ground]
    cases Text.sameLetters p.suffix "accesses" with
    | false => exact ⟨⟨fun _ => .inr nofun, fun _ => rfl⟩, nofun⟩
    | true =>
      refine ⟨⟨fun h => .inl ?_, fun h => ?_⟩, fun _ _ => ⟨rfl, rfl⟩⟩
      · have hquote : '"' ∈ separators := by decide
        have heq := eq_of_quotedList_eq (hv.not_mem hquote) (hu.not_mem hquote)
          (Except.ok.inj h)
        exact (String.toList_inj.mp heq).symm
      · rcases h with rfl | hsame
        · rfl
        · exact absurd (hsame rfl) hword

namespace Sample

theorem plain_field : Plain "a.F%.x" := plain_of_all (by decide)

theorem plain_method : Plain "a.F%.m" := plain_of_all (by decide)

/-- Accesses, with a capital letter in the word. -/
def capitalAccesses : Predicate := { accesses "before" with name := "before_Accesses" }

end Sample

open Sample in
/-- The word as it stands: both exchange the names. -/
theorem orders_agree_iff_accesses :
    (accesses "before").kind.isConclusion = false ∧ Plain "a.F%.x" ∧ Plain "a.F%.m" ∧
      converted (accesses "before") "\"a.F%.x\",\"a.F%.m\"" =
        .ok (",".intercalate (((accesses "before").inLogicalOrder
          [.ground "a.F%.x" .field, .ground "a.F%.m" .method]).map Binding.display)) := by
  have hagree := orders_agree_iff (accesses "before") (by decide) plain_field plain_method
    .field .method
  exact ⟨by decide, plain_field, plain_method, hagree.1.mpr (.inr fun _ => by decide)⟩

open Sample in
/-- With a capital letter only the conversion exchanges the names. -/
theorem orders_differ_with_capital :
    Predicate.ofText "before_Accesses" "fm" = .ok capitalAccesses ∧
    capitalAccesses.kind.isConclusion = false ∧
    converted capitalAccesses "\"u\",\"v\"" = .ok "\"v\",\"u\"" ∧
    capitalAccesses.inLogicalOrder [.ground "u" .field, .ground "v" .method] =
      [.ground "u" .field, .ground "v" .method] := by
  refine ⟨?_, ?_, ?_, ?_⟩ <;> decide

-- ============================================================================
-- The layout of fact files
-- ============================================================================

/-- The first character and what stands from the last quote on are cut off,
    whatever the first character is. -/
theorem unquoted_of_quote {x : Char} (hx : x.utf8Size = 1) {s back : List Char}
    (hsign : '#' ∉ x :: (s ++ '"' :: back)) (hback : '"' ∉ back) :
    unquoted (x :: (s ++ '"' :: back)) = s := by
  have hlast := Text.cutLast?_append hback (x :: s)
  rw [List.cons_append] at hlast
  rw [unquoted, Text.cut?_eq_none_iff.mpr hsign, hlast, Option.none_or]
  exact if_pos hx

theorem toList_combined (a b c : String) :
    (combined a b c).toList =
      '"' :: (a.toList ++ ['"']) ++ ',' :: (' ' :: ('"' :: b.toList ++ ['"', ' ']) ++
        ',' :: ('"' :: (c.toList ++ ['"']))) := by
  simp [combined]

theorem arguments_combined (ha : Plain a) (hb : Plain b) (hc : Plain c) :
    arguments (combined a b c).toList =
      ['"' :: (a.toList ++ ['"']), ' ' :: ('"' :: b.toList ++ ['"', ' ']),
        '"' :: (c.toList ++ ['"'])] := by
  have hbracket : ∀ x ∈ ['(', '<'], x ∉ (combined a b c).toList := by
    intro x hx
    have hother : x ∈ separators ∧ x ≠ '"' ∧ x ≠ ' ' ∧ x ≠ ',' := by
      rcases List.mem_pair.mp hx with rfl | rfl <;> decide
    obtain ⟨hsep, hquote, hblank, hcomma⟩ := hother
    simp [toList_combined, ha.not_mem hsep, hb.not_mem hsep, hc.not_mem hsep, hquote, hblank,
      hcomma]
  have hcomma : ',' ∈ separators := by decide
  have hfirst : ',' ∉ '"' :: (a.toList ++ ['"']) := by simp [ha.not_mem hcomma]
  have hsecond : ',' ∉ ' ' :: ('"' :: b.toList ++ ['"', ' ']) := by simp [hb.not_mem hcomma]
  have hthird : ',' ∉ '"' :: (c.toList ++ ['"']) := by simp [hc.not_mem hcomma]
  rw [arguments_of_not_mem (hbracket '(' (by decide)) (hbracket '<' (by decide)), toList_combined,
    Text.pieces_append, Text.pieces_append, Text.pieces_of_not_mem hfirst (List.cons_ne_nil _ _),
    Text.pieces_of_not_mem hsecond (List.cons_ne_nil _ _),
    Text.pieces_of_not_mem hthird (List.cons_ne_nil _ _)]
  rfl

/-- The second name keeps its opening quote. -/
theorem unquoted_arguments_combined (ha : Plain a) (hb : Plain b) (hc : Plain c) :
    (arguments (combined a b c).toList).map unquoted =
      [a.toList, '"' :: b.toList, c.toList] := by
  have hsign : '#' ∈ separators := by decide
  have hends : ∀ d : String, Plain d → unquoted ('"' :: (d.toList ++ ['"'])) = d.toList := by
    intro d hd
    apply unquoted_of_quote rfl
    · simp [hd.not_mem hsign]
    · exact List.not_mem_nil
  have hmiddle : unquoted (' ' :: ('"' :: b.toList ++ ['"', ' '])) = '"' :: b.toList := by
    apply unquoted_of_quote rfl
    · simp [hb.not_mem hsign]
    · decide
  rw [arguments_combined ha hb hc, List.map_cons, List.map_cons, List.map_singleton, hends a ha,
    hmiddle, hends c hc]

theorem subjectPosition_le (p : Predicate) : subjectPosition p ≤ 2 := by
  rw [subjectPosition_eq]
  split
  · exact Nat.le_refl 2
  · split <;> decide

/-- A conclusion takes the name at its position apart. -/
theorem converted_combined_subject (hp : p.kind.isConclusion = true) (ha : Plain a)
    (hb : Plain b) (hc : Plain c) :
    ∃ q simple owner, [a.toList, '"' :: b.toList, c.toList][subjectPosition p]? = some q ∧
      TakenApart q simple owner ∧
      converted p (combined a b c) = .ok
        ("\"" ++ .ofList q ++ "\",\"" ++ .ofList simple ++ "\",\"" ++ .ofList owner ++ "\"") := by
  have hk : subjectPosition p < [a.toList, '"' :: b.toList, c.toList].length :=
    Nat.lt_succ_of_le (subjectPosition_le p)
  refine ⟨_, _, _, List.getElem?_eq_getElem hk, takenApart_ofText _, ?_⟩
  rw [converted_of_conclusion hp, unquoted_arguments_combined ha hb hc,
    List.getElem?_eq_getElem hk, ← quotedList_triple]

/-- Any other predicate takes the first two names, in logical order. -/
theorem converted_combined_pair (hp : p.kind.isConclusion = false) (ha : Plain a)
    (hb : Plain b) (hc : Plain c) :
    converted p (combined a b c) = .ok
      (if Text.sameLetters p.suffix "accesses" then "\"\"" ++ b ++ "\",\"" ++ a ++ "\""
      else "\"" ++ a ++ "\",\"\"" ++ b ++ "\"") := by
  have haccess : isAccess p = Text.sameLetters p.suffix "accesses" := rfl
  rw [converted_of_other hp (unquoted_arguments_combined ha hb hc), quotedList_pair,
    quotedList_pair, haccess]
  cases Text.sameLetters p.suffix "accesses" with
  | true => exact congrArg Except.ok (String.toList_inj.mp (by simp))
  | false => exact congrArg Except.ok (String.toList_inj.mp (by simp))

/-- The blanks make no difference to a conclusion that does not take the second
    name, and to no other predicate. -/
theorem converted_combined_eq_iff (p : Predicate) (ha : Plain a) (hb : Plain b) (hc : Plain c) :
    converted p (combined a b c) =
        converted p ("\"" ++ a ++ "\",\"" ++ b ++ "\",\"" ++ c ++ "\"") ↔
      p.kind.isConclusion = true ∧ subjectPosition p ≠ 1 := by
  have hread := unquoted_arguments_combined ha hb hc
  have hnames : ∀ d ∈ [a, b, c], Plain d := by
    rw [List.forall_mem_cons, List.forall_mem_cons, List.forall_mem_singleton]
    exact ⟨ha, hb, hc⟩
  have hplain := unquoted_arguments_plain hnames (Nat.le_succ 2)
  rw [List.map_cons, List.map_cons, List.map_singleton, quotedList_triple, String.ofList_toList,
    String.ofList_toList, String.ofList_toList] at hplain
  have hquote : '"' ∉ b.toList := hb.not_mem (by decide)
  cases hp : p.kind.isConclusion with
  | true =>
    rw [converted_of_conclusion hp, converted_of_conclusion hp, hread, hplain]
    by_cases hk : subjectPosition p = 1
    · rw [hk]
      refine ⟨fun h => absurd (Except.ok.inj h) ?_, fun h => absurd rfl h.2⟩
      exact quotedList_quote_ne hquote _ _
    · have hsame : [a.toList, '"' :: b.toList, c.toList][subjectPosition p]? =
          [a.toList, b.toList, c.toList][subjectPosition p]? := by
        match subjectPosition p, hk with
        | 0, _ => rfl
        | _ + 2, _ => rfl
      rw [hsame]
      exact ⟨fun _ => ⟨rfl, hk⟩, fun _ => rfl⟩
  | false =>
    rw [converted_of_other hp hread, converted_of_other hp hplain]
    refine ⟨fun h => absurd (Except.ok.inj h) ?_, fun h => absurd h.1 Bool.false_ne_true⟩
    cases isAccess p with
    | true => exact quotedList_quote_ne hquote _ _
    | false =>
      intro h
      have hlength := congrArg (fun text => text.toList.length) h
      simp [toList_quotedList] at hlength

/-- **Names in the layout of fact files.**  A conclusion takes the name at its
    position, and any other predicate the first two, where the second name begins
    with a quote.  The names are read as they are without the blanks exactly by
    the conclusions that do not take the second. -/
theorem converted_combined (p : Predicate) (ha : Plain a) (hb : Plain b) (hc : Plain c) :
    (p.kind.isConclusion = true →
      ∃ q simple owner, [a.toList, '"' :: b.toList, c.toList][subjectPosition p]? = some q ∧
        TakenApart q simple owner ∧
        converted p (combined a b c) = .ok
          ("\"" ++ .ofList q ++ "\",\"" ++ .ofList simple ++ "\",\"" ++ .ofList owner ++ "\"")) ∧
    (p.kind.isConclusion = false →
      converted p (combined a b c) = .ok
        (if Text.sameLetters p.suffix "accesses" then "\"\"" ++ b ++ "\",\"" ++ a ++ "\""
        else "\"" ++ a ++ "\",\"\"" ++ b ++ "\"")) ∧
    (converted p (combined a b c) =
        converted p ("\"" ++ a ++ "\",\"" ++ b ++ "\",\"" ++ c ++ "\"") ↔
      p.kind.isConclusion = true ∧ subjectPosition p ≠ 1) :=
  ⟨fun hp => converted_combined_subject hp ha hb hc,
    fun hp => converted_combined_pair hp ha hb hc,
    converted_combined_eq_iff p ha hb hc⟩

namespace Sample

/-- Calls between methods in one of the tenses. -/
def calls (tense : String) : Predicate :=
  ⟨tense ++ "_calls", [.method, .method], List.cons_ne_nil _ _⟩

end Sample

open Sample in
/-- The name that comes second is read with the quote in front of it, and the one
    that comes first as it is. -/
theorem converted_combined_accesses :
    Plain "a.F%.x" ∧ Plain "a.F%.m" ∧
      converted (accesses "before") (combined "a.F%.x" "a.F%.m" "a.F%.x") =
        .ok "\"\"a.F%.m\",\"a.F%.x\"" ∧
      converted (calls "added") (combined "a.F%.x" "a.F%.m" "a.F%.x") =
        converted (calls "added") "\"a.F%.x\",\"a.F%.m\",\"a.F%.x\"" := by
  have haccesses := converted_combined (accesses "before") plain_field plain_method plain_field
  have hcalls := converted_combined (calls "added") plain_field plain_method plain_field
  exact ⟨plain_field, plain_method, haccesses.2.1 (by decide), hcalls.2.2.mpr (by decide)⟩

open Sample in
/-- Names written in the layout of fact files are not what is read from it: the
    second has one quote too many, as a name of two and as the name of a conclusion. -/
theorem combined_not_read_back :
    converted (calls "before") (combined "a" "b" "c") = .ok "\"a\",\"\"b\"" ∧
    converted (calls "before") (combined "a" "b" "c") ≠ .ok "\"a\",\"b\"" ∧
    converted (accesses "added") (combined "a" "b" "c") = .ok "\"\"b\",\"\"b\",\"null\"" := by
  refine ⟨?_, ?_, ?_⟩ <;> decide +kernel

end StructuralDiff.RawArguments
