/-
  StructuralDiff.Proofs.Arguments.Reading

  What a predicate makes of well written arguments.

  All that a conversion needs of a text are its arguments without their quotes
  (`converted_of_conclusion`, `converted_of_other`), and of a well written text
  these are known.  `TakenApart` says what the simple name and the owner in a
  name are, in terms of the first separator in it.

  Main statement: what a conversion of well written arguments comes to, for a
  conclusion and for any other predicate (`converted_written`).
-/

import StructuralDiff.Proofs.Arguments.Written

namespace StructuralDiff.RawArguments

open Text (FirstCut)

-- ============================================================================
-- Names
-- ============================================================================

/-- The simple name in `q`, and the text that stands for its owner.  A name that
    starts with the first character of a separator has no owner. -/
inductive TakenApart (q : List Char) : List Char → List Char → Prop where
  | whole (h : ¬ "%.".toList <:+: q) : TakenApart q q "null".toList
  | unowned {owner simple : List Char} (h : FirstCut "%.".toList q owner simple)
      (hnone : owner = [] ∨ q.head? = some '%') : TakenApart q simple "null".toList
  | owned {owner simple : List Char} (h : FirstCut "%.".toList q owner simple)
      (hsome : owner ≠ []) (hhead : q.head? ≠ some '%') : TakenApart q simple owner

/-- A name is taken apart in one way. -/
theorem TakenApart.unique {q simple owner simple' owner' : List Char}
    (h : TakenApart q simple owner) (h' : TakenApart q simple' owner') :
    simple = simple' ∧ owner = owner' := by
  have hoccurs : ∀ {before behind}, FirstCut "%.".toList q before behind → "%.".toList <:+: q :=
    fun hcut => ⟨_, _, hcut.1.symm⟩
  cases h with
  | whole hfree =>
    cases h' with
    | whole => exact ⟨rfl, rfl⟩
    | unowned hcut _ => exact absurd (hoccurs hcut) hfree
    | owned hcut _ _ => exact absurd (hoccurs hcut) hfree
  | unowned hcut hnone =>
    cases h' with
    | whole hfree => exact absurd (hoccurs hcut) hfree
    | unowned hcut' _ => exact ⟨(hcut.unique hcut').2, rfl⟩
    | owned hcut' hsome hhead =>
      rw [(hcut.unique hcut').1] at hnone
      exact absurd hnone (not_or.mpr ⟨hsome, hhead⟩)
  | owned hcut hsome hhead =>
    cases h' with
    | whole hfree => exact absurd (hoccurs hcut) hfree
    | unowned hcut' hnone =>
      rw [← (hcut.unique hcut').1] at hnone
      exact absurd hnone (not_or.mpr ⟨hsome, hhead⟩)
    | owned hcut' _ _ => exact (hcut.unique hcut').symm

theorem takenApart_ofText (q : List Char) :
    TakenApart q (QualifiedName.ofText q).simple
      ((QualifiedName.ofText q).owner.getD "null".toList) := by
  rw [QualifiedName.ofText]
  cases hcut : Text.cutAt? "%.".toList q with
  | none => exact .whole (Text.cutAt?_eq_none_iff.mp hcut)
  | some parts =>
    obtain ⟨owner, simple⟩ := parts
    have hfirst := Text.firstCut_of_cutAt? hcut
    by_cases hnone : owner = [] ∨ q.head? = some '%'
    · have htest : (owner.isEmpty || q.head? = some '%') = true := by simpa using hnone
      simp only [htest, if_true]
      exact .unowned hfirst hnone
    · have htest : ¬ (owner.isEmpty || q.head? = some '%') = true := by simpa using hnone
      obtain ⟨hsome, hhead⟩ := not_or.mp hnone
      simp only [htest]
      exact .owned hfirst hsome hhead

theorem qualified_ofText (q : List Char) : (QualifiedName.ofText q).qualified = q := by
  rw [QualifiedName.ofText]
  cases Text.cutAt? "%.".toList q <;> rfl

-- ============================================================================
-- Conversion
-- ============================================================================

variable {p : Predicate}

theorem subjectPosition_eq (p : Predicate) :
    subjectPosition p =
      if "inherited".toList <:+: p.suffix.toList then 2
      else if Text.sameLetters p.suffix "typeintype" || Text.sameLetters p.suffix "accesses" then 1
      else 0 := by
  rw [subjectPosition]
  simp only [Text.contains_iff]
  rfl

/-- A conclusion takes one argument apart. -/
theorem converted_of_conclusion (hp : p.kind.isConclusion = true) (raw : String) :
    converted p raw =
      match ((arguments raw.toList).map unquoted)[subjectPosition p]? with
      | some q => .ok (quotedList [q, (QualifiedName.ofText q).simple,
          (QualifiedName.ofText q).owner.getD "null".toList])
      | none => .error ⟨p.name, subjectPosition p⟩ := by
  rw [List.getElem?_map]
  simp only [converted, argumentAt, hp, if_true]
  cases (arguments raw.toList)[subjectPosition p]? with
  | none => rfl
  | some a =>
    show Except.ok _ = Except.ok _
    rw [qualified_ofText]

/-- Any other predicate keeps the first two arguments. -/
theorem converted_of_other (hp : p.kind.isConclusion = false) {raw : String}
    {first second : List Char} {rest : List (List Char)}
    (h : (arguments raw.toList).map unquoted = first :: second :: rest) :
    converted p raw =
      .ok (if isAccess p then quotedList [second, first] else quotedList [first, second]) := by
  obtain ⟨a, as, hargs, rfl, has⟩ := List.map_eq_cons_iff.mp h
  obtain ⟨b, bs, rfl, rfl, -⟩ := List.map_eq_cons_iff.mp has
  simp only [converted, argumentAt, hp, hargs, List.getElem?_cons_zero, List.getElem?_cons_succ]
  cases isAccess p <;> rfl

theorem quotedList_pair (s t : List Char) :
    quotedList [s, t] = "\"" ++ .ofList s ++ "\",\"" ++ .ofList t ++ "\"" := by
  have hbetween : "\",\"" = "\"" ++ "," ++ "\"" := rfl
  rw [hbetween]
  simp only [quotedList, List.map_cons, List.map_nil, String.intercalate_cons_cons,
    String.intercalate_singleton, String.append_assoc]

theorem quotedList_triple (s t u : List Char) :
    quotedList [s, t, u] =
      "\"" ++ .ofList s ++ "\",\"" ++ .ofList t ++ "\",\"" ++ .ofList u ++ "\"" := by
  have hbetween : "\",\"" = "\"" ++ "," ++ "\"" := rfl
  rw [hbetween]
  simp only [quotedList, List.map_cons, List.map_nil, String.intercalate_cons_cons,
    String.intercalate_singleton, String.append_assoc]

/-- What is made of well written arguments.  A conclusion takes the name at its
    position apart, and reports that position if there are too few arguments; any
    other predicate keeps the first two names, in logical order. -/
theorem converted_written (p : Predicate) {args : List Written} (hn : 2 ≤ args.length) :
    (p.kind.isConclusion = false →
      converted p (joinedText args) = .ok
        (if Text.sameLetters p.suffix "accesses" then
          "\"" ++ .ofList (readName args args[1]) ++ "\",\"" ++
            .ofList (readName args args[0]) ++ "\""
        else
          "\"" ++ .ofList (readName args args[0]) ++ "\",\"" ++
            .ofList (readName args args[1]) ++ "\"")) ∧
    (p.kind.isConclusion = true →
      ∀ k, k =
          (if "inherited".toList <:+: p.suffix.toList then 2
          else if Text.sameLetters p.suffix "typeintype" || Text.sameLetters p.suffix "accesses"
            then 1
          else 0) →
        (∀ h : k < args.length, ∃ simple owner,
          TakenApart (readName args args[k]) simple owner ∧
            converted p (joinedText args) = .ok
              ("\"" ++ .ofList (readName args args[k]) ++ "\",\"" ++ .ofList simple ++ "\",\"" ++
                .ofList owner ++ "\"")) ∧
        (args.length ≤ k → converted p (joinedText args) = .error ⟨p.name, k⟩)) := by
  have hread := unquoted_arguments hn
  constructor
  · intro hp
    have hargs : args = args[0] :: args[1] :: args.drop 2 := by
      rw [List.getElem_cons_drop, List.getElem_cons_drop, List.drop_zero]
    have hfirst : args.map (readName args) = readName args args[0] :: readName args args[1] ::
        (args.drop 2).map (readName args) := by
      rw [← List.map_cons, ← List.map_cons, ← hargs]
    have haccess : isAccess p = Text.sameLetters p.suffix "accesses" := rfl
    rw [converted_of_other hp (hread.trans hfirst), quotedList_pair, quotedList_pair, haccess]
  · intro hp k hk
    rw [← subjectPosition_eq] at hk
    rw [converted_of_conclusion hp, hread, List.getElem?_map, ← hk]
    constructor
    · intro h
      refine ⟨_, _, takenApart_ofText _, ?_⟩
      rw [List.getElem?_eq_getElem h, ← quotedList_triple, Option.map_some]
    · intro h
      rw [List.getElem?_eq_none h, Option.map_none]

namespace Sample

/-- Accesses of fields in one of the tenses. -/
def accesses (tense : String) : Predicate :=
  ⟨tense ++ "_accesses", [.field, .method], List.cons_ne_nil _ _⟩

-- A check that goes through the characters of the text, not through all there are.
theorem plain_of_all {cs ms : List Char} (h : cs.all (fun c => !ms.contains c) = true) :
    ∀ c ∈ cs, c ∉ ms := by
  simpa using h

def field : Written where
  name := "a.F%.x".toList
  parameters := none
  tail := none
  name_plain := plain_of_all (by decide)
  parameters_plain := plain_of_none
  tail_plain := plain_of_none

/-- A method with two parameters, and a mark behind it. -/
def method : Written where
  name := "a.F%.m".toList
  parameters := some "int,a.T".toList
  tail := some "1".toList
  name_plain := plain_of_all (by decide)
  parameters_plain := fun ps h => by
    obtain rfl := Option.some.inj h
    exact plain_of_all (by decide)
  tail_plain := fun t h => by
    obtain rfl := Option.some.inj h
    exact plain_of_all (by decide)

end Sample

open Sample in
/-- The comma between the parameters makes the parameter list go. -/
theorem converted_written_accesses :
    joinedText [field, method] = "\"a.F%.x\",\"a.F%.m(int,a.T)#1\"" ∧
      converted (accesses "before") (joinedText [field, method]) =
        .ok "\"a.F%.m\",\"a.F%.x\"" ∧
      converted (accesses "added") (joinedText [field, method]) =
        .ok "\"a.F%.m\",\"m\",\"a.F\"" := by
  have hn : 2 ≤ [field, method].length := Nat.le_refl 2
  have hbefore := (converted_written (accesses "before") hn).1 (by decide)
  have hadded := ((converted_written (accesses "added") hn).2 (by decide) 1 (by decide)).1
  obtain ⟨simple, owner, hq, hconverted⟩ := hadded (by decide)
  have hcut : FirstCut "%.".toList "a.F%.m".toList "a.F".toList "m".toList :=
    Text.firstCut_of_cutAt? (by decide)
  obtain ⟨rfl, rfl⟩ := hq.unique (.owned hcut (by decide) (by decide))
  exact ⟨by decide, hbefore, hconverted⟩

end StructuralDiff.RawArguments
