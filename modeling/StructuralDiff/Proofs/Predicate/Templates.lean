/-
  StructuralDiff.Proofs.Predicate.Templates

  The arguments of a rule template: one variable at each position, with the tag
  of the position and a name of its own.

  `templateFrom` looks for unused names among the variables made so far.  What it
  makes at a position depends on nothing but the position: `templateVariable`
  says so without the two lists, and `Numbered` is the invariant that leads from
  one to the other.  As long as the variables in use are numbered without a gap,
  the first name that is tried is not in use.
-/

import Mathlib.Data.List.Basic
import Mathlib.Data.List.Count
import StructuralDiff.Predicate.Template
import StructuralDiff.Proofs.Variables.UnusedNames

namespace StructuralDiff

-- ============================================================================
-- What stands at a position
-- ============================================================================

namespace Predicate

open Variable (numbered numbered_injective)

variable {key : Option Nat} {i j position : Nat} {t u : Tag} {free holders : List Variable}

/-- The number of constant holders before position `i`: of the positions that
    are not the key's. -/
def holdersBefore (key : Option Nat) (i : Nat) : Nat :=
  (List.range i).countP (fun j => key ≠ some j)

theorem holdersBefore_succ_of_key (h : key = some i) :
    holdersBefore key (i + 1) = holdersBefore key i := by
  simp [holdersBefore, List.range_succ, h]

theorem holdersBefore_succ_of_holder (h : key ≠ some i) :
    holdersBefore key (i + 1) = holdersBefore key i + 1 := by
  simp [holdersBefore, List.range_succ, h]

theorem holdersBefore_mono (h : i ≤ j) : holdersBefore key i ≤ holdersBefore key j :=
  (List.range_sublist.mpr h).countP_le

/-- The count grows behind each constant holder, so no two have the same. -/
theorem holdersBefore_lt (hi : key ≠ some i) (h : i < j) :
    holdersBefore key i < holdersBefore key j :=
  calc holdersBefore key i
      < holdersBefore key i + 1 := Nat.lt_succ_self _
    _ = holdersBefore key (i + 1) := (holdersBefore_succ_of_holder hi).symm
    _ ≤ holdersBefore key j := holdersBefore_mono h

/-- The variable at position `i` of a template, with the tag `t`. -/
def templateVariable (key : Option Nat) (i : Nat) (t : Tag) : Variable :=
  if key = some i then ⟨numbered "?x" 0, t, .free⟩
  else ⟨numbered "?c" (holdersBefore key i), t, .constantHolder⟩

theorem templateVariable_of_key (h : key = some i) :
    templateVariable key i t = ⟨numbered "?x" 0, t, .free⟩ :=
  if_pos h

theorem templateVariable_of_holder (h : key ≠ some i) :
    templateVariable key i t = ⟨numbered "?c" (holdersBefore key i), t, .constantHolder⟩ :=
  if_neg h

@[simp]
theorem templateVariable_tag : (templateVariable key i t).tag = t := by
  unfold templateVariable
  split <;> rfl

-- The two sorts differ in the letter behind the question mark.
theorem numbered_free_ne_holder (m n : Nat) : numbered "?x" m ≠ numbered "?c" n := by
  intro h
  have hletters := congrArg String.toList h
  simp [numbered] at hletters

theorem templateVariable_name_ne (h : i < j) :
    (templateVariable key i t).name ≠ (templateVariable key j u).name := by
  by_cases hi : key = some i
  · -- there is one key position
    have hj : key ≠ some j := by
      rw [hi]
      exact fun heq => Nat.ne_of_lt h (Option.some.inj heq)
    rw [templateVariable_of_key hi, templateVariable_of_holder hj]
    exact numbered_free_ne_holder 0 _
  · rw [templateVariable_of_holder hi]
    by_cases hj : key = some j
    · rw [templateVariable_of_key hj]
      exact (numbered_free_ne_holder 0 _).symm
    · rw [templateVariable_of_holder hj]
      intro hname
      exact Nat.ne_of_lt (holdersBefore_lt hi h) (numbered_injective "?c" hname)

-- ============================================================================
-- The run through the signature
-- ============================================================================

/-- The variables made before `position`: the constant holders are numbered
    without a gap, and a free one is there only behind the key position. -/
structure Numbered (key : Option Nat) (position : Nat) (free holders : List Variable) : Prop where
  free_eq_nil : (∀ i < position, key ≠ some i) → free = []
  holders_names : holders.map Variable.name =
    (List.range (holdersBefore key position)).map (numbered "?c")

theorem Numbered.start : Numbered key 0 [] [] := ⟨fun _ => rfl, rfl⟩

theorem Numbered.newFree_eq (h : Numbered key position free holders) (hkey : key = some position) :
    Variable.newFree free t = templateVariable key position t := by
  have hnone : free = [] := by
    apply h.free_eq_nil
    intro i hi
    rw [hkey]
    exact fun heq => Nat.ne_of_gt hi (Option.some.inj heq)
  rw [templateVariable_of_key hkey, Variable.newFree, hnone, Variable.unusedName_of_numbered]
  rfl

theorem Numbered.newHolder_eq (h : Numbered key position free holders)
    (hkey : key ≠ some position) :
    Variable.newHolder holders t = templateVariable key position t := by
  rw [templateVariable_of_holder hkey, Variable.newHolder,
    Variable.unusedName_of_numbered h.holders_names]

theorem Numbered.step_of_key (h : Numbered key position free holders) (hkey : key = some position)
    (v : Variable) : Numbered key (position + 1) (free ++ [v]) holders where
  free_eq_nil hbefore := absurd hkey (hbefore position (Nat.lt_succ_self position))
  holders_names := by rw [holdersBefore_succ_of_key hkey, h.holders_names]

theorem Numbered.step_of_holder (h : Numbered key position free holders)
    (hkey : key ≠ some position) :
    Numbered key (position + 1) free (holders ++ [templateVariable key position t]) where
  free_eq_nil hbefore := h.free_eq_nil fun i hi => hbefore i (Nat.lt_succ_of_lt hi)
  holders_names := by
    rw [holdersBefore_succ_of_holder hkey, List.range_succ, List.map_append, List.map_append,
      h.holders_names, templateVariable_of_holder hkey]
    rfl

theorem templateFrom_eq (h : Numbered key position free holders) (ts : List Tag) :
    templateFrom key position free holders ts =
      ts.mapIdx fun i t => .variable (templateVariable key (position + i) t) := by
  -- over the signature; the lists of variables in use grow along with the position
  induction ts generalizing position free holders with
  | nil => rfl
  | cons t ts ih =>
    have hshift : (fun i t => Binding.variable (templateVariable key (position + (i + 1)) t)) =
        fun i t => Binding.variable (templateVariable key (position + 1 + i) t) := by
      funext i t
      rw [Nat.add_assoc, Nat.add_comm 1 i]
    rw [templateFrom, List.mapIdx_cons, Nat.add_zero, hshift]
    split
    case isTrue hkey =>
      rw [h.newFree_eq hkey]
      exact congrArg _ (ih (h.step_of_key hkey _))
    case isFalse hkey =>
      rw [h.newHolder_eq hkey]
      exact congrArg _ (ih (h.step_of_holder hkey))

example : (templateFrom (some 1) 0 [] [] [.type, .method, .type]).map Binding.display =
    ["?c0", "?x0", "?c1"] := by
  decide

theorem template_eq (p : Predicate) :
    p.template = (p.signature.mapIdx (templateVariable p.keyArgument?)).map .variable := by
  rw [template, templateFrom_eq .start, List.mapIdx_eq_iff]
  intro i
  rw [List.getElem?_map, List.getElem?_mapIdx, Option.map_map, Nat.zero_add]
  rfl

-- ============================================================================
-- Rule templates
-- ============================================================================

theorem argumentsFit_variables (vs : List Variable) :
    argumentsFit (vs.map .variable) (vs.map Variable.tag) := by
  induction vs with
  | nil => rfl
  | cons v vs ih =>
    rw [List.map_cons, List.map_cons, argumentsFit, ih, Bool.and_true]
    exact beq_self_eq_true v.tag.entity

theorem names_nodup (key : Option Nat) (ts : List Tag) :
    ((ts.mapIdx (templateVariable key)).map Variable.name).Nodup := by
  apply List.pairwise_iff_getElem.mpr
  intro i j hi hj hlt
  rw [List.getElem_map, List.getElem_map, List.getElem_mapIdx, List.getElem_mapIdx]
  exact templateVariable_name_ne hlt

/-- A template has one variable for each position of the signature, with the tag
    of the position, and the predicate accepts it.  The variable at the key
    position is the free `?x0`; the others are constant holders, `?c` with the
    number of those before.  No name comes twice. -/
theorem template_wellTyped (p : Predicate) :
    ∃ vs : List Variable,
      p.template = vs.map .variable ∧
      vs.map Variable.tag = p.signature ∧
      p.accepts p.template ∧
      (∀ i v, vs[i]? = some v →
        (p.keyArgument? = some i → v.quantifier = .free ∧ v.name = "?x0") ∧
        (p.keyArgument? ≠ some i → v.quantifier = .constantHolder ∧
          v.name = "?c" ++ toString (holdersBefore p.keyArgument? i))) ∧
      (vs.map Variable.name).Nodup := by
  have htags : (p.signature.mapIdx (templateVariable p.keyArgument?)).map Variable.tag =
      p.signature := by
    apply List.ext_getElem?
    intro i
    rw [List.getElem?_map, List.getElem?_mapIdx, Option.map_map]
    simp [Function.comp_def]
  refine ⟨p.signature.mapIdx (templateVariable p.keyArgument?), template_eq p, htags, ?_,
    fun i v hv => ?_, names_nodup p.keyArgument? p.signature⟩
  · have hfit := argumentsFit_variables (p.signature.mapIdx (templateVariable p.keyArgument?))
    rw [htags, ← template_eq] at hfit
    exact hfit
  · rw [List.getElem?_mapIdx, Option.map_eq_some_iff] at hv
    obtain ⟨t, -, rfl⟩ := hv
    constructor
    · intro hkey
      rw [templateVariable_of_key hkey]
      exact ⟨rfl, rfl⟩
    · intro hkey
      rw [templateVariable_of_holder hkey]
      exact ⟨rfl, rfl⟩

end Predicate
end StructuralDiff
