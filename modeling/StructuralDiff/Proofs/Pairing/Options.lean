/-
  StructuralDiff.Proofs.Pairing.Options

  What each option does to the pairing of predicates.

  Without a chosen antecedent two layers decide: the dependence rules, if they are
  preferred and one of them covers the conclusion, and otherwise the kinds
  (`maySupport_covered`, `maySupport_by_kinds`).  A rule covers a conclusion just
  if the name holds one of the texts that the rules look for
  (`dependence?_isSome_iff`), whatever the antecedent.  The option for predicates
  of the later program reaches the kinds only, and there a single pair of them
  (`kindsSuit_newly_iff`).
-/

import StructuralDiff.Pairing.Basic
import StructuralDiff.Proofs.Text.Pieces

namespace StructuralDiff
namespace Pairing

variable {options : Options} {conclusion p : Predicate}

-- ============================================================================
-- Dependence rules
-- ============================================================================

/-- The texts that the dependence rules look for in conclusions. -/
def coveredTexts : List String :=
  ["added_calls", "deleted_accesses", "added_accesses", "added_return", "deleted_return", "_method",
   "_type", "_inherited"]

/-- A dependence rule covers the conclusion: its name holds one of the texts. -/
def Covered (conclusion : Predicate) : Prop :=
  ∃ text ∈ coveredTexts, text.toList <:+: conclusion.name.toList

theorem holdsAny_iff (name : String) (texts : List String) :
    holdsAny name texts = true ↔ ∃ text ∈ texts, text.toList <:+: name.toList := by
  simp only [holdsAny, List.any_eq_true, Text.contains_iff]

/-- Whether the rules decide depends on the conclusion alone. -/
theorem dependence?_isSome_iff (conclusion : Predicate) (antecedent : String) :
    (dependence? conclusion.name antecedent).isSome = true ↔ Covered conclusion := by
  have htexts : coveredTexts = dependenceRules.flatMap DependenceRule.conclusions := rfl
  rw [dependence?, Option.isSome_map, List.find?_isSome, Covered, htexts]
  simp only [holdsAny_iff, List.mem_flatMap]
  constructor
  · rintro ⟨rule, hrule, text, htext, hfound⟩
    exact ⟨text, ⟨rule, hrule, htext⟩, hfound⟩
  · rintro ⟨text, ⟨rule, hrule, htext⟩, hfound⟩
    exact ⟨rule, hrule, text, htext, hfound⟩

instance : DecidablePred Covered := fun conclusion =>
  decidable_of_iff _ (dependence?_isSome_iff conclusion "")

theorem dependence?_eq_none_iff (conclusion : Predicate) (antecedent : String) :
    dependence? conclusion.name antecedent = none ↔ ¬ Covered conclusion := by
  rw [← dependence?_isSome_iff conclusion antecedent, Option.not_isSome_iff_eq_none]

-- ============================================================================
-- Kinds
-- ============================================================================

/-- Allowing predicates of the later program makes one more pair of kinds suit. -/
theorem kindsSuit_eq (after : Bool) (k l : Kind) :
    kindsSuit after k l =
      (kindsSuit false k l || (after && (k == .added false && l == .after))) := by
  rcases k with _ | _ | ⟨⟨⟩⟩ | ⟨⟨⟩⟩ | ⟨⟨⟩⟩ | _ <;>
    rcases l with _ | _ | ⟨⟨⟩⟩ | ⟨⟨⟩⟩ | ⟨⟨⟩⟩ | _ <;> cases after <;> rfl

theorem kindsSuit_newly_iff (k l : Kind) :
    kindsSuit true k l = true ∧ kindsSuit false k l = false ↔ l = .after ∧ k = .added false := by
  rw [kindsSuit_eq true]
  constructor
  · rintro ⟨hsuit, hbefore⟩
    have hpair : k = .added false ∧ l = .after := by simpa [hbefore] using hsuit
    exact hpair.symm
  · rintro ⟨rfl, rfl⟩
    exact ⟨rfl, rfl⟩

-- ============================================================================
-- The layers
-- ============================================================================

/-- Once an antecedent was chosen its kind decides, whatever the options. -/
theorem maySupport_chosen (options : Options) (conclusion q p : Predicate) :
    maySupport options conclusion (some q) p = (p.kind == q.kind) := rfl

/-- If the rules are preferred and one covers the conclusion, it decides. -/
theorem maySupport_covered (hprefer : options.preferDependence = true) {allowed : Bool}
    (hrule : dependence? conclusion.name p.name = some allowed) :
    maySupport options conclusion none p = allowed := by
  simp [maySupport, hprefer, hrule]

/-- Otherwise the kinds decide. -/
theorem maySupport_by_kinds (h : options.preferDependence = false ∨ ¬ Covered conclusion) :
    maySupport options conclusion none p =
      kindsSuit options.allowAfter conclusion.kind p.kind := by
  rcases h with hprefer | hcovered
  · simp [maySupport, hprefer]
  · have hnone := (dependence?_eq_none_iff conclusion p.name).mpr hcovered
    simp [maySupport, hnone]

/-- One of the two layers decides, and predicates of the later program are allowed
    or not in the kinds only. -/
theorem maySupport_layers (options : Options) (conclusion p : Predicate) :
    ((options.preferDependence = false ∨ ¬ Covered conclusion) ∧ ∀ after,
      maySupport { options with allowAfter := after } conclusion none p =
        kindsSuit after conclusion.kind p.kind) ∨
    (¬ (options.preferDependence = false ∨ ¬ Covered conclusion) ∧ ∃ allowed, ∀ after,
      maySupport { options with allowAfter := after } conclusion none p = allowed) := by
  by_cases hlayer : options.preferDependence = false ∨ ¬ Covered conclusion
  · exact .inl ⟨hlayer, fun _ => maySupport_by_kinds hlayer⟩
  · obtain ⟨hprefer, hcovered⟩ := not_or.mp hlayer
    rw [not_not, ← dependence?_isSome_iff conclusion p.name] at hcovered
    obtain ⟨allowed, hrule⟩ := Option.isSome_iff_exists.mp hcovered
    exact .inr ⟨hlayer, allowed, fun _ => maySupport_covered (by simpa using hprefer) hrule⟩

/-- **Each option has an effect of its own.**  The limit on conclusions does not
    touch pairing.  Allowing predicates of the later program forbids nothing, and
    newly permits just that they support an unprimed addition while no antecedent
    is chosen and the dependence rules are not preferred or do not cover the
    conclusion.  Preferring the dependence rules changes nothing once an antecedent
    was chosen, or if none of them covers the conclusion. -/
theorem options_act_apart (options : Options) (conclusion : Predicate)
    (chosen : Option Predicate) (p : Predicate) :
    (∀ limit, maySupport { options with limitConclusions := limit } conclusion chosen p =
      maySupport options conclusion chosen p) ∧
    (maySupport { options with allowAfter := false } conclusion chosen p = true →
      maySupport { options with allowAfter := true } conclusion chosen p = true) ∧
    (maySupport { options with allowAfter := true } conclusion chosen p = true ∧
        maySupport { options with allowAfter := false } conclusion chosen p = false ↔
      chosen = none ∧ p.kind = .after ∧ conclusion.kind = .added false ∧
        (options.preferDependence = false ∨ ¬ Covered conclusion)) ∧
    (chosen ≠ none ∨ ¬ Covered conclusion → ∀ prefer,
      maySupport { options with preferDependence := prefer } conclusion chosen p =
        maySupport options conclusion chosen p) := by
  cases chosen with
  | some q => simp [maySupport_chosen]
  | none =>
    -- the limit on conclusions is read by neither layer
    refine ⟨fun _ => rfl, ?_, ?_, ?_⟩
    · rcases maySupport_layers options conclusion p with ⟨-, hkinds⟩ | ⟨-, allowed, hrule⟩
      · rw [hkinds, hkinds]
        intro h
        rw [kindsSuit_eq, h, Bool.true_or]
      · rw [hrule, hrule]
        exact id
    · rcases maySupport_layers options conclusion p with ⟨hlayer, hkinds⟩ | ⟨hlayer, allowed, hrule⟩
      · rw [hkinds, hkinds, kindsSuit_newly_iff]
        simp [hlayer]
      · rw [hrule, hrule]
        simp only [hlayer, and_false, iff_false]
        cases allowed <;> simp
    · rintro (hchosen | hcovered) prefer
      · exact absurd rfl hchosen
      · rw [maySupport_by_kinds (.inr hcovered), maySupport_by_kinds (.inr hcovered)]

/-- Added packages: no dependence rule covers them, so the kinds decide also when
    the rules are preferred. -/
theorem options_act_apart_packages :
    let options : Options := { preferDependence := true }
    let conclusion : Predicate := ⟨"added_package", [.package], List.cons_ne_nil _ _⟩
    let earlier : Predicate := ⟨"before_package", [.package], List.cons_ne_nil _ _⟩
    let later : Predicate := ⟨"after_package", [.package], List.cons_ne_nil _ _⟩
    ¬ Covered conclusion ∧
    maySupport { options with allowAfter := false } conclusion none earlier = true ∧
    maySupport { options with allowAfter := true } conclusion none earlier = true ∧
    maySupport { options with allowAfter := false } conclusion none later = false ∧
    maySupport { options with allowAfter := true } conclusion none later = true ∧
    maySupport { options with preferDependence := false } conclusion none later =
      maySupport options conclusion none later := by
  intro options conclusion earlier later
  have hcovered : ¬ Covered conclusion := by decide +kernel
  have hearlier : maySupport { options with allowAfter := false } conclusion none earlier = true := by
    decide +kernel
  have hlater : later.kind = .after ∧ conclusion.kind = .added false := by decide +kernel
  obtain ⟨-, hkept, -, -⟩ := options_act_apart options conclusion none earlier
  obtain ⟨-, -, hnewly, hprefer⟩ := options_act_apart options conclusion none later
  obtain ⟨hpermitted, hforbidden⟩ := hnewly.mpr ⟨rfl, hlater.1, hlater.2, .inr hcovered⟩
  exact ⟨hcovered, hearlier, hkept hearlier, hforbidden, hpermitted,
    hprefer (.inr hcovered) false⟩

end Pairing
end StructuralDiff
