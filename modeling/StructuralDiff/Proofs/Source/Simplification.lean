/-
  StructuralDiff.Proofs.Source.Simplification

  Simplifying a source does not change its behaviour.

  `Thinned s t` says that `t` is `s` without some of its layers, or that both
  have come to their end.  Polls of two such sources find the same and leave
  two such sources (`Thinned.survey`), so that an owner who asks for an element
  only after a poll that answered `ready` is given the same answers by both.
  The relation also holds at the end, where a composite has dropped the child
  that is all there is of its simplified form.
-/

import StructuralDiff.Proofs.Source.Draining

namespace StructuralDiff

variable {κ α : Type}

namespace Source

-- ============================================================================
-- Orderly owners
-- ============================================================================

/-- The answers to calls made one after the other. -/
def answers (s : Source κ α) (calls : List (Call κ α)) : List (Answer α) :=
  (s.replies calls).map Reply.answer

/-- Each element is asked for right after a poll that answered `ready`, and
    nothing is added; `ready` tells whether the call before these was such a
    poll. -/
def orderly (ready : Bool) (s : Source κ α) : List (Call κ α) → Bool
  | [] => true
  | .status :: calls => orderly (s.status = .ready) (s.perform .status).source calls
  | .next :: calls => ready && orderly false (s.perform .next).source calls
  | .add _ :: _ => false

-- ============================================================================
-- Sources that differ in layers
-- ============================================================================

/-- `t` is `s` without some layers, or both have ended. -/
inductive Thinned : Source κ α → Source κ α → Prop where
  | same (s : Source κ α) : Thinned s s
  | opened {l : κ} {s t : Source κ α} (h : Thinned s t) : Thinned (.opened l s) t
  | only {l : κ} {s t : Source κ α} (h : Thinned s t) : Thinned (.composite l [s]) t
  | onlyFocused {l : κ} {s t : Source κ α} (h : Thinned s t) : Thinned (.focused l [] s []) t
  | ended {s t : Source κ α} (hs : s.Ended) (ht : t.Ended) : Thinned s t

/-- The same was found, in sources that differ in layers only. -/
inductive Alike : Finding κ α → Finding κ α → Prop where
  | exhausted {s t : Source κ α} (h : Thinned s t) : Alike (.exhausted s) (.exhausted t)
  | waiting {s t : Source κ α} (h : Thinned s t) : Alike (.waiting s) (.waiting t)
  | ready {s t p q : Source κ α} {x : α} (h : Thinned s t) (hrest : Thinned p q) :
      Alike (.ready s x p) (.ready t x q)

variable {s t : Source κ α}

theorem thinned_simplify (s : Source κ α) : Thinned s s.simplify := by
  fun_induction simplify s with
  | case1 l => exact .ended (.composite l) (.empty l)
  | case2 l c => exact .only (.same c)
  | case3 l c => exact .onlyFocused (.same c)
  | case4 l inner ih => exact .opened ih
  | case5 s => exact .same s

theorem Alike.of_exhausted {f : Finding κ α} (h : Alike (.exhausted s) f) :
    ∃ t, f = .exhausted t ∧ Thinned s t := by
  cases h with
  | exhausted h => exact ⟨_, rfl, h⟩

theorem Alike.of_waiting {f : Finding κ α} (h : Alike (.waiting s) f) :
    ∃ t, f = .waiting t ∧ Thinned s t := by
  cases h with
  | waiting h => exact ⟨_, rfl, h⟩

theorem Alike.of_ready {p : Source κ α} {x : α} {f : Finding κ α} (h : Alike (.ready s x p) f) :
    ∃ t q, f = .ready t x q ∧ Thinned s t ∧ Thinned p q := by
  cases h with
  | ready h hrest => exact ⟨_, _, rfl, h, hrest⟩

theorem Alike.same (f : Finding κ α) : Alike f f := by
  cases f with
  | exhausted s => exact .exhausted (.same s)
  | waiting s => exact .waiting (.same s)
  | ready s x p => exact .ready (.same s) (.same p)

/-- What a composite of one child finds, in terms of what its child finds. -/
def onlyFinding (l : κ) : Finding κ α → Finding κ α
  | .exhausted _ => .exhausted (.composite l [])
  | .waiting s => .waiting (.composite l [s])
  | .ready s x rest => .ready (.focused l [] s []) x (.focused l [] rest [])

theorem survey_composite_only (l : κ) (s : Source κ α) :
    (composite l [s]).survey.finding = onlyFinding l s.survey.finding := by
  cases hf : s.survey.finding <;>
    simp [survey, scanAll, Poll.reported, hf, onlyFinding, settled, focusedOn]

theorem survey_focused_only (l : κ) (s : Source κ α) :
    (focused l [] s []).survey.finding = onlyFinding l s.survey.finding := by
  cases hf : s.survey.finding <;>
    simp [survey, scanAll, Poll.reported, hf, onlyFinding, settled, focusedOn]

/-- When the child ends the composite drops it and its simplified form keeps
    it; both have ended then. -/
theorem alike_onlyFinding {f : Finding κ α} (l : κ) (ht : f.Sound)
    {e : Finding κ α} (h : Alike e f) : Alike (onlyFinding l e) f := by
  cases h with
  | exhausted h => exact .exhausted (.ended (.composite l) ht)
  | waiting h => exact .waiting (.only h)
  | ready h hrest => exact .ready (.onlyFocused h) (.onlyFocused hrest)

theorem Thinned.survey (h : Thinned s t) : Alike s.survey.finding t.survey.finding := by
  induction h with
  | same s => exact .same _
  | @opened l s t _ ih =>
    show Alike (s.survey.finding.within (.opened l)) t.survey.finding
    generalize s.survey.finding = e at ih ⊢
    generalize t.survey.finding = f at ih ⊢
    cases ih with
    | exhausted h => exact .exhausted (.opened h)
    | waiting h => exact .waiting (.opened h)
    | ready h hrest => exact .ready (.opened h) (.opened hrest)
  | @only l s t _ ih =>
    rw [survey_composite_only]
    exact alike_onlyFinding l (sound_survey t) ih
  | @onlyFocused l s t _ ih =>
    rw [survey_focused_only]
    exact alike_onlyFinding l (sound_survey t) ih
  | ended hs ht =>
    rw [hs.survey, ht.survey]
    exact .exhausted (.ended hs ht)

-- ============================================================================
-- Runs of calls
-- ============================================================================

/-- Both sources give the same element next, and differ in layers only
    afterwards. -/
def Agree (s t : Source κ α) : Prop :=
  ∃ g g' x p q, s.Poised g x p ∧ t.Poised g' x q ∧ Thinned p q

theorem Thinned.agree (h : Thinned s t) (hs : s.status = .ready) :
    Agree s.survey.finding.source t.survey.finding.source := by
  obtain ⟨s', x, p, hsf⟩ := survey_of_status_ready hs
  obtain ⟨t', q, htf, _, hrest⟩ := (hsf ▸ h.survey).of_ready
  obtain ⟨g, hg⟩ := poised_of_survey hsf
  obtain ⟨g', hg'⟩ := poised_of_survey htf
  rw [hsf, htf]
  exact ⟨g, g', x, p, q, hg, hg', hrest⟩

/-- Simplifying keeps the path to the element that was found ready. -/
theorem agree_simplify {p : Source κ α} {g : κ} {x : α} (h : s.Poised g x p) :
    Agree s s.simplify := by
  suffices hsimplify : ∃ q, s.simplify.Poised g x q ∧ Thinned p q by
    obtain ⟨q, hq, hpq⟩ := hsimplify
    exact ⟨g, g, x, p, q, h, hq, hpq⟩
  fun_induction simplify s generalizing p with
  | case1 l => cases h
  | case2 l c => cases h
  | case3 l c =>
    cases h with
    | focused h => exact ⟨_, h, .onlyFocused (.same _)⟩
  | case4 l inner ih =>
    cases h with
    | opened h =>
      obtain ⟨q, hq, hpq⟩ := ih h
      exact ⟨q, hq, .opened hpq⟩
  | case5 s => exact ⟨p, h, .same p⟩

theorem Alike.status_eq {e f : Finding κ α} (h : Alike e f) : e.status = f.status := by
  cases h <;> rfl

theorem Alike.source {e f : Finding κ α} (h : Alike e f) : Thinned e.source f.source := by
  cases h with
  | exhausted h => exact h
  | waiting h => exact h
  | ready h _ => exact h

/-- One run, and the same calls on the source with fewer layers. -/
theorem Thinned.run (h : Thinned s t) (ready : Bool) (hready : ready → Agree s t)
    (calls : List (Call κ α)) :
    orderly ready t calls = orderly ready s calls ∧
      (orderly ready s calls → t.answers calls = s.answers calls) := by
  induction calls generalizing s t ready with
  | nil => exact ⟨rfl, fun _ => rfl⟩
  | cons call calls ih =>
    cases call with
    | status =>
      have hstatus : t.status = s.status := h.survey.status_eq.symm
      have hnext := ih h.survey.source (s.status = .ready) fun hs =>
        h.agree (of_decide_eq_true hs)
      rw [orderly, orderly, hstatus]
      refine ⟨hnext.1, fun hcalls => ?_⟩
      have hanswers := hnext.2 hcalls
      rw [answers, answers] at hanswers ⊢
      simp only [replies, perform, List.map_cons, hstatus] at hanswers ⊢
      exact congrArg _ hanswers
    | next =>
      cases ready with
      | false => exact ⟨rfl, fun hcalls => absurd hcalls Bool.false_ne_true⟩
      | true =>
        obtain ⟨g, g', x, p, q, hs, ht, hrest⟩ := hready rfl
        have hnext := ih hrest false fun hready => absurd hready Bool.false_ne_true
        simp only [orderly, perform, hs.take, ht.take, Bool.true_and]
        refine ⟨hnext.1, fun hcalls => ?_⟩
        have hanswers := hnext.2 hcalls
        rw [answers, answers] at hanswers ⊢
        simp only [replies, perform, hs.take, ht.take, List.map_cons]
        exact congrArg _ hanswers
    | add child => exact ⟨rfl, fun hcalls => absurd hcalls Bool.false_ne_true⟩

-- ============================================================================
-- Draining
-- ============================================================================

/-- Both sources wait alike. -/
theorem Thinned.awaited (h : Thinned s t) :
    ∃ r u, Thinned r u ∧ r.status ≠ .waiting ∧
      s.awaitReady.finding = r.survey.finding ∧ t.awaitReady.finding = u.survey.finding := by
  induction hn : s.delays using Nat.strong_induction_on generalizing s t with
  | h n ih =>
    by_cases hs : s.status = .waiting
    · have hlt := delays_poll_lt hs
      obtain ⟨s', hsf⟩ := survey_of_status_waiting hs
      obtain ⟨t', htf, hrest⟩ := (hsf ▸ h.survey).of_waiting
      have hdelays : s'.delays < n := by
        rw [← hn]
        exact (congrArg (fun f => f.source.delays) hsf).symm.trans_lt hlt
      rw [awaitReady_of_waiting hsf, awaitReady_of_waiting htf]
      exact ih s'.delays hdelays hrest rfl
    · have ht : t.status ≠ .waiting := by
        rw [status_eq, ← h.survey.status_eq]
        exact hs
      refine ⟨s, t, h, hs, ?_, ?_⟩
      · rw [awaitReady_of_not_waiting hs]
        rfl
      · rw [awaitReady_of_not_waiting ht]
        rfl

theorem Thinned.drain (h : Thinned s t) (limit : Nat) :
    (t.drain limit).elements = (s.drain limit).elements ∧
      (t.drain limit).fault = (s.drain limit).fault := by
  induction limit generalizing s t with
  | zero => exact ⟨rfl, rfl⟩
  | succ n ih =>
    obtain ⟨r, u, hru, hne, hs, ht⟩ := h.awaited
    cases hr : r.survey.finding with
    | waiting r' => exact absurd (by rw [status_eq, hr]; rfl) hne
    | exhausted r' =>
      obtain ⟨u', hu, _⟩ := (hr ▸ hru.survey).of_exhausted
      have hsdrain := drain_of_exhausted (hs.trans hr) n
      have htdrain := drain_of_exhausted (ht.trans hu) n
      exact ⟨htdrain.1.trans hsdrain.1.symm, htdrain.2.1.trans hsdrain.2.1.symm⟩
    | ready r' x p =>
      obtain ⟨u', q, hu, _, hrest⟩ := (hr ▸ hru.survey).of_ready
      obtain ⟨g, hg⟩ := poised_of_survey hr
      obtain ⟨g', hg'⟩ := poised_of_survey hu
      have hsdrain := drain_of_poised (hs.trans hr) hg n
      have htdrain := drain_of_poised (ht.trans hu) hg' n
      obtain ⟨helements, hfault⟩ := ih hrest
      rw [hsdrain.1, hsdrain.2.1, htdrain.1, htdrain.2.1, helements, hfault]
      exact ⟨rfl, rfl⟩

/-- **Simplifying keeps the behaviour.**  To every sequence of calls in which an
    element is asked for only right after a poll that answered `ready`, the
    simplified source gives the same answers as the source, which are the
    statuses and the elements; which sequences are of this kind does not change
    either.  The poll before the first request may also have been made before
    simplifying.  Draining up to any number of elements gives the same
    elements. -/
theorem simplify_behaves_alike (s : Source κ α) :
    (∀ calls, orderly false s.simplify calls = orderly false s calls) ∧
    (∀ calls, orderly false s calls → s.simplify.answers calls = s.answers calls) ∧
    (∀ r : Source κ α, r.status = .ready → (r.perform .status).source = s →
      ∀ calls, orderly true s calls → s.simplify.answers calls = s.answers calls) ∧
    ∀ limit, (s.simplify.drain limit).elements = (s.drain limit).elements ∧
      (s.simplify.drain limit).fault = (s.drain limit).fault := by
  have h := thinned_simplify s
  have hrun := h.run false fun hready => absurd hready Bool.false_ne_true
  refine ⟨fun calls => (hrun calls).1, fun calls => (hrun calls).2, fun r hr hs calls => ?_,
    h.drain⟩
  obtain ⟨t, x, rest, hf⟩ := survey_of_status_ready hr
  have hst : s = t := hs.symm.trans (congrArg Finding.source hf)
  obtain ⟨g, hg⟩ := poised_of_survey hf
  exact (h.run true (fun _ => agree_simplify (hst ▸ hg)) calls).2

open Sample in
/-- A composite that has dropped one child and remembers the other one, an
    opened suspension: the simplified source polls the other one to its end,
    where the composite drops it. -/
theorem simplify_behaves_alike_pruned :
    let s := (composite 0 [.empty 1, .suspended 2 (.ofList 3 [7])]).after [.status, .status]
    let calls : List (Call Nat Nat) := [.status, .status, .next, .status, .status]
    s = .focused 0 [] (.opened 2 (.ofList 3 [7])) [] ∧ s.simplify = .opened 2 (.ofList 3 [7]) ∧
    orderly false s calls ∧ s.simplify.answers calls = s.answers calls ∧
    s.answers calls = [.status .ready, .status .ready, .element 7, .status .exhausted,
      .status .exhausted] := by
  intro s calls
  have horderly : orderly false s calls = true := by decide
  exact ⟨rfl, rfl, horderly, (simplify_behaves_alike s).2.1 calls horderly, rfl⟩

end Source
end StructuralDiff
