/-
  StructuralDiff.Proofs.Source.Remembered

  Which requests are met.

  A composite that remembers a child passes a request on to it without a poll.
  So a request does not ask whether some child is ready; it goes down the chain
  of remembered children and is decided by the source at its end (`current`).
  That source may have run out with the request before, while a poll would find
  another child ready.
-/

import StructuralDiff.Proofs.Source.Sessions

namespace StructuralDiff
namespace Source

variable {κ α : Type}

/-- The source at which a request ends: an opened suspension passes it on to
    what is inside, and a composite to the child that it remembers. -/
def current : Source κ α → Source κ α
  | .opened _ inner => inner.current
  | .focused _ _ active _ => active.current
  | s => s

theorem ok_iff_of_met {o : Except Fault α} {x : α} {found : Status} (ho : o = .ok x)
    (hfound : found = .ready) : (∃ y, o = .ok y) ↔ found = .ready :=
  ⟨fun _ => hfound, fun _ => ⟨x, ho⟩⟩

theorem ok_iff_of_refused {o : Except Fault α} {why : Fault} {found : Status}
    (ho : o = .error why) (hfound : found ≠ .ready) : (∃ y, o = .ok y) ↔ found = .ready := by
  refine ⟨?_, fun h => absurd h hfound⟩
  rintro ⟨y, hy⟩
  rw [ho] at hy
  cases hy

/-- A request is met exactly if the source at which it ends is ready. -/
theorem take_ok_iff (s : Source κ α) :
    (∃ x, s.take.outcome = .ok x) ↔ s.current.status = .ready := by
  induction s using treeInduction with
  | empty l =>
    exact ok_iff_of_refused rfl (by simp [current, status_eq, survey, Finding.status])
  | feed l f =>
    show _ ↔ (feed l f).status = .ready
    rw [take, status_eq, survey]
    cases f.next? with
    | none => exact ok_iff_of_refused rfl (by simp [Finding.status])
    | some next => exact ok_iff_of_met rfl rfl
  | scripted l steps =>
    rcases steps with _ | ⟨_ | x, steps⟩
    · exact ok_iff_of_refused rfl (by simp [current, status_eq, survey, Finding.status])
    · exact ok_iff_of_refused rfl (by simp [current, status_eq, survey, Finding.status])
    · exact ok_iff_of_met rfl rfl
  | suspended l inner _ =>
    exact ok_iff_of_refused rfl (by simp [current, status_eq, survey, Finding.status])
  | opened l inner ih => exact ih
  | composed s l front behind h ihfront ihbehind =>
    cases h with
    | composite l cs =>
      simp only [take, current, status_eq]
      cases (composite l behind).survey.finding with
      | exhausted t => exact ok_iff_of_refused rfl (by simp [Finding.status])
      | waiting t => exact ok_iff_of_refused rfl (by simp [Finding.status])
      | ready t x rest => exact ok_iff_of_met rfl rfl
    | focused l before c after => exact ihbehind c List.mem_cons_self

/-- If the source at which a request ends is ready, a poll finds the whole
    source ready. -/
theorem status_of_current_ready {s : Source κ α} (h : s.current.status = .ready) :
    s.status = .ready := by
  induction s using treeInduction with
  | empty l => exact h
  | feed l f => exact h
  | scripted l steps => exact h
  | suspended l inner _ => exact h
  | opened l inner ih =>
    obtain ⟨t, x, rest, hf⟩ := survey_of_status_ready (ih h)
    simp only [status_eq, survey, Poll.reported, hf, Finding.within, Finding.status]
  | composed s l front behind hs ihfront ihbehind =>
    cases hs with
    | composite l cs => exact h
    | focused l before c after =>
      obtain ⟨t, x, rest, hf⟩ := survey_of_status_ready (ihbehind c List.mem_cons_self h)
      simp only [status_eq, survey, Poll.reported, hf, focusedOn, Finding.status]

/-- **When a request is met.**  A request is met exactly if the source at the end
    of the chain of remembered children is ready, and then a poll would answer
    `ready` too.  So a source that a poll would find ready refuses a request
    exactly if that source is not ready.  Right after a poll that answered
    `ready` a request is met. -/
theorem request_met_iff (s : Source κ α) :
    ((∃ x, s.take.outcome = .ok x) ↔ s.current.status = .ready) ∧
    (s.current.status = .ready → s.status = .ready) ∧
    (s.status = .ready → ∃ x, s.poll.finding.source.take.outcome = .ok x) := by
  refine ⟨take_ok_iff s, status_of_current_ready, fun hs => ?_⟩
  obtain ⟨t, x, rest, hf⟩ := survey_of_status_ready hs
  exact ⟨x, by rw [take_after_poll hf]⟩

/-- Taking the only element of the first feed leaves the composite remembering
    that feed, and the next request is refused although the second feed is
    ready. -/
theorem request_refused_beside_ready_child :
    ¬ ∀ (cs : List (Source Nat String)) (calls : List (Call Nat String)),
      ((composite 0 cs).after calls).status = .ready →
        ∃ x, ((composite 0 cs).after calls).take.outcome = .ok x := by
  intro h
  have hstatus : ((composite 0 [.ofList 1 ["a"], .ofList 2 ["b"]]).after
      [.status, .next]).status = .ready := rfl
  have hrefused : ((composite 0 [.ofList 1 ["a"], .ofList 2 ["b"]]).after
      [.status, .next]).take.outcome = .error .feedEnded := rfl
  obtain ⟨x, hx⟩ := h _ _ hstatus
  rw [hrefused] at hx
  cases hx

end Source
end StructuralDiff
