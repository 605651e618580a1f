/-
  StructuralDiff.Proofs.Source.Readiness

  What the answers to a poll promise.

  A source that a poll found exhausted is `Ended`: every later poll finds it
  exhausted again and changes nothing.  A source that a poll found ready is
  `Poised`: from the top down every node has opened or remembers the node below
  it, and at the bottom there is a leaf with an element at its front.  So every
  later poll finds the same element ready, and a request is met with it.
-/

import StructuralDiff.Proofs.Source.Scan
import StructuralDiff.Source.Take

namespace StructuralDiff
namespace Source

variable {κ α : Type}

-- ============================================================================
-- The two kinds of source behind an answer
-- ============================================================================

/-- Nothing is left in the source, and a poll sees that at once. -/
inductive Ended : Source κ α → Prop where
  | empty (l : κ) : Ended (.empty l)
  | feed {l : κ} {f : Feed α} (hf : f.next? = none) : Ended (.feed l f)
  | scripted (l : κ) : Ended (.scripted l [])
  | opened {l : κ} {inner : Source κ α} (h : Ended inner) : Ended (.opened l inner)
  | composite (l : κ) : Ended (.composite l [])

/-- A request reaches the leaf `g`, which gives `x`; the source `t` remains. -/
inductive Poised : Source κ α → κ → α → Source κ α → Prop where
  | feed {l : κ} {f rest : Feed α} {x : α} (hf : f.next? = some (x, rest)) :
      Poised (.feed l f) l x (.feed l rest)
  | scripted (l : κ) (x : α) (steps : List (Option α)) :
      Poised (.scripted l (some x :: steps)) l x (.scripted l steps)
  | opened {l g : κ} {s t : Source κ α} {x : α} (h : Poised s g x t) :
      Poised (.opened l s) g x (.opened l t)
  | focused {l g : κ} {s t : Source κ α} {x : α} {before after : List (Source κ α)}
      (h : Poised s g x t) :
      Poised (.focused l before s after) g x (.focused l before t after)

end Source

/-- What a finding promises of the source that the poll leaves. -/
def Finding.Sound {κ α : Type} : Finding κ α → Prop
  | .exhausted s => s.Ended
  | .waiting _ => True
  | .ready s x rest => ∃ g, s.Poised g x rest

namespace Source

variable {κ α : Type}
variable {s t : Source κ α} {g : κ} {x : α}

-- ============================================================================
-- Ended sources
-- ============================================================================

theorem Ended.survey (h : s.Ended) : s.survey.finding = .exhausted s := by
  induction h with
  | empty l => rfl
  | feed hf => simp only [Source.survey, hf]
  | scripted l => rfl
  | opened _ ih => simp only [Source.survey, Poll.reported, ih, Finding.within]
  | composite l => rfl

theorem Ended.status (h : s.Ended) : s.status = .exhausted := by
  rw [status_eq, h.survey]
  rfl

/-- A request cannot be met, and changes nothing. -/
theorem Ended.take (h : s.Ended) :
    ∃ fault, s.take.outcome = .error fault ∧ s.take.source = s := by
  induction h with
  | empty l => exact ⟨.emptySource, rfl, rfl⟩
  | feed hf => exact ⟨.feedEnded, by simp only [Source.take, hf], by simp only [Source.take, hf]⟩
  | scripted l => exact ⟨.notScripted, rfl, rfl⟩
  | opened _ ih =>
    obtain ⟨fault, hfault, hsource⟩ := ih
    refine ⟨fault, hfault, ?_⟩
    simp only [Source.take, Take.through, hsource]
  | composite l => exact ⟨.noReadyChild, rfl, rfl⟩

-- ============================================================================
-- Poised sources
-- ============================================================================

theorem Poised.survey (h : s.Poised g x t) : s.survey.finding = .ready s x t := by
  induction h with
  | feed hf => simp only [Source.survey, hf]
  | scripted l x steps => rfl
  | opened _ ih => simp only [Source.survey, Poll.reported, ih, Finding.within]
  | focused _ ih => simp only [Source.survey, Poll.reported, ih, focusedOn]

theorem Poised.status (h : s.Poised g x t) : s.status = .ready := by
  rw [status_eq, h.survey]
  rfl

theorem Poised.take (h : s.Poised g x t) :
    s.take = ⟨.ok x, t, s.requestPath.map .asked⟩ := by
  induction h with
  | feed hf => simp only [Source.take, hf, requestPath, label, List.map]
  | scripted l x steps => rfl
  | opened _ ih => simp only [Source.take, ih, Take.through, requestPath, List.map]
  | focused _ ih => simp only [Source.take, ih, Take.through, requestPath, List.map]

/-- The request ends at the leaf that gives the element. -/
theorem Poised.getLast?_requestPath (h : s.Poised g x t) : s.requestPath.getLast? = some g := by
  induction h with
  | feed hf => rfl
  | scripted l x steps => rfl
  | opened _ ih => simp [requestPath, List.getLast?_cons, ih]
  | focused _ ih => simp [requestPath, List.getLast?_cons, ih]

-- ============================================================================
-- Every finding keeps its promise
-- ============================================================================

theorem sound_survey (s : Source κ α) : s.survey.finding.Sound := by
  induction s using treeInduction with
  | empty l => exact .empty l
  | feed l f =>
    rw [survey]
    cases hf : f.next? with
    | none => exact .feed hf
    | some next => exact ⟨l, .feed hf⟩
  | scripted l steps =>
    rcases steps with _ | ⟨_ | x, steps⟩
    · exact .scripted l
    · trivial
    · exact ⟨l, .scripted l x steps⟩
  | suspended l inner _ => trivial
  | opened l inner ih =>
    simp only [survey, Poll.reported]
    cases hf : inner.survey.finding with
    | exhausted s =>
      rw [hf] at ih
      exact .opened ih
    | waiting s => trivial
    | ready s x rest =>
      rw [hf] at ih
      obtain ⟨g, hg⟩ := ih
      exact ⟨g, .opened hg⟩
  | composed s l front behind h ihfront ihbehind =>
    have hpolled := polled_survey h
    generalize s.survey = p at hpolled
    cases hpolled with
    | behind hbefore hc =>
      have hsound := ihbehind _ (List.mem_append_right _ List.mem_cons_self)
      rw [hc] at hsound
      obtain ⟨g, hg⟩ := hsound
      exact ⟨g, .focused hg⟩
    | wrapped hbehind hbefore hc =>
      have hsound := ihfront _ (List.mem_append_right _ List.mem_cons_self)
      rw [hc] at hsound
      obtain ⟨g, hg⟩ := hsound
      exact ⟨g, .focused hg⟩
    | idle hbehind hfront =>
      cases stay front ++ stay behind with
      | nil => exact .composite l
      | cons c cs => trivial

/-- A composite that was found ready remembers a child. -/
theorem focused_of_survey {l : κ} {front behind : List (Source κ α)} {rest : Source κ α}
    (h : s.Composed l front behind) (hf : s.survey.finding = .ready t x rest) :
    ∃ before c after, t = .focused l before c after := by
  have hpolled := polled_survey h
  generalize s.survey = p at hpolled hf
  cases hpolled with
  | behind hbefore hc =>
    cases hf
    exact ⟨_, _, _, rfl⟩
  | wrapped hbehind hbefore hc =>
    cases hf
    exact ⟨_, _, _, rfl⟩
  | idle hbehind hfront =>
    cases hcs : stay front ++ stay behind <;> rw [hcs] at hf <;> cases hf

theorem ended_of_survey (h : s.survey.finding = .exhausted t) : t.Ended := by
  have hsound := sound_survey s
  rwa [h] at hsound

theorem poised_of_survey {rest : Source κ α} (h : s.survey.finding = .ready t x rest) :
    ∃ g, t.Poised g x rest := by
  have hsound := sound_survey s
  rwa [h] at hsound

/-- A request right after a poll that answered `ready` is met with the element
    that the poll found. -/
theorem take_after_poll {rest : Source κ α} (h : s.survey.finding = .ready t x rest) :
    s.poll.finding.source.take = ⟨.ok x, rest, t.requestPath.map .asked⟩ := by
  obtain ⟨g, hg⟩ := poised_of_survey h
  have hsource : s.poll.finding.source = t := congrArg Finding.source h
  rw [hsource]
  exact hg.take

end Source
end StructuralDiff
