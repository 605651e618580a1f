/-
  StructuralDiff.Proofs.Source.Stability

  The answer that an element is ready stays true until the element is taken.

  A poll that finds a source ready leaves it `Poised`: each node on the way to
  the element has opened or remembers the next one.  The polls after that go
  down this chain, `requestPath`, and to no other node.  They change nothing, so
  that any number of them may stand between the answer and the request.
-/

import StructuralDiff.Proofs.Source.Sessions

namespace StructuralDiff
namespace Source

variable {κ α : Type} {s t : Source κ α} {g : κ} {x : α}

/-- The log of a poll that finds all nodes of a chain ready: the one at its end
    answers first. -/
def readyLog (chain : List κ) : List (Contact κ) := chain.reverse.map (.polled · .ready)

theorem readyLog_cons (l : κ) (chain : List κ) :
    readyLog (l :: chain) = readyLog chain ++ [.polled l .ready] := by
  rw [readyLog, readyLog, List.reverse_cons, List.map_append, List.map_singleton]

/-- A poll of a poised source reaches the nodes on the way to its element. -/
theorem Poised.poll_eq (h : s.Poised g x t) :
    s.poll = ⟨.ready s x t, readyLog s.requestPath⟩ := by
  induction h with
  | feed hf =>
    rw [poll, Source.survey, hf]
    rfl
  | scripted l x steps => rfl
  | @opened l g s t x _ ih =>
    have hinner : s.survey.reported s.label = ⟨.ready s x t, readyLog s.requestPath⟩ := ih
    rw [poll, Source.survey, hinner, requestPath, readyLog_cons]
    rfl
  | @focused l g s t x before after _ ih =>
    have hactive : s.survey.reported s.label = ⟨.ready s x t, readyLog s.requestPath⟩ := ih
    rw [poll, Source.survey, hactive, requestPath, readyLog_cons]
    rfl

theorem Poised.perform_status (h : s.Poised g x t) :
    s.perform .status = ⟨.status .ready, s, readyLog s.requestPath⟩ := by
  rw [Source.perform, h.status, h.poll_eq]
  rfl

theorem Poised.perform_next (h : s.Poised g x t) :
    s.perform .next = ⟨.element x, t, s.requestPath.map .asked⟩ := by
  rw [Source.perform, h.take]

/-- Any number of polls of a poised source. -/
theorem Poised.polled_again (h : s.Poised g x t) (n : Nat) :
    s.after (List.replicate n .status) = s ∧
      s.replies (List.replicate n .status) =
        List.replicate n ⟨.status .ready, s, readyLog s.requestPath⟩ := by
  induction n with
  | zero => exact ⟨rfl, rfl⟩
  | succ n ih =>
    obtain ⟨hafter, hreplies⟩ := ih
    constructor
    · rw [List.replicate_succ, after, h.perform_status]
      exact hafter
    · rw [List.replicate_succ, List.replicate_succ, replies, h.perform_status, hreplies]

/-- **The answer `ready` is stable and true.**  After a poll that answered `ready`
    any number of further polls answer `ready` too, change no node of the tree,
    and reach only the nodes on the way to the element, each once.  A request
    after them is met, and with the element that a request in their place would
    have been given. -/
theorem ready_until_taken (s : Source κ α) (hs : s.status = .ready) (n : Nat) :
    let now := (s.perform .status).source
    let polls := List.replicate n Call.status
    now.replies polls =
        List.replicate n ⟨.status .ready, now, now.requestPath.reverse.map (.polled · .ready)⟩ ∧
      now.after polls = now ∧
      ∃ x, (now.perform .next).answer = .element x ∧
        ((now.after polls).perform .next).answer = .element x := by
  intro now polls
  obtain ⟨r, x, rest, hf⟩ := survey_of_status_ready hs
  have hnow : now = r := congrArg Finding.source hf
  obtain ⟨g, hg⟩ := poised_of_survey hf
  rw [← hnow] at hg
  obtain ⟨hafter, hreplies⟩ := hg.polled_again n
  have hnext : (now.perform .next).answer = .element x := congrArg Reply.answer hg.perform_next
  refine ⟨hreplies, hafter, x, hnext, ?_⟩
  rw [show now.after polls = now from hafter]
  exact hnext

namespace Sample

/-- A script that waits for long beside a suspension with a composite in it,
    after the poll that opened the suspension. -/
def deep : Source Nat Nat :=
  (composite 0 [.scripted 1 [none, none, none, some 9],
    .suspended 2 (.composite 3 [.empty 4, .ofList 5 [7, 8]])]).after [.status]

end Sample

open Sample in
/-- The poll that finds the element ready drops the empty source; the polls after
    it do not reach the script, which is still waiting. -/
theorem ready_until_taken_deep :
    deep.status = .ready ∧
      ((deep.perform .status).source.replies [.status, .status]).map Reply.contacts =
        List.replicate 2 [.polled 5 .ready, .polled 3 .ready, .polled 2 .ready, .polled 0 .ready] ∧
      (((deep.perform .status).source.after [.status, .status]).perform .next).answer =
        .element 7 := by
  have hready : deep.status = .ready := rfl
  obtain ⟨hreplies, hafter, x, hnow, hlater⟩ := ready_until_taken deep hready 2
  have hx : x = 7 := by
    cases hnow
    rfl
  refine ⟨hready, congrArg (List.map Reply.contacts) hreplies, ?_⟩
  rw [← hx]
  exact hlater

end Source
end StructuralDiff
