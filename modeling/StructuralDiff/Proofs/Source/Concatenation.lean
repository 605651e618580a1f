/-
  StructuralDiff.Proofs.Source.Concatenation

  A source whose leaves never wait is the concatenation of its leaves.

  `Prompt` holds of such a source when it is new, and of all that a drain makes
  of it: a composite only ever remembers its first child, since all children
  before the one found ready have run out and are gone.  So a poll drops leaves
  from the front of the concatenation that hold nothing, and a request takes its
  first element (`Poised.joined_eq`).  As leaves may be endless, the result is
  on the first elements, however many.
-/

import StructuralDiff.Proofs.Source.Simplification

namespace StructuralDiff

open Stream' (Seq)

variable {κ α : Type}

-- ============================================================================
-- Leaves one behind the other
-- ============================================================================

/-- The elements of the leaves one behind the other. -/
def joined (L : List (Leaf κ α)) : Seq α := L.foldr (fun a q => a.elements.append q) .nil

theorem joined_cons (a : Leaf κ α) (L : List (Leaf κ α)) :
    joined (a :: L) = a.elements.append (joined L) := rfl

theorem joined_append (L M : List (Leaf κ α)) :
    joined (L ++ M) = (joined L).append (joined M) := by
  induction L with
  | nil => exact (Seq.nil_append _).symm
  | cons a L ih => rw [List.cons_append, joined_cons, joined_cons, ih, Seq.append_assoc]

theorem Pruned.joined_eq {L M : List (Leaf κ α)} (h : Pruned L M) : joined L = joined M := by
  induction h with
  | nil => rfl
  | keep a _ ih => rw [joined_cons, joined_cons, ih]
  | drop l _ ih => rw [joined_cons, Seq.nil_append, ih]

theorem joined_of_contain {L : List (Leaf κ α)} {xss : List (List α)} (h : Contain L xss) :
    joined L = Seq.ofList xss.flatten := by
  induction L generalizing xss with
  | nil =>
    rw [show xss = [] from List.map_eq_nil_iff.mp h.symm]
    exact Seq.ofList_nil.symm
  | cons a L ih =>
    obtain ⟨xs, yss, ha, hL, rfl⟩ := contain_cons_iff.mp h
    rw [joined_cons, ha, ih hL, List.flatten_cons, Seq.ofList_append]

theorem take_ofList (xs : List α) (n : Nat) : (Seq.ofList xs).take n = xs.take n := by
  induction xs generalizing n with
  | nil => rw [Seq.ofList_nil, Seq.take_nil, List.take_nil]
  | cons x xs ih =>
    cases n with
    | zero => rfl
    | succ n => rw [Seq.ofList_cons, Seq.take_succ_cons, ih, List.take_succ_cons]

namespace Source

-- ============================================================================
-- Sources that never wait
-- ============================================================================

/-- No leaf waits, no suspension is in the source, and a composite that remembers
    a child remembers its first. -/
inductive Prompt : Source κ α → Prop where
  | empty (l : κ) : Prompt (.empty l)
  | feed (l : κ) (f : Feed α) : Prompt (.feed l f)
  | scripted {l : κ} {steps : List (Option α)} (h : none ∉ steps) : Prompt (.scripted l steps)
  | composite {l : κ} {cs : List (Source κ α)} (h : ∀ c ∈ cs, Prompt c) : Prompt (.composite l cs)
  | focused {l : κ} {c : Source κ α} {after : List (Source κ α)} (hc : Prompt c)
      (hafter : ∀ d ∈ after, Prompt d) : Prompt (.focused l [] c after)

/-- A poll of the source, and each poll below it that it leads to, is answered
    without waiting, and the source that it leaves is prompt. -/
structure Flows (s : Source κ α) : Prop where
  answer : s.status ≠ .waiting
  source : s.survey.finding.source.Prompt
  below : ∀ l, .polled l .waiting ∉ s.survey.contacts

variable {s t c : Source κ α} {l g : κ} {x : α} {cs behind : List (Source κ α)}

theorem flows_of_survey {p : Poll κ α} (h : s.survey = p) (hanswer : p.finding.status ≠ .waiting)
    (hsource : p.finding.source.Prompt) (hbelow : ∀ l, .polled l .waiting ∉ p.contacts) :
    s.Flows := by
  subst h
  exact ⟨hanswer, hsource, hbelow⟩

theorem Flows.quiet (h : s.Flows) (l : κ) : .polled l .waiting ∉ s.poll.contacts := by
  intro hmem
  rcases List.mem_append.mp hmem with hbelow | hself
  · exact h.below l hbelow
  · have hanswer : Contact.polled l .waiting = .polled s.label s.status :=
      List.mem_singleton.mp hself
    injection hanswer with _ hstatus
    exact h.answer hstatus.symm

theorem quiet_reports (h : ∀ c ∈ cs, c.Flows) (l : κ) : .polled l .waiting ∉ reports cs := by
  intro hmem
  obtain ⟨c, hc, hlog⟩ := List.mem_flatMap.mp hmem
  exact (h c hc).quiet l hlog

/-- Of children that are not ready and do not wait nothing is kept. -/
theorem stay_eq_nil (h : ∀ c ∈ cs, c.Flows) (hcs : ∀ c ∈ cs, c.status ≠ .ready) :
    stay cs = [] := by
  induction cs with
  | nil => rfl
  | cons c cs ih =>
    obtain ⟨hc, hrest⟩ := List.forall_mem_cons.mp h
    obtain ⟨hready, hunready⟩ := List.forall_mem_cons.mp hcs
    have hkept : c.kept? = none := by
      have hwaiting := hc.answer
      rw [status_eq] at hready hwaiting
      rw [kept?]
      cases hf : c.survey.finding with
      | exhausted s => rfl
      | waiting s => exact absurd (by rw [hf]; rfl) hwaiting
      | ready s x rest => exact absurd (by rw [hf]; rfl) hready
    rw [stay_cons, hkept, ih hrest hunready]
    rfl

/-- A composite that polls all its children from the first one on. -/
theorem flows_composed (h : s.Composed l [] behind) (hprompt : ∀ c ∈ behind, c.Prompt)
    (hflows : ∀ c ∈ behind, c.Flows) : s.Flows := by
  have hpolled := polled_survey h
  generalize hsurvey : s.survey = p at hpolled
  generalize hfront : [] = front at hpolled
  cases hpolled with
  | @behind _ before after c s rest x hbefore hc =>
    subst hfront
    obtain ⟨hpassed, htail⟩ := List.forall_mem_append.mp hflows
    have hready : c.Flows := htail c List.mem_cons_self
    have hsource := hready.source
    rw [hc] at hsource
    rw [List.nil_append, stay_eq_nil hpassed hbefore] at hsurvey
    apply flows_of_survey hsurvey
    · exact Status.noConfusion
    · apply Prompt.focused hsource
      intro d hd
      exact hprompt d (List.mem_append_right _ (List.mem_cons_of_mem _ hd))
    · intro l hmem
      rcases List.mem_append.mp hmem with hlog | hlog
      · exact quiet_reports hpassed l hlog
      · exact hready.quiet l hlog
  | wrapped hbehind hbefore hc => exact absurd hfront (by simp)
  | idle hbehind hnone =>
    subst hfront
    have hfront : reports ([] : List (Source κ α)) = [] := rfl
    rw [stay_eq_nil hflows hbehind, hfront, List.append_nil (reports behind)] at hsurvey
    apply flows_of_survey hsurvey
    · exact Status.noConfusion
    · exact .composite (List.forall_mem_nil _)
    · exact quiet_reports hflows

theorem Prompt.flows (h : s.Prompt) : s.Flows := by
  induction h with
  | empty l => exact flows_of_survey rfl Status.noConfusion (.empty l) fun _ => List.not_mem_nil
  | feed l f =>
    cases hf : f.next? with
    | none =>
      have hsurvey : (Source.feed l f).survey = ⟨.exhausted (.feed l f), []⟩ := by
        rw [Source.survey, hf]
      exact flows_of_survey hsurvey Status.noConfusion (.feed l f) fun _ => List.not_mem_nil
    | some next =>
      have hsurvey : (Source.feed l f).survey =
          ⟨.ready (.feed l f) next.1 (.feed l next.2), []⟩ := by
        rw [Source.survey, hf]
      exact flows_of_survey hsurvey Status.noConfusion (.feed l f) fun _ => List.not_mem_nil
  | @scripted l steps h =>
    rcases steps with _ | ⟨_ | x, steps⟩
    · exact flows_of_survey rfl Status.noConfusion (.scripted h) fun _ => List.not_mem_nil
    · exact absurd List.mem_cons_self h
    · exact flows_of_survey rfl Status.noConfusion (.scripted h) fun _ => List.not_mem_nil
  | composite h ih => exact flows_composed (.composite _ _) h ih
  | focused hc hafter ihc ihafter =>
    exact flows_composed (.focused _ _ _ _) (List.forall_mem_cons.mpr ⟨hc, hafter⟩)
      (List.forall_mem_cons.mpr ⟨ihc, ihafter⟩)

-- ============================================================================
-- Giving elements
-- ============================================================================

/-- Giving an element takes the first one of all. -/
theorem Poised.joined_eq (h : s.Poised g x t) (hs : s.Prompt) :
    joined s.leaves = .cons x (joined t.leaves) ∧ t.Prompt := by
  induction h with
  | @feed l f rest x hf =>
    refine ⟨?_, .feed l rest⟩
    rw [leaves, leaves, joined_cons, joined_cons, Feed.elements_of_next?_some hf, Seq.cons_append]
  | scripted l x steps =>
    cases hs with
    | scripted hsteps =>
      refine ⟨?_, .scripted fun hmem => hsteps (List.mem_cons_of_mem _ hmem)⟩
      show (Seq.ofList (x :: steps.filterMap id)).append .nil = _
      rw [Seq.ofList_cons, Seq.cons_append]
      rfl
  | opened _ _ => cases hs
  | focused _ ih =>
    cases hs with
    | focused hc hafter =>
      obtain ⟨hjoined, hrest⟩ := ih hc
      refine ⟨?_, .focused hrest hafter⟩
      rw [leaves, leaves, leavesAll, List.nil_append, List.nil_append, joined_append, joined_append,
        hjoined, Seq.cons_append]

/-- What a drain of a prompt source comes to. -/
theorem Prompt.drain_eq (h : s.Prompt) (n : Nat) :
    (s.drain n).elements = (joined s.leaves).take n ∧ (s.drain n).fault = none ∧
      (∀ l, .polled l .waiting ∉ (s.drain n).contacts) ∧ (s.drain n).source.Prompt := by
  induction n generalizing s with
  | zero => exact ⟨rfl, rfl, fun _ => List.not_mem_nil, h⟩
  | succ n ih =>
    have hflows := h.flows
    have hawait : s.awaitReady = s.poll := awaitReady_of_not_waiting hflows.answer
    have hquiet := hflows.quiet
    have hsource := hflows.source
    have hpruned := (pruned_survey s).joined_eq
    have hpoll : s.poll.finding = s.survey.finding := rfl
    cases hf : s.survey.finding with
    | exhausted t =>
      rw [hf] at hsource hpruned
      have hnil : joined s.leaves = .nil := hpruned.trans (ended_of_survey hf).pruned.joined_eq
      rw [hnil, Seq.take_nil]
      simp only [drain, hawait, hpoll, hf]
      exact ⟨trivial, trivial, hquiet, hsource⟩
    | waiting t => exact absurd (by rw [status_eq, hf]; rfl) hflows.answer
    | ready t x rest =>
      rw [hf] at hsource hpruned
      obtain ⟨g, hg⟩ := poised_of_survey hf
      obtain ⟨hjoined, hrest⟩ := hg.joined_eq hsource
      obtain ⟨helements, hfault, hlog, hlast⟩ := ih hrest
      have hfirst : joined s.leaves = .cons x (joined rest.leaves) := hpruned.trans hjoined
      rw [hfirst, Seq.take_succ_cons, ← helements]
      simp only [drain, hawait, hpoll, hf, hg.take]
      refine ⟨trivial, hfault, ?_, hlast⟩
      intro l hmem
      rcases List.mem_append.mp hmem with hnow | hlater
      · rcases List.mem_append.mp hnow with hpolls | hasked
        · exact hquiet l hpolls
        · obtain ⟨m, -, hm⟩ := List.mem_map.mp hasked
          cases hm
      · exact hlog l hlater

-- ============================================================================
-- Finite leaves
-- ============================================================================

/-- A prompt source with finite leaves gives what they hold, one leaf behind the
    other, however many elements are drained. -/
theorem Prompt.drain_of_contain (h : s.Prompt) {xss : List (List α)} (hfin : Contain s.leaves xss)
    (n : Nat) : (s.drain n).elements = xss.flatten.take n ∧ (s.drain n).fault = none := by
  obtain ⟨helements, hfault, -⟩ := h.drain_eq n
  rw [joined_of_contain hfin, take_ofList] at helements
  exact ⟨helements, hfault⟩

theorem Prompt.drainAll_of_contain (h : s.Prompt) {xss : List (List α)}
    (hfin : Contain s.leaves xss) :
    s.drainAll.elements = xss.flatten ∧ s.drainAll.fault = none ∧
      ∃ n, s.Drains xss.flatten n s.drainAll.source := by
  have helements : s.drainAll.elements = xss.flatten := by
    rw [drainAll, (h.drain_of_contain hfin _).1, s.held_eq_length hfin]
    exact List.take_of_length_le (Nat.le_succ _)
  obtain ⟨hfault, -, n, hdrains, -⟩ := s.drains_drainAll hfin
  rw [helements] at hdrains
  exact ⟨helements, hfault, n, hdrains⟩

theorem Prompt.simplify (h : s.Prompt) : s.simplify.Prompt := by
  fun_induction Source.simplify s with
  | case1 l => exact .empty l
  | case2 l c =>
    cases h with
    | composite h => exact h c List.mem_cons_self
  | case3 l c =>
    cases h with
    | focused hc _ => exact hc
  | case4 l inner ih => cases h
  | case5 s => exact h

/-- Simplifying keeps what the leaves hold; a composite without children becomes
    a leaf that holds nothing. -/
theorem contain_simplify {xss : List (List α)} (hfin : Contain s.leaves xss) :
    ∃ yss, Contain s.simplify.leaves yss ∧ yss.flatten = xss.flatten := by
  fun_induction Source.simplify s with
  | case1 l =>
    have hnil : xss = [] := List.map_eq_nil_iff.mp hfin.symm
    refine ⟨[[]], ?_, by rw [hnil]; rfl⟩
    exact congrArg (fun q => [q]) Seq.ofList_nil.symm
  | case2 l c =>
    rw [leaves, leavesAll, leavesAll, List.append_nil] at hfin
    exact ⟨xss, hfin, rfl⟩
  | case3 l c =>
    rw [leaves, leavesAll, List.nil_append, List.append_nil] at hfin
    exact ⟨xss, hfin, rfl⟩
  | case4 l inner ih => exact ih hfin
  | case5 s => exact ⟨xss, hfin, rfl⟩

/-- **A source that never waits is the concatenation of its leaves.**  Take a
    tree without suspensions in which no script has a moment of waiting, newly
    built or in the course of a drain.  However many elements are drained, they
    are the first elements of its leaves from left to right, one behind the
    other; no request is refused, and neither a poll of the drain nor one after
    it, nor one that they lead to, is answered that the node is waiting. -/
theorem drain_concatenates (s : Source κ α) (h : s.Prompt) (n : Nat) :
    (s.drain n).elements = (joined s.leaves).take n ∧ (s.drain n).fault = none ∧
      ∀ l, .polled l .waiting ∉ (s.drain n).contacts ++ (s.drain n).source.poll.contacts := by
  obtain ⟨helements, hfault, hlog, hlast⟩ := h.drain_eq n
  refine ⟨helements, hfault, ?_⟩
  intro l hmem
  rcases List.mem_append.mp hmem with hdrain | hpoll
  · exact hlog l hdrain
  · exact hlast.flows.quiet l hpoll

namespace Sample

/-- An endless feed behind two finite leaves, one of them in a composite of its
    own. -/
def endless : Source Nat Nat :=
  .composite 0 [.ofList 1 [7], .composite 2 [.empty 3, .scripted 4 [some 8]],
    .feed 5 (.endless id 0), .ofList 6 [9]]

end Sample

open Sample in
theorem drain_concatenates_endless :
    endless.Prompt ∧ (endless.drain 4).elements = [7, 8, 0, 1] ∧
      ∀ l, .polled l .waiting ∉ (endless.drain 4).contacts := by
  have hinner : (Source.composite 2 [.empty 3, .scripted 4 [some 8]] : Source Nat Nat).Prompt := by
    apply Prompt.composite
    simp only [List.forall_mem_cons]
    exact ⟨.empty 3, .scripted (by decide), List.forall_mem_nil _⟩
  have hprompt : endless.Prompt := by
    apply Prompt.composite
    simp only [List.forall_mem_cons]
    exact ⟨.feed 1 _, hinner, .feed 5 _, .feed 6 _, List.forall_mem_nil _⟩
  obtain ⟨helements, -, hlog⟩ := drain_concatenates endless hprompt 4
  refine ⟨hprompt, ?_, fun l hmem => hlog l (List.mem_append_left _ hmem)⟩
  rw [helements]
  rfl

end Source
end StructuralDiff
