/-
  StructuralDiff.Proofs.Source.Exhaustion

  A child that a composite has found exhausted is left alone.

  The owner of a source makes calls on it and drains it, in any order.  Every
  child of a composite is in the tree from the start, or comes into it with a
  child that is added later, so that the sites of both together are the sites
  of the whole history.  The history is traced on them action by action
  (`traced_log`), and what the trace says of one child is the main result,
  `exhausted_child_left_alone`.
-/

import StructuralDiff.Proofs.Source.Sessions
import StructuralDiff.Proofs.Source.Tracing

namespace StructuralDiff

variable {κ α : Type}

-- ============================================================================
-- Histories
-- ============================================================================

/-- What the owner of a source may do with it. -/
inductive Action (κ α : Type) where
  | call (call : Call κ α)
  /-- Draw up to `limit` elements. -/
  | drain (limit : Nat)

namespace Source

/-- The source that an action leaves, and the calls that were made on its
    nodes. -/
def act (s : Source κ α) : Action κ α → Source κ α × List (Contact κ)
  | .call call => ((s.perform call).source, (s.perform call).contacts)
  | .drain limit => ((s.drain limit).source, (s.drain limit).contacts)

/-- The child that an action brings into the tree. -/
def joining (s : Source κ α) : Action κ α → List (Source κ α)
  | .call .status => []
  | .call .next => []
  | .call (.add child) => if (s.addChild? child).isSome then [child] else []
  | .drain _ => []

/-- All calls made on nodes of the tree during some actions. -/
def log (s : Source κ α) : List (Action κ α) → List (Contact κ)
  | [] => []
  | action :: actions => (s.act action).2 ++ (s.act action).1.log actions

/-- The children that come into the tree during some actions. -/
def joined (s : Source κ α) : List (Action κ α) → List (Source κ α)
  | [] => []
  | action :: actions => s.joining action ++ (s.act action).1.joined actions

variable {s t c child : Source κ α}

-- ============================================================================
-- One action
-- ============================================================================

theorem sites_of_addChild? (h : s.addChild? child = some t) :
    t.sites = s.sites ++ beneathAll [child] := by
  obtain ⟨l, front, behind, hs, ht⟩ := composed_of_addChild? h
  rw [sites, sites, hs.label_eq, ht.label_eq, hs.beneath_eq, ht.beneath_eq, List.cons_append,
    ← beneathAll_append, List.append_assoc]

theorem traced_add (s child : Source κ α) :
    Traced (s.sites ++ beneathAll (s.joining (.call (.add child))))
      (s.act (.call (.add child))).2 (s.act (.call (.add child))).1.sites := by
  rw [act, joining, perform]
  cases hadd : s.addChild? child with
  | some t =>
    rw [sites_of_addChild? hadd]
    exact .nil _
  | none =>
    show Traced (s.sites ++ []) [] s.sites
    rw [List.append_nil]
    exact .nil _

theorem traced_next (hs : s.labels.Nodup) :
    Traced s.sites (s.perform .next).contacts (s.perform .next).source.sites := by
  have htake := traced_take hs
  rw [perform]
  generalize s.take = t at htake
  obtain ⟨x | why, t, contacts⟩ := t
  · exact htake
  · exact htake

theorem traced_act (action : Action κ α) (hs : s.labels.Nodup) :
    Traced (s.sites ++ beneathAll (s.joining action)) (s.act action).2 (s.act action).1.sites := by
  rcases action with (_ | _ | child) | limit
  · show Traced (s.sites ++ []) s.poll.contacts s.poll.finding.source.sites
    rw [List.append_nil]
    exact traced_poll hs
  · show Traced (s.sites ++ []) (s.perform .next).contacts (s.perform .next).source.sites
    rw [List.append_nil]
    exact traced_next hs
  · exact traced_add s child
  · show Traced (s.sites ++ []) (s.drain limit).contacts (s.drain limit).source.sites
    rw [List.append_nil]
    exact traced_drain limit hs

-- ============================================================================
-- All actions
-- ============================================================================

/-- The sites that are in the tree from the start, and those that come into it
    during some actions. -/
def allSites (s : Source κ α) (actions : List (Action κ α)) : List (Site κ) :=
  s.sites ++ beneathAll (s.joined actions)

theorem allSites_cons (s : Source κ α) (action : Action κ α) (actions : List (Action κ α)) :
    s.allSites (action :: actions) =
      s.sites ++ beneathAll (s.joining action) ++ beneathAll ((s.act action).1.joined actions) := by
  rw [allSites, joined, beneathAll_append, List.append_assoc]

theorem map_label_allSites (s : Source κ α) (actions : List (Action κ α)) :
    (s.allSites actions).map Site.label = s.labels ++ (s.joined actions).flatMap labels := by
  rw [allSites, List.map_append, map_label_beneathAll]
  rfl

theorem traced_log (s : Source κ α) (actions : List (Action κ α))
    (hlabels : ((s.allSites actions).map Site.label).Nodup) :
    ∃ B, Traced (s.allSites actions) (s.log actions) B := by
  induction actions generalizing s with
  | nil => exact ⟨_, .nil _⟩
  | cons action actions ih =>
    have hs : s.labels.Nodup := by
      rw [map_label_allSites] at hlabels
      exact hlabels.of_append_left
    rw [allSites_cons] at hlabels ⊢
    -- What comes into the tree later is not called by this action.
    have hact := (traced_act action hs).append_right (enclosed_beneathAll _) hlabels
    obtain ⟨B, hlog⟩ := ih (s.act action).1 (hlabels.sublist hact.labels)
    exact ⟨B, hact.trans hlabels hlog⟩

/-- The nodes of a child of a composite lie in it. -/
theorem exists_site_allSites {actions : List (Action κ α)}
    (hc : ChildIn c s ∨ ∃ d ∈ s.joined actions, c = d ∨ ChildIn c d) {m : κ} (hm : m ∈ c.labels) :
    ∃ a ∈ s.allSites actions, a.label = m ∧ c.label ∈ a.within := by
  rcases hc with hc | ⟨d, hd, rfl | hc⟩
  · obtain ⟨a, ha, hsite⟩ := exists_site_of_childIn hc hm
    exact ⟨a, List.mem_append_left _ (List.mem_cons_of_mem _ ha), hsite⟩
  · obtain ⟨a, ha, hsite⟩ := exists_site_of_mem hd hm
    exact ⟨a, List.mem_append_right _ ha, hsite⟩
  · obtain ⟨a, ha, hsite⟩ := exists_site_beneathAll hd (exists_site_of_childIn hc hm)
    exact ⟨a, List.mem_append_right _ ha, hsite⟩

/-- **An exhausted child is left alone.**  Let all nodes that are in the tree at
    some time have labels of their own, and let `c` be a child of a composite,
    at any depth: one that is in the tree from the start, or that is added to it
    by the actions, or that comes with one that is added.  Whatever the owner
    does, polls, badly timed requests and drains included, `c` answers its
    composite at most once that it is exhausted, and after this answer neither
    `c` nor any node below it is called. -/
theorem exhausted_child_left_alone [DecidableEq κ] (s c : Source κ α)
    (actions : List (Action κ α))
    (hlabels : (s.labels ++ (s.joined actions).flatMap labels).Nodup)
    (hc : ChildIn c s ∨ ∃ d ∈ s.joined actions, c = d ∨ ChildIn c d) :
    (s.log actions).count (.polled c.label .exhausted) ≤ 1 ∧
      ∀ earlier later, s.log actions = earlier ++ .polled c.label .exhausted :: later →
        ∀ k ∈ later, k.label ∉ c.labels := by
  obtain ⟨B, htraced⟩ := traced_log s actions (by rwa [map_label_allSites])
  have hlater : ∀ earlier later, s.log actions = earlier ++ .polled c.label .exhausted :: later →
      ∀ k ∈ later, k.label ∉ c.labels := by
    intro earlier later hlog k hk hmem
    have hquiet := htraced.quiet
    rw [hlog] at hquiet
    obtain ⟨hafter, -⟩ := List.pairwise_cons.mp (List.pairwise_append.mp hquiet).2.1
    obtain ⟨a, ha, hlabel, hwithin⟩ := exists_site_allSites hc hmem
    exact hafter k hk a ha c.label hwithin rfl hlabel.symm
  refine ⟨?_, hlater⟩
  by_cases hmem : .polled c.label .exhausted ∈ s.log actions
  · obtain ⟨earlier, later, hlog, hfirst⟩ := List.eq_append_cons_of_mem hmem
    have hlast : .polled c.label .exhausted ∉ later :=
      fun hagain => hlater earlier later hlog _ hagain List.mem_cons_self
    rw [hlog, List.count_append, List.count_cons_self, List.count_eq_zero.mpr hfirst,
      List.count_eq_zero.mpr hlast]
  · rw [List.count_eq_zero.mpr hmem]
    exact Nat.zero_le 1

namespace Sample

/-- A suspension that runs out after one element, beside a feed that is empty. -/
def waning : Source Nat Nat :=
  .composite 0 [.suspended 1 (.composite 2 [.empty 3, .ofList 4 [7]]), .ofList 5 []]

/-- A request made too early, a child added, the element drawn, and polls and
    draws after that. -/
def untimely : List (Action Nat Nat) :=
  [.call .next, .call (.add (.composite 6 [.empty 7])), .call .status, .call .next, .call .status,
    .drain 3]

end Sample

open Sample in
/-- The suspension answers that it is exhausted, and from then on no call goes
    to it or into it. -/
theorem exhausted_child_left_alone_waning :
    .polled 1 .exhausted ∈ waning.log untimely ∧
      (waning.log untimely).count (.polled 1 .exhausted) ≤ 1 ∧
      ∀ earlier later, waning.log untimely = earlier ++ .polled 1 .exhausted :: later →
        ∀ k ∈ later, k.label ∉ [1, 2, 3, 4] := by
  have hlabels : (waning.labels ++ (waning.joined untimely).flatMap labels).Nodup := by decide
  have hc : ChildIn (.suspended 1 (.composite 2 [.empty 3, .ofList 4 [7]])) waning :=
    .child (.composite 0 _) List.mem_cons_self
  have hanswer : .polled 1 .exhausted ∈ waning.log untimely := by decide
  exact ⟨hanswer, exhausted_child_left_alone waning _ untimely hlabels (.inl hc)⟩

end Source
end StructuralDiff
