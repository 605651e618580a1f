/-
  StructuralDiff.Proofs.Source.Sessions

  Sequences of calls on a source, and what no sequence of calls can do: lose,
  repeat or reorder the elements of a leaf.

  The owner of a source may poll it, ask it for an element, well timed or not,
  and add children to it if it is a composite.  Each call is answered by a
  `Reply`.  The log of a reply names the leaf that gave an element, so that the
  elements given can be counted leaf by leaf (`yields`).  The invariant is that
  what a leaf has given, followed by what it holds, is what it held at first
  (`holding_stock`).
-/

import StructuralDiff.Proofs.Source.Leaves

namespace StructuralDiff

open Stream' (Seq)

variable {κ α : Type}

-- ============================================================================
-- Calls and replies
-- ============================================================================

/-- A call of the owner of a source. -/
inductive Call (κ α : Type) where
  /-- Poll the source. -/
  | status
  /-- Ask for an element. -/
  | next
  /-- Add a child to a composite. -/
  | add (child : Source κ α)

/-- What a call is answered with. -/
inductive Answer (α : Type) where
  | status (found : Status)
  | element (x : α)
  | fault (why : Fault)
  | added
  /-- The source is no composite, so that nothing can be added to it. -/
  | declined

/-- The answer to a call, the source that is left, and the calls that were made
    on its nodes. -/
structure Reply (κ α : Type) where
  answer : Answer α
  source : Source κ α
  contacts : List (Contact κ)

/-- The element that was given, and the leaf that gave it: the last node that
    was asked. -/
def Reply.given? (r : Reply κ α) : Option (κ × α) :=
  match r.answer, r.contacts.getLast? with
  | .element x, some (.asked g) => some (g, x)
  | _, _ => none

/-- The elements that the leaf called `l` has given, in order. -/
def yields [DecidableEq κ] (l : κ) (rs : List (Reply κ α)) : List α :=
  rs.flatMap fun r => takenFrom l r.given?

theorem yields_cons [DecidableEq κ] (l : κ) (r : Reply κ α) (rs : List (Reply κ α)) :
    yields l (r :: rs) = takenFrom l r.given? ++ yields l rs := rfl

namespace Source

/-- The reply to a call. -/
def perform (s : Source κ α) : Call κ α → Reply κ α
  | .status => ⟨.status s.status, s.poll.finding.source, s.poll.contacts⟩
  | .next =>
    match s.take with
    | ⟨.ok x, t, contacts⟩ => ⟨.element x, t, contacts⟩
    | ⟨.error why, t, contacts⟩ => ⟨.fault why, t, contacts⟩
  | .add child =>
    match s.addChild? child with
    | some t => ⟨.added, t, []⟩
    | none => ⟨.declined, s, []⟩

/-- The replies to calls made one after the other. -/
def replies (s : Source κ α) : List (Call κ α) → List (Reply κ α)
  | [] => []
  | call :: calls => s.perform call :: (s.perform call).source.replies calls

/-- The source as a sequence of calls leaves it. -/
def after (s : Source κ α) : List (Call κ α) → Source κ α
  | [] => s
  | call :: calls => (s.perform call).source.after calls

/-- The leaves that a call brings into the tree. -/
def offered (s : Source κ α) : Call κ α → List (Leaf κ α)
  | .status => []
  | .next => []
  | .add child =>
    match s.addChild? child with
    | some _ => child.leaves
    | none => []

/-- All leaves that are part of the tree at some time during the calls, with
    what they hold when they enter it: those of the source, and those of the
    children added to it. -/
def stock (s : Source κ α) (calls : List (Call κ α)) : List (Leaf κ α) :=
  s.leaves ++ brought s calls
where
  brought (s : Source κ α) : List (Call κ α) → List (Leaf κ α)
    | [] => []
    | call :: calls => s.offered call ++ brought (s.perform call).source calls

-- ============================================================================
-- One call
-- ============================================================================

theorem leaves_of_addChild? {s t child : Source κ α} (h : s.addChild? child = some t) :
    t.leaves = s.leaves ++ child.leaves := by
  obtain ⟨l, front, behind, hs, ht⟩ := composed_of_addChild? h
  rw [hs.leaves_eq, ht.leaves_eq, leavesAll_append, leavesAll, leavesAll, List.append_nil,
    List.append_assoc]

/-- A request is met by a leaf that is named in its log, or it is refused and
    names none. -/
theorem perform_next (s : Source κ α) :
    (∃ g x, (s.perform .next).answer = .element x ∧ (s.perform .next).given? = some (g, x)) ∨
      ∃ why, (s.perform .next).answer = .fault why ∧ (s.perform .next).given? = none := by
  have htaken := taken_take s
  simp only [perform]
  generalize s.take = t at htaken
  cases htaken with
  | @met _ t g x contacts h hr hlast =>
    exact .inl ⟨g, x, rfl, by simp only [Reply.given?, hlast]⟩
  | refused h => exact .inr ⟨_, rfl, rfl⟩

theorem leaves_perform_add (s child : Source κ α) :
    (s.perform (.add child)).source.leaves = s.leaves ++ s.offered (.add child) := by
  rw [offered, perform]
  cases hadd : s.addChild? child with
  | some t => exact leaves_of_addChild? hadd
  | none => exact (List.append_nil _).symm

theorem given?_perform_add (s child : Source κ α) :
    (s.perform (.add child)).given? = none := by
  rw [perform]
  cases s.addChild? child <;> rfl

theorem moves_status (s : Source κ α) :
    Moves s.leaves none (s.perform .status).source.leaves :=
  .keep (pruned_survey s)

theorem moves_next (s : Source κ α) :
    Moves s.leaves (s.perform .next).given? (s.perform .next).source.leaves := by
  have htaken := taken_take s
  simp only [perform]
  generalize s.take = t at htaken
  cases htaken with
  | met h hr hlast =>
    simp only [Reply.given?, hlast]
    exact .give h hr.gives
  | refused h => exact .keep h

theorem moves_perform (s : Source κ α) (call : Call κ α) :
    Moves (s.leaves ++ s.offered call) (s.perform call).given? (s.perform call).source.leaves := by
  cases call with
  | status => exact (List.append_nil s.leaves).symm ▸ moves_status s
  | next => exact (List.append_nil s.leaves).symm ▸ moves_next s
  | add child =>
    rw [leaves_perform_add, given?_perform_add]
    exact .keep (.refl _)

-- ============================================================================
-- All calls
-- ============================================================================

theorem stock_cons (s : Source κ α) (call : Call κ α) (calls : List (Call κ α)) :
    s.stock (call :: calls) =
      s.leaves ++ s.offered call ++ stock.brought (s.perform call).source calls := by
  rw [stock, stock.brought, List.append_assoc]

theorem labels_after (s : Source κ α) (calls : List (Call κ α)) :
    ((s.after calls).leaves.map Leaf.label).Sublist ((s.stock calls).map Leaf.label) := by
  induction calls generalizing s with
  | nil => exact (List.sublist_append_left _ _).map Leaf.label
  | cons call calls ih =>
    have hmoves := (moves_perform s call).append_right
      (stock.brought (s.perform call).source calls)
    rw [after, stock_cons]
    exact (ih (s.perform call).source).trans hmoves.labels

variable [DecidableEq κ]

/-- What a leaf held at first is what it gave during the calls, followed by what
    it holds after them. -/
theorem holding_stock (s : Source κ α) (calls : List (Call κ α))
    (hlabels : ((s.stock calls).map Leaf.label).Nodup) (l : κ) :
    holding (s.stock calls) l =
      (Seq.ofList (yields l (s.replies calls))).append (holding (s.after calls).leaves l) := by
  induction calls generalizing s with
  | nil =>
    rw [stock, stock.brought, List.append_nil, replies, after, yields, List.flatMap_nil,
      Seq.ofList_nil, Seq.nil_append]
  | cons call calls ih =>
    rw [stock_cons] at hlabels ⊢
    have hmoves := (moves_perform s call).append_right
      (stock.brought (s.perform call).source calls)
    have hrest := ih (s.perform call).source (hlabels.sublist hmoves.labels)
    rw [hmoves.holding_eq hlabels l]
    rw [stock] at hrest
    rw [hrest, replies, after, yields_cons, Seq.ofList_append, Seq.append_assoc]

/-- **No element is lost, repeated or reordered within its leaf.**  Whatever
    calls are made, well timed or not, what each leaf has given so far,
    followed by what it holds now, is all that it held at first; a leaf that was
    dropped holds nothing.  At every moment a poll and an added child leave what
    the leaves hold as it is, and a request takes the front element of one leaf
    or, if it is refused, nothing. -/
theorem calls_conserve_elements (s : Source κ α) (calls : List (Call κ α))
    (hlabels : ((s.stock calls).map Leaf.label).Nodup) :
    let now := s.after calls
    let asked := now.perform .next
    (∀ l, holding (s.stock calls) l =
      (Seq.ofList (yields l (s.replies calls))).append (holding now.leaves l)) ∧
    (∀ l, holding (now.perform .status).source.leaves l = holding now.leaves l) ∧
    (∀ child, ∀ l ∈ now.leaves.map Leaf.label,
      holding (now.perform (.add child)).source.leaves l = holding now.leaves l) ∧
    ((∃ g x, asked.answer = .element x ∧ asked.given? = some (g, x) ∧
        holding now.leaves g = .cons x (holding asked.source.leaves g) ∧
        ∀ l, l ≠ g → holding asked.source.leaves l = holding now.leaves l) ∨
      ∃ why, asked.answer = .fault why ∧
        ∀ l, holding asked.source.leaves l = holding now.leaves l) := by
  intro now asked
  have hnow : (now.leaves.map Leaf.label).Nodup := hlabels.sublist (labels_after s calls)
  have hnext := moves_next now
  refine ⟨holding_stock s calls hlabels, fun l => ?_, fun child l hl => ?_, ?_⟩
  · rw [(moves_status now).holding_eq hnow l, takenFrom, Seq.ofList_nil, Seq.nil_append]
  · rw [leaves_perform_add, holding_append_of_mem hl]
  · rcases perform_next now with ⟨g, x, hanswer, hgiven⟩ | ⟨why, hanswer, hgiven⟩
    · have hholding := hnext.holding_eq hnow
      rw [hgiven] at hholding
      refine .inl ⟨g, x, hanswer, hgiven, ?_, fun l hl => ?_⟩
      · rw [hholding g, takenFrom, if_pos rfl, Seq.ofList_cons, Seq.ofList_nil, Seq.cons_append,
          Seq.nil_append]
      · rw [hholding l, takenFrom, if_neg (Ne.symm hl), Seq.ofList_nil, Seq.nil_append]
    · refine .inr ⟨why, hanswer, fun l => ?_⟩
      rw [hnext.holding_eq hnow l, hgiven, takenFrom, Seq.ofList_nil, Seq.nil_append]

namespace Sample

/-- A suspended feed beside a script that waits first. -/
def pair : Source Nat Nat :=
  .composite 0 [.suspended 1 (.ofList 2 [7]), .scripted 3 [none, some 8, some 9]]

/-- Two of the requests come too early, and the second of them meets a
    remembered child that has run out. -/
def hasty : List (Call Nat Nat) :=
  [.next, .status, .next, .next, .add (.feed 4 (.endless id 0)), .status, .next]

end Sample

open Sample in
theorem calls_conserve_elements_hasty :
    ((pair.stock hasty).map Leaf.label).Nodup ∧
    (pair.replies hasty).filterMap Reply.given? = [(2, 7), (3, 8)] ∧
    (pair.after hasty).leaves.map Leaf.label = [3, 4] ∧
    holding (pair.stock hasty) 3 =
      (Seq.ofList [8]).append (holding (pair.after hasty).leaves 3) ∧
    holding (pair.stock hasty) 2 =
      (Seq.ofList [7]).append (holding (pair.after hasty).leaves 2) := by
  have hlabels : ((pair.stock hasty).map Leaf.label).Nodup := by decide
  have h := (calls_conserve_elements pair hasty hlabels).1
  exact ⟨hlabels, rfl, rfl, h 3, h 2⟩

end Source
end StructuralDiff
