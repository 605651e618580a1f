/-
  StructuralDiff.Proofs.Source.Leaves

  What the leaves of a source hold, and what one call does to them.

  A leaf holds a sequence of elements, which may be endless.  A poll changes a
  tree a good deal: it opens suspensions, runs through waiting steps and drops
  children.  To the leaves it does one thing only, it drops some that hold
  nothing (`Pruned`).  A request that is met takes besides the front element of
  one leaf (`Gives`), and one that is not met takes nothing.
-/

import Mathlib.Data.Seq.Basic
import StructuralDiff.Proofs.Source.Readiness

namespace StructuralDiff

open Stream' (Seq)

variable {κ α : Type}

-- ============================================================================
-- Leaves
-- ============================================================================

/-- The elements of a feed in order. -/
def Feed.elements : Feed α → Seq α
  | .finite rest => Seq.ofList rest
  | .endless element start => Seq.ofStream fun i => element (start + i)

theorem Feed.elements_of_next?_none {f : Feed α} (hf : f.next? = none) : f.elements = .nil := by
  rcases f with (_ | ⟨y, ys⟩) | ⟨element, start⟩
  · exact Seq.ofList_nil
  · cases hf
  · cases hf

theorem Feed.elements_of_next?_some {f rest : Feed α} {x : α} (hf : f.next? = some (x, rest)) :
    f.elements = .cons x rest.elements := by
  rcases f with (_ | ⟨y, ys⟩) | ⟨element, start⟩
  · cases hf
  · cases hf
    exact Seq.ofList_cons _ _
  · cases hf
    refine Seq.ext fun n => ?_
    cases n with
    | zero => rfl
    | succ n =>
      have hplace : start + (n + 1) = start + 1 + n := by omega
      show some (element (start + (n + 1))) = some (element (start + 1 + n))
      rw [hplace]

/-- A leaf of a source: its label, and the elements that it holds, in order. -/
structure Leaf (κ α : Type) where
  label : κ
  elements : Seq α

/-- What the leaf called `l` holds; nothing if there is no such leaf. -/
def holding [DecidableEq κ] (L : List (Leaf κ α)) (l : κ) : Seq α :=
  ((L.find? fun a => a.label = l).map Leaf.elements).getD .nil

/-- `M` is what is left of `L` when some leaves that hold nothing are dropped. -/
inductive Pruned : List (Leaf κ α) → List (Leaf κ α) → Prop where
  | nil : Pruned [] []
  | keep {L M : List (Leaf κ α)} (a : Leaf κ α) (h : Pruned L M) : Pruned (a :: L) (a :: M)
  | drop {L M : List (Leaf κ α)} (l : κ) (h : Pruned L M) : Pruned (⟨l, .nil⟩ :: L) M

/-- `M` is `L` when the leaf `g` has given away `x`, its front element. -/
inductive Gives (g : κ) (x : α) : List (Leaf κ α) → List (Leaf κ α) → Prop where
  | here (q : Seq α) (L : List (Leaf κ α)) : Gives g x (⟨g, .cons x q⟩ :: L) (⟨g, q⟩ :: L)
  | there {L M : List (Leaf κ α)} (a : Leaf κ α) (h : Gives g x L M) :
      Gives g x (a :: L) (a :: M)

/-- What a call does to the leaves: it drops some that hold nothing, and then
    the one named, if there is one, gives away its front element. -/
inductive Moves : List (Leaf κ α) → Option (κ × α) → List (Leaf κ α) → Prop where
  | keep {L M : List (Leaf κ α)} (h : Pruned L M) : Moves L none M
  | give {L M N : List (Leaf κ α)} {g : κ} {x : α} (h : Pruned L M) (hg : Gives g x M N) :
      Moves L (some (g, x)) N

section Lists

variable {L M N : List (Leaf κ α)} {g : κ} {x : α} {o : Option (κ × α)}

theorem Pruned.refl (L : List (Leaf κ α)) : Pruned L L := by
  induction L with
  | nil => exact .nil
  | cons a L ih => exact .keep a ih

theorem Pruned.trans (h : Pruned L M) (h' : Pruned M N) : Pruned L N := by
  induction h generalizing N with
  | nil => exact h'
  | drop l _ ih => exact .drop l (ih h')
  | keep a _ ih =>
    cases h' with
    | keep _ h' => exact .keep a (ih h')
    | drop l h' => exact .drop l (ih h')

theorem Pruned.append {L' M' : List (Leaf κ α)} (h : Pruned L M) (h' : Pruned L' M') :
    Pruned (L ++ L') (M ++ M') := by
  induction h with
  | nil => exact h'
  | keep a _ ih => exact .keep a ih
  | drop l _ ih => exact .drop l ih

theorem Pruned.sublist (h : Pruned L M) : M.Sublist L := by
  induction h with
  | nil => exact .slnil
  | keep a _ ih => exact ih.cons_cons a
  | drop l _ ih => exact ih.cons _

theorem Gives.append (h : Gives g x L M) (A B : List (Leaf κ α)) :
    Gives g x (A ++ L ++ B) (A ++ M ++ B) := by
  induction A with
  | cons a A ih => exact .there a ih
  | nil =>
    induction h with
    | here q L => exact .here q (L ++ B)
    | there a _ ih => exact .there a ih

theorem Gives.labels (h : Gives g x L M) : M.map Leaf.label = L.map Leaf.label := by
  induction h with
  | here q L => rfl
  | there a _ ih => rw [List.map_cons, List.map_cons, ih]

theorem Gives.mem_labels (h : Gives g x L M) : g ∈ L.map Leaf.label := by
  induction h with
  | here q L => exact List.mem_cons_self
  | there a _ ih => exact List.mem_cons_of_mem _ ih

theorem Moves.append_right (h : Moves L o M) (R : List (Leaf κ α)) :
    Moves (L ++ R) o (M ++ R) := by
  cases h with
  | keep h => exact .keep (h.append (.refl R))
  | give h hg => exact .give (h.append (.refl R)) (hg.append [] R)

theorem Moves.labels (h : Moves L o M) : (M.map Leaf.label).Sublist (L.map Leaf.label) := by
  cases h with
  | keep h => exact h.sublist.map Leaf.label
  | give h hg =>
    rw [hg.labels]
    exact h.sublist.map Leaf.label

end Lists

-- ============================================================================
-- What the leaf of a name holds
-- ============================================================================

section Holding

variable [DecidableEq κ] {L M : List (Leaf κ α)} {l g : κ} {x : α} {o : Option (κ × α)}

/-- The element taken, if it was taken from the leaf called `l`. -/
def takenFrom (l : κ) : Option (κ × α) → List α
  | some (g, x) => if g = l then [x] else []
  | none => []

theorem holding_cons (a : Leaf κ α) (L : List (Leaf κ α)) (l : κ) :
    holding (a :: L) l = if a.label = l then a.elements else holding L l := by
  by_cases h : a.label = l <;> simp [holding, h]

theorem holding_of_not_mem (h : l ∉ L.map Leaf.label) : holding L l = .nil := by
  induction L with
  | nil => rfl
  | cons a L ih =>
    rw [List.map_cons, List.mem_cons, not_or] at h
    rw [holding_cons, if_neg (Ne.symm h.1), ih h.2]

theorem holding_append_of_mem (h : l ∈ L.map Leaf.label) (R : List (Leaf κ α)) :
    holding (L ++ R) l = holding L l := by
  induction L with
  | nil => cases h
  | cons a L ih =>
    rw [List.cons_append, holding_cons, holding_cons]
    split
    · rfl
    · rename_i hne
      rw [List.map_cons, List.mem_cons] at h
      exact ih (h.resolve_left (Ne.symm hne))

theorem Pruned.holding_eq (h : Pruned L M) (hL : (L.map Leaf.label).Nodup) :
    holding L l = holding M l := by
  induction h with
  | nil => rfl
  | keep a _ ih => rw [holding_cons, holding_cons, ih (List.nodup_cons.mp hL).2]
  | drop k h ih =>
    obtain ⟨hk, hL⟩ := List.nodup_cons.mp hL
    rw [holding_cons, ← ih hL]
    split
    · rename_i hkl
      exact (holding_of_not_mem (hkl ▸ hk)).symm
    · rfl

theorem Gives.holding_eq (h : Gives g x L M) (hL : (L.map Leaf.label).Nodup) :
    holding L l = if g = l then .cons x (holding M l) else holding M l := by
  induction h with
  | here q L =>
    rw [holding_cons, holding_cons]
    split <;> rfl
  | there a h ih =>
    obtain ⟨ha, hL⟩ := List.nodup_cons.mp hL
    rw [holding_cons, holding_cons, ih hL]
    -- The leaf that gives is further on, and so it is not `a`.
    by_cases hal : a.label = l
    · have hgl : g ≠ l := fun hgl => ha (by rw [hal, ← hgl]; exact h.mem_labels)
      rw [if_pos hal, if_neg hgl, if_pos hal]
    · rw [if_neg hal, if_neg hal]

/-- A call takes from each leaf what it takes from the front and leaves the
    rest. -/
theorem Moves.holding_eq (h : Moves L o M) (hL : (L.map Leaf.label).Nodup) (l : κ) :
    holding L l = (Seq.ofList (takenFrom l o)).append (holding M l) := by
  cases h with
  | keep h =>
    rw [h.holding_eq hL, takenFrom, Seq.ofList_nil, Seq.nil_append]
  | give h hg =>
    rw [h.holding_eq hL, hg.holding_eq (hL.sublist (h.sublist.map Leaf.label)), takenFrom]
    split
    · rw [Seq.ofList_cons, Seq.ofList_nil, Seq.cons_append, Seq.nil_append]
    · rw [Seq.ofList_nil, Seq.nil_append]

end Holding

-- ============================================================================
-- The leaves of a source
-- ============================================================================

namespace Source

mutual
/-- The leaves of a source from left to right. -/
def leaves : Source κ α → List (Leaf κ α)
  | .empty l => [⟨l, .nil⟩]
  | .feed l f => [⟨l, f.elements⟩]
  | .scripted l steps => [⟨l, Seq.ofList (steps.filterMap id)⟩]
  | .suspended _ inner => leaves inner
  | .opened _ inner => leaves inner
  | .composite _ cs => leavesAll cs
  | .focused _ before c after => leavesAll before ++ leaves c ++ leavesAll after

/-- The leaves of some sources. -/
def leavesAll : List (Source κ α) → List (Leaf κ α)
  | [] => []
  | c :: cs => leaves c ++ leavesAll cs
end

variable {s t : Source κ α} {l g : κ} {x : α} {cs front behind : List (Source κ α)}

theorem leavesAll_append (cs ds : List (Source κ α)) :
    leavesAll (cs ++ ds) = leavesAll cs ++ leavesAll ds := by
  induction cs with
  | nil => rfl
  | cons c cs ih => rw [List.cons_append, leavesAll, leavesAll, ih, List.append_assoc]

theorem Composed.leaves_eq (h : s.Composed l front behind) :
    s.leaves = leavesAll front ++ leavesAll behind := by
  cases h with
  | composite l cs => rfl
  | focused l before c after => rw [leaves, leavesAll, List.append_assoc]

theorem leaves_settled (l : κ) (cs : List (Source κ α)) :
    (settled l cs).source.leaves = leavesAll cs := by
  cases cs <;> rfl

theorem Ended.pruned (h : s.Ended) : Pruned s.leaves [] := by
  induction h with
  | empty l => exact .drop l .nil
  | feed hf =>
    rw [leaves, Feed.elements_of_next?_none hf]
    exact .drop _ .nil
  | scripted l => exact .drop l .nil
  | opened _ ih => exact ih
  | composite l => exact .nil

theorem Poised.gives (h : s.Poised g x t) : Gives g x s.leaves t.leaves := by
  induction h with
  | feed hf =>
    rw [leaves, Feed.elements_of_next?_some hf]
    exact .here _ []
  | scripted l x steps =>
    show Gives l x [⟨l, Seq.ofList (x :: steps.filterMap id)⟩] _
    rw [Seq.ofList_cons]
    exact .here _ []
  | opened _ ih => exact ih
  | focused _ ih => exact ih.append _ _

-- ============================================================================
-- What calls do to the leaves
-- ============================================================================

/-- Of children that are not ready a poll drops only leaves that hold nothing. -/
theorem pruned_stay (hcs : ∀ c ∈ cs, c.status ≠ .ready)
    (ih : ∀ c ∈ cs, Pruned c.leaves c.survey.finding.source.leaves) :
    Pruned (leavesAll cs) (leavesAll (stay cs)) := by
  induction cs with
  | nil => exact .nil
  | cons c cs ih' =>
    obtain ⟨hc, hcs⟩ := List.forall_mem_cons.mp hcs
    obtain ⟨ihc, ih⟩ := List.forall_mem_cons.mp ih
    rw [stay_cons, leavesAll_append]
    refine Pruned.append ?_ (ih' hcs ih)
    rw [status_eq] at hc
    rw [kept?]
    cases hf : c.survey.finding with
    | exhausted s =>
      rw [hf] at ihc
      exact ihc.trans (ended_of_survey hf).pruned
    | waiting s =>
      rw [hf] at ihc
      show Pruned c.leaves (s.leaves ++ [])
      rw [List.append_nil]
      exact ihc
    | ready s x rest => exact absurd (by rw [hf]; rfl) hc

theorem pruned_survey (s : Source κ α) : Pruned s.leaves s.survey.finding.source.leaves := by
  induction s using treeInduction with
  | empty l => exact .refl _
  | feed l f =>
    rw [survey]
    cases f.next? <;> exact .refl _
  | scripted l steps =>
    rcases steps with _ | ⟨_ | x, steps⟩ <;> exact .refl _
  | suspended l inner _ => exact .refl _
  | opened l inner ih =>
    simp only [survey, Poll.reported]
    cases hf : inner.survey.finding <;> rw [hf] at ih <;> exact ih
  | composed s l front behind h ihfront ihbehind =>
    have hpolled := polled_survey h
    rw [h.leaves_eq]
    generalize s.survey = p at hpolled
    cases hpolled with
    | @behind _ before after c s rest x hbefore hc =>
      have ihc := ihbehind c (List.mem_append_right _ List.mem_cons_self)
      rw [hc] at ihc
      have hstay := pruned_stay hbefore fun b hb => ihbehind b (List.mem_append_left _ hb)
      show Pruned _ (leavesAll (front ++ stay before) ++ s.leaves ++ leavesAll after)
      rw [leavesAll_append, leavesAll_append, leavesAll, List.append_assoc, List.append_assoc]
      exact (Pruned.refl _).append (hstay.append (ihc.append (.refl _)))
    | @wrapped _ before after c s rest x hbehind hbefore hc =>
      have ihc := ihfront c (List.mem_append_right _ List.mem_cons_self)
      rw [hc] at ihc
      have hstay := pruned_stay hbefore fun b hb => ihfront b (List.mem_append_left _ hb)
      show Pruned _ (leavesAll (stay before) ++ s.leaves ++ leavesAll (after ++ stay behind))
      rw [leavesAll_append, leavesAll_append, leavesAll, List.append_assoc, List.append_assoc,
        List.append_assoc]
      exact hstay.append (ihc.append ((Pruned.refl _).append (pruned_stay hbehind ihbehind)))
    | idle hbehind hfront =>
      rw [leaves_settled, leavesAll_append]
      exact (pruned_stay hfront ihfront).append (pruned_stay hbehind ihbehind)

/-- What a request can come to: it is met by a leaf, the last node that was
    asked, or it is refused. -/
inductive Taken (s : Source κ α) : Take κ α → Prop where
  | met {r t : Source κ α} {g : κ} {x : α} {contacts : List (Contact κ)}
      (h : Pruned s.leaves r.leaves) (hr : r.Poised g x t)
      (hlast : contacts.getLast? = some (.asked g)) : Taken s ⟨.ok x, t, contacts⟩
  | refused {t : Source κ α} {fault : Fault} {contacts : List (Contact κ)}
      (h : Pruned s.leaves t.leaves) : Taken s ⟨.error fault, t, contacts⟩

theorem taken_take (s : Source κ α) : Taken s s.take := by
  induction s using treeInduction with
  | empty l => exact .refused (.refl _)
  | feed l f =>
    rw [take]
    cases hf : f.next? with
    | none => exact .refused (.refl _)
    | some next => exact .met (.refl _) (.feed hf) rfl
  | scripted l steps =>
    rcases steps with _ | ⟨_ | x, steps⟩
    · exact .refused (.refl _)
    · exact .refused (.refl _)
    · exact .met (.refl _) (.scripted l x steps) rfl
  | suspended l inner _ => exact .refused (.refl _)
  | opened l inner ih =>
    rw [take]
    generalize inner.take = t at ih
    cases ih with
    | met h hr hlast =>
      exact .met (r := .opened l _) h (.opened hr) (by rw [List.getLast?_cons, hlast]; rfl)
    | refused h => exact .refused h
  | composed s l front behind h ihfront ihbehind =>
    cases h with
    | composite l cs =>
      have hpruned := pruned_survey (.composite l behind)
      simp only [take]
      cases hf : (composite l behind).survey.finding with
      | exhausted s =>
        rw [hf] at hpruned
        exact .refused hpruned
      | waiting s =>
        rw [hf] at hpruned
        exact .refused hpruned
      | ready s x rest =>
        rw [hf] at hpruned
        obtain ⟨before, c, after, rfl⟩ := focused_of_survey (.composite l behind) hf
        obtain ⟨g, hg⟩ := poised_of_survey hf
        refine .met hpruned hg ?_
        cases hg with
        | focused hc =>
          have hpath : (c.requestPath.map Contact.asked).getLast? = some (.asked g) := by
            rw [List.getLast?_map, hc.getLast?_requestPath]
            rfl
          show (_ ++ c.requestPath.map Contact.asked).getLast? = _
          rw [List.getLast?_append, hpath]
          rfl
    | focused l before c after =>
      have ih := ihbehind c List.mem_cons_self
      rw [take]
      generalize c.take = t at ih
      have around {t : Source κ α} (ht : Pruned c.leaves t.leaves) :
          Pruned (Source.focused l front c after).leaves
            (Source.focused l front t after).leaves :=
        ((Pruned.refl _).append ht).append (.refl _)
      cases ih with
      | met h hr hlast =>
        exact .met (around h) (.focused hr) (by rw [List.getLast?_cons, hlast]; rfl)
      | refused h => exact .refused (around h)

end Source
end StructuralDiff
