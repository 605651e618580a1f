/-
  StructuralDiff.Proofs.Source.Fairness

  A poll of a composite is fair to its children and drops just the exhausted
  ones.

  Children are told apart by their index in the roster.  `turn` is the number of
  children that a poll reaches before the one at an index, going round from the
  active child on; `survivors` is what a poll leaves of the children that it
  reached, and the others as they were, each with the index that it had.  In
  these terms `Fair` says which children a poll reaches, where it stops, and
  what remains; `composite_polled_fairly` says that every poll of every
  composite is fair.
-/

import Mathlib.Data.List.Rotate
import StructuralDiff.Proofs.Source.Roster

namespace StructuralDiff
namespace Source

variable {κ α : Type}

/-- What is left of a child that was polled: nothing if it is exhausted. -/
def left? (c : Source κ α) : Option (Source κ α) :=
  if c.status = .exhausted then none else some c.poll.finding.source

theorem left?_of_unready {c : Source κ α} (hc : c.status ≠ .ready) : c.left? = c.kept? := by
  rw [status_eq] at hc
  rw [left?, kept?, status_eq]
  show (if c.survey.finding.status = .exhausted then none else some c.survey.finding.source) = _
  cases hf : c.survey.finding with
  | exhausted s => rfl
  | waiting s => rfl
  | ready s x rest => exact absurd (by rw [hf]; rfl) hc

theorem left?_of_ready {c s rest : Source κ α} {x : α} (hc : c.survey.finding = .ready s x rest) :
    c.left? = some s := by
  rw [left?, status_eq]
  show (if c.survey.finding.status = .exhausted then none else some c.survey.finding.source) = _
  rw [hc]
  rfl

end Source

namespace Roster

open Source (stay reports Composed Polled)

variable {κ α : Type}

-- ============================================================================
-- Going round
-- ============================================================================

/-- How many of `len` children are reached before the one at index `j`, going
    round from index `start` on. -/
def turn (start len j : Nat) : Nat := if start ≤ j then j - start else len - start + j

/-- Whether the child at index `j` is among the first `n` that are reached. -/
def reached (start len n j : Nat) : Bool := turn start len j < n

/-- The children reached are those of a stretch from `start` on, and, if that
    goes past the end, of a stretch from 0 on. -/
theorem reached_iff {start len : Nat} (hstart : start ≤ len) (n j : Nat) :
    reached start len n j = true ↔
      start ≤ j ∧ j < start + n ∨ j < start ∧ len + j < start + n := by
  rw [reached, turn, decide_eq_true_iff]
  split <;> omega

/-- In the order of their turns the children are the rotated list. -/
theorem getElem?_turn (front behind : List (Source κ α)) {j : Nat}
    (hj : j < (front ++ behind).length) :
    (behind ++ front)[turn front.length (front ++ behind).length j]? = (front ++ behind)[j]? := by
  rw [List.length_append] at hj ⊢
  rw [turn]
  split
  · rename_i hle
    rw [List.getElem?_append_left (by omega), List.getElem?_append_right hle]
  · rename_i hlt
    have hturn : front.length + behind.length - front.length + j = behind.length + j := by omega
    rw [hturn, List.getElem?_append_right (Nat.le_add_right _ _), Nat.add_sub_cancel_left,
      List.getElem?_append_left (by omega)]

-- ============================================================================
-- What a poll leaves
-- ============================================================================

/-- What a poll that reached the indices marked by `polled` leaves of the
    children, each with its index. -/
def survivors (polled : Nat → Bool) (cs : List (Source κ α × Nat)) : List (Source κ α × Nat) :=
  cs.filterMap fun (c, j) => (if polled j then c.left? else some c).map fun s => (s, j)

variable {polled : Nat → Bool} {cs A B front behind : List (Source κ α)} {o : Nat}
  {c s rest : Source κ α} {x : α}

theorem survivors_append (cs ds : List (Source κ α × Nat)) :
    survivors polled (cs ++ ds) = survivors polled cs ++ survivors polled ds :=
  List.filterMap_append

theorem survivors_of_polled (hpolled : ∀ j, o ≤ j → j < o + cs.length → polled j)
    (hcs : ∀ c ∈ cs, c.status ≠ .ready) :
    (survivors polled (cs.zipIdx o)).map Prod.fst = stay cs := by
  induction cs generalizing o with
  | nil => rfl
  | cons c cs ih =>
    obtain ⟨hc, hrest⟩ := List.forall_mem_cons.mp hcs
    rw [List.length_cons] at hpolled
    have hhere : polled o = true := hpolled o (Nat.le_refl o) (by omega)
    have htail := ih (o := o + 1) (fun j hle hlt => hpolled j (by omega) (by omega)) hrest
    rw [List.zipIdx_cons, Source.stay_cons, ← htail, ← Source.left?_of_unready hc]
    rw [survivors, List.filterMap_cons]
    simp only [hhere, if_true]
    cases c.left? with
    | none => rfl
    | some t => rfl

theorem survivors_of_not_polled (hpolled : ∀ j, o ≤ j → j < o + cs.length → polled j = false) :
    (survivors polled (cs.zipIdx o)).map Prod.fst = cs := by
  induction cs generalizing o with
  | nil => rfl
  | cons c cs ih =>
    rw [List.length_cons] at hpolled
    have hhere : polled o = false := hpolled o (Nat.le_refl o) (by omega)
    have htail := ih (o := o + 1) (fun j hle hlt => hpolled j (by omega) (by omega))
    rw [List.zipIdx_cons, survivors, List.filterMap_cons]
    simp only [hhere]
    exact congrArg (c :: ·) htail

/-- What is left of children whose indices lie in one of the two stretches. -/
theorem survivors_reached {start len n : Nat} (hstart : start ≤ len)
    (hstretch : start ≤ o ∧ o + cs.length ≤ start + n ∨
      o + cs.length ≤ start ∧ len + (o + cs.length) ≤ start + n)
    (hcs : ∀ c ∈ cs, c.status ≠ .ready) :
    (survivors (reached start len n) (cs.zipIdx o)).map Prod.fst = stay cs := by
  apply survivors_of_polled _ hcs
  intro j hle hlt
  rw [reached_iff hstart]
  omega

/-- What is left of children whose indices lie behind one of the two stretches. -/
theorem survivors_unreached {start len n : Nat} (hstart : start ≤ len)
    (hstretch : start + n ≤ o ∨ o + cs.length ≤ start ∧ start + n ≤ len + o) :
    (survivors (reached start len n) (cs.zipIdx o)).map Prod.fst = cs := by
  apply survivors_of_not_polled
  intro j hle hlt
  rw [Bool.eq_false_iff, ne_eq, reached_iff hstart]
  omega

/-- The survivors around a ready child that was polled. -/
theorem survivors_around (hc : c.survey.finding = .ready s x rest) (hpolled : polled A.length) :
    survivors polled (A ++ c :: B).zipIdx =
      survivors polled A.zipIdx ++ (s, A.length) :: survivors polled (B.zipIdx (A.length + 1)) := by
  rw [List.zipIdx_append, survivors_append, Nat.zero_add, List.zipIdx_cons]
  congr 1
  rw [survivors, List.filterMap_cons]
  simp only [hpolled, if_true, Source.left?_of_ready hc]
  rfl

-- ============================================================================
-- Fair polls
-- ============================================================================

/-- The tour `t` reaches `n` of the children `cs`, going round from the index
    `start` on. -/
structure Fair (cs : List (Source κ α)) (start n : Nat) (t : Tour κ α) : Prop where
  /-- Children are polled in cyclic order, each at most once. -/
  cyclic : n ≤ cs.length ∧ t.contacts = ((cs.rotate start).take n).flatMap fun c => c.poll.contacts
  /-- No child polled before the last one is ready. -/
  passed : ∀ j c, cs[j]? = some c → turn start cs.length j + 1 < n → c.status ≠ .ready
  /-- If a child is ready, the last one polled is, and it becomes the active
      one. -/
  stopped : (∃ c ∈ cs, c.status = .ready) → t.answer = .ready ∧
    ∃ i j c, cs[j]? = some c ∧ c.status = .ready ∧ turn start cs.length j + 1 = n ∧
      t.roster.active = some i ∧
      (survivors (reached start cs.length n) cs.zipIdx)[i]? = some (c.poll.finding.source, j)
  /-- If no child is ready, all are polled, and none is active afterwards. -/
  finished : (∀ c ∈ cs, c.status ≠ .ready) →
    n = cs.length ∧ t.answer ≠ .ready ∧ t.roster.active = none
  /-- Of the children just those are dropped that answered that they are
      exhausted. -/
  remaining : t.roster.children = (survivors (reached start cs.length n) cs.zipIdx).map Prod.fst
  exhausted : t.answer = .exhausted ↔ t.roster.children = []

/-- A tour that stops at the child `c`, which stands behind `A` in the list and
    behind `P` in the order of turns. -/
theorem fair_of_stop {P Q KA KB : List (Source κ α)} (hlist : front ++ behind = A ++ c :: B)
    (horder : behind ++ front = P ++ c :: Q) (hP : ∀ b ∈ P, b.status ≠ .ready)
    (hc : c.survey.finding = .ready s x rest)
    (hturn : turn front.length (front ++ behind).length A.length = P.length)
    (hA : (survivors (reached front.length (front ++ behind).length (P.length + 1))
      A.zipIdx).map Prod.fst = KA)
    (hB : (survivors (reached front.length (front ++ behind).length (P.length + 1))
      (B.zipIdx (A.length + 1))).map Prod.fst = KB) :
    Fair (front ++ behind) front.length (P.length + 1)
      ⟨.ready, ⟨KA ++ s :: KB, some KA.length⟩, reports P ++ c.poll.contacts⟩ := by
  have hready : c.status = .ready := by rw [Source.status_eq, hc]; rfl
  have hsource : c.poll.finding.source = s := congrArg Finding.source hc
  have hmem : c ∈ front ++ behind := by
    rw [hlist]
    exact List.mem_append_right _ List.mem_cons_self
  have hlength : (front ++ behind).length = P.length + (Q.length + 1) := by
    rw [List.length_append, Nat.add_comm, ← List.length_append, horder, List.length_append,
      List.length_cons]
  have hreached : reached front.length (front ++ behind).length (P.length + 1) A.length = true := by
    rw [reached, hturn]
    exact decide_eq_true (Nat.lt_succ_self _)
  have haround := survivors_around (B := B) hc hreached
  rw [← hlist] at haround
  have hindex : KA.length =
      (survivors (reached front.length (front ++ behind).length (P.length + 1))
        A.zipIdx).length := by
    rw [← hA, List.length_map]
  constructor
  case cyclic =>
    have htake : (P ++ c :: Q).take (P.length + 1) = P ++ [c] := by
      rw [List.append_cons]
      apply List.take_left'
      rw [List.length_append, List.length_singleton]
    refine ⟨by omega, ?_⟩
    rw [List.rotate_append_length_eq, horder, htake, List.flatMap_append, List.flatMap_singleton]
    rfl
  case passed =>
    intro j d hj hlt
    have hrange : j < (front ++ behind).length := (List.getElem?_eq_some_iff.mp hj).1
    rw [← getElem?_turn front behind hrange, horder,
      List.getElem?_append_left (by omega)] at hj
    exact hP d (List.mem_of_getElem? hj)
  case stopped =>
    intro _
    refine ⟨rfl, KA.length, A.length, c, ?_, hready, ?_, rfl, ?_⟩
    · rw [hlist]
      exact getElem?_place A B c
    · rw [hturn]
    · rw [haround, hindex, List.getElem?_append_right (Nat.le_refl _), Nat.sub_self, hsource,
        List.getElem?_cons_zero]
  case finished =>
    intro hnone
    exact absurd hready (hnone c hmem)
  case remaining =>
    show KA ++ s :: KB = _
    rw [haround, List.map_append, List.map_cons, hA, hB]
  case exhausted =>
    show Status.ready = .exhausted ↔ KA ++ s :: KB = []
    simp

/-- A tour that meets no ready child. -/
theorem fair_of_idle (hbehind : ∀ b ∈ behind, b.status ≠ .ready)
    (hfront : ∀ b ∈ front, b.status ≠ .ready) {t : Tour κ α}
    (hcontacts : t.contacts = reports behind ++ reports front)
    (hchildren : t.roster.children = stay front ++ stay behind)
    (hactive : t.roster.active = none)
    (hanswer : t.answer = if t.roster.children.isEmpty then .exhausted else .waiting) :
    Fair (front ++ behind) front.length (front ++ behind).length t := by
  have hnone : ∀ b ∈ front ++ behind, b.status ≠ .ready :=
    List.forall_mem_append.mpr ⟨hfront, hbehind⟩
  have hall : ∀ j, 0 ≤ j → j < 0 + (front ++ behind).length →
      reached front.length (front ++ behind).length (front ++ behind).length j := by
    intro j _ hj
    rw [reached_iff (by rw [List.length_append]; omega)]
    omega
  have hstay : stay (front ++ behind) = stay front ++ stay behind := List.filterMap_append
  constructor
  case cyclic =>
    have hall : (behind ++ front).length ≤ (front ++ behind).length := by
      rw [List.length_append, List.length_append]
      omega
    refine ⟨Nat.le_refl _, ?_⟩
    rw [List.rotate_append_length_eq, hcontacts, List.take_of_length_le hall, List.flatMap_append]
    rfl
  case passed =>
    intro j d hj _
    exact hnone d (List.mem_of_getElem? hj)
  case stopped =>
    rintro ⟨d, hd, hready⟩
    exact absurd hready (hnone d hd)
  case finished =>
    intro _
    refine ⟨rfl, ?_, hactive⟩
    rw [hanswer]
    split <;> simp
  case remaining => rw [survivors_of_polled hall hnone, hchildren, hstay]
  case exhausted =>
    rw [hanswer, ← List.isEmpty_iff]
    cases t.roster.children.isEmpty <;> simp

/-- Whatever a poll of a composite comes to, it is fair. -/
theorem fair_of_polled {l : κ} {p : Poll κ α} {t : Tour κ α} (h : Polled l front behind p)
    (ht : Shows p t) : ∃ n, Fair (front ++ behind) front.length n t := by
  obtain ⟨answer, roster, contacts⟩ := t
  obtain ⟨hanswer, hroster, hcontacts⟩ := ht
  cases h with
  | @behind _ before after c s rest x hbefore hc =>
    cases hanswer
    cases hroster
    cases hcontacts
    have hlength : (front ++ (before ++ c :: after)).length =
        front.length + (before.length + (after.length + 1)) := by
      rw [List.length_append, List.length_append, List.length_cons]
    have hA : (front ++ before).length = front.length + before.length := List.length_append
    refine ⟨before.length + 1, fair_of_stop (A := front ++ before) (B := after) (P := before)
      (Q := after ++ front) ?_ ?_ hbefore hc ?_ ?_ ?_⟩
    · rw [List.append_assoc]
    · rw [List.append_assoc, List.cons_append]
    · rw [turn, if_pos (by omega)]
      omega
    · rw [List.zipIdx_append, survivors_append, List.map_append, Nat.zero_add,
        survivors_unreached (by omega) (by omega), survivors_reached (by omega) (by omega) hbefore]
    · exact survivors_unreached (by omega) (by omega)
  | @wrapped _ before after c s rest x hbehind hbefore hc =>
    cases hanswer
    cases hroster
    have hpassed : ∀ b ∈ behind ++ before, b.status ≠ .ready :=
      List.forall_mem_append.mpr ⟨hbehind, hbefore⟩
    have hreports : contacts = reports (behind ++ before) ++ c.poll.contacts := by
      rw [show reports (behind ++ before) = reports behind ++ reports before from
        List.flatMap_append, List.append_assoc]
      exact hcontacts.symm
    subst hreports
    have hlength : (before ++ c :: after ++ behind).length =
        (before ++ c :: after).length + behind.length := List.length_append
    have hfront : (before ++ c :: after).length = before.length + (after.length + 1) := by
      rw [List.length_append, List.length_cons]
    have hP : (behind ++ before).length = behind.length + before.length := List.length_append
    refine ⟨(behind ++ before).length + 1, fair_of_stop (A := before) (B := after ++ behind)
      (P := behind ++ before) (Q := after) ?_ ?_ hpassed hc ?_ ?_ ?_⟩
    · rw [List.append_assoc, List.cons_append]
    · rw [List.append_assoc]
    · rw [turn, if_neg (by omega)]
      omega
    · exact survivors_reached (by omega) (by omega) hbefore
    · rw [List.zipIdx_append, survivors_append, List.map_append,
        survivors_unreached (by omega) (by omega), survivors_reached (by omega) (by omega) hbehind]
  | idle hbehind hfront =>
    cases hanswer
    cases hcontacts
    refine ⟨(front ++ behind).length, ?_⟩
    cases hkept : stay front ++ stay behind with
    | nil =>
      rw [hkept] at hroster
      cases hroster
      exact fair_of_idle hbehind hfront rfl hkept.symm rfl rfl
    | cons d ds =>
      rw [hkept] at hroster
      cases hroster
      exact fair_of_idle hbehind hfront rfl hkept.symm rfl rfl

/-- **A composite polls fairly and drops just the exhausted children.**  Whatever
    calls are made on a composite, new or in use, no index of its roster is ever
    out of range, and the one it remembers, if it does, is that of a child.  The
    next poll goes round the children from there on, polls none twice, stops at
    the first that is ready and remembers it; if none is ready it polls all and
    remembers none.  Of the children just those are gone afterwards that
    answered that they are exhausted, and the composite answers that it is
    exhausted exactly if none is left. -/
theorem composite_polled_fairly {s₀ : Source κ α} {r₀ : Roster κ α} (h : s₀.roster? = some r₀)
    (calls : List (Call κ α)) :
    let s := s₀.after calls
    ∃ r n t, r₀.after calls = some r ∧ s.roster? = some r ∧
      (∀ i, r.active = some i → i < r.children.length) ∧
      r.status = some t ∧ Fair r.children (r.active.getD 0) n t ∧
      s.status = t.answer ∧ s.poll.finding.source.roster? = some t.roster ∧
      s.poll.contacts = t.contacts ++ [.polled s.label t.answer] := by
  intro s
  obtain ⟨r, hr, hafter⟩ := after_roster h calls
  obtain ⟨t, hstatus, hshows⟩ := shows_status hr
  obtain ⟨l, front, behind, hs, hchildren, hstart, hrange⟩ := Source.composed_of_roster? hr
  obtain ⟨n, hfair⟩ := fair_of_polled (Source.polled_survey hs) hshows
  rw [← hchildren, ← hstart] at hfair
  refine ⟨r, n, t, hafter, hr, hrange, hstatus, hfair, hshows.answer, hshows.roster, ?_⟩
  show s.survey.contacts ++ [.polled s.label s.survey.finding.status] = _
  rw [hshows.answer, hshows.contacts]

namespace Sample

/-- A script that waits for one poll, a feed with one element, and a source
    without elements. -/
def ring : Roster Nat Nat := ⟨[.scripted 1 [none, some 9], .ofList 2 [7], .empty 3], none⟩

end Sample

open Sample in
/-- Once the feed was found ready and its element is taken, a poll begins with the
    feed, drops it and the child behind it, and comes round to the script. -/
theorem composite_polled_fairly_ring :
    (Source.composite 0 ring.children).roster? = some ring ∧
      ∃ r n t, ring.after [.status, .next] = some r ∧ r.active = some 1 ∧ r.status = some t ∧
        Fair r.children 1 n t ∧
        t.contacts = [.polled 2 .exhausted, .polled 3 .exhausted, .polled 1 .ready] ∧
        t.roster.active = some 0 := by
  have hroster : (Source.composite 0 ring.children).roster? = some ring := rfl
  obtain ⟨r, n, t, hafter, -, -, hstatus, hfair, -⟩ :=
    composite_polled_fairly hroster [.status, .next]
  cases hafter
  cases hstatus
  exact ⟨hroster, _, n, _, rfl, rfl, rfl, hfair, rfl, rfl⟩

end Roster
end StructuralDiff
