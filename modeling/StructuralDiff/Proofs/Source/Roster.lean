/-
  StructuralDiff.Proofs.Source.Roster

  A composite as a list of children that is gone through by index.

  A `Roster` holds the children of a composite in one list, with the index of
  the child last found ready.  A poll goes round the list: it looks a child up
  at the running index, removes it there if it is exhausted, moves the index on
  if it waits, and starts again at 0 when the index has passed the end.  It does
  so at most as often as there are children at first.  An index that lies
  outside the list leaves an operation without an outcome.

  Main statement: what is done to a composite is what is done to its roster
  (`perform_roster`), so that no index of a roster is ever out of range
  (`after_roster`).
-/

import StructuralDiff.Proofs.Source.Sessions

namespace StructuralDiff

variable {κ α : Type}

/-- The children of a composite, and the index of the one last found ready. -/
structure Roster (κ α : Type) where
  children : List (Source κ α)
  active : Option Nat

/-- What polling the children of a roster comes to. -/
structure Tour (κ α : Type) where
  answer : Status
  roster : Roster κ α
  contacts : List (Contact κ)

/-- The tour with earlier calls in front of its own. -/
def Tour.following (earlier : List (Contact κ)) (t : Tour κ α) : Tour κ α :=
  { t with contacts := earlier ++ t.contacts }

theorem Tour.following_nil : Tour.following (κ := κ) (α := α) [] = id := rfl

theorem Tour.following_append (K L : List (Contact κ)) :
    Tour.following (α := α) (K ++ L) = Tour.following K ∘ Tour.following L := by
  funext t
  simp only [following, Function.comp, List.append_assoc]

namespace Roster

-- ============================================================================
-- Operations
-- ============================================================================

/-- Poll at most `n` children, beginning at index `i`. -/
def tour : Nat → List (Source κ α) → Nat → Option (Tour κ α)
  | 0, cs, _ => some ⟨if cs.isEmpty then .exhausted else .waiting, ⟨cs, none⟩, []⟩
  | n + 1, cs, i =>
    let place := if i < cs.length then i else 0
    match cs[place]? with
    | none => none
    | some c =>
      match c.survey.finding with
      | .ready s _ _ => some ⟨.ready, ⟨cs.set place s, some place⟩, c.poll.contacts⟩
      | .exhausted _ => (tour n (cs.eraseIdx place) place).map (.following c.poll.contacts)
      | .waiting s => (tour n (cs.set place s) (place + 1)).map (.following c.poll.contacts)

/-- Poll the children, beginning with the one last found ready. -/
def status (r : Roster κ α) : Option (Tour κ α) :=
  tour r.children.length r.children (min (r.active.getD 0) r.children.length)

/-- Ask the child at index `i` for an element. -/
def takeAt (r : Roster κ α) (i : Nat) : Option (Except Fault α × Roster κ α) :=
  r.children[i]?.map fun c =>
    (c.take.outcome, { r with children := r.children.set i c.take.source })

/-- Ask the child last found ready for an element; if there is none, the one
    that a poll finds. -/
def next (r : Roster κ α) : Option (Except Fault α × Roster κ α) :=
  match r.active.filter (· < r.children.length) with
  | some i => r.takeAt i
  | none =>
    match r.status with
    | none => none
    | some t =>
      match t.answer, t.roster.active with
      | .ready, some i => t.roster.takeAt i
      | _, _ => some (.error .noReadyChild, t.roster)

/-- The answer to a request that came to `o`. -/
def answerOf : Except Fault α → Answer α
  | .ok x => .element x
  | .error why => .fault why

/-- The answer to a call, and the roster that is left. -/
def perform (r : Roster κ α) : Call κ α → Option (Answer α × Roster κ α)
  | .status => r.status.map fun t => (.status t.answer, t.roster)
  | .next => r.next.map fun o => (answerOf o.1, o.2)
  | .add child => some (.added, { r with children := r.children ++ [child] })

/-- The roster as a sequence of calls leaves it. -/
def after (r : Roster κ α) : List (Call κ α) → Option (Roster κ α)
  | [] => some r
  | call :: calls => (r.perform call).bind fun o => o.2.after calls

-- ============================================================================
-- Rounds of a tour
-- ============================================================================

open Source (stay reports)

variable {n : Nat} {pre post before : List (Source κ α)} {c s rest : Source κ α} {x : α}

/-- Behind the last child a tour goes on at the first. -/
theorem tour_wrap (n : Nat) (cs : List (Source κ α)) : tour n cs cs.length = tour n cs 0 := by
  cases n with
  | zero => rfl
  | succ n =>
    have hend : (if cs.length < cs.length then cs.length else 0) = 0 := if_neg (by omega)
    have hfirst : (if 0 < cs.length then 0 else 0) = 0 := ite_self 0
    simp only [tour, hend, hfirst]

theorem place_eq (pre post : List (Source κ α)) (c : Source κ α) :
    (if pre.length < (pre ++ c :: post).length then pre.length else 0) = pre.length := by
  apply if_pos
  rw [List.length_append, List.length_cons]
  omega

theorem getElem?_place (pre post : List (Source κ α)) (c : Source κ α) :
    (pre ++ c :: post)[pre.length]? = some c := by
  rw [List.getElem?_append_right (Nat.le_refl _), Nat.sub_self, List.getElem?_cons_zero]

theorem set_place (pre post : List (Source κ α)) (c s : Source κ α) :
    (pre ++ c :: post).set pre.length s = pre ++ s :: post := by
  rw [List.set_append_right _ _ (Nat.le_refl _), Nat.sub_self, List.set_cons_zero]

theorem eraseIdx_place (pre post : List (Source κ α)) (c : Source κ α) :
    (pre ++ c :: post).eraseIdx pre.length = pre ++ post := by
  rw [List.eraseIdx_append_of_length_le (Nat.le_refl _), Nat.sub_self, List.eraseIdx_cons_zero]

/-- A round that meets a ready child is the last one. -/
theorem tour_ready (hc : c.survey.finding = .ready s x rest) :
    tour (n + 1) (pre ++ c :: post) pre.length =
      some ⟨.ready, ⟨pre ++ s :: post, some pre.length⟩, c.poll.contacts⟩ := by
  rw [tour]
  simp only [place_eq, getElem?_place, hc, set_place]

/-- A round that meets any other child leaves of it what a poll keeps, and goes
    on behind that. -/
theorem tour_unready (hc : c.status ≠ .ready) :
    tour (n + 1) (pre ++ c :: post) pre.length =
      (tour n (pre ++ c.kept?.toList ++ post) (pre ++ c.kept?.toList).length).map
        (.following c.poll.contacts) := by
  rw [tour]
  simp only [place_eq, getElem?_place, Source.kept?]
  cases hf : c.survey.finding with
  | exhausted s => simp only [eraseIdx_place, Option.toList_none, List.append_nil]
  | waiting s =>
    simp only [set_place, Option.toList_some, List.append_assoc, List.length_append,
      List.length_singleton, List.singleton_append]
  | ready s x rest => exact absurd (by rw [Source.status_eq, hf]; rfl) hc

/-- Rounds that meet no ready child. -/
theorem tour_passes (n : Nat) (pre post : List (Source κ α))
    (hbefore : ∀ b ∈ before, b.status ≠ .ready) :
    tour (before.length + n) (pre ++ before ++ post) pre.length =
      (tour n (pre ++ stay before ++ post) (pre ++ stay before).length).map
        (Tour.following (reports before)) := by
  induction before generalizing pre with
  | nil =>
    have hnone : (stay [] : List (Source κ α)) = [] := rfl
    rw [hnone, List.append_nil, List.length_nil, Nat.zero_add]
    show _ = Option.map (Tour.following []) _
    rw [Tour.following_nil, Option.map_id, id]
  | cons b before ih =>
    obtain ⟨hb, hrest⟩ := List.forall_mem_cons.mp hbefore
    have hrounds : (b :: before).length + n = before.length + n + 1 := by
      rw [List.length_cons]
      omega
    have hlist : pre ++ b :: before ++ post = pre ++ b :: (before ++ post) := by
      rw [List.append_assoc, List.cons_append]
    have hreports : reports (b :: before) = b.poll.contacts ++ reports before := List.flatMap_cons
    rw [hrounds, hlist, tour_unready hb, ← List.append_assoc, ih _ hrest, Option.map_map,
      ← Tour.following_append, hreports, Source.stay_cons, ← List.append_assoc]

/-- A tour of children that are not ready goes on at the first child. -/
theorem tour_wraps (front : List (Source κ α)) {behind : List (Source κ α)}
    (hbehind : ∀ b ∈ behind, b.status ≠ .ready) :
    tour (front ++ behind).length (front ++ behind) front.length =
      (tour front.length (front ++ stay behind) 0).map (Tour.following (reports behind)) := by
  have htour := tour_passes front.length front [] hbehind
  rw [List.append_nil, List.append_nil, tour_wrap] at htour
  rw [List.length_append, Nat.add_comm]
  exact htour

-- ============================================================================
-- The roster of a composite
-- ============================================================================

end Roster

namespace Source

/-- A composite as a roster. -/
def roster? : Source κ α → Option (Roster κ α)
  | .composite _ cs => some ⟨cs, none⟩
  | .focused _ before c after => some ⟨before ++ c :: after, some before.length⟩
  | _ => none

variable {s t : Source κ α} {l : κ} {front behind : List (Source κ α)} {r : Roster κ α}

/-- In the roster of a composite the children that are polled first stand behind
    the others, and a poll begins with them. -/
theorem composed_of_roster? (h : s.roster? = some r) :
    ∃ l front behind, s.Composed l front behind ∧ r.children = front ++ behind ∧
      r.active.getD 0 = front.length ∧ ∀ i, r.active = some i → i < r.children.length := by
  cases s with
  | composite l cs =>
    cases h
    exact ⟨l, [], cs, .composite l cs, rfl, rfl, fun i hi => by cases hi⟩
  | focused l before c after =>
    cases h
    refine ⟨l, before, c :: after, .focused l before c after, rfl, rfl, ?_⟩
    intro i hi
    cases hi
    rw [List.length_append, List.length_cons]
    omega
  | empty => cases h
  | feed => cases h
  | scripted => cases h
  | suspended => cases h
  | opened => cases h

end Source

namespace Roster

open Source (stay reports Composed Polled)

/-- The poll `p` of a composite comes to what the tour `t` of its roster comes
    to. -/
structure Shows (p : Poll κ α) (t : Tour κ α) : Prop where
  answer : p.finding.status = t.answer
  roster : p.finding.source.roster? = some t.roster
  contacts : p.contacts = t.contacts

theorem shows_tour {l : κ} {front behind : List (Source κ α)} {p : Poll κ α}
    (h : Polled l front behind p) :
    ∃ t, tour (front ++ behind).length (front ++ behind) front.length = some t ∧ Shows p t := by
  cases h with
  | @behind _ before after c s rest x hbefore hc =>
    have hrounds : (front ++ (before ++ c :: after)).length =
        before.length + (front.length + after.length + 1) := by
      simp only [List.length_append, List.length_cons]
      omega
    have htour := tour_passes (front.length + after.length + 1) front (c :: after) hbefore
    rw [tour_ready hc, List.append_assoc, ← hrounds] at htour
    exact ⟨_, htour, rfl, rfl, rfl⟩
  | @wrapped _ before after c s rest x hbehind hbefore hc =>
    have hrounds : (before ++ c :: after).length = before.length + (after.length + 1) := by
      rw [List.length_append, List.length_cons]
    have hlist : before ++ c :: after ++ stay behind = before ++ c :: (after ++ stay behind) := by
      rw [List.append_assoc, List.cons_append]
    have hfirst := tour_passes (after.length + 1) [] (c :: (after ++ stay behind)) hbefore
    rw [List.nil_append, List.nil_append, tour_ready hc, List.length_nil, ← hrounds, ← hlist]
      at hfirst
    have htour := tour_wraps (before ++ c :: after) hbehind
    rw [hfirst] at htour
    exact ⟨_, htour, rfl, rfl, rfl⟩
  | idle hbehind hfront =>
    have hfirst := tour_passes 0 [] (stay behind) hfront
    rw [List.nil_append, List.nil_append, List.length_nil, Nat.add_zero] at hfirst
    rw [tour_wraps front hbehind, hfirst]
    refine ⟨_, rfl, ?_, ?_, ?_⟩
    · show _ = if (stay front ++ stay behind).isEmpty then Status.exhausted else .waiting
      cases stay front ++ stay behind <;> rfl
    · show _ = some (Roster.mk (stay front ++ stay behind) none)
      cases stay front ++ stay behind <;> rfl
    · show reports behind ++ reports front = reports behind ++ (reports front ++ [])
      rw [List.append_nil]

/-- A poll of a composite is a tour of its roster. -/
theorem shows_status {s : Source κ α} {r : Roster κ α} (h : s.roster? = some r) :
    ∃ t, r.status = some t ∧ Shows s.survey t := by
  obtain ⟨l, front, behind, hs, hchildren, hstart, -⟩ := Source.composed_of_roster? h
  obtain ⟨t, htour, hshows⟩ := shows_tour (Source.polled_survey hs)
  refine ⟨t, ?_, hshows⟩
  have hmin : min front.length (front ++ behind).length = front.length := by
    rw [List.length_append]
    omega
  rw [status, hchildren, hstart, hmin]
  exact htour

/-- The child found ready stands at the index that the roster remembers, and a
    request of the composite is a request of that child. -/
theorem takeAt_focused (l : κ) (before : List (Source κ α)) (c : Source κ α)
    (after : List (Source κ α)) :
    ∃ r', (Source.focused l before c after).take.source.roster? = some r' ∧
      takeAt ⟨before ++ c :: after, some before.length⟩ before.length =
        some ((Source.focused l before c after).take.outcome, r') := by
  refine ⟨_, rfl, ?_⟩
  simp only [takeAt, getElem?_place, set_place, Option.map_some]
  rfl

/-- A request of a composite is a request of its roster. -/
theorem take_roster {s : Source κ α} {r : Roster κ α} (h : s.roster? = some r) :
    ∃ r', s.take.source.roster? = some r' ∧ r.next = some (s.take.outcome, r') := by
  obtain ⟨l, front, behind, hs, -⟩ := Source.composed_of_roster? h
  cases hs with
  | composite l cs =>
    obtain ⟨t, htour, hshows⟩ := shows_status h
    obtain ⟨hanswer, hroster, -⟩ := hshows
    cases h
    have hnone : (none : Option Nat).filter (· < behind.length) = none := rfl
    simp only [next, hnone, htour]
    rw [Source.take]
    cases hf : (Source.composite l behind).survey.finding with
    | exhausted u =>
      rw [hf] at hanswer hroster
      exact ⟨t.roster, hroster, by rw [← hanswer]; rfl⟩
    | waiting u =>
      rw [hf] at hanswer hroster
      exact ⟨t.roster, hroster, by rw [← hanswer]; rfl⟩
    | ready u x rest =>
      -- The child that the poll found is remembered now, and asked for its element.
      obtain ⟨before, c, after, rfl⟩ := Source.focused_of_survey (.composite l behind) hf
      obtain ⟨g, hg⟩ := Source.poised_of_survey hf
      obtain ⟨r', hr', htake⟩ := takeAt_focused l before c after
      rw [hg.take] at hr' htake
      rw [hf] at hanswer hroster
      have hr : t.roster = ⟨before ++ c :: after, some before.length⟩ :=
        (Option.some.inj hroster).symm
      exact ⟨r', hr', by rw [← hanswer, hr]; exact htake⟩
  | focused l before c after =>
    cases h
    have hsome : (some front.length).filter (· < (front ++ c :: after).length) =
        some front.length := by
      simp
    simp only [next, hsome]
    exact takeAt_focused l front c after

-- ============================================================================
-- Calls
-- ============================================================================

theorem perform_next_eq (s : Source κ α) :
    s.perform .next = ⟨answerOf s.take.outcome, s.take.source, s.take.contacts⟩ := by
  rw [Source.perform]
  generalize s.take = t
  obtain ⟨x | why, t, contacts⟩ := t
  · rfl
  · rfl

/-- What a call does to a composite it does to its roster. -/
theorem perform_roster {s : Source κ α} {r : Roster κ α} (h : s.roster? = some r)
    (call : Call κ α) :
    ∃ r', (s.perform call).source.roster? = some r' ∧
      r.perform call = some ((s.perform call).answer, r') := by
  cases call with
  | status =>
    obtain ⟨t, htour, hshows⟩ := shows_status h
    refine ⟨t.roster, hshows.roster, ?_⟩
    show r.status.map _ = some (Answer.status s.survey.finding.status, t.roster)
    rw [htour, hshows.answer]
    rfl
  | next =>
    obtain ⟨r', hr', hnext⟩ := take_roster h
    rw [perform_next_eq]
    refine ⟨r', hr', ?_⟩
    show r.next.map _ = _
    rw [hnext]
    rfl
  | add child =>
    obtain ⟨l, front, behind, hs, -⟩ := Source.composed_of_roster? h
    cases hs with
    | composite l cs =>
      cases h
      exact ⟨_, rfl, rfl⟩
    | focused l before c after =>
      cases h
      refine ⟨_, rfl, ?_⟩
      show some (Answer.added, Roster.mk (front ++ c :: after ++ [child]) _) = _
      rw [List.append_assoc]
      rfl

/-- No call takes an index out of range. -/
theorem after_roster {s : Source κ α} {r : Roster κ α} (h : s.roster? = some r)
    (calls : List (Call κ α)) :
    ∃ r', (s.after calls).roster? = some r' ∧ r.after calls = some r' := by
  induction calls generalizing s r with
  | nil => exact ⟨r, h, rfl⟩
  | cons call calls ih =>
    obtain ⟨r₁, hr₁, hperform⟩ := perform_roster h call
    obtain ⟨r', hr', hafter⟩ := ih hr₁
    refine ⟨r', hr', ?_⟩
    rw [after, hperform]
    exact hafter

end Roster
end StructuralDiff
