/-
  StructuralDiff.Source.Poll

  Polling a source.  A poll answers whether the source is exhausted, waiting or
  ready, and leaves a changed source behind: waiting steps that were met and
  children that were found exhausted are gone, suspensions are opened.  When
  an element is ready, the poll also says which one, and what remains once it
  is taken.

  A composite polls its children in cyclic order from the child last found
  ready, each of them at most once, drops those that answer that they are
  exhausted, and stops at the first that is ready.

  Each poll lists the calls it made, in the order in which they were answered.
  Main statement: a poll never adds a moment of waiting, and one that answers
  `waiting` uses one up (`delays_poll_le`, `delays_poll_lt`).
-/

import StructuralDiff.Source.Basic

namespace StructuralDiff

/-- A call made on a node of a source tree. -/
inductive Contact (κ : Type) where
  /-- The node was polled and answered. -/
  | polled (label : κ) (answer : Status)
  /-- The node was asked for an element. -/
  | asked (label : κ)
deriving DecidableEq

/-- What a poll found. -/
inductive Finding (κ α : Type) where
  /-- No element is left. -/
  | exhausted (source : Source κ α)
  /-- Nothing is ready yet. -/
  | waiting (source : Source κ α)
  /-- The element `x` is ready, and `rest` remains once it is taken. -/
  | ready (source : Source κ α) (x : α) (rest : Source κ α)

namespace Finding

variable {κ α : Type}

/-- The answer to the one who polled. -/
def status : Finding κ α → Status
  | .exhausted _ => .exhausted
  | .waiting _ => .waiting
  | .ready _ _ _ => .ready

/-- The source as the poll leaves it. -/
def source : Finding κ α → Source κ α
  | .exhausted s => s
  | .waiting s => s
  | .ready s _ _ => s

/-- The finding of a node that has the polled one inside it. -/
def within (wrap : Source κ α → Source κ α) : Finding κ α → Finding κ α
  | .exhausted s => .exhausted (wrap s)
  | .waiting s => .waiting (wrap s)
  | .ready s x rest => .ready (wrap s) x (wrap rest)

end Finding

/-- A finding and the calls that led to it. -/
structure Poll (κ α : Type) where
  finding : Finding κ α
  contacts : List (Contact κ)

/-- The poll of a node called `label`, after the calls made inside it. -/
def Poll.reported {κ α : Type} (label : κ) (p : Poll κ α) : Poll κ α :=
  ⟨p.finding, p.contacts ++ [.polled label p.finding.status]⟩

/-- What running through a list of children came to. -/
structure Scan (κ α : Type) where
  /-- The children that were polled, found waiting and kept. -/
  kept : List (Source κ α)
  /-- The child found ready, with its element, what it is once that is taken,
      and the children behind it. -/
  hit : Option (Source κ α × α × Source κ α × List (Source κ α))
  contacts : List (Contact κ)

namespace Scan

variable {κ α : Type}

/-- The moments of waiting that a scan leaves: those of the kept children, of the
    one found ready, and of those behind it. -/
def delays (scan : Scan κ α) : Nat :=
  Source.delaysAll scan.kept +
    match scan.hit with
    | some (s, _, _, after) => s.delays + Source.delaysAll after
    | none => 0

variable {scan : Scan κ α}

theorem delays_of_some {s rest : Source κ α} {x : α} {after : List (Source κ α)}
    (h : scan.hit = some (s, x, rest, after)) :
    scan.delays = Source.delaysAll scan.kept + (s.delays + Source.delaysAll after) := by
  rw [delays, h]

theorem delays_of_none (h : scan.hit = none) : scan.delays = Source.delaysAll scan.kept := by
  rw [delays, h, Nat.add_zero]

end Scan

namespace Source

variable {κ α : Type}

/-- A composite in which no child is ready: exhausted if none is left. -/
def settled (label : κ) : List (Source κ α) → Finding κ α
  | [] => .exhausted (.composite label [])
  | c :: cs => .waiting (.composite label (c :: cs))

/-- A composite in which `s` was found ready between `before` and `after`. -/
def focusedOn (label : κ) (before : List (Source κ α)) (s : Source κ α) (x : α)
    (rest : Source κ α) (after : List (Source κ α)) : Finding κ α :=
  .ready (.focused label before s after) x (.focused label before rest after)

mutual
/-- What a poll of the source finds, and the calls it makes on the nodes
    below. -/
def survey : Source κ α → Poll κ α
  | .empty l => ⟨.exhausted (.empty l), []⟩
  | .feed l f =>
    match f.next? with
    | some (x, rest) => ⟨.ready (.feed l f) x (.feed l rest), []⟩
    | none => ⟨.exhausted (.feed l f), []⟩
  | .scripted l [] => ⟨.exhausted (.scripted l []), []⟩
  | .scripted l (some x :: steps) =>
    ⟨.ready (.scripted l (some x :: steps)) x (.scripted l steps), []⟩
  | .scripted l (none :: steps) => ⟨.waiting (.scripted l steps), []⟩
  | .suspended l inner => ⟨.waiting (.opened l inner), []⟩
  | .opened l inner =>
    let p := (survey inner).reported inner.label
    ⟨p.finding.within (.opened l), p.contacts⟩
  | .composite l cs =>
    let scan := scanAll cs
    match scan.hit with
    | some (s, x, rest, after) => ⟨focusedOn l scan.kept s x rest after, scan.contacts⟩
    | none => ⟨settled l scan.kept, scan.contacts⟩
  | .focused l before c after =>
    let p := (survey c).reported c.label
    match p.finding with
    | .ready s x rest => ⟨focusedOn l before s x rest after, p.contacts⟩
    | found =>
      -- The remembered child has nothing now: first those behind it, then,
      -- wrapping around, those before it.
      let self := match found with
        | .waiting s => [s]
        | _ => []
      let behind := scanAll after
      match behind.hit with
      | some (s, x, rest, after') =>
        ⟨focusedOn l (before ++ self ++ behind.kept) s x rest after',
          p.contacts ++ behind.contacts⟩
      | none =>
        let front := scanAll before
        match front.hit with
        | some (s, x, rest, before') =>
          ⟨focusedOn l front.kept s x rest (before' ++ self ++ behind.kept),
            p.contacts ++ behind.contacts ++ front.contacts⟩
        | none =>
          ⟨settled l (front.kept ++ self ++ behind.kept),
            p.contacts ++ behind.contacts ++ front.contacts⟩

/-- Poll children from left to right up to the first that is ready, dropping
    those that are exhausted. -/
def scanAll : List (Source κ α) → Scan κ α
  | [] => ⟨[], none, []⟩
  | c :: cs =>
    let p := (survey c).reported c.label
    match p.finding with
    | .ready s x rest => ⟨[], some (s, x, rest, cs), p.contacts⟩
    | .waiting s =>
      let scan := scanAll cs
      ⟨s :: scan.kept, scan.hit, p.contacts ++ scan.contacts⟩
    | .exhausted _ =>
      let scan := scanAll cs
      ⟨scan.kept, scan.hit, p.contacts ++ scan.contacts⟩
end

/-- Poll a source. -/
def poll (s : Source κ α) : Poll κ α := s.survey.reported s.label

/-- The answer to a poll. -/
def status (s : Source κ α) : Status := s.poll.finding.status

-- ============================================================================
-- One turn of a composite
-- ============================================================================

/-- What polling a composite comes to, given the scan of the children that come
    first and that of the children in front of them, which counts if the first
    one meets no ready child. -/
def turned (label : κ) (front : List (Source κ α)) (behind wrapped : Scan κ α) : Poll κ α :=
  match behind.hit with
  | some (s, x, rest, after) =>
    ⟨focusedOn label (front ++ behind.kept) s x rest after, behind.contacts⟩
  | none =>
    match wrapped.hit with
    | some (s, x, rest, after) =>
      ⟨focusedOn label wrapped.kept s x rest (after ++ behind.kept),
        behind.contacts ++ wrapped.contacts⟩
    | none =>
      ⟨settled label (wrapped.kept ++ behind.kept), behind.contacts ++ wrapped.contacts⟩

theorem survey_composite (l : κ) (cs : List (Source κ α)) :
    (composite l cs).survey = turned l [] (scanAll cs) (scanAll []) := by
  rw [survey, turned]
  cases (scanAll cs).hit <;> simp [scanAll]

/-- The remembered child is the first of those that come first. -/
theorem survey_focused (l : κ) (before : List (Source κ α)) (c : Source κ α)
    (after : List (Source κ α)) :
    (focused l before c after).survey = turned l before (scanAll (c :: after)) (scanAll before) := by
  rw [survey, turned]
  cases hc : c.survey.finding with
  | ready s x rest => simp [scanAll, Poll.reported, hc]
  | exhausted s =>
    cases ha : (scanAll after).hit <;> cases hb : (scanAll before).hit <;>
      simp [scanAll, Poll.reported, hc, ha, hb]
  | waiting s =>
    cases ha : (scanAll after).hit <;> cases hb : (scanAll before).hit <;>
      simp [scanAll, Poll.reported, hc, ha, hb]

-- ============================================================================
-- A poll uses up moments of waiting
-- ============================================================================

theorem delays_settled (l : κ) (cs : List (Source κ α)) :
    (settled l cs).source.delays = delaysAll cs := by
  cases cs <;> rfl

theorem settled_waiting {l : κ} {cs : List (Source κ α)}
    (h : (settled l cs).status = .waiting) : cs ≠ [] := by
  cases cs with
  | nil => simp [settled, Finding.status] at h
  | cons c cs => simp

/-- Of `n` moments of waiting none was added, and one was used up if the answer is
    `waiting`. -/
structure Spends (f : Finding κ α) (n : Nat) : Prop where
  le : f.source.delays ≤ n
  lt : f.status = .waiting → f.source.delays < n

/-- The same for a scan: one was used up if it met waiting children and no ready
    one. -/
structure SpendsAll (scan : Scan κ α) (n : Nat) : Prop where
  le : scan.delays ≤ n
  lt : scan.hit = none → scan.kept ≠ [] → scan.delays < n

variable {c : Source κ α} {cs : List (Source κ α)} {behind wrapped : Scan κ α} {n : Nat}

theorem spends_of_ready {s rest : Source κ α} {x : α} (h : s.delays ≤ n) :
    Spends (.ready s x rest) n where
  le := h
  lt hwaiting := by cases hwaiting

theorem spends_of_exhausted {s : Source κ α} (h : s.delays ≤ n) : Spends (.exhausted s) n where
  le := h
  lt hwaiting := by cases hwaiting

theorem Spends.opened {f : Finding κ α} (h : Spends f n) (l : κ) :
    Spends (f.within (.opened l)) n := by
  cases f with
  | exhausted s => exact ⟨h.le, h.lt⟩
  | waiting s => exact ⟨h.le, h.lt⟩
  | ready s x rest => exact ⟨h.le, h.lt⟩

/-- A child in front of those that are scanned. -/
theorem Spends.cons (hc : Spends c.survey.finding c.delays)
    (hcs : SpendsAll (scanAll cs) (delaysAll cs)) :
    SpendsAll (scanAll (c :: cs)) (delaysAll (c :: cs)) := by
  have hle := hcs.le
  simp only [scanAll, Poll.reported, delaysAll]
  cases hf : c.survey.finding with
  | ready s x rest =>
    have hs : s.delays ≤ c.delays := (hf ▸ hc).le
    refine ⟨?_, fun hhit => absurd hhit (Option.some_ne_none _)⟩
    simp only [Scan.delays, delaysAll]
    omega
  | waiting s =>
    have hs : s.delays < c.delays := (hf ▸ hc).lt rfl
    have hlt : s.delays + (scanAll cs).delays < c.delays + delaysAll cs := by omega
    have hscan (contacts : List (Contact κ)) :
        Scan.delays ⟨s :: (scanAll cs).kept, (scanAll cs).hit, contacts⟩ =
          s.delays + (scanAll cs).delays := Nat.add_assoc _ _ _
    exact ⟨hscan _ ▸ Nat.le_of_lt hlt, fun _ _ => hscan _ ▸ hlt⟩
  | exhausted s =>
    refine ⟨Nat.le_add_left_of_le hle, fun hhit hkept => ?_⟩
    exact Nat.lt_add_left _ (hcs.lt hhit hkept)

/-- One turn: a child is ready among those that come first, or among those in
    front of them, or none is. -/
theorem SpendsAll.turned (hb : SpendsAll behind n) {front : List (Source κ α)}
    (hw : SpendsAll wrapped (delaysAll front)) (l : κ) :
    Spends (turned l front behind wrapped).finding (delaysAll front + n) := by
  have hlb := hb.le
  have hlw := hw.le
  rw [Source.turned]
  cases hhit : behind.hit with
  | some hit =>
    obtain ⟨s, x, rest, after⟩ := hit
    rw [Scan.delays_of_some hhit] at hlb
    refine spends_of_ready ?_
    rw [delays, delaysAll_append]
    omega
  | none =>
    rw [Scan.delays_of_none hhit] at hlb
    cases hhit' : wrapped.hit with
    | some hit =>
      obtain ⟨s, x, rest, after⟩ := hit
      rw [Scan.delays_of_some hhit'] at hlw
      refine spends_of_ready ?_
      rw [delays, delaysAll_append]
      omega
    | none =>
      rw [Scan.delays_of_none hhit'] at hlw
      refine ⟨?_, fun h => ?_⟩
      · rw [delays_settled, delaysAll_append]
        omega
      · rw [delays_settled, delaysAll_append]
        -- what is left was kept by one of the two scans, which used one up
        by_cases hk : wrapped.kept = []
        · have hkept : behind.kept ≠ [] := by simpa [hk] using settled_waiting h
          have hlt := hb.lt hhit hkept
          rw [Scan.delays_of_none hhit] at hlt
          omega
        · have hlt := hw.lt hhit' hk
          rw [Scan.delays_of_none hhit'] at hlt
          omega

theorem spendsAll_nil :
    SpendsAll (scanAll ([] : List (Source κ α))) (delaysAll ([] : List (Source κ α))) where
  le := Nat.le_refl 0
  lt _ hkept := absurd rfl hkept

mutual
theorem spends_survey (s : Source κ α) : Spends s.survey.finding s.delays := by
  match s with
  | .empty l => exact spends_of_exhausted (Nat.le_refl _)
  | .feed l f =>
    simp only [survey]
    cases f.next? with
    | some next => exact spends_of_ready (Nat.le_refl _)
    | none => exact spends_of_exhausted (Nat.le_refl _)
  | .scripted l [] => exact spends_of_exhausted (Nat.le_refl _)
  | .scripted l (some x :: steps) => exact spends_of_ready (Nat.le_refl _)
  | .scripted l (none :: steps) =>
    have hone : (scripted l (none :: steps) : Source κ α).delays =
        (scripted l steps : Source κ α).delays + 1 := List.countP_cons_of_pos rfl
    rw [hone]
    exact ⟨Nat.le_succ _, fun _ => Nat.lt_succ_self _⟩
  | .suspended l inner => exact ⟨Nat.le_succ _, fun _ => Nat.lt_succ_self _⟩
  | .opened l inner => exact (spends_survey inner).opened l
  | .composite l cs =>
    rw [survey_composite]
    have hturn := (spends_scanAll cs).turned spendsAll_nil l
    rw [delaysAll, Nat.zero_add] at hturn
    exact hturn
  | .focused l before c after =>
    rw [survey_focused]
    have hbehind := (spends_survey c).cons (spends_scanAll after)
    have hturn := hbehind.turned (spends_scanAll before) l
    rw [delaysAll, ← Nat.add_assoc] at hturn
    exact hturn

theorem spends_scanAll (cs : List (Source κ α)) : SpendsAll (scanAll cs) (delaysAll cs) := by
  match cs with
  | [] => exact spendsAll_nil
  | c :: cs => exact (spends_survey c).cons (spends_scanAll cs)
end

/-- A poll adds no moment of waiting. -/
theorem delays_poll_le (s : Source κ α) : s.poll.finding.source.delays ≤ s.delays :=
  (spends_survey s).le

/-- A poll that answers `waiting` uses up a moment of waiting. -/
theorem delays_poll_lt {s : Source κ α} (h : s.status = .waiting) :
    s.poll.finding.source.delays < s.delays :=
  (spends_survey s).lt h

end Source
end StructuralDiff
