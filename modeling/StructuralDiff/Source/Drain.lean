/-
  StructuralDiff.Source.Drain

  Drawing elements out of a source by polling.  `draw` polls until the source
  is ready or exhausted, which ends because each poll that has to wait uses up
  a moment of waiting; `drain` draws up to a limit, and `drainAll` draws until
  a finite source is exhausted.
-/

import StructuralDiff.Source.Take

namespace StructuralDiff

/-- What drawing elements out of a source comes to. -/
structure Drained (κ α : Type) where
  /-- The elements drawn, in order. -/
  elements : List α
  /-- The fault that broke the drawing off, if there was one. -/
  fault : Option Fault
  /-- The source that is left. -/
  source : Source κ α
  /-- The calls that were made. -/
  contacts : List (Contact κ)

namespace Source

variable {κ α : Type}

/-- Poll until the source no longer waits. -/
def awaitReady (s : Source κ α) : Poll κ α :=
  let p := s.poll
  if _waiting : p.finding.status = .waiting then
    let later := p.finding.source.awaitReady
    ⟨later.finding, p.contacts ++ later.contacts⟩
  else p
termination_by s.delays
decreasing_by exact delays_poll_lt _waiting

/-- Draw elements until the source is exhausted or `limit` of them are drawn.
    Once the limit is reached the source is not polled again. -/
def drain : Nat → Source κ α → Drained κ α
  | 0, s => ⟨[], none, s, []⟩
  | limit + 1, s =>
    let p := s.awaitReady
    match p.finding with
    | .ready s' _ _ =>
      let t := s'.take
      match t.outcome with
      | .ok x =>
        let later := drain limit t.source
        ⟨x :: later.elements, later.fault, later.source,
          p.contacts ++ t.contacts ++ later.contacts⟩
      | .error fault => ⟨[], some fault, t.source, p.contacts ++ t.contacts⟩
    | found => ⟨[], none, found.source, p.contacts⟩

/-- Draw every element of a source whose leaves are all finite.  One draw more
    than it holds elements finds it exhausted. -/
def drainAll (s : Source κ α) : Drained κ α := s.drain (s.held + 1)

end Source
end StructuralDiff
