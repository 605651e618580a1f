/-
  StructuralDiff.Source.Take

  Taking an element out of a source.  A leaf gives its next element, an opened
  suspension and a composite pass the request on: the composite to the child
  that it remembers, and if it remembers none, to the one that polling its
  children finds.  A request that cannot be met is a fault, and faults leave
  the source as the failed request has changed it: a script gives up the step
  that was no element.
-/

import StructuralDiff.Source.Poll

namespace StructuralDiff

/-- What a request for an element comes to: the element or the fault, the source
    that is left, and the calls that were made. -/
structure Take (κ α : Type) where
  outcome : Except Fault α
  source : Source κ α
  contacts : List (Contact κ)

/-- The request of a node called `label` that was passed on to a node inside
    it. -/
def Take.through {κ α : Type} (label : κ) (wrap : Source κ α → Source κ α) (t : Take κ α) :
    Take κ α :=
  ⟨t.outcome, wrap t.source, .asked label :: t.contacts⟩

namespace Source

variable {κ α : Type}

/-- The nodes that a request reaches on a source that was just found ready, from
    the top down to the leaf that gives the element. -/
def requestPath : Source κ α → List κ
  | .opened l inner => l :: inner.requestPath
  | .focused l _ active _ => l :: active.requestPath
  | s => [s.label]

/-- Take an element. -/
def take : Source κ α → Take κ α
  | .empty l => ⟨.error .emptySource, .empty l, [.asked l]⟩
  | .feed l f =>
    match f.next? with
    | some (x, rest) => ⟨.ok x, .feed l rest, [.asked l]⟩
    | none => ⟨.error .feedEnded, .feed l f, [.asked l]⟩
  | .scripted l (some x :: steps) => ⟨.ok x, .scripted l steps, [.asked l]⟩
  | .scripted l steps => ⟨.error .notScripted, .scripted l steps.tail, [.asked l]⟩
  | .suspended l inner => ⟨.error .unopened, .suspended l inner, [.asked l]⟩
  | .opened l inner => inner.take.through l (.opened l)
  | .focused l before active after =>
    active.take.through l (fun s => .focused l before s after)
  | .composite l cs =>
    let p := (composite l cs).survey
    match p.finding with
    | .ready s x rest =>
      -- The child found ready was polled a moment ago, so it cannot refuse.
      ⟨.ok x, rest, .asked l :: p.contacts ++ s.requestPath.tail.map .asked⟩
    | found => ⟨.error .noReadyChild, found.source, .asked l :: p.contacts⟩

end Source
end StructuralDiff
