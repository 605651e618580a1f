/-
  StructuralDiff.Source.Basic

  Element sources: pollable producers of query answers.  A source is a tree.
  Its leaves are the empty source, feeds (a finite list or an endless
  sequence) and scripts, which interleave elements with moments at which
  nothing is ready; its inner nodes are suspensions, which only open when
  first polled, and composites, which run through their children.

  Every node carries a label of the caller's choice, so that a log of the calls
  made on a tree can tell its nodes apart.

  A composite remembers the child that was last found ready.  The tree holds it
  as a place in the list of children (`focused`, with the children before and
  after it), so the remembered place always lies in the list.
-/

namespace StructuralDiff

-- ============================================================================
-- Feeds
-- ============================================================================

/-- A sequence of elements, each of which is ready at once. -/
inductive Feed (α : Type) where
  /-- The elements of a list. -/
  | finite (rest : List α)
  /-- The elements `element start`, `element (start + 1)` and so on without
      end. -/
  | endless (element : Nat → α) (start : Nat)

namespace Feed

variable {α : Type}

/-- The first element and the feed behind it. -/
def next? : Feed α → Option (α × Feed α)
  | .finite [] => none
  | .finite (x :: rest) => some (x, .finite rest)
  | .endless element start => some (element start, .endless element (start + 1))

/-- The number of elements of a finite feed; an endless one counts as 0. -/
def extent : Feed α → Nat
  | .finite rest => rest.length
  | .endless _ _ => 0

end Feed

-- ============================================================================
-- Sources
-- ============================================================================

/-- What a source answers when polled. -/
inductive Status where
  /-- No element is left, now and for ever. -/
  | exhausted
  /-- An element can be taken now. -/
  | ready
  /-- Nothing is ready yet; poll again. -/
  | waiting
deriving DecidableEq, Inhabited

/-- Why no element could be taken. -/
inductive Fault where
  /-- The source is the empty one. -/
  | emptySource
  /-- The feed has run out. -/
  | feedEnded
  /-- The suspension was not opened yet. -/
  | unopened
  /-- No child of the composite is ready. -/
  | noReadyChild
  /-- The next step of the script is not an element. -/
  | notScripted
deriving DecidableEq, Inhabited

/-- The report of a fault. -/
def Fault.message : Fault → String
  | .emptySource => "no element in empty source"
  | .feedEnded => "no element ready in iterator source"
  | .unopened => "no element ready in suspended source"
  | .noReadyChild => "no element ready in composite element source"
  | .notScripted => "no element ready in scripted source"

/-- A tree of element sources with labels of type `κ` and elements of type
    `α`. -/
inductive Source (κ α : Type) where
  /-- The source without elements. -/
  | empty (label : κ)
  /-- The elements of a feed. -/
  | feed (label : κ) (elements : Feed α)
  /-- Steps to go through in order: an element, or a moment of waiting that is
      over once it was met. -/
  | scripted (label : κ) (steps : List (Option α))
  /-- A source that opens to `inner` when first polled.  The tree holds `inner`
      from the start and is finite.  This covers suspensions that open to further
      ones without end, since a finite run opens finitely many: leaving out what
      lies under more suspensions than the run has calls changes neither the
      answers nor the calls on the nodes (`Unending.observed_eq`). -/
  | suspended (label : κ) (inner : Source κ α)
  /-- A suspension that was opened. -/
  | opened (label : κ) (inner : Source κ α)
  /-- The children one after another; none of them was last found ready. -/
  | composite (label : κ) (children : List (Source κ α))
  /-- The children one after another, of which `active` was last found
      ready. -/
  | focused (label : κ) (before : List (Source κ α)) (active : Source κ α)
      (after : List (Source κ α))

namespace Source

variable {κ α : Type}

instance [Inhabited κ] : Inhabited (Source κ α) := ⟨.empty default⟩

/-- The elements of a list. -/
def ofList (label : κ) (xs : List α) : Source κ α := .feed label (.finite xs)

/-- One element alone. -/
def singleton (label : κ) (x : α) : Source κ α := ofList label [x]

/-- The label of the topmost node. -/
def label : Source κ α → κ
  | .empty l => l
  | .feed l _ => l
  | .scripted l _ => l
  | .suspended l _ => l
  | .opened l _ => l
  | .composite l _ => l
  | .focused l _ _ _ => l

/-- The children of a composite, in order. -/
def children? : Source κ α → Option (List (Source κ α))
  | .composite _ cs => some cs
  | .focused _ before c after => some (before ++ c :: after)
  | _ => none

/-- A composite with one more child behind the others. -/
def addChild? : Source κ α → (child : Source κ α) → Option (Source κ α)
  | .composite l cs, child => some (.composite l (cs ++ [child]))
  | .focused l before c after, child => some (.focused l before c (after ++ [child]))
  | _, _ => none

/-- A source with the same elements and fewer layers: a composite of at most one
    child and an opened suspension give way to what is inside. -/
def simplify : Source κ α → Source κ α
  | .composite l [] => .empty l
  | .composite _ [c] => c
  | .focused _ [] c [] => c
  | .opened _ inner => inner.simplify
  | s => s

-- ============================================================================
-- Measures
-- ============================================================================

mutual
/-- How many elements the finite leaves of a source still hold. -/
def held : Source κ α → Nat
  | .empty _ => 0
  | .feed _ f => f.extent
  | .scripted _ steps => (steps.filterMap id).length
  | .suspended _ inner => held inner
  | .opened _ inner => held inner
  | .composite _ cs => heldAll cs
  | .focused _ before c after => heldAll before + held c + heldAll after

/-- How many elements the finite leaves of some sources still hold. -/
def heldAll : List (Source κ α) → Nat
  | [] => 0
  | c :: cs => held c + heldAll cs
end

mutual
/-- How many moments of waiting a source has before it: the waiting steps of its
    scripts and its unopened suspensions. -/
def delays : Source κ α → Nat
  | .empty _ => 0
  | .feed _ _ => 0
  | .scripted _ steps => steps.countP Option.isNone
  | .suspended _ inner => delays inner + 1
  | .opened _ inner => delays inner
  | .composite _ cs => delaysAll cs
  | .focused _ before c after => delaysAll before + delays c + delaysAll after

/-- How many moments of waiting some sources have before them. -/
def delaysAll : List (Source κ α) → Nat
  | [] => 0
  | c :: cs => delays c + delaysAll cs
end

@[simp] theorem delaysAll_append (cs ds : List (Source κ α)) :
    delaysAll (cs ++ ds) = delaysAll cs + delaysAll ds := by
  induction cs with
  | nil => simp [delaysAll]
  | cons c cs ih => simp [delaysAll, ih, Nat.add_assoc]

-- ============================================================================
-- Text
-- ============================================================================

mutual
/-- The shape of a source as text. -/
def display : Source κ α → String
  | .empty _ => "EmptySource"
  | .feed _ _ => "Iter"
  | .scripted _ steps => "Scripted(" ++ toString steps.length ++ ")"
  | .suspended _ _ => "Suspended(...)"
  | .opened _ inner => "Suspended(" ++ display inner ++ ")"
  | .composite _ cs => "Composite(" ++ ", ".intercalate (displayAll cs) ++ ")"
  | .focused _ before c after =>
    "Composite(" ++ ", ".intercalate (displayAll before ++ display c :: displayAll after) ++ ")"

/-- The shapes of some sources as texts. -/
def displayAll : List (Source κ α) → List String
  | [] => []
  | c :: cs => display c :: displayAll cs
end

end Source
end StructuralDiff
