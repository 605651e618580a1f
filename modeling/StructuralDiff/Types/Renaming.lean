/-
  StructuralDiff.Types.Renaming

  Copying types with new variables.  A `Renaming` remembers which variable
  already stands for which, so that every occurrence within one copy becomes
  the same new variable, and it carries the supply from which new variables
  are drawn.
-/

import StructuralDiff.OrderedMap
import StructuralDiff.Types.Ty

namespace StructuralDiff

/-- The state of a copy in progress. -/
structure Renaming where
  /-- The new variable of every variable met so far. -/
  targets : OrderedMap Var Var
  /-- Where the next new variable comes from. -/
  supply : VarSupply
deriving Inhabited

namespace Renaming

/-- The copy that has met no variable yet. -/
def start (supply : VarSupply) : Renaming := ⟨.empty, supply⟩

/-- Forget which variables were met; the supply goes on. -/
def forget (r : Renaming) : Renaming := start r.supply

/-- The variable that stands for `x`: the one chosen before, else a new one of
    the same name. -/
def renameVar (r : Renaming) (x : Var) : Var × Renaming :=
  match r.targets.find? x with
  | some y => (y, r)
  | none =>
    let (y, supply) := r.supply.fresh x.name
    (y, ⟨r.targets.insert x y, supply⟩)

mutual
/-- Copy a type, its variables renamed in the order in which they stand. -/
def renameTy (r : Renaming) : Ty → Ty × Renaming
  | .atomic n => (.atomic n, r)
  | .var x =>
    let (y, r') := r.renameVar x
    (.var y, r')
  | .tuple ts =>
    let (ts', r') := renameTys r ts
    (.tuple ts', r')
  | .composite c ts =>
    let (ts', r') := renameTys r ts
    (.composite c ts', r')

/-- Copy the types of a list from left to right. -/
def renameTys (r : Renaming) : List Ty → List Ty × Renaming
  | [] => ([], r)
  | t :: ts =>
    let (t', r') := renameTy r t
    let (ts', r'') := renameTys r' ts
    (t' :: ts', r'')
end

/-- Copy a composite type. -/
def renameComposite (r : Renaming) (c : CompositeTy) : CompositeTy × Renaming :=
  let (args, r') := r.renameTys c.args
  (⟨c.former, args⟩, r')

end Renaming
end StructuralDiff
