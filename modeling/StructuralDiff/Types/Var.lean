/-
  StructuralDiff.Types.Var

  Logic variables.  A variable is told apart by its number alone; the name it
  carries is there for the reader.  Numbers come from a `VarSupply`, a counter
  that only grows, so a variable just drawn differs from every earlier one.
-/

namespace StructuralDiff

/-- A logic variable: a descriptive name and the number that sets it apart. -/
structure Var where
  /-- What the reader sees. -/
  name : String
  /-- The number under which the variable was created. -/
  id : Nat
deriving DecidableEq, Inhabited

namespace Var

/-- The text of a variable for the reader. -/
def display (x : Var) : String := "?" ++ x.name

/-- The text of a variable with its number, which tells namesakes apart. -/
def displayWithId (x : Var) : String := x.name ++ "#" ++ toString x.id

/-- Variables stand in the order of their names, namesakes in the order in which
    they were created. -/
def order (x y : Var) : Ordering := (compare x.name y.name).then (compare x.id y.id)

end Var

/-- The counter from which the numbers of new variables are drawn. -/
structure VarSupply where
  /-- The number that the next variable gets. -/
  next : Nat
deriving DecidableEq, Inhabited

namespace VarSupply

/-- The counter before any variable was created. -/
def initial : VarSupply := ⟨0⟩

/-- Draw a new variable called `name`. -/
def fresh (s : VarSupply) (name : String) : Var × VarSupply :=
  (⟨name, s.next⟩, ⟨s.next + 1⟩)

end VarSupply
end StructuralDiff
