/-
  StructuralDiff.Proofs.Facts.Families

  Queries for several names.

  Such a query runs through the queries for the single names, in a composite
  that is simplified before it is handed out: it is the empty source, a single
  query or a composite, in which children without facts stand in any places.
  All three are prompt and hold the same elements one behind the other, so that
  the shape does not show when they are drained.
-/

import StructuralDiff.Proofs.Facts.Inserts
import StructuralDiff.Proofs.Source.Concatenation

namespace StructuralDiff
namespace FactBase

-- ============================================================================
-- The queries for the single names
-- ============================================================================

/-- The rows of a name that answer a pattern, oldest first. -/
def answering (db : FactBase) (pattern : Pattern) (name : String) : List Row :=
  (db.rows name).filter (Answers pattern)

theorem prompt_query (db : FactBase) (name : String) (pattern : Pattern) :
    (db.query name pattern).Prompt := by
  rw [query]
  cases db.tables.find? name with
  | none => exact .empty name
  | some rows => exact .feed name _

/-- A query is a single leaf that holds the rows it will give. -/
theorem contain_query (db : FactBase) (name : String) (pattern : Pattern) :
    Contain (db.query name pattern).leaves [db.answering pattern name] := by
  rw [query, answering, rows]
  cases db.tables.find? name with
  | none => exact congrArg (fun q => [q]) Stream'.Seq.ofList_nil.symm
  | some rows =>
    show Contain (Source.ofList name (rows.filter (matchesRow pattern))).leaves _
    rw [filter_matchesRow]
    rfl

theorem contain_queries (db : FactBase) (names : List String) (pattern : Pattern) :
    Contain (Source.leavesAll (names.map fun name => db.query name pattern))
      (names.map (db.answering pattern)) := by
  induction names with
  | nil => rfl
  | cons name names ih =>
    have hfirst := contain_query db name pattern
    rw [Contain] at hfirst ih ⊢
    rw [List.map_cons, Source.leavesAll, List.map_append, hfirst, ih]
    rfl

-- ============================================================================
-- The query for all of them
-- ============================================================================

theorem prompt_queryAll (db : FactBase) (names : List String) (pattern : Pattern) :
    (db.queryAll names pattern).Prompt := by
  apply Source.Prompt.simplify
  apply Source.Prompt.composite
  intro c hc
  obtain ⟨name, -, rfl⟩ := List.mem_map.mp hc
  exact prompt_query db name pattern

/-- Whatever shape it has, the query holds the rows of all names. -/
theorem contain_queryAll (db : FactBase) (names : List String) (pattern : Pattern) :
    ∃ xss, Contain (db.queryAll names pattern).leaves xss ∧
      xss.flatten = names.flatMap (db.answering pattern) := by
  obtain ⟨xss, hxss, hflat⟩ := Source.contain_simplify (s := .composite "" _)
    (contain_queries db names pattern)
  exact ⟨xss, hxss, hflat.trans List.flatMap_def.symm⟩

/-- **A query for several names is the concatenation of the queries for each.**
    For all names, known or not, with facts or without, and also repeated ones,
    the query drains, in finitely many polls and without a fault, to what the
    queries for the single names drain to, in the order of the names.  A drain
    that is broken off has given the first of these rows. -/
theorem queryAll_concatenates (db : FactBase) (names : List String) (pattern : Pattern) :
    let family := db.queryAll names pattern
    let found := names.flatMap fun name => (db.query name pattern).drainAll.elements
    family.drainAll.elements = found ∧ family.drainAll.fault = none ∧
      (∃ n, family.Drains found n family.drainAll.source) ∧
      ∀ n, (family.drain n).elements = found.take n ∧ (family.drain n).fault = none := by
  intro family found
  have hprompt := prompt_queryAll db names pattern
  obtain ⟨xss, hxss, hflat⟩ := contain_queryAll db names pattern
  have hfound : xss.flatten = found := by
    rw [hflat]
    apply List.flatMap_congr
    intro name _
    exact (drains_query db name pattern).1.symm
  obtain ⟨helements, hfault, hdrains⟩ := hprompt.drainAll_of_contain hxss
  rw [hfound] at helements hdrains
  refine ⟨helements, hfault, hdrains, fun n => ?_⟩
  rw [← hfound]
  exact hprompt.drain_of_contain hxss n

end FactBase
end StructuralDiff
