/-
  StructuralDiff.Proofs.Facts.Inserts

  A store of facts as the log of the insertions that succeeded.

  Any insertions may be attempted, with any catalogs.  Each success adds its
  row to the log and behind the rows of its name in the store; a failure
  changes neither.  So the rows of a name are those that the log has under it
  (`rows_attempts`), and a query, drained to its end, gives those of them that
  have the asked values at the bound positions.
-/

import StructuralDiff.FactBase
import StructuralDiff.Proofs.Source.Draining

namespace StructuralDiff

-- ============================================================================
-- Accepted arguments
-- ============================================================================

theorem Predicate.length_of_argumentsFit {args : List Binding} {tags : List Tag}
    (h : argumentsFit args tags) : args.length = tags.length := by
  induction args generalizing tags with
  | nil =>
    cases tags with
    | nil => rfl
    | cons t tags => cases h
  | cons b args ih =>
    cases tags with
    | nil => cases h
    | cons t tags =>
      rw [argumentsFit, Bool.and_eq_true] at h
      rw [List.length_cons, List.length_cons, ih h.2]

theorem Predicate.length_of_accepts {p : Predicate} {args : List Binding} (h : p.accepts args) :
    args.length = p.arity :=
  length_of_argumentsFit h

namespace FactBase

-- ============================================================================
-- One insertion
-- ============================================================================

/-- The row of ground arguments holds their values. -/
theorem values_of_groundRow {args : List Binding} {position : Nat} {row : Row}
    (h : groundRow position args = .ok row) : args.map Binding.groundValue? = row.map some := by
  induction args generalizing position row with
  | nil =>
    cases h
    rfl
  | cons b args ih =>
    rcases b with v | ⟨value, t⟩
    · cases h
    · rw [groundRow] at h
      cases hrest : groundRow (position + 1) args with
      | error i =>
        rw [hrest] at h
        cases h
      | ok rest =>
        rw [hrest] at h
        cases h
        exact congrArg _ (ih hrest)

/-- The row of a fact that a catalog accepts. -/
theorem of_checkedRow {catalog : Catalog} {name : String} {args : List Binding} {row : Row}
    (h : checkedRow catalog name args = .ok row) :
    ∃ p, catalog.find? name = some p ∧ p.accepts args ∧
      args.map Binding.groundValue? = row.map some := by
  rw [checkedRow] at h
  cases hp : catalog.find? name with
  | none =>
    rw [hp] at h
    cases h
  | some p =>
    rw [hp] at h
    simp only at h
    split at h
    · rename_i haccepts
      cases hrow : groundRow 0 args with
      | error i =>
        rw [hrow] at h
        cases h
      | ok row' =>
        rw [hrow] at h
        cases h
        exact ⟨p, rfl, haccepts, values_of_groundRow hrow⟩
    · cases h

theorem of_insert {db db' : FactBase} {catalog : Catalog} {name : String} {args : List Binding}
    (h : db.insert catalog name args = .ok db') :
    ∃ row, checkedRow catalog name args = .ok row ∧ db' = db.push name row := by
  rw [insert] at h
  cases hrow : checkedRow catalog name args with
  | error e =>
    rw [hrow] at h
    cases h
  | ok row =>
    rw [hrow] at h
    cases h
    exact ⟨row, rfl, rfl⟩

theorem rows_push (db : FactBase) (name : String) (row : Row) (n : String) :
    (db.push name row).rows n = db.rows n ++ if name = n then [row] else [] := by
  rw [rows, push, OrderedMap.find?_insert]
  split
  · rename_i hname
    rw [hname]
    rfl
  · exact (List.append_nil _).symm

-- ============================================================================
-- Any insertions
-- ============================================================================

/-- A fact to be inserted, and the catalog that has to accept it. -/
structure Insertion where
  catalog : Catalog
  name : String
  args : List Binding

/-- The values of the arguments. -/
def Insertion.values (i : Insertion) : Row := i.args.filterMap Binding.groundValue?

/-- The store after an attempt to insert; one that fails changes nothing. -/
def attempt (db : FactBase) (i : Insertion) : FactBase :=
  match db.insert i.catalog i.name i.args with
  | .ok db' => db'
  | .error _ => db

/-- The store after attempts made one after the other. -/
def attempts (db : FactBase) (is : List Insertion) : FactBase := is.foldl attempt db

/-- The names and the values of the insertions that succeed, in order. -/
def successes (db : FactBase) : List Insertion → List (String × Row)
  | [] => []
  | i :: is =>
    match db.insert i.catalog i.name i.args with
    | .ok db' => (i.name, i.values) :: db'.successes is
    | .error _ => db.successes is

/-- The rows that a log has under a name, in order. -/
def rowsUnder (log : List (String × Row)) (name : String) : List Row :=
  (log.filter (fun e => e.1 = name)).map Prod.snd

theorem rowsUnder_cons (name : String) (row : Row) (log : List (String × Row)) (n : String) :
    rowsUnder ((name, row) :: log) n = (if name = n then [row] else []) ++ rowsUnder log n := by
  by_cases h : name = n <;> simp [rowsUnder, h]

/-- The values of ground arguments are all that there is to their row. -/
theorem Insertion.values_eq {i : Insertion} {row : Row}
    (h : i.args.map Binding.groundValue? = row.map some) : i.values = row := by
  have hfilter := congrArg (List.filterMap id) h
  rwa [List.filterMap_map, List.filterMap_map, Function.id_comp, Function.id_comp,
    List.filterMap_some] at hfilter

/-- An insertion adds its values, as many as the predicate has arguments, or
    changes nothing. -/
theorem insert_cases (db : FactBase) (i : Insertion) :
    (db.insert i.catalog i.name i.args = .ok (db.push i.name i.values) ∧
      ∃ p, i.catalog.find? i.name = some p ∧ i.values.length = p.arity) ∨
    ∃ e, db.insert i.catalog i.name i.args = .error e := by
  cases h : db.insert i.catalog i.name i.args with
  | error e => exact .inr ⟨e, rfl⟩
  | ok db' =>
    obtain ⟨row, hrow, rfl⟩ := of_insert h
    obtain ⟨p, hp, haccepts, hvalues⟩ := of_checkedRow hrow
    have hrow' : i.values = row := Insertion.values_eq hvalues
    have hlength : row.length = i.args.length := by
      have hmap := congrArg List.length hvalues
      rwa [List.length_map, List.length_map, eq_comm] at hmap
    refine .inl ⟨by rw [hrow'], p, hp, ?_⟩
    rw [hrow', hlength, Predicate.length_of_accepts haccepts]

/-- The rows of a name are those that the log of the successes has under it. -/
theorem rows_attempts (db : FactBase) (is : List Insertion) (name : String) :
    (db.attempts is).rows name = db.rows name ++ rowsUnder (db.successes is) name := by
  induction is generalizing db with
  | nil => exact (List.append_nil _).symm
  | cons i is ih =>
    show ((db.attempt i).attempts is).rows name = _
    rw [ih, attempt, successes]
    rcases insert_cases db i with ⟨hok, -⟩ | ⟨e, herror⟩
    · rw [hok]
      simp only
      rw [rows_push, rowsUnder_cons, List.append_assoc]
    · rw [herror]

/-- A row in the log has as many values as the predicate of its name has
    arguments, in the catalog that accepted it. -/
theorem length_of_mem_successes {db : FactBase} {is : List Insertion} {name : String} {row : Row}
    (h : (name, row) ∈ db.successes is) :
    ∃ i ∈ is, ∃ p, i.catalog.find? name = some p ∧ row.length = p.arity := by
  induction is generalizing db with
  | nil => cases h
  | cons i is ih =>
    rw [successes] at h
    rcases insert_cases db i with ⟨hok, p, hp, hlength⟩ | ⟨e, herror⟩
    · rw [hok] at h
      rcases List.mem_cons.mp h with heq | hmem
      · cases heq
        exact ⟨i, List.mem_cons_self, p, hp, hlength⟩
      · obtain ⟨j, hj, hpredicate⟩ := ih hmem
        exact ⟨j, List.mem_cons_of_mem i hj, hpredicate⟩
    · rw [herror] at h
      obtain ⟨j, hj, hpredicate⟩ := ih h
      exact ⟨j, List.mem_cons_of_mem i hj, hpredicate⟩

-- ============================================================================
-- Queries
-- ============================================================================

/-- The row has the asked value at each bound position. -/
def Answers (pattern : Pattern) (row : Row) : Prop :=
  ∀ (i : Nat) (value : String), pattern[i]? = some (some value) → row[i]? = some value

theorem answers_cons_none (pattern : Pattern) (row : Row) :
    Answers (none :: pattern) row ↔ Answers pattern row.tail := by
  constructor
  · intro h i value hi
    rw [List.getElem?_tail]
    exact h (i + 1) value hi
  · intro h i value hi
    cases i with
    | zero => cases hi
    | succ i =>
      rw [← List.getElem?_tail]
      exact h i value hi

theorem answers_cons_some (asked : String) (pattern : Pattern) (row : Row) :
    Answers (some asked :: pattern) row ↔ row[0]? = some asked ∧ Answers pattern row.tail := by
  rw [← answers_cons_none]
  constructor
  · intro h
    refine ⟨h 0 asked rfl, fun i value hi => ?_⟩
    cases i with
    | zero => cases hi
    | succ i => exact h (i + 1) value hi
  · rintro ⟨hfirst, h⟩ i value hi
    cases i with
    | zero =>
      cases hi
      exact hfirst
    | succ i => exact h (i + 1) value hi

theorem matchesRow_iff (pattern : Pattern) (row : Row) :
    matchesRow pattern row ↔ Answers pattern row := by
  fun_induction matchesRow pattern row with
  | case1 row => simp [Answers]
  | case2 row pattern ih => rw [ih, answers_cons_none]
  | case3 asked pattern => simp [answers_cons_some]
  | case4 asked pattern x row ih => simp [answers_cons_some, ih]

instance (pattern : Pattern) : DecidablePred (Answers pattern) := fun row =>
  decidable_of_iff _ (matchesRow_iff pattern row)

theorem filter_matchesRow (pattern : Pattern) (table : List Row) :
    table.filter (matchesRow pattern) = table.filter (Answers pattern) := by
  apply List.filter_congr
  intro row _
  rw [Bool.eq_iff_iff, matchesRow_iff, decide_eq_true_iff]

/-- A query drains to the rows of its name that answer its pattern. -/
theorem drains_query (db : FactBase) (name : String) (pattern : Pattern) :
    let rows := (db.rows name).filter (Answers pattern)
    let drained := (db.query name pattern).drainAll
    drained.elements = rows ∧ drained.fault = none ∧
      ∃ n, (db.query name pattern).Drains rows n drained.source := by
  intro rows drained
  have hquery : ∃ n t, (db.query name pattern).Drains rows n t ∧
      rows.length ≤ (db.query name pattern).held := by
    simp only [rows, FactBase.rows, query]
    cases db.tables.find? name with
    | none => exact ⟨1, .empty name, .done rfl, Nat.zero_le _⟩
    | some table =>
      simp only [Option.getD_some, ← filter_matchesRow]
      exact ⟨_, _, Source.drains_ofList name _, Nat.le_refl _⟩
  obtain ⟨n, t, hdrains, hheld⟩ := hquery
  obtain ⟨helements, hfault, hsource⟩ := hdrains.drainAll_eq hheld
  exact ⟨helements, hfault, n, hsource ▸ hdrains⟩

-- ============================================================================
-- What the store holds
-- ============================================================================

theorem rows_of_empty (is : List Insertion) (name : String) :
    (empty.attempts is).rows name = rowsUnder (empty.successes is) name :=
  rows_attempts empty is name

/-- Where all insertions use one catalog, the rows of a name are as long as the
    arguments of its predicate. -/
theorem length_of_mem_rows {is : List Insertion} {catalog : Catalog}
    (hcatalog : ∀ i ∈ is, i.catalog = catalog) {name : String} {row : Row}
    (hrow : row ∈ (empty.attempts is).rows name) :
    ∃ p, catalog.find? name = some p ∧ row.length = p.arity := by
  rw [rows_of_empty, rowsUnder] at hrow
  obtain ⟨⟨n, row'⟩, hmem, rfl⟩ := List.mem_map.mp hrow
  obtain ⟨hlog, hname⟩ := List.mem_filter.mp hmem
  have hn : n = name := of_decide_eq_true hname
  rw [hn] at hlog
  obtain ⟨i, hi, p, hp, hlength⟩ := length_of_mem_successes hlog
  rw [hcatalog i hi] at hp
  exact ⟨p, hp, hlength⟩

/-- A row does not answer a pattern that asks for a value behind its end. -/
theorem not_answers_of_length_le {pattern : Pattern} {row : Row} {i : Nat} {value : String}
    (hasked : pattern[i]? = some (some value)) (hi : row.length ≤ i) : ¬ Answers pattern row := by
  intro h
  have hvalue := h i value hasked
  rw [List.getElem?_eq_none hi] at hvalue
  cases hvalue

/-- **The store holds the log of successful insertions.**  Whatever insertions
    are attempted, a query drains, in finitely many polls and without a fault,
    to the rows that the log has under its name and that have the asked values
    at the bound positions, in the order of the log; and the count of a name is
    the number of its rows in the log.  Where all insertions use one catalog,
    each row is as long as the arguments of the predicate of its name, and a
    query that asks for a value behind them gives nothing. -/
theorem attempts_hold_successes (is : List Insertion) :
    let db := empty.attempts is
    let log := empty.successes is
    (∀ name pattern,
      let found := (rowsUnder log name).filter (Answers pattern)
      let drained := (db.query name pattern).drainAll
      drained.elements = found ∧ drained.fault = none ∧
        ∃ n, (db.query name pattern).Drains found n drained.source) ∧
    (∀ name, db.count name = (rowsUnder log name).length) ∧
    ∀ catalog : Catalog, (∀ i ∈ is, i.catalog = catalog) → ∀ name,
      (∀ row ∈ db.rows name, ∃ p, catalog.find? name = some p ∧ row.length = p.arity) ∧
      ∀ p, catalog.find? name = some p → ∀ (pattern : Pattern) (i : Nat) (value : String),
        pattern[i]? = some (some value) → p.arity ≤ i →
          (db.query name pattern).drainAll.elements = [] := by
  intro db log
  refine ⟨fun name pattern => ?_, fun name => ?_, fun catalog hcatalog name => ⟨?_, ?_⟩⟩
  · have hdrains := drains_query db name pattern
    rwa [rows_of_empty is name] at hdrains
  · rw [count, rows_of_empty is name]
  · intro row hrow
    exact length_of_mem_rows hcatalog hrow
  · intro p hp pattern i value hasked hi
    rw [(drains_query db name pattern).1, List.filter_eq_nil_iff]
    intro row hrow
    obtain ⟨q, hq, hlength⟩ := length_of_mem_rows hcatalog hrow
    have hqp : q = p := Option.some.inj (hq.symm.trans hp)
    have hend : row.length ≤ i := by
      rw [hlength, hqp]
      exact hi
    exact mt of_decide_eq_true (not_answers_of_length_le hasked hend)

namespace Sample

def catalog : Catalog := .ofRegistrations [("calls", "mm"), ("field", "f")]

/-- Of four insertions the second has too few arguments and the third has an
    unknown name. -/
def insertions : List Insertion :=
  [⟨catalog, "calls", [.ground "A.run" .method, .ground "B.go" .method]⟩,
    ⟨catalog, "calls", [.ground "A.run" .method]⟩,
    ⟨catalog, "bogus", []⟩,
    ⟨catalog, "calls", [.ground "C.stop" .method, .ground "go" .methodName]⟩]

end Sample

open Sample in
theorem attempts_hold_successes_calls :
    empty.successes insertions = [("calls", ["A.run", "B.go"]), ("calls", ["C.stop", "go"])] ∧
    ((empty.attempts insertions).query "calls" [some "A.run"]).drainAll.elements =
      [["A.run", "B.go"]] ∧
    (empty.attempts insertions).count "calls" = 2 ∧
    (∀ i ∈ insertions, i.catalog = catalog) ∧
    (∃ p, catalog.find? "calls" = some p ∧ p.arity = 2) ∧
    ((empty.attempts insertions).query "calls" [none, none, some "go"]).drainAll.elements = [] := by
  have hlog : empty.successes insertions =
      [("calls", ["A.run", "B.go"]), ("calls", ["C.stop", "go"])] := rfl
  have hcatalog : ∀ i ∈ insertions, i.catalog = catalog := by
    intro i hi
    simp only [insertions, List.mem_cons, List.not_mem_nil, or_false] at hi
    rcases hi with rfl | rfl | rfl | rfl <;> rfl
  have hp : catalog.find? "calls" = some ⟨"calls", [.method, .method], by simp⟩ := rfl
  obtain ⟨hquery, hcount, hlength⟩ := attempts_hold_successes insertions
  have hend := (hlength catalog hcatalog "calls").2 _ hp [none, none, some "go"] 2 "go" rfl
    (Nat.le_refl 2)
  exact ⟨hlog, (hquery "calls" [some "A.run"]).1, hcount "calls", hcatalog, ⟨_, hp, rfl⟩, hend⟩

end FactBase
end StructuralDiff
