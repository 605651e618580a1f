/-
  StructuralDiff.Proofs.Facts.Refusals

  When a fact is refused, for which reason, and what an attempt to insert it
  changes.

  `Refused` gives the three reasons in the order in which they count: the
  catalog does not know the name, the arguments do not suit the signature, an
  argument is a variable.  It speaks of arguments by their positions, and the
  checks run through the lists: `argumentsFit_iff` and `groundRow_eq_error_iff`
  lead from one to the other.  Main statement: an insertion ends with an error
  exactly if it is refused for this reason, and nothing but a success changes the
  store, by one row.
-/

import Mathlib.Data.Nat.Find
import StructuralDiff.Proofs.Facts.Inserts

namespace StructuralDiff

-- ============================================================================
-- Arguments that do not suit a predicate
-- ============================================================================

namespace Predicate

/-- There are too many or too few arguments, or one of them denotes another
    entity than the tag at its position. -/
def Mistyped (p : Predicate) (args : List Binding) : Prop :=
  args.length ≠ p.arity ∨
    ∃ (i : Nat) (b : Binding) (t : Tag),
      args[i]? = some b ∧ p.signature[i]? = some t ∧ b.tag.entity ≠ t.entity

theorem argumentsFit_iff (args : List Binding) (tags : List Tag) :
    argumentsFit args tags ↔ args.length = tags.length ∧
      ∀ (i : Nat) (b : Binding) (t : Tag),
        args[i]? = some b → tags[i]? = some t → b.tag.entity = t.entity := by
  induction args generalizing tags with
  | nil => cases tags <;> simp [argumentsFit]
  | cons b args ih =>
    cases tags with
    | nil => simp [argumentsFit]
    | cons t tags =>
      rw [argumentsFit, Bool.and_eq_true, ih, List.length_cons, List.length_cons, Nat.succ_inj]
      constructor
      · rintro ⟨hfirst, hlength, hrest⟩
        refine ⟨hlength, fun i c u hc hu => ?_⟩
        cases i with
        | zero =>
          cases hc
          cases hu
          exact beq_iff_eq.mp hfirst
        | succ i => exact hrest i c u hc hu
      · rintro ⟨hlength, hall⟩
        refine ⟨beq_iff_eq.mpr (hall 0 b t rfl rfl), hlength, fun i c u hc hu => ?_⟩
        exact hall (i + 1) c u hc hu

theorem accepts_iff (p : Predicate) (args : List Binding) : p.accepts args ↔ ¬ p.Mistyped args := by
  rw [accepts, argumentsFit_iff, Mistyped, not_or, not_not]
  apply and_congr_right
  intro _
  constructor
  · rintro hall ⟨i, b, t, hb, ht, hne⟩
    exact hne (hall i b t hb ht)
  · intro hnone i b t hb ht
    by_contra hne
    exact hnone ⟨i, b, t, hb, ht, hne⟩

end Predicate

-- ============================================================================
-- Arguments that are variables
-- ============================================================================

/-- The argument at position `i` is a variable. -/
def VariableAt (args : List Binding) (i : Nat) : Prop := ∃ v, args[i]? = some (.variable v)

/-- The argument at position `i` is a variable, and none before it is. -/
def FirstVariableAt (args : List Binding) (i : Nat) : Prop :=
  VariableAt args i ∧ ∀ j < i, ¬ VariableAt args j

variable {args : List Binding} {i : Nat}

theorem not_variableAt_nil : ¬ VariableAt [] i := by
  rintro ⟨v, hv⟩
  cases hv

theorem firstVariableAt_cons_variable {v : Variable} :
    FirstVariableAt (.variable v :: args) i ↔ i = 0 := by
  have hfirst : VariableAt (.variable v :: args) 0 := ⟨v, rfl⟩
  constructor
  · rintro ⟨-, hnone⟩
    by_contra hi
    exact hnone 0 (Nat.pos_of_ne_zero hi) hfirst
  · rintro rfl
    exact ⟨hfirst, fun j hj => absurd hj (Nat.not_lt_zero j)⟩

theorem firstVariableAt_cons_ground {value : String} {t : Tag} :
    FirstVariableAt (.ground value t :: args) i ↔ ∃ j, FirstVariableAt args j ∧ i = j + 1 := by
  have hfirst : ¬ VariableAt (.ground value t :: args) 0 := by
    rintro ⟨v, hv⟩
    cases hv
  constructor
  · rintro ⟨hi, hnone⟩
    cases i with
    | zero => exact absurd hi hfirst
    | succ j => exact ⟨j, ⟨hi, fun k hk => hnone (k + 1) (Nat.succ_lt_succ hk)⟩, rfl⟩
  · rintro ⟨j, ⟨hj, hnone⟩, rfl⟩
    refine ⟨hj, fun k hk => ?_⟩
    cases k with
    | zero => exact hfirst
    | succ k => exact hnone k (Nat.lt_of_succ_lt_succ hk)

theorem exists_firstVariableAt (h : VariableAt args i) : ∃ j, FirstVariableAt args j := by
  classical
  have hsome : ∃ j, VariableAt args j := ⟨i, h⟩
  exact ⟨Nat.find hsome, Nat.find_spec hsome, fun j hj => Nat.find_min hsome hj⟩

namespace FactBase

/-- The check for variables stops at the first one. -/
theorem groundRow_eq_error_iff (args : List Binding) (position k : Nat) :
    groundRow position args = .error k ↔ ∃ i, FirstVariableAt args i ∧ k = position + i := by
  induction args generalizing position with
  | nil =>
    constructor
    · intro h
      cases h
    · rintro ⟨i, hi, -⟩
      exact absurd hi.1 not_variableAt_nil
  | cons b args ih =>
    rcases b with v | ⟨value, t⟩
    · rw [groundRow, Except.error.injEq]
      simp only [firstVariableAt_cons_variable, exists_eq_left, Nat.add_zero]
      exact eq_comm
    · have hrest : groundRow position (.ground value t :: args) = .error k ↔
          groundRow (position + 1) args = .error k := by
        rw [groundRow]
        cases groundRow (position + 1) args <;> simp
      rw [hrest, ih]
      simp only [firstVariableAt_cons_ground]
      constructor
      · rintro ⟨i, hi, rfl⟩
        exact ⟨i + 1, ⟨i, hi, rfl⟩, by omega⟩
      · rintro ⟨_, ⟨i, hi, rfl⟩, rfl⟩
        exact ⟨i, hi, by omega⟩

-- ============================================================================
-- Refused insertions
-- ============================================================================

/-- The reason for which an insertion is refused: the first of three that
    applies. -/
inductive Insertion.Refused (i : Insertion) : FactError → Prop where
  /-- The catalog does not know the name. -/
  | unknown (h : i.catalog.find? i.name = none) : i.Refused (.unknownPredicate i.name)
  /-- The arguments do not suit the predicate of that name. -/
  | illTyped {p : Predicate} (h : i.catalog.find? i.name = some p) (hargs : p.Mistyped i.args) :
      i.Refused (.illTyped p)
  /-- They suit it, and the first one that is a variable stands at the position
      named. -/
  | notGround {p : Predicate} {n : Nat} (h : i.catalog.find? i.name = some p)
      (hargs : ¬ p.Mistyped i.args) (hn : FirstVariableAt i.args n) : i.Refused (.notGround i.name n)

theorem refused_of_checkedRow {i : Insertion} {e : FactError}
    (h : checkedRow i.catalog i.name i.args = .error e) : i.Refused e := by
  rw [checkedRow] at h
  cases hp : i.catalog.find? i.name with
  | none =>
    rw [hp] at h
    cases h
    exact .unknown hp
  | some p =>
    rw [hp] at h
    simp only at h
    split at h
    case isFalse hrejects =>
      cases h
      have hmistyped : ¬¬ p.Mistyped i.args := mt (p.accepts_iff i.args).mpr hrejects
      exact .illTyped hp (not_not.mp hmistyped)
    case isTrue haccepts =>
      have hsuits := (p.accepts_iff i.args).mp haccepts
      cases hrow : groundRow 0 i.args with
      | ok row =>
        rw [hrow] at h
        cases h
      | error n =>
        rw [hrow] at h
        cases h
        obtain ⟨m, hm, hn⟩ := (groundRow_eq_error_iff i.args 0 n).mp hrow
        rw [Nat.zero_add] at hn
        subst hn
        exact .notGround hp hsuits hm

theorem Insertion.Refused.checkedRow_eq {i : Insertion} {e : FactError} (h : i.Refused e) :
    checkedRow i.catalog i.name i.args = .error e := by
  rw [checkedRow]
  cases h with
  | unknown hp => rw [hp]
  | @illTyped p hp hargs =>
    rw [hp]
    exact if_neg fun haccepts => (p.accepts_iff i.args).mp haccepts hargs
  | @notGround p n hp hargs hn =>
    have hrow : groundRow 0 i.args = .error n :=
      (groundRow_eq_error_iff i.args 0 n).mpr ⟨n, hn, (Nat.zero_add n).symm⟩
    rw [hp]
    simp only [(p.accepts_iff i.args).mpr hargs, if_true, hrow]

theorem insert_eq_error_iff (db : FactBase) (i : Insertion) (e : FactError) :
    db.insert i.catalog i.name i.args = .error e ↔ i.Refused e := by
  have hchecked : checkedRow i.catalog i.name i.args = .error e ↔ i.Refused e :=
    ⟨refused_of_checkedRow, fun h => h.checkedRow_eq⟩
  rw [← hchecked, insert]
  cases checkedRow i.catalog i.name i.args <;> simp

/-- An insertion is refused if any of the three reasons applies. -/
theorem exists_refused_iff (i : Insertion) :
    (∃ e, i.Refused e) ↔ i.catalog.find? i.name = none ∨
      (∃ p, i.catalog.find? i.name = some p ∧ p.Mistyped i.args) ∨ ∃ n, VariableAt i.args n := by
  constructor
  · rintro ⟨e, h⟩
    cases h with
    | unknown hp => exact .inl hp
    | illTyped hp hargs => exact .inr (.inl ⟨_, hp, hargs⟩)
    | notGround hp hargs hn => exact .inr (.inr ⟨_, hn.1⟩)
  · intro h
    cases hp : i.catalog.find? i.name with
    | none => exact ⟨_, .unknown hp⟩
    | some p =>
      by_cases hargs : p.Mistyped i.args
      · exact ⟨_, .illTyped hp hargs⟩
      · rcases h with hnone | ⟨q, hq, hmistyped⟩ | ⟨n, hn⟩
        · rw [hp] at hnone
          cases hnone
        · rw [hp] at hq
          cases hq
          exact absurd hmistyped hargs
        · obtain ⟨m, hm⟩ := exists_firstVariableAt hn
          exact ⟨_, .notGround hp hargs hm⟩

-- ============================================================================
-- What an attempt changes
-- ============================================================================

theorem attempt_of_error {db : FactBase} {i : Insertion} {e : FactError}
    (h : db.insert i.catalog i.name i.args = .error e) : db.attempt i = db := by
  rw [attempt, h]

theorem attempt_of_ok {db stored : FactBase} {i : Insertion}
    (h : db.insert i.catalog i.name i.args = .ok stored) : db.attempt i = stored := by
  rw [attempt, h]

theorem count_push (db : FactBase) (name : String) (row : Row) (n : String) :
    (db.push name row).count n = db.count n + if name = n then 1 else 0 := by
  rw [count, rows_push, List.length_append, count]
  by_cases h : name = n <;> simp [h]

/-- What an insertion that succeeds stores. -/
theorem stored_of_insert {db stored : FactBase} {i : Insertion}
    (h : db.insert i.catalog i.name i.args = .ok stored) :
    stored = db.push i.name i.values ∧ i.args.map Binding.groundValue? = i.values.map some := by
  obtain ⟨row, hrow, rfl⟩ := of_insert h
  obtain ⟨p, -, -, hvalues⟩ := of_checkedRow hrow
  rw [Insertion.values_eq hvalues]
  exact ⟨rfl, hvalues⟩

/-- A query finds one row more, behind the others, if it is for the name of the
    row and the row answers the pattern. -/
theorem drainAll_query_push (db : FactBase) (name : String) (row : Row) (n : String)
    (pattern : Pattern) :
    ((db.push name row).query n pattern).drainAll.elements =
      (db.query n pattern).drainAll.elements ++
        if name = n ∧ Answers pattern row then [row] else [] := by
  rw [(drains_query _ n pattern).1, (drains_query db n pattern).1, rows_push, List.filter_append]
  by_cases h : name = n <;> by_cases hrow : Answers pattern row <;> simp [h, hrow]

/-- **Inserting is atomic and gives the first reason that applies.**  An attempt
    to insert a fact ends with an error exactly if the insertion is refused for
    this reason, that is, if the catalog does not know the name, or the
    arguments do not suit the signature, or one of them is a variable.  After an
    error, the counts of all names are as before, and so is what all queries
    drain to.  Otherwise the arguments are ground, and the store differs by the
    row of their values, which stands behind the others of its name: the count
    of that name is one more, the queries for it whose pattern the row answers
    find it at the end, and for all other names there is no difference. -/
theorem insert_atomic (db : FactBase) (i : Insertion) :
    let result := db.insert i.catalog i.name i.args
    let later := db.attempt i
    (∀ e, result = .error e ↔ i.Refused e) ∧
    ((∃ e, result = .error e) ↔ i.catalog.find? i.name = none ∨
      (∃ p, i.catalog.find? i.name = some p ∧ p.Mistyped i.args) ∨ ∃ n, VariableAt i.args n) ∧
    ((∃ e, result = .error e) → ∀ name, later.count name = db.count name ∧
      ∀ pattern, (later.query name pattern).drainAll.elements =
        (db.query name pattern).drainAll.elements) ∧
    (∀ stored, result = .ok stored → later = stored ∧
      i.args.map Binding.groundValue? = i.values.map some ∧
      ∀ name, later.count name = db.count name + (if i.name = name then 1 else 0) ∧
        ∀ pattern, (later.query name pattern).drainAll.elements =
          (db.query name pattern).drainAll.elements ++
            if i.name = name ∧ Answers pattern i.values then [i.values] else []) ∧
    ∀ name pattern, (later.query name pattern).drainAll.fault = none := by
  intro result later
  have herror : ∀ e, result = .error e ↔ i.Refused e := insert_eq_error_iff db i
  refine ⟨herror, ?_, ?_, ?_, ?_⟩
  · simp only [herror]
    exact exists_refused_iff i
  · rintro ⟨e, he⟩
    have hlater : later = db := attempt_of_error he
    rw [hlater]
    exact fun name => ⟨rfl, fun pattern => rfl⟩
  · intro stored hstored
    have hlater : later = stored := attempt_of_ok hstored
    obtain ⟨hpush, hvalues⟩ := stored_of_insert hstored
    rw [hlater, hpush]
    refine ⟨rfl, hvalues, fun name => ⟨count_push db i.name i.values name, fun pattern => ?_⟩⟩
    exact drainAll_query_push db i.name i.values name pattern
  · intro name pattern
    exact (drains_query later name pattern).2.1

end FactBase
end StructuralDiff
