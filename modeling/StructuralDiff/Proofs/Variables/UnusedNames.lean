/-
  StructuralDiff.Proofs.Variables.UnusedNames

  The search for a name that no variable in use has.

  Numbers give different names (`numbered_injective`), so of one more number
  than there are variables in use, one gives an unused name
  (`exists_unused_candidate`).  The search through all numbers, which has no end
  of its own (`Stops`), therefore ends among the candidates, and there it ends
  with the one that `unusedName` takes (`unusedName_spec`).

  For requests made one after the other, each of which is told all variables
  that were given before: no name is given twice, and none is a name in use.
-/

import Mathlib.Data.List.Nodup
import Mathlib.Data.List.Perm.Subperm
import StructuralDiff.Binding

namespace StructuralDiff.Variable

variable {stem : String} {inUse : List Variable} {m n : Nat}

-- ============================================================================
-- Numbered names
-- ============================================================================

theorem numbered_injective (stem : String) : Function.Injective (numbered stem) := by
  intro m n h
  have hrepr : m.repr = n.repr := (String.append_right_inj stem).mp h
  have hdigits : Nat.toDigits 10 m = Nat.toDigits 10 n := by
    rw [← Nat.toList_repr, hrepr, Nat.toList_repr]
  -- digits can be read back
  calc m
      = Nat.ofDigitChars 10 (Nat.toDigits 10 m) 0 := Nat.ofDigitChars_ten_toDigits.symm
    _ = Nat.ofDigitChars 10 (Nat.toDigits 10 n) 0 := by rw [hdigits]
    _ = n := Nat.ofDigitChars_ten_toDigits

theorem numbered_ne_empty (stem : String) (n : Nat) : numbered stem n ≠ "" := by
  intro h
  have hrepr : n.repr = "" := (String.append_eq_empty_iff.mp h).2
  exact Nat.repr_ne_empty hrepr

/-- No variable in use has the name that `n` gives. -/
def Unused (stem : String) (inUse : List Variable) (n : Nat) : Prop :=
  ∀ v ∈ inUse, v.name ≠ numbered stem n

theorem all_bne_iff (n : Nat) :
    (inUse.all fun v => v.name != numbered stem n) = true ↔ Unused stem inUse n := by
  simp [Unused]

theorem not_unused_iff : ¬ Unused stem inUse n ↔ ∃ v ∈ inUse, v.name = numbered stem n := by
  simp [Unused]

theorem mem_candidates {count : Nat} : n ∈ candidates count ↔ count ≤ n ∧ n ≤ 2 * count := by
  rw [candidates, List.mem_map]
  constructor
  · rintro ⟨i, hi, rfl⟩
    have hlt := List.mem_range.mp hi
    omega
  · rintro ⟨hle, hle'⟩
    exact ⟨n - count, List.mem_range.mpr (by omega), by omega⟩

theorem nodup_candidates (count : Nat) : (candidates count).Nodup := by
  have hinjective : Function.Injective (count + ·) := fun _ _ => Nat.add_left_cancel
  exact List.nodup_range.map hinjective

/-- There are more candidates than names in use. -/
theorem exists_unused_candidate (stem : String) (inUse : List Variable) :
    ∃ n ∈ candidates inUse.length, Unused stem inUse n := by
  by_contra hnone
  have htaken : (candidates inUse.length).map (numbered stem) ⊆ inUse.map name := by
    intro text htext
    obtain ⟨n, hn, rfl⟩ := List.mem_map.mp htext
    have hused : ¬ Unused stem inUse n := fun h => hnone ⟨n, hn, h⟩
    obtain ⟨v, hv, hname⟩ := not_unused_iff.mp hused
    rw [← hname]
    exact List.mem_map_of_mem hv
  have hnodup := (nodup_candidates inUse.length).map (numbered_injective stem)
  have hle := (hnodup.subperm htaken).length_le
  simp only [candidates, List.length_map, List.length_range] at hle
  omega

-- ============================================================================
-- The search
-- ============================================================================

/-- The search through the numbers from a first one on, which has no last one,
    stops at the first number that gives an unused name. -/
inductive Stops (stem : String) (inUse : List Variable) : Nat → Nat → Prop where
  | here {n : Nat} (hn : Unused stem inUse n) : Stops stem inUse n n
  | further {n m : Nat} (hn : ¬ Unused stem inUse n) (hm : Stops stem inUse (n + 1) m) :
      Stops stem inUse n m

theorem Stops.unique {m' : Nat} (h : Stops stem inUse n m) (h' : Stops stem inUse n m') :
    m = m' := by
  induction h with
  | here hn =>
    cases h' with
    | here => rfl
    | further hn' => exact absurd hn hn'
  | further hn _ ih =>
    cases h' with
    | here hn' => exact absurd hn' hn
    | further _ hm' => exact ih hm'

theorem stops_of_least (hle : n ≤ m) (hm : Unused stem inUse m)
    (hleast : ∀ i, n ≤ i → i < m → ¬ Unused stem inUse i) : Stops stem inUse n m := by
  -- on the number of steps
  induction hsteps : m - n generalizing n with
  | zero =>
    have heq : n = m := by omega
    rw [heq]
    exact .here hm
  | succ steps ih =>
    have hlt : n < m := by omega
    refine .further (hleast n (Nat.le_refl n) hlt) (ih hlt ?_ (by omega))
    exact fun i hi => hleast i (Nat.le_of_succ_le hi)

/-- The name found has the least number, from the number of variables in use on,
    that makes it unused, and that number is a candidate. -/
theorem unusedName_spec (stem : String) (inUse : List Variable) :
    ∃ n, n ∈ candidates inUse.length ∧ unusedName stem inUse = numbered stem n ∧
      Unused stem inUse n ∧ ∀ i, inUse.length ≤ i → i < n → ¬ Unused stem inUse i := by
  have hsome : ((candidates inUse.length).find?
      fun n => inUse.all fun v => v.name != numbered stem n).isSome = true := by
    obtain ⟨n, hn, hunused⟩ := exists_unused_candidate stem inUse
    exact List.find?_isSome.mpr ⟨n, hn, (all_bne_iff n).mpr hunused⟩
  obtain ⟨n, hfind⟩ := Option.isSome_iff_exists.mp hsome
  have hname : unusedName stem inUse = numbered stem n := by
    rw [unusedName, hfind]
  obtain ⟨hunused, i, hi, hin, hbefore⟩ := List.find?_eq_some_iff_getElem.mp hfind
  refine ⟨n, List.mem_of_find?_eq_some hfind, hname, (all_bne_iff n).mp hunused, ?_⟩
  intro k hk hkn hfree
  -- the candidate at position `i` is `inUse.length + i`
  have hposition : inUse.length + i = n := by
    rw [← hin]
    simp [candidates]
  have hj : k - inUse.length < i := by omega
  have htaken := hbefore (k - inUse.length) hj
  have hk' : inUse.length + (k - inUse.length) = k := by omega
  simp only [candidates, List.getElem_map, List.getElem_range, hk',
    (all_bne_iff k).mpr hfree] at htaken
  cases htaken

theorem unusedName_not_mem (stem : String) (inUse : List Variable) :
    ∀ v ∈ inUse, v.name ≠ unusedName stem inUse := by
  obtain ⟨n, -, hname, hunused, -⟩ := unusedName_spec stem inUse
  rw [hname]
  exact hunused

theorem unusedName_eq (h : Unused stem inUse inUse.length) :
    unusedName stem inUse = numbered stem inUse.length := by
  obtain ⟨n, hn, hname, -, hleast⟩ := unusedName_spec stem inUse
  have hle := (mem_candidates.mp hn).1
  rcases Nat.eq_or_lt_of_le hle with heq | hlt
  · rw [hname, ← heq]
  · exact absurd h (hleast _ (Nat.le_refl _) hlt)

/-- With the names numbered from zero, the next number gives the unused one. -/
theorem unusedName_of_numbered (h : inUse.map name = (List.range n).map (numbered stem)) :
    unusedName stem inUse = numbered stem n := by
  have hlength : inUse.length = n := by simpa using congrArg List.length h
  rw [← hlength] at h ⊢
  apply unusedName_eq
  intro v hv heq
  have hname : v.name ∈ (List.range inUse.length).map (numbered stem) := by
    rw [← h]
    exact List.mem_map_of_mem hv
  obtain ⟨m, hm, hnumber⟩ := List.mem_map.mp hname
  have hsame : m = inUse.length := numbered_injective stem (hnumber.trans heq)
  exact Nat.ne_of_lt (List.mem_range.mp hm) hsame

-- ============================================================================
-- Requests
-- ============================================================================

/-- A request for a new variable. -/
structure Request where
  quantifier : Quantifier
  /-- The variables that the request is told to be in use. -/
  inUse : List Variable
  tag : Tag

/-- The variable that a request is given. -/
def Request.answer (r : Request) : Variable :=
  match r.quantifier with
  | .free => newFree r.inUse r.tag
  | .constantHolder => newHolder r.inUse r.tag

/-- Requests made one after the other, each of which is told all variables that
    were given before, among any others of any names. -/
inductive Informed : List Request → Prop where
  | none : Informed []
  | next {requests : List Request} {r : Request} (h : Informed requests)
      (hr : requests.map Request.answer ⊆ r.inUse) : Informed (requests ++ [r])

theorem Request.name_answer_not_mem (r : Request) : ∀ v ∈ r.inUse, v.name ≠ r.answer.name := by
  obtain ⟨quantifier, inUse, tag⟩ := r
  cases quantifier with
  | free => exact unusedName_not_mem "?x" inUse
  | constantHolder => exact unusedName_not_mem "?c" inUse

theorem Informed.nodup {requests : List Request} (h : Informed requests) :
    ((requests.map Request.answer).map name).Nodup := by
  induction h with
  | none => exact List.nodup_nil
  | @next requests r _ hr ih =>
    have hnew : r.answer.name ∉ (requests.map Request.answer).map name := by
      intro hmem
      obtain ⟨v, hv, hname⟩ := List.mem_map.mp hmem
      exact r.name_answer_not_mem v (hr hv) hname
    rw [List.map_append, List.map_append, List.map_singleton, List.map_singleton,
      ← List.concat_eq_append]
    exact ih.concat hnew

/-- **The search for an unused name ends early.**  For any stem and any variables
    in use, the name is the stem with the decimal text of the least number, from
    the number of variables on, for which no variable has that name; the number
    is at most twice the number of variables, and the search through all numbers
    ends there and nowhere else.  So in any sequence of requests, of both sorts,
    that are told what was given before, every variable given has a name that no
    variable told has, and no two variables given have the same name. -/
theorem unusedName_found_early :
    (∀ (stem : String) (inUse : List Variable), ∃ n,
      inUse.length ≤ n ∧ n ≤ 2 * inUse.length ∧
      unusedName stem inUse = stem ++ toString n ∧ unusedName stem inUse ≠ "" ∧
      (∀ v ∈ inUse, v.name ≠ stem ++ toString n) ∧
      (∀ i, inUse.length ≤ i → i < n → ∃ v ∈ inUse, v.name = stem ++ toString i) ∧
      ∀ m, Stops stem inUse inUse.length m ↔ m = n) ∧
    ∀ requests, Informed requests →
      (∀ r ∈ requests, ∀ v ∈ r.inUse, v.name ≠ r.answer.name) ∧
      ((requests.map Request.answer).map name).Nodup := by
  refine ⟨fun stem inUse => ?_, fun requests h => ⟨fun r _ => r.name_answer_not_mem, h.nodup⟩⟩
  obtain ⟨n, hn, hname, hunused, hleast⟩ := unusedName_spec stem inUse
  obtain ⟨hle, hle'⟩ := mem_candidates.mp hn
  have hstops : Stops stem inUse inUse.length n := stops_of_least hle hunused hleast
  have hnonempty : unusedName stem inUse ≠ "" := by
    rw [hname]
    exact numbered_ne_empty stem n
  refine ⟨n, hle, hle', hname, hnonempty, hunused, ?_, fun m => ⟨fun h => h.unique hstops, ?_⟩⟩
  · exact fun i hi hin => not_unused_iff.mp (hleast i hi hin)
  · rintro rfl
    exact hstops

namespace Sample

/-- A free variable where the name that is tried first is taken; a constant holder
    where the first two are, told of that variable too; and another free one. -/
def requests : List Request :=
  [⟨.free, [named "?x1" .type], .method⟩,
    ⟨.constantHolder, [named "?c4" .type, named "?c3" .type, named "?x2" .method], .field⟩,
    ⟨.free, [⟨"?c5", .field, .constantHolder⟩, named "?x2" .method], .type⟩]

end Sample

open Sample in
theorem unusedName_found_early_taken :
    Informed requests ∧
    (requests.map Request.answer).map name = ["?x2", "?c5", "?x3"] ∧
    (∀ r ∈ requests, ∀ v ∈ r.inUse, v.name ≠ r.answer.name) ∧
    ((requests.map Request.answer).map name).Nodup := by
  have hinformed : Informed requests :=
    ((Informed.none.next (List.nil_subset _)).next (by decide)).next (by decide)
  exact ⟨hinformed, by decide, unusedName_found_early.2 requests hinformed⟩

end StructuralDiff.Variable
