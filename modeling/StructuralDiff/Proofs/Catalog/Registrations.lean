/-
  StructuralDiff.Proofs.Catalog.Registrations

  A catalog as the record of its registrations.

  A registration is valid if its signature has letters and each of them stands
  for a tag.  A catalog holds, for each name with a valid registration, the
  predicate of the last of them, at the place of the first; and it has one
  remark for each registration that was dropped or replaced an earlier one.
  `Records` states this for a log of registrations and a catalog: the empty
  catalog records the empty log, and each registration keeps it
  (`Records.register`).
-/

import Mathlib.Data.List.Induction
import StructuralDiff.Catalog.Basic

namespace StructuralDiff

-- ============================================================================
-- Letters
-- ============================================================================

namespace Tag

/-- The letters that may stand in a signature. -/
def alphabet : List Char := ['p', 't', 'f', 'm', 'a', 'b', 'c']

theorem letter_mem_alphabet (t : Tag) : t.letter ∈ alphabet := by
  cases t <;> decide

theorem exists_letter_of_mem_alphabet {c : Char} (h : c ∈ alphabet) : ∃ t : Tag, t.letter = c := by
  simp only [alphabet, List.mem_cons, List.not_mem_nil, or_false] at h
  rcases h with rfl | rfl | rfl | rfl | rfl | rfl | rfl
  · exact ⟨.package, rfl⟩
  · exact ⟨.type, rfl⟩
  · exact ⟨.field, rfl⟩
  · exact ⟨.method, rfl⟩
  · exact ⟨.typeName, rfl⟩
  · exact ⟨.fieldName, rfl⟩
  · exact ⟨.methodName, rfl⟩

theorem ofLetter?_eq_none_iff (c : Char) : ofLetter? c = none ↔ c ∉ alphabet := by
  constructor
  · intro h hc
    obtain ⟨t, rfl⟩ := exists_letter_of_mem_alphabet hc
    rw [ofLetter?_letter] at h
    cases h
  · intro hc
    cases h : ofLetter? c with
    | none => rfl
    | some t =>
      have hletter : t.letter = c := letter_of_ofLetter? h
      exact absurd (hletter ▸ letter_mem_alphabet t) hc

/-- Reading a signature either gives the tags whose letters they are, or stops
    at its first letter outside the alphabet. -/
theorem ofLetters_cases (cs : List Char) :
    (∃ ts, ofLetters cs = .ok ts ∧ letters ts = cs ∧ cs.find? (· ∉ alphabet) = none) ∨
      ∃ c, ofLetters cs = .error c ∧ cs.find? (· ∉ alphabet) = some c := by
  induction cs with
  | nil => exact .inl ⟨[], rfl, rfl, rfl⟩
  | cons c cs ih =>
    cases hc : ofLetter? c with
    | none =>
      have hout : c ∉ alphabet := (ofLetter?_eq_none_iff c).mp hc
      exact .inr ⟨c, by simp only [ofLetters, hc], by simp [hout]⟩
    | some t =>
      have hletter : t.letter = c := letter_of_ofLetter? hc
      have hin : c ∈ alphabet := hletter ▸ letter_mem_alphabet t
      rw [List.find?_cons_of_neg (by simpa using hin)]
      rcases ih with ⟨ts, hts, hletters, hnone⟩ | ⟨d, hd, hfind⟩
      · have hcons : letters (t :: ts) = c :: cs := by
          rw [← hletters, ← hletter]
          rfl
        exact .inl ⟨t :: ts, by simp only [ofLetters, hc, hts], hcons, hnone⟩
      · exact .inr ⟨d, by simp only [ofLetters, hc, hd], hfind⟩

end Tag

namespace Catalog

-- ============================================================================
-- The log of registrations
-- ============================================================================

/-- A name and a written signature. -/
abbrev Registration := String × String

/-- The signature has letters, and all of them stand for tags. -/
def Valid (e : Registration) : Prop :=
  e.2.toList ≠ [] ∧ ∀ letter ∈ e.2.toList, letter ∈ Tag.alphabet

-- The letters are tried one by one; all characters would be far too many.
instance : DecidablePred Valid := fun e =>
  letI := List.decidableBAll (· ∈ Tag.alphabet) e.2.toList
  inferInstanceAs (Decidable (_ ∧ _))

/-- The predicate bears the name and has the tags of a registration. -/
def DescribedBy (e : Registration) (p : Predicate) : Prop :=
  p.name = e.1 ∧ Tag.letters p.signature = e.2.toList

/-- The valid registrations of a log. -/
def valid (log : List Registration) : List Registration := log.filter Valid

/-- The last valid registration of a name. -/
def lastValid (log : List Registration) (name : String) : Option Registration :=
  ((valid log).filter (fun e => e.1 = name)).getLast?

/-- The names with a valid registration, in the order of their first ones. -/
def names (log : List Registration) : List String := ((valid log).map Prod.fst).eraseDups

/-- The remark on a registration that follows the `earlier` ones. -/
def earned (earlier : List Registration) (e : Registration) : Option CatalogRemark :=
  match e.2.toList.find? (· ∉ Tag.alphabet) with
  | some letter => some (.invalidTag e.1 letter)
  | none =>
    if e.2.toList = [] then some (.emptySignature e.1)
    else if e.1 ∈ (valid earlier).map Prod.fst then some (.duplicateName e.1)
    else none

/-- The remarks on a log that follows the `earlier` registrations, in order. -/
def earnedFrom (earlier : List Registration) : List Registration → List CatalogRemark
  | [] => []
  | e :: later => (earned earlier e).toList ++ earnedFrom (earlier ++ [e]) later

-- ============================================================================
-- One more registration in the log
-- ============================================================================

section Log

variable {log : List Registration} {e : Registration}

theorem valid_append_of_valid (he : Valid e) : valid (log ++ [e]) = valid log ++ [e] := by
  simp [valid, he]

theorem valid_append_of_not_valid (he : ¬ Valid e) : valid (log ++ [e]) = valid log := by
  simp [valid, he]

theorem lastValid_append (he : Valid e) (name : String) :
    lastValid (log ++ [e]) name = if e.1 = name then some e else lastValid log name := by
  rw [lastValid, valid_append_of_valid he, List.filter_append]
  by_cases hname : e.1 = name
  · simp [hname]
  · simp [hname, lastValid]

theorem fst_of_lastValid {name : String} (h : lastValid log name = some e) : e.1 = name := by
  have hmem : e ∈ (valid log).filter (fun e => e.1 = name) := List.mem_of_getLast? h
  simpa using (List.mem_filter.mp hmem).2

theorem mem_names (name : String) : name ∈ names log ↔ name ∈ (valid log).map Prod.fst :=
  List.mem_eraseDups

theorem names_append (he : Valid e) :
    names (log ++ [e]) = if e.1 ∈ names log then names log else names log ++ [e.1] := by
  have hsplit : names (log ++ [e]) =
      names log ++ ([e.1].removeAll ((valid log).map Prod.fst)).eraseDups := by
    rw [names, valid_append_of_valid he, List.map_append, List.eraseDups_append]
    rfl
  rw [hsplit]
  by_cases hmem : e.1 ∈ names log
  · have hold : e.1 ∈ (valid log).map Prod.fst := (mem_names e.1).mp hmem
    rw [if_pos hmem, List.removeAll, List.filter_cons_of_neg (by simpa using hold)]
    simp
  · have hnew : e.1 ∉ (valid log).map Prod.fst := fun hold => hmem ((mem_names e.1).mpr hold)
    rw [if_neg hmem, List.removeAll, List.filter_cons_of_pos (by simpa using hnew)]
    simp [List.eraseDups_cons]

theorem earnedFrom_append (earlier log : List Registration) (e : Registration) :
    earnedFrom earlier (log ++ [e]) =
      earnedFrom earlier log ++ (earned (earlier ++ log) e).toList := by
  induction log generalizing earlier with
  | nil => simp [earnedFrom]
  | cons d log ih =>
    rw [List.cons_append, earnedFrom, ih, earnedFrom, List.append_assoc, List.append_assoc]
    rfl

theorem earned_of_valid (he : Valid e) :
    earned log e = if e.1 ∈ names log then some (.duplicateName e.1) else none := by
  have hletters : e.2.toList.find? (· ∉ Tag.alphabet) = none := by
    rw [List.find?_eq_none]
    intro c hc
    simpa using he.2 c hc
  rw [earned, hletters]
  simp only [if_neg he.1, mem_names]

end Log

-- ============================================================================
-- What a registration makes of its signature
-- ============================================================================

/-- A valid registration gives the predicate that it describes; any other gives
    the remark that it earns. -/
theorem ofText_cases (e : Registration) :
    (∃ p, Predicate.ofText e.1 e.2 = .ok p ∧ Valid e ∧ DescribedBy e p) ∨
      ∃ err, Predicate.ofText e.1 e.2 = .error err ∧ ¬ Valid e ∧
        ∀ earlier, earned earlier e = some (err.remark e.1) := by
  rcases Tag.ofLetters_cases e.2.toList with ⟨ts, hts, hletters, hnone⟩ | ⟨c, hc, hfind⟩
  · cases ts with
    | nil =>
      have hempty : e.2.toList = [] := hletters.symm
      refine .inr ⟨.empty, by simp only [Predicate.ofText, hts], fun he => he.1 hempty, ?_⟩
      intro earlier
      rw [earned, hnone]
      simp only [if_pos hempty]
      rfl
    | cons t ts =>
      refine .inl ⟨⟨e.1, t :: ts, by simp⟩, by simp only [Predicate.ofText, hts], ⟨?_, ?_⟩, rfl,
        hletters⟩
      · rw [← hletters]
        exact List.cons_ne_nil _ _
      · intro letter hletter
        have hnot := List.find?_eq_none.mp hnone letter hletter
        simpa using hnot
  · refine .inr ⟨.invalidTag c, by simp only [Predicate.ofText, hc], ?_, ?_⟩
    · intro he
      have hout : c ∉ Tag.alphabet := by simpa using List.find?_some hfind
      exact hout (he.2 c (List.mem_of_find?_eq_some hfind))
    · intro earlier
      rw [earned, hfind]
      rfl

-- ============================================================================
-- What a catalog records
-- ============================================================================

/-- The catalog is what a log of registrations comes to. -/
structure Records (log : List Registration) (c : Catalog) : Prop where
  /-- A name stands for its last valid registration. -/
  found : ∀ name, Option.Rel DescribedBy (lastValid log name) (c.find? name)
  /-- The names stand in the order of their first valid registrations. -/
  keys : c.predicates.keys = names log
  /-- The remarks stand in the order of the registrations they are on. -/
  remarks : c.remarks = earnedFrom [] log
  /-- Each registration adds a name or a remark. -/
  count : c.size + c.remarks.length = log.length

variable {log : List Registration} {c : Catalog} {e : Registration}

theorem records_empty : Records [] empty :=
  ⟨fun _ => .none, rfl, rfl, rfl⟩

theorem size_eq_length_keys (c : Catalog) : c.size = c.predicates.keys.length :=
  (List.length_map _).symm

theorem contains_iff (c : Catalog) (name : String) :
    c.predicates.contains name ↔ name ∈ c.predicates.keys := by
  have hnone := c.predicates.find?_eq_none_iff name
  rw [OrderedMap.contains]
  cases hfind : c.predicates.find? name with
  | none => simp [hnone.mp hfind]
  | some p => simp [OrderedMap.mem_keys_of_find? hfind]

theorem Records.enter (h : Records log c) (he : Valid e) {p : Predicate} (hp : DescribedBy e p) :
    Records (log ++ [e]) (c.enter p) := by
  obtain ⟨hname, hletters⟩ := hp
  have hkeys : (c.enter p).predicates.keys = names (log ++ [e]) := by
    rw [names_append he, ← h.keys, ← hname]
    exact OrderedMap.keys_insert _ _ _
  have hearned : (c.enter p).remarks = c.remarks ++ (earned log e).toList := by
    rw [earned_of_valid he, ← h.keys, Catalog.enter, hname]
    by_cases hold : e.1 ∈ c.predicates.keys
    · simp [hold, contains_iff]
    · simp [hold, contains_iff]
  refine ⟨?_, hkeys, ?_, ?_⟩
  · intro name
    have hfind : (c.enter p).find? name = if e.1 = name then some p else c.find? name := by
      rw [← hname]
      exact OrderedMap.find?_insert _ _ _ _
    rw [lastValid_append he, hfind]
    split
    · exact .some ⟨hname, hletters⟩
    · exact h.found name
  · rw [earnedFrom_append, ← h.remarks, hearned]
    rfl
  · have hcount := h.count
    rw [size_eq_length_keys, h.keys] at hcount
    rw [size_eq_length_keys, hkeys, hearned, names_append he, earned_of_valid he,
      List.length_append, List.length_append, List.length_singleton]
    split
    · simp only [Option.toList_some, List.length_singleton]
      omega
    · simp only [Option.toList_none, List.length_nil, List.length_append, List.length_singleton]
      omega

theorem Records.dropped (h : Records log c) (he : ¬ Valid e) {remark : CatalogRemark}
    (hremark : earned log e = some remark) :
    Records (log ++ [e]) ⟨c.predicates, c.remarks ++ [remark]⟩ := by
  refine ⟨?_, ?_, ?_, ?_⟩
  · intro name
    rw [lastValid, valid_append_of_not_valid he]
    exact h.found name
  · rw [names, valid_append_of_not_valid he]
    exact h.keys
  · rw [earnedFrom_append, ← h.remarks, List.nil_append, hremark]
    rfl
  · have hcount := h.count
    rw [List.length_append, List.length_append, ← hcount]
    exact (Nat.add_assoc _ _ _).symm

/-- One registration. -/
theorem Records.register (h : Records log c) (e : Registration) :
    Records (log ++ [e]) (c.register e.1 e.2) := by
  rcases ofText_cases e with ⟨p, hp, he, hdescribed⟩ | ⟨err, herr, he, hearned⟩
  · simp only [Catalog.register, hp]
    exact h.enter he hdescribed
  · simp only [Catalog.register, herr]
    exact h.dropped he (hearned log)

/-- All registrations. -/
theorem records_ofRegistrations (log : List Registration) : Records log (ofRegistrations log) := by
  induction log using List.reverseRecOn with
  | nil => exact records_empty
  | append_singleton log e ih =>
    rw [ofRegistrations, List.foldl_append]
    exact ih.register e

/-- A predicate stands under its own name. -/
theorem Records.name_of_find? (h : Records log c) {name : String} {p : Predicate}
    (hp : c.find? name = some p) : p.name = name := by
  have hfound := h.found name
  rw [hp] at hfound
  cases hlast : lastValid log name with
  | none =>
    rw [hlast] at hfound
    cases hfound
  | some e =>
    rw [hlast] at hfound
    cases hfound with
    | some hdescribed => exact hdescribed.1.trans (fst_of_lastValid hlast)

theorem Records.map_name_all (h : Records log c) : c.all.map Predicate.name = names log := by
  rw [← h.keys, all, OrderedMap.values, OrderedMap.keys, List.map_map]
  refine List.map_congr_left ?_
  intro entry hentry
  exact h.name_of_find? ((c.predicates.find?_eq_some_iff entry.1 entry.2).mpr hentry)

theorem Records.find?_of_mem_all (h : Records log c) {p : Predicate} (hp : p ∈ c.all) :
    c.find? p.name = some p := by
  obtain ⟨entry, hentry, rfl⟩ := List.mem_map.mp hp
  have hfind : c.find? entry.1 = some entry.2 :=
    (c.predicates.find?_eq_some_iff entry.1 entry.2).mpr hentry
  rw [h.name_of_find? hfind, hfind]

/-- A name with a valid registration is that of a predicate. -/
theorem Records.exists_of_mem_valid (h : Records log c) (he : e ∈ valid log) :
    ∃ p ∈ c.all, p.name = e.1 := by
  have hname : e.1 ∈ c.all.map Predicate.name := by
    rw [h.map_name_all, mem_names]
    exact List.mem_map_of_mem he
  exact List.mem_map.mp hname

/-- Every predicate bears a name that was registered. -/
theorem Records.exists_of_mem_all (h : Records log c) {p : Predicate} (hp : p ∈ c.all) :
    ∃ e ∈ log, p.name = e.1 := by
  have hname : p.name ∈ c.all.map Predicate.name := List.mem_map_of_mem hp
  rw [h.map_name_all, mem_names, valid] at hname
  obtain ⟨e, he, hfst⟩ := List.mem_map.mp hname
  exact ⟨e, (List.mem_filter.mp he).1, hfst.symm⟩

theorem mem_all_of_find? {name : String} {p : Predicate} (hp : c.find? name = some p) :
    p ∈ c.all :=
  List.mem_map_of_mem ((c.predicates.find?_eq_some_iff name p).mp hp)

/-- What is found under a name is the one predicate with that name. -/
theorem Records.find?_eq_some_iff (h : Records log c) {name : String} {p : Predicate} :
    c.find? name = some p ↔ p ∈ c.all ∧ p.name = name := by
  constructor
  · exact fun hp => ⟨mem_all_of_find? hp, h.name_of_find? hp⟩
  · rintro ⟨hp, rfl⟩
    exact h.find?_of_mem_all hp

/-- **The last valid registration of a name defines it, the first one places
    it.**  After any registrations a name stands for the predicate of its last
    valid registration, and for none without one.  The predicates are listed
    once each, by their names in the order of the first valid registrations.
    The remarks are those that the registrations earned, in order, and each
    registration added either a predicate or a remark. -/
theorem ofRegistrations_last_wins (log : List Registration) :
    let c := ofRegistrations log
    (∀ name, Option.Rel DescribedBy (lastValid log name) (c.find? name)) ∧
    c.all.map Predicate.name = names log ∧ (c.all.map Predicate.name).Nodup ∧
    (∀ p ∈ c.all, c.find? p.name = some p) ∧
    c.remarks = earnedFrom [] log ∧
    c.size + c.remarks.length = log.length := by
  intro c
  have h : Records log c := records_ofRegistrations log
  have hnodup : (c.all.map Predicate.name).Nodup := by
    rw [h.map_name_all, ← h.keys]
    exact c.predicates.keys_nodup
  exact ⟨h.found, h.map_name_all, hnodup, fun p hp => h.find?_of_mem_all hp, h.remarks, h.count⟩

namespace Sample

/-- A known name is registered with no signature and then again with another
    one; the first registration of the other name has a letter that is no
    tag. -/
def mixed : List Registration :=
  [("type", "t"), ("calls", "mxm"), ("calls", "mm"), ("type", ""), ("type", "tap")]

end Sample

open Sample in
theorem ofRegistrations_last_wins_mixed :
    lastValid mixed "type" = some ("type", "tap") ∧
    (∃ p, (ofRegistrations mixed).find? "type" = some p ∧ DescribedBy ("type", "tap") p) ∧
    (ofRegistrations mixed).all.map Predicate.name = ["type", "calls"] ∧
    (ofRegistrations mixed).remarks =
      [.invalidTag "calls" 'x', .emptySignature "type", .duplicateName "type"] := by
  have hlast : lastValid mixed "type" = some ("type", "tap") := by decide +kernel
  have hnames : names mixed = ["type", "calls"] := by decide +kernel
  have hearned : earnedFrom [] mixed =
      [.invalidTag "calls" 'x', .emptySignature "type", .duplicateName "type"] := by
    decide +kernel
  obtain ⟨hfound, hall, -, -, hremarks, -⟩ := ofRegistrations_last_wins mixed
  have htype := hfound "type"
  rw [hlast] at htype
  refine ⟨hlast, ?_, hall.trans hnames, hremarks.trans hearned⟩
  cases htype with
  | some hdescribed => exact ⟨_, rfl, hdescribed⟩

end Catalog
end StructuralDiff
