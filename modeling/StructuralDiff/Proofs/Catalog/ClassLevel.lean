/-
  StructuralDiff.Proofs.Catalog.ClassLevel

  Counting a predicate towards class level, and counting the outcome once more.

  Conclusions count towards the changed type, method dependencies towards the
  dependency of their tense, and everything else towards itself
  (`classLevel?_cases`).  The changed type is neither of the two, and a dependency
  of a tense counts towards itself unless it is a conclusion.  It is one just when
  its tense is a tense of change (`Kind.isConclusion_join_iff`), and then the
  method dependency that led to it was no conclusion only because its name bears
  the mark of the primed kinds or another tense further behind: `Disguised`.
  For these alone the second step goes on, to the changed type.
-/

import StructuralDiff.Catalog.Standard
import StructuralDiff.Proofs.Catalog.Registrations
import StructuralDiff.Proofs.Predicate.Grammar

namespace StructuralDiff

open PredicateName (join)

/-- A method dependency that is no conclusion, although the text before the first
    underscore of its name ends in a tense of change. -/
def Predicate.Disguised (p : Predicate) : Prop :=
  p.kind.isConclusion = false ∧ p.isMethodDependency = true ∧
    ∃ (t : Tense) (lead rest : String), t.isChange = true ∧ t.word.toList <:+ lead.toList ∧
      '_' ∉ lead.toList ∧ p.name = join lead rest

/-- The text before the first underscore of a name says whether it is led by a
    tense of change. -/
theorem Predicate.disguised_iff {p : Predicate} {lead rest : String} (hlead : '_' ∉ lead.toList)
    (hname : p.name = join lead rest) :
    p.Disguised ↔ p.kind.isConclusion = false ∧ p.isMethodDependency = true ∧
      ∃ t : Tense, t.isChange = true ∧ t.word.toList <:+ lead.toList := by
  have hfirst := PredicateName.leading?_eq_some_iff.mpr ⟨hlead, rest, hname⟩
  refine and_congr_right fun _ => and_congr_right fun _ => ?_
  constructor
  · rintro ⟨t, lead', rest', hchange, ht, hlead', hname'⟩
    -- the name has one first underscore
    rw [PredicateName.leading?_eq_some_iff.mpr ⟨hlead', rest', hname'⟩] at hfirst
    cases hfirst
    exact ⟨t, hchange, ht⟩
  · rintro ⟨t, hchange, ht⟩
    exact ⟨t, lead, rest, hchange, ht, hlead, hname⟩

namespace Catalog

variable {log : List Registration} {c : Catalog} {p q : Predicate} {lead : String}

-- ============================================================================
-- One step
-- ============================================================================

theorem classLevel?_of_conclusion (c : Catalog) (h : p.kind.isConclusion = true) :
    c.classLevel? p = c.find? changedType := by
  rw [classLevel?, if_pos h]

theorem classLevel?_of_other (c : Catalog) (h : p.kind.isConclusion = false)
    (hdependency : p.isMethodDependency = false) : c.classLevel? p = some p := by
  simp [classLevel?, h, hdependency]

theorem classLevel?_of_dependency (c : Catalog) {rest : String}
    (h : p.kind.isConclusion = false) (hdependency : p.isMethodDependency = true)
    (hlead : '_' ∉ lead.toList) (hname : p.name = join lead rest) :
    c.classLevel? p = c.find? (join lead "dependency") := by
  have hleading : PredicateName.leading? p.name = some lead :=
    PredicateName.leading?_eq_some_iff.mpr ⟨hlead, rest, hname⟩
  simp [classLevel?, h, hdependency, hleading, Family.word]

/-- A registered method dependency counts towards the dependency of its tense, if
    that is registered. -/
theorem exists_dependency (hc : Records log c) (lead rest : String) {s s' : String}
    (hp : (join lead rest, s) ∈ valid log) (hq : (join lead "dependency", s') ∈ valid log)
    (hlead : '_' ∉ lead.toList) (hkind : (Kind.ofName (join lead rest)).isConclusion = false)
    (hdependency : Text.contains (join lead rest) "accesses" = true ∨
      Text.contains (join lead rest) "calls" = true) :
    ∃ p ∈ c.all, ∃ q, p.name = join lead rest ∧ q.name = join lead "dependency" ∧
      c.classLevel? p = some q := by
  obtain ⟨p, hmem, hname⟩ := hc.exists_of_mem_valid hp
  obtain ⟨q, hqmem, hqname⟩ := hc.exists_of_mem_valid hq
  have hplain : p.kind.isConclusion = false := by rw [Predicate.kind, hname, hkind]
  have hmethod : p.isMethodDependency = true := by
    rw [Predicate.isMethodDependency, hname, Bool.or_eq_true]
    exact hdependency
  refine ⟨p, hmem, q, hname, hqname, ?_⟩
  rw [classLevel?_of_dependency c hplain hmethod hlead hname]
  exact hc.find?_eq_some_iff.mpr ⟨hqmem, hqname⟩

/-- What a predicate can count towards. -/
theorem classLevel?_cases (hc : Records log c) (h : c.classLevel? p = some q) :
    (p.kind.isConclusion = true ∧ q.name = changedType) ∨
    (p.kind.isConclusion = false ∧ p.isMethodDependency = true ∧ ∃ lead rest,
      '_' ∉ lead.toList ∧ p.name = join lead rest ∧ q ∈ c.all ∧
        q.name = join lead "dependency") ∨
    (p.kind.isConclusion = false ∧ p.isMethodDependency = false ∧ q = p) := by
  cases hkind : p.kind.isConclusion with
  | true =>
    rw [classLevel?_of_conclusion c hkind] at h
    exact .inl ⟨rfl, hc.name_of_find? h⟩
  | false =>
    cases hdependency : p.isMethodDependency with
    | false =>
      rw [classLevel?_of_other c hkind hdependency] at h
      exact .inr (.inr ⟨rfl, rfl, (Option.some.inj h).symm⟩)
    | true =>
      cases hleading : PredicateName.leading? p.name with
      | none => simp [classLevel?, hkind, hdependency, hleading] at h
      | some lead =>
        obtain ⟨hlead, rest, hname⟩ := PredicateName.leading?_eq_some_iff.mp hleading
        rw [classLevel?_of_dependency c hkind hdependency hlead hname] at h
        obtain ⟨hq, hqname⟩ := hc.find?_eq_some_iff.mp h
        exact .inr (.inl ⟨rfl, rfl, lead, rest, hlead, hname, hq, hqname⟩)

-- ============================================================================
-- A second step
-- ============================================================================

/-- The changed type counts towards itself. -/
theorem classLevel?_changedType (c : Catalog) (h : q.name = changedType) :
    q.kind.isConclusion = false ∧ c.classLevel? q = some q := by
  have hkind : q.kind.isConclusion = false := by
    rw [Predicate.kind, h]
    decide +kernel
  have hdependency : q.isMethodDependency = false := by
    rw [Predicate.isMethodDependency, h]
    decide +kernel
  exact ⟨hkind, classLevel?_of_other c hkind hdependency⟩

/-- The dependency of a tense counts towards itself unless it is a conclusion. -/
theorem classLevel?_dependency (hc : Records log c) (hq : q ∈ c.all) (hlead : '_' ∉ lead.toList)
    (hname : q.name = join lead "dependency") (hkind : q.kind.isConclusion = false) :
    c.classLevel? q = some q := by
  cases hdependency : q.isMethodDependency with
  | false => exact classLevel?_of_other c hkind hdependency
  | true =>
    rw [classLevel?_of_dependency c hkind hdependency hlead hname, ← hname]
    exact hc.find?_of_mem_all hq

/-- What a predicate counts towards counts towards itself, conclusions apart. -/
theorem classLevel?_of_not_conclusion (hc : Records log c) (h : c.classLevel? p = some q)
    (hkind : q.kind.isConclusion = false) : c.classLevel? q = some q := by
  rcases classLevel?_cases hc h with ⟨-, hq⟩ | ⟨-, -, lead, -, hlead, -, hq, hqname⟩ | ⟨-, -, rfl⟩
  · exact (classLevel?_changedType c hq).2
  · exact classLevel?_dependency hc hq hlead hqname hkind
  · exact h

/-- The outcome is a conclusion just for disguised dependencies. -/
theorem isConclusion_classLevel?_iff (hc : Records log c) (h : c.classLevel? p = some q) :
    q.kind.isConclusion = true ↔ p.Disguised := by
  rcases classLevel?_cases hc h with
    ⟨hp, hq⟩ | ⟨hp, hdependency, lead, rest, hlead, hname, -, hqname⟩ | ⟨hp, hdependency, rfl⟩
  · have hkind := (classLevel?_changedType c hq).1
    simp [Predicate.Disguised, hp, hkind]
  · rw [Predicate.kind, hqname, Kind.isConclusion_join_iff hlead (by decide),
      Predicate.disguised_iff hlead hname]
    simp [hp, hdependency]
  · simp [Predicate.Disguised, hp, hdependency]

/-- A conclusion does not count towards itself. -/
theorem classLevel?_conclusion_ne (hc : Records log c) (hkind : q.kind.isConclusion = true) :
    c.classLevel? q ≠ some q := by
  intro h
  rw [classLevel?_of_conclusion c hkind] at h
  have hchanged := (classLevel?_changedType c (hc.name_of_find? h)).1
  rw [hkind] at hchanged
  cases hchanged

theorem classLevel?_stays_iff (hc : Records log c) (h : c.classLevel? p = some q) :
    c.classLevel? q = some q ↔ ¬ p.Disguised := by
  rw [← isConclusion_classLevel?_iff hc h]
  constructor
  · exact fun hq hkind => classLevel?_conclusion_ne hc hkind hq
  · exact fun hkind => classLevel?_of_not_conclusion hc h (by simpa using hkind)

-- ============================================================================
-- Names of the grammar
-- ============================================================================

/-- Of the names of the grammar, those of method dependencies are disguised that
    bear the mark behind a tense of change. -/
theorem disguised_iff_of_name {t : Tense} {primed : Bool} {base : String}
    (hbase : '_' ∉ base.toList) (h : p.name = join (t.stem primed) base) :
    p.Disguised ↔ primed = true ∧ t.isChange = true ∧ p.isMethodDependency = true := by
  have hkind : p.kind.isConclusion = (t.isChange && !primed) := by
    rw [(Predicate.classified_of_name hbase h).1]
    cases t <;> cases primed <;> rfl
  have hlead : ∃ rest, p.name = join t.word rest := by
    cases primed with
    | false => exact ⟨base, h⟩
    | true => exact ⟨"p_" ++ base, by rw [h, ← String.toList_inj]; simp [Tense.stem, join]⟩
  obtain ⟨rest, hname⟩ := hlead
  rw [Predicate.disguised_iff t.underscore_not_mem_word hname, hkind]
  simp only [Tense.word_suffix_word_iff, exists_eq_right]
  cases t.isChange <;> cases primed <;> simp

theorem not_disguised_of_not_mem (h : '_' ∉ p.name.toList) : ¬ p.Disguised := by
  rintro ⟨-, -, t, lead, rest, -, -, -, hname⟩
  rw [hname, PredicateName.toList_join] at h
  exact h (by simp)

-- ============================================================================
-- The standard catalog
-- ============================================================================

theorem underscore_not_mem_family (f : Family) : '_' ∉ f.word.toList := by
  cases f <;> decide

theorem exists_tense_of_mem {stem : String} (h : stem ∈ tenses) :
    ∃ t : Tense, t.word = stem := by
  simp only [tenses, List.mem_cons, List.not_mem_nil, or_false] at h
  rcases h with rfl | rfl | rfl | rfl
  · exact ⟨.before, rfl⟩
  · exact ⟨.after, rfl⟩
  · exact ⟨.deleted, rfl⟩
  · exact ⟨.added, rfl⟩

theorem name_underStems {stems : List String} {rows : List (Family × String)} {e : Registration}
    (hstems : ∀ stem ∈ stems, ∃ t : Tense, t.word = stem) (h : e ∈ underStems stems rows) :
    ∃ (t : Tense) (f : Family), e.1 = join t.word f.word := by
  obtain ⟨row, -, he⟩ := List.mem_flatMap.mp h
  obtain ⟨stem, hstem, rfl⟩ := List.mem_map.mp he
  obtain ⟨t, rfl⟩ := hstems stem hstem
  exact ⟨t, row.1, rfl⟩

/-- The names of the standard catalog are a word for a family, alone or behind a
    tense, and the changed type. -/
theorem name_plainEntries {e : Registration} (h : e ∈ plainEntries) :
    (∃ f : Family, e.1 = f.word) ∨ (∃ (t : Tense) (f : Family), e.1 = join t.word f.word) ∨
      e.1 = changedType := by
  have hmodified : ∀ stem ∈ ["modified"], ∃ t : Tense, t.word = stem :=
    fun stem hstem => ⟨.modified, (List.mem_singleton.mp hstem).symm⟩
  simp only [plainEntries, List.mem_append, List.mem_flatMap, List.mem_cons, List.not_mem_nil,
    or_false] at h
  rcases h with ((⟨row, -, rfl | hunder⟩ | hunder) | hunder) | rfl
  · exact .inl ⟨row.1, rfl⟩
  · exact .inr (.inl (name_underStems (fun _ => exists_tense_of_mem) hunder))
  · exact .inr (.inl (name_underStems hmodified hunder))
  · exact .inr (.inl (name_underStems (fun _ => exists_tense_of_mem) hunder))
  · exact .inr (.inr rfl)

theorem not_disguised_of_mem_standard (hp : p ∈ standard.all) : ¬ p.Disguised := by
  have hc : Records (plainEntries ++ []) standard := records_ofRegistrations _
  obtain ⟨e, he, hname⟩ := hc.exists_of_mem_all hp
  rw [List.append_nil] at he
  rcases name_plainEntries he with ⟨f, hword⟩ | ⟨t, f, hword⟩ | hchanged
  · refine not_disguised_of_not_mem ?_
    rw [hname, hword]
    exact underscore_not_mem_family f
  · have hplain : p.name = join (t.stem false) f.word := hname.trans hword
    rw [disguised_iff_of_name (underscore_not_mem_family f) hplain]
    simp
  · rintro ⟨-, hdependency, -⟩
    rw [Predicate.isMethodDependency, hname, hchanged] at hdependency
    revert hdependency
    decide +kernel

/-- **What a predicate counts towards counts towards itself, disguised
    dependencies apart.**  In a catalog made by registrations the outcome for a
    predicate stays as it is, unless the predicate is a method dependency that is
    no conclusion although the text before its first underscore ends in a tense of
    change.  Then the outcome is a conclusion and counts towards the changed type.
    After a second step nothing changes any more.  The standard catalog has no
    disguised dependencies. -/
theorem classLevel_settles :
    (∀ (log : List Registration) (p q : Predicate),
      let c := ofRegistrations log
      c.classLevel? p = some q →
        (c.classLevel? q = some q ↔ ¬ p.Disguised) ∧
        (p.Disguised → q.kind.isConclusion = true ∧ c.classLevel? q = c.find? changedType) ∧
        ∀ r, c.classLevel? q = some r → c.classLevel? r = some r) ∧
    ∀ p ∈ standard.all, ∀ q, standard.classLevel? p = some q →
      standard.classLevel? q = some q := by
  refine ⟨?_, ?_⟩
  · intro log p q c h
    have hc : Records log c := records_ofRegistrations log
    have hconclusion := isConclusion_classLevel?_iff hc h
    refine ⟨classLevel?_stays_iff hc h, fun hp => ?_, fun r hr => ?_⟩
    · have hkind := hconclusion.mpr hp
      exact ⟨hkind, classLevel?_of_conclusion c hkind⟩
    · cases hkind : q.kind.isConclusion with
      | true =>
        rw [classLevel?_of_conclusion c hkind] at hr
        exact (classLevel?_changedType c (hc.name_of_find? hr)).2
      | false =>
        have hq := classLevel?_of_not_conclusion hc h hkind
        rw [hq] at hr
        exact Option.some.inj hr ▸ hq
  · intro p hp q h
    have hc : Records _ standard := records_ofRegistrations _
    exact (classLevel?_stays_iff hc h).mpr (not_disguised_of_mem_standard hp)

namespace Sample

/-- The calls of a tense of change with the mark of the primed kinds, and what
    they count towards in one step and in two. -/
def markedCalls : List Registration :=
  [("deleted_p_calls", "mm"), ("deleted_dependency", "tt"), ("changed_type", "t")]

end Sample

open Sample in
theorem classLevel_settles_deleted :
    (let c := ofRegistrations markedCalls
     let p : Predicate := ⟨"deleted_p_calls", [.method, .method], List.cons_ne_nil _ _⟩
     let q : Predicate := ⟨"deleted_dependency", [.type, .type], List.cons_ne_nil _ _⟩
     let r : Predicate := ⟨changedType, [.type], List.cons_ne_nil _ _⟩
     c.classLevel? p = some q ∧ p.Disguised ∧ c.classLevel? q = some r ∧ c.classLevel? r = some r) ∧
    ∃ p ∈ standard.all, ∃ q, p.name = "before_calls" ∧ q.name = "before_dependency" ∧
      standard.classLevel? p = some q ∧ standard.classLevel? q = some q := by
  refine ⟨?_, ?_⟩
  · intro c p q r
    have h : c.classLevel? p = some q := by decide +kernel
    have hname : p.name = join (Tense.deleted.stem true) "calls" := rfl
    have hdisguised : p.Disguised := by
      rw [disguised_iff_of_name (by decide) hname]
      decide +kernel
    obtain ⟨-, hfurther, hlast⟩ := classLevel_settles.1 markedCalls p q h
    have hchanged : c.find? changedType = some r := by decide +kernel
    have hq : c.classLevel? q = some r := (hfurther hdisguised).2.trans hchanged
    exact ⟨h, hdisguised, hq, hlast r hq⟩
  · have hc : Records (plainEntries ++ []) standard := records_ofRegistrations _
    have hcalls : (join "before" "calls", "mm") ∈ valid (plainEntries ++ []) := by decide +kernel
    have htarget : (join "before" "dependency", "tt") ∈ valid (plainEntries ++ []) := by
      decide +kernel
    obtain ⟨p, hp, q, hname, hqname, h⟩ := exists_dependency hc "before" "calls" hcalls htarget
      (by decide) (by decide +kernel) (by decide +kernel)
    exact ⟨p, hp, q, hname, hqname, h, classLevel_settles.2 p hp q h⟩

/-- In the catalog with primed conclusions the outcome for the deleted calls that
    bear the mark does not count towards itself. -/
theorem primed_calls_count_further :
    let c := ofOptions { primedConclusions := true }
    ∃ p ∈ c.all, ∃ q, p.name = "deleted_p_calls" ∧ q.name = "deleted_dependency" ∧
      c.classLevel? p = some q ∧ c.classLevel? q ≠ some q := by
  intro c
  have hc : Records (plainEntries ++ primedEntries) c := records_ofRegistrations _
  have hcalls : (join "deleted" "p_calls", "mm") ∈ valid (plainEntries ++ primedEntries) := by
    decide +kernel
  have htarget : (join "deleted" "dependency", "tt") ∈ valid (plainEntries ++ primedEntries) := by
    decide +kernel
  obtain ⟨p, hp, q, hname, hqname, h⟩ := exists_dependency hc "deleted" "p_calls" hcalls htarget
    (by decide) (by decide +kernel) (by decide +kernel)
  have hkind : q.kind.isConclusion = true := by
    rw [Predicate.kind, hqname]
    decide +kernel
  exact ⟨p, hp, q, hname, hqname, h, classLevel?_conclusion_ne hc hkind⟩

end Catalog
end StructuralDiff
