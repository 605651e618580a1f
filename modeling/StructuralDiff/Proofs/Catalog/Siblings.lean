/-
  StructuralDiff.Proofs.Catalog.Siblings

  Siblings: predicates with one suffix under different stems.

  A sibling is looked for under a joined name, and its own stem and suffix are
  read off at the last underscore of that name.  Both agree when the suffix is
  free of underscores, which it is for every name but those whose only underscore
  leads (`PredicateName.underscore_not_mem_suffix`); the stem may hold as many of
  them as it likes.  So the sibling of `p` under a stem is the one predicate of
  the catalog that is divided into that stem and the suffix of `p`
  (`sibling?_eq_some_iff`), and going back to the stem of `p` leads to `p` again.
-/

import StructuralDiff.Catalog.Standard
import StructuralDiff.Proofs.Catalog.Registrations

namespace StructuralDiff
namespace Catalog

open PredicateName (Divided OnlyLeading join)

variable {log : List Registration} {c : Catalog} {p q : Predicate} {stem : String}

theorem sibling?_eq_some_iff (hc : Records log c) (hp : ¬ OnlyLeading p.name) (hstem : stem ≠ "") :
    c.sibling? p stem = some q ↔ q ∈ c.all ∧ Divided q.name stem p.suffix := by
  rw [sibling?, hc.find?_eq_some_iff]
  refine and_congr_right fun _ => ?_
  exact ⟨fun hname => ⟨hname, hstem, PredicateName.underscore_not_mem_suffix hp⟩, fun h => h.1⟩

/-- From a sibling the stem of `p` leads back to `p`. -/
theorem sibling?_stem (hc : Records log c) (hp : ¬ OnlyLeading p.name) (hmem : p ∈ c.all)
    (hunderscore : '_' ∈ p.name.toList) (hq : q.suffix = p.suffix) :
    c.sibling? q p.stem = some p := by
  have hname : p.name = join p.stem p.suffix := (PredicateName.divided_self hp hunderscore).1
  rw [sibling?, hq, ← hname]
  exact hc.find?_of_mem_all hmem

-- ============================================================================
-- Method dependencies
-- ============================================================================

/-- The method dependencies are what is found under two names. -/
theorem methodDependencies_eq (c : Catalog) (p : Predicate) :
    c.methodDependencies p = [join p.stem "calls", join p.stem "accesses"].filterMap c.find? := rfl

/-- The predicates found under some names bear those of the names that are
    registered. -/
theorem map_name_filterMap_find? (hc : Records log c) (wanted : List String) :
    (wanted.filterMap c.find?).map Predicate.name =
      wanted.filter (· ∈ c.all.map Predicate.name) := by
  induction wanted with
  | nil => rfl
  | cons name rest ih =>
    cases hfound : c.find? name with
    | some q =>
      obtain ⟨hq, rfl⟩ := hc.find?_eq_some_iff.mp hfound
      have hmem : q.name ∈ c.all.map Predicate.name := List.mem_map_of_mem hq
      rw [List.filterMap_cons_some hfound, List.map_cons, ih,
        List.filter_cons_of_pos (by simpa using hmem)]
    | none =>
      have hnot : name ∉ c.all.map Predicate.name := by
        rintro hmem
        obtain ⟨q, hq, rfl⟩ := List.mem_map.mp hmem
        rw [hc.find?_of_mem_all hq] at hfound
        cases hfound
      rw [List.filterMap_cons_none hfound, ih, List.filter_cons_of_neg (by simpa using hnot)]

theorem stem_of_methodDependency (hc : Records log c) (hp : p.name ≠ "")
    (hq : q ∈ c.methodDependencies p) : q ∈ c.all ∧ q.stem = p.stem := by
  rw [methodDependencies_eq, List.mem_filterMap] at hq
  obtain ⟨name, hname, hfound⟩ := hq
  obtain ⟨hmem, rfl⟩ := hc.find?_eq_some_iff.mp hfound
  have hstem : p.stem ≠ "" := PredicateName.stem_ne_empty hp
  refine ⟨hmem, ?_⟩
  simp only [List.mem_cons, List.not_mem_nil, or_false] at hname
  rcases hname with hname | hname
  · rw [Predicate.stem, hname, PredicateName.stem_join hstem (by decide)]
  · rw [Predicate.stem, hname, PredicateName.stem_join hstem (by decide)]

/-- **Siblings differ in the stem alone.**  In a catalog made by registrations,
    the sibling of a predicate under a stem is the one predicate whose name is
    divided into that stem and the suffix of the first; so it has that stem, and
    suffix and family of the first.  If the first belongs to the catalog and its
    name has an underscore, its own stem leads back from the sibling to it.  This
    holds unless the only underscore of the name is its first character.

    The method dependencies of a predicate with a name are in the catalog and
    have its stem; they are the calls and then the accesses under it, as far as
    these are registered. -/
theorem siblings_share_suffix (log : List Registration) (p : Predicate) :
    let c := ofRegistrations log
    (¬ OnlyLeading p.name → ∀ (stem : String) (q : Predicate), stem ≠ "" →
      (c.sibling? p stem = some q ↔ q ∈ c.all ∧ Divided q.name stem p.suffix) ∧
      (c.sibling? p stem = some q →
        q.stem = stem ∧ q.suffix = p.suffix ∧ q.family = p.family ∧
        (p ∈ c.all → '_' ∈ p.name.toList → c.sibling? q p.stem = some p))) ∧
    (p.name ≠ "" →
      (∀ q ∈ c.methodDependencies p, q ∈ c.all ∧ q.stem = p.stem) ∧
      (c.methodDependencies p).map Predicate.name =
        [join p.stem "calls", join p.stem "accesses"].filter
          (· ∈ c.all.map Predicate.name)) := by
  intro c
  have hc : Records log c := records_ofRegistrations log
  refine ⟨fun hp stem q hstem => ?_, fun hname => ⟨?_, ?_⟩⟩
  · have hiff := sibling?_eq_some_iff (q := q) hc hp hstem
    refine ⟨hiff, fun hq => ?_⟩
    have hdivided : Divided q.name stem p.suffix := (hiff.mp hq).2
    have hsuffix : q.suffix = p.suffix := PredicateName.suffix_of_divided hdivided
    exact ⟨PredicateName.stem_of_divided hdivided, hsuffix, congrArg Family.ofWord hsuffix,
      fun hmem hunderscore => sibling?_stem hc hp hmem hunderscore hsuffix⟩
  · exact fun q hq => stem_of_methodDependency hc hname hq
  · rw [methodDependencies_eq, map_name_filterMap_find? hc]

namespace Sample

/-- Names whose stems hold an underscore, one with a plain tense and one
    without any. -/
def marked : List Registration :=
  [("added_p_calls", "mm"), ("before_p_calls", "mm"), ("added_p_accesses", "fm"),
   ("before_calls", "mm"), ("calls", "mm")]

end Sample

open Sample in
theorem siblings_share_suffix_marked :
    let c := ofRegistrations marked
    let p : Predicate := ⟨"added_p_calls", [.method, .method], List.cons_ne_nil _ _⟩
    let q : Predicate := ⟨"before_p_calls", [.method, .method], List.cons_ne_nil _ _⟩
    ¬ OnlyLeading p.name ∧ p ∈ c.all ∧ '_' ∈ p.name.toList ∧ c.sibling? p "before_p" = some q ∧
      q.stem = "before_p" ∧ q.suffix = p.suffix ∧ c.sibling? q p.stem = some p ∧
      (c.methodDependencies p).map Predicate.name = ["added_p_calls", "added_p_accesses"] := by
  intro c p q
  have hp : ¬ OnlyLeading p.name := by decide +kernel
  have hmem : p ∈ c.all := by decide +kernel
  have hunderscore : '_' ∈ p.name.toList := by decide +kernel
  have hfound : c.sibling? p "before_p" = some q := by decide +kernel
  obtain ⟨hsiblings, hdependencies⟩ := siblings_share_suffix marked p
  obtain ⟨hstem, hsuffix, -, hback⟩ := (hsiblings hp "before_p" q (by decide)).2 hfound
  have hlisted := (hdependencies (by decide)).2
  refine ⟨hp, hmem, hunderscore, hfound, hstem, hsuffix, hback hmem hunderscore, ?_⟩
  rw [hlisted]
  decide +kernel

end Catalog
end StructuralDiff
