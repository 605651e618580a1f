/-
  StructuralDiff.Proofs.Toml.Tables

  No table of a document has a key twice.

  An item is `Tidy` if in no table of it, at whatever depth, a key stands twice.
  Every change that a statement may make to the tree keeps this, wherever in the
  tree the path of the statement leads (`changeAt_tidy`), and so does the
  assembly of a table written inline; so a whole document is tidy
  (`parse_tidy`), and looking a key up finds all that stands under it.
-/

import Mathlib.Data.List.Basic
import StructuralDiff.Proofs.Fallible
import StructuralDiff.Toml.Document

namespace StructuralDiff.Toml

-- ============================================================================
-- Tidy trees
-- ============================================================================

/-- No table of the item has a key twice. -/
inductive Item.Tidy : Item → Prop where
  | boolean (b : Bool) : Tidy (.boolean b)
  | text (t : String) : Tidy (.text t)
  | number (n : Number) : Tidy (.number n)
  | moment (m : Moment) : Tidy (.moment m)
  | array {items : List Item} (h : ∀ x ∈ items, Tidy x) : Tidy (.array items)
  | table {origin : Origin} {entries : List (String × Item)}
      (hkeys : (entries.map Prod.fst).Nodup) (h : ∀ e ∈ entries, Tidy e.2) :
      Tidy (.table origin entries)
  | tables {finished : List (List (String × Item))} {last : List (String × Item)}
      (hkeys : ∀ t ∈ finished ++ [last], (t.map Prod.fst).Nodup)
      (h : ∀ t ∈ finished ++ [last], ∀ e ∈ t, Tidy e.2) : Tidy (.tables finished last)

/-- No key stands twice, in the table itself or in one inside it. -/
structure Tidy (entries : Entries) : Prop where
  keys : (entries.map Prod.fst).Nodup
  items : ∀ e ∈ entries, e.2.Tidy

section

variable {entries entries' sub : Entries} {origin made : Origin} {k : String} {x : Item}
  {finished : List Entries} {path : List String}

theorem tidy_nil : Tidy [] := ⟨List.nodup_nil, List.forall_mem_nil _⟩

theorem tidy_table_iff : (Item.table origin entries).Tidy ↔ Tidy entries := by
  constructor
  · intro h
    cases h with
    | table hkeys h => exact ⟨hkeys, h⟩
  · exact fun h => .table h.keys h.items

theorem tidy_tables_iff :
    (Item.tables finished entries).Tidy ↔ ∀ t ∈ finished ++ [entries], Tidy t := by
  constructor
  · intro h
    cases h with
    | tables hkeys h => exact fun t ht => ⟨hkeys t ht, h t ht⟩
  · exact fun h => .tables (fun t ht => (h t ht).keys) fun t ht => (h t ht).items

theorem Tidy.of_findIn (h : Tidy entries) (hk : OrderedMap.findIn k entries = some x) :
    x.Tidy :=
  h.items (k, x) ((OrderedMap.findIn_eq_some_iff h.keys).mp hk)

theorem mem_insertIn {e : String × Item} (he : e ∈ OrderedMap.insertIn k x entries) :
    e = (k, x) ∨ e ∈ entries := by
  induction entries with
  | nil => exact .inl (List.mem_singleton.mp he)
  | cons d entries ih =>
    obtain ⟨k', y⟩ := d
    rw [OrderedMap.insertIn] at he
    split at he
    · next heq =>
      subst heq
      exact (List.mem_cons.mp he).imp_right (List.mem_cons_of_mem _)
    · rcases List.mem_cons.mp he with rfl | he
      · exact .inr List.mem_cons_self
      · exact (ih he).imp_right (List.mem_cons_of_mem _)

theorem Tidy.insertIn (h : Tidy entries) (hx : x.Tidy) (k : String) :
    Tidy (OrderedMap.insertIn k x entries) where
  keys := OrderedMap.nodup_keys_insertIn k x entries h.keys
  items e he := by
    rcases mem_insertIn he with rfl | he
    · exact hx
    · exact h.items e he

-- ============================================================================
-- Changes
-- ============================================================================

/-- A change that keeps tables tidy does so at the end of every path. -/
theorem changeAt_tidy {change : Origin → Entries → Option Entries}
    (hchange : ∀ origin sub sub', Tidy sub → change origin sub = some sub' → Tidy sub')
    (h : Tidy entries) (hrun : changeAt made change path origin entries = some entries') :
    Tidy entries' := by
  induction path generalizing origin entries entries' with
  | nil => exact hchange _ _ _ h hrun
  | cons k path ih =>
    -- what stands under the first step of the path is tidy again
    have hstep {o : Option Item} (ho : ∀ x, o = some x → x.Tidy)
        (hrun : (o.bind fun x => some (OrderedMap.insertIn k x entries)) = some entries') :
        Tidy entries' := by
      obtain ⟨x, hx, heq⟩ := Option.bind_eq_some_iff.mp hrun
      cases heq
      exact h.insertIn (ho x hx) k
    rw [changeAt] at hrun
    split at hrun
    · refine hstep (fun x hx => ?_) hrun
      obtain ⟨sub, hsub, rfl⟩ := Option.map_eq_some_iff.mp hx
      exact tidy_table_iff.mpr (ih tidy_nil hsub)
    · next hfind =>
      split at hrun
      · cases hrun
      · refine hstep (fun x hx => ?_) hrun
        obtain ⟨sub, hsub, rfl⟩ := Option.map_eq_some_iff.mp hx
        exact tidy_table_iff.mpr (ih (tidy_table_iff.mp (h.of_findIn hfind)) hsub)
    · next finished last hfind =>
      refine hstep (fun x hx => ?_) hrun
      obtain ⟨sub, hsub, rfl⟩ := Option.map_eq_some_iff.mp hx
      have htables := tidy_tables_iff.mp (h.of_findIn hfind)
      have hlast : Tidy last := htables last (by simp)
      refine tidy_tables_iff.mpr fun t ht => ?_
      rcases List.mem_append.mp ht with ht | ht
      · exact htables t (List.mem_append_left _ ht)
      · rw [List.mem_singleton.mp ht]
        exact ih hlast hsub
    · cases hrun

theorem addAt_tidy (h : Tidy entries) (hx : x.Tidy)
    (hrun : addAt path k x origin entries = some entries') : Tidy entries' := by
  refine changeAt_tidy (fun found sub sub' hsub hadd => ?_) h hrun
  split at hadd
  · cases hadd
  · split at hadd
    · cases hadd
    · cases hadd
      exact hsub.insertIn hx k

theorem ofPairs_tidy {pairs : List ((List String × String) × Item)}
    (h : ∀ p ∈ pairs, p.2.Tidy) (hrun : ofPairs pairs = some entries) : Tidy entries :=
  foldlM_keeps (fun _ _ p hp hb hadd => addAt_tidy hb (h p hp) hadd) tidy_nil hrun

theorem openTable_tidy (h : Tidy entries) (hrun : openTable path k entries = some entries') :
    Tidy entries' := by
  refine changeAt_tidy (fun found sub sub' hsub hopen => ?_) h hrun
  split at hopen
  · cases hopen
    exact hsub.insertIn (tidy_table_iff.mpr tidy_nil) k
  · next hfind =>
    cases hopen
    exact hsub.insertIn (tidy_table_iff.mpr (tidy_table_iff.mp (hsub.of_findIn hfind))) k
  · cases hopen

theorem openElement_tidy (h : Tidy entries) (hrun : openElement path k entries = some entries') :
    Tidy entries' := by
  refine changeAt_tidy (fun found sub sub' hsub hopen => ?_) h hrun
  split at hopen
  · cases hopen
    refine hsub.insertIn (tidy_tables_iff.mpr fun t ht => ?_) k
    rw [List.mem_singleton.mp ht]
    exact tidy_nil
  · next finished last hfind =>
    cases hopen
    have htables := tidy_tables_iff.mp (hsub.of_findIn hfind)
    refine hsub.insertIn (tidy_tables_iff.mpr fun t ht => ?_) k
    rcases List.mem_append.mp ht with ht | ht
    · exact htables t ht
    · rw [List.mem_singleton.mp ht]
      exact tidy_nil
  · cases hopen

end

-- ============================================================================
-- Values
-- ============================================================================

theorem scalar_tidy {s rest : List Char} {x : Item} (h : scalar s = some (x, rest)) : x.Tidy := by
  unfold scalar at h
  split at h
  · cases h; exact .boolean true
  · cases h; exact .boolean false
  · split at h
    · cases h; exact .text _
    · split at h
      · cases h; exact .moment _
      · obtain ⟨p, hp, heq⟩ := Option.map_eq_some_iff.mp h
        cases heq
        exact .number p.1

section

/-- The items that the reader reads are tidy. -/
def ReadsTidy (item : Reader Item) : Prop := ∀ s x rest, item s = some (x, rest) → x.Tidy

variable {item : Reader Item} {s rest : List Char}

theorem arrayItems_tidy (hitem : ReadsTidy item) {n : Nat} {xs : List Item}
    (h : arrayItems item n s = some (xs, rest)) : ∀ x ∈ xs, x.Tidy := by
  induction n generalizing s xs with
  | zero => cases h
  | succ n ih =>
    simp only [arrayItems, Option.bind_eq_bind, Option.bind_eq_some_iff] at h
    obtain ⟨s₁, h₁, h⟩ := h
    by_cases hclose : s₁.head? = some ']'
    · rw [if_pos hclose] at h
      cases h
      exact List.forall_mem_nil _
    · rw [if_neg hclose] at h
      simp only [Option.bind_eq_some_iff] at h
      obtain ⟨⟨y, s₂⟩, hy, s₃, h₃, h⟩ := h
      split at h
      · obtain ⟨⟨ys, s₄⟩, hys, heq⟩ := Option.map_eq_some_iff.mp h
        cases heq
        exact List.forall_mem_cons.mpr ⟨hitem _ _ _ hy, ih hys⟩
      · cases h
        exact List.forall_mem_singleton.mpr (hitem _ _ _ hy)
      · cases h

theorem pair_tidy (hitem : ReadsTidy item) {p : (List String × String) × Item}
    (h : pair item s = some (p, rest)) : p.2.Tidy := by
  simp only [pair, Option.bind_eq_bind, Option.bind_eq_some_iff] at h
  obtain ⟨⟨k, s₁⟩, -, s₂, -, ⟨x, s₃⟩, hx, h⟩ := h
  cases h
  exact hitem _ _ _ hx

theorem morePairs_tidy (hitem : ReadsTidy item) {n : Nat}
    {ps : List ((List String × String) × Item)} (h : morePairs item n s = some (ps, rest)) :
    ∀ p ∈ ps, p.2.Tidy := by
  induction n generalizing s ps with
  | zero => cases h
  | succ n ih =>
    rw [morePairs] at h
    split at h
    · cases h
      exact List.forall_mem_nil _
    · simp only [Option.bind_eq_bind, Option.bind_eq_some_iff] at h
      obtain ⟨⟨p, s₁⟩, hp, ⟨ps', s₂⟩, hps', h⟩ := h
      cases h
      exact List.forall_mem_cons.mpr ⟨pair_tidy hitem hp, ih hps'⟩
    · cases h

theorem tablePairs_tidy (hitem : ReadsTidy item) {ps : List ((List String × String) × Item)}
    (h : tablePairs item s = some (ps, rest)) : ∀ p ∈ ps, p.2.Tidy := by
  unfold tablePairs at h
  split at h
  · cases h
    exact List.forall_mem_nil _
  · simp only [Option.bind_eq_bind, Option.bind_eq_some_iff] at h
    obtain ⟨⟨p, s₁⟩, hp, ⟨ps', s₂⟩, hps', h⟩ := h
    cases h
    exact List.forall_mem_cons.mpr ⟨pair_tidy hitem hp, morePairs_tidy hitem hps'⟩

end

theorem valueWithin_tidy (depth : Nat) : ReadsTidy (valueWithin depth) := by
  induction depth with
  | zero =>
    intro s x rest h
    unfold valueWithin at h
    exact scalar_tidy h
  | succ depth ih =>
    intro s x rest h
    unfold valueWithin at h
    split at h
    · next hdepth =>
      cases hdepth
      obtain ⟨⟨xs, s₁⟩, hxs, heq⟩ := Option.map_eq_some_iff.mp h
      cases heq
      exact .array (arrayItems_tidy ih hxs)
    · next hdepth =>
      cases hdepth
      simp only [Option.bind_eq_bind, Option.bind_eq_some_iff] at h
      obtain ⟨⟨pairs, s₁⟩, hpairs, entries, hentries, h⟩ := h
      cases h
      exact tidy_table_iff.mpr (ofPairs_tidy (tablePairs_tidy ih hpairs) hentries)
    · exact scalar_tidy h

-- ============================================================================
-- Documents
-- ============================================================================

/-- The value that a statement sets, if it sets one, is tidy. -/
def Statement.Tidy : Statement → Prop
  | .set _ _ x => x.Tidy
  | .header _ _ => True
  | .element _ _ => True

theorem statement_tidy {s rest : List Char} {x : Statement} (h : statement s = some (x, rest)) :
    x.Tidy := by
  unfold statement at h
  split at h
  · simp only [Option.bind_eq_bind, Option.bind_eq_some_iff] at h
    obtain ⟨⟨k, s₁⟩, -, s₂, -, s₃, -, s₄, -, h⟩ := h
    cases h
    trivial
  · simp only [Option.bind_eq_bind, Option.bind_eq_some_iff] at h
    obtain ⟨⟨k, s₁⟩, -, s₂, -, s₃, -, h⟩ := h
    cases h
    trivial
  · simp only [Option.bind_eq_bind, Option.bind_eq_some_iff] at h
    obtain ⟨⟨p, s₁⟩, hp, s₂, -, h⟩ := h
    cases h
    exact pair_tidy (valueWithin_tidy deepest) hp

theorem statements_tidy {n : Nat} {s : List Char} {xs : List Statement}
    (h : statements n s = some xs) : ∀ x ∈ xs, x.Tidy := by
  induction n generalizing s xs with
  | zero => cases h
  | succ n ih =>
    rw [statements] at h
    split at h
    · cases h
      exact List.forall_mem_nil _
    · obtain ⟨t, -, h⟩ := Option.bind_eq_some_iff.mp h
      exact ih h
    · exact ih h
    · obtain ⟨t, -, h⟩ := Option.bind_eq_some_iff.mp h
      exact ih h
    · simp only [Option.bind_eq_bind, Option.bind_eq_some_iff] at h
      obtain ⟨⟨first, s₁⟩, hfirst, others, hothers, h⟩ := h
      cases h
      exact List.forall_mem_cons.mpr ⟨statement_tidy hfirst, ih hothers⟩

/-- One statement. -/
theorem run_tidy {p q : Progress} {x : Statement} (hx : x.Tidy) (hp : Tidy p.root)
    (h : p.run x = some q) : Tidy q.root := by
  cases x with
  | set path k y =>
    obtain ⟨root, hroot, rfl⟩ := Option.map_eq_some_iff.mp h
    exact changeAt_tidy (fun _ _ _ hsub hadd => addAt_tidy hsub hx hadd) hp hroot
  | header path k =>
    obtain ⟨root, hroot, rfl⟩ := Option.map_eq_some_iff.mp h
    exact openTable_tidy hp hroot
  | element path k =>
    obtain ⟨root, hroot, rfl⟩ := Option.map_eq_some_iff.mp h
    exact openElement_tidy hp hroot

/-- **No table of a document has a key twice**, at whatever depth, whatever
    statements the document is made of. -/
theorem parse_tidy {text : String} {entries : Entries} (h : parse text = some entries) :
    Tidy entries := by
  simp only [parse, Option.bind_eq_bind, Option.bind_eq_some_iff] at h
  obtain ⟨xs, hxs, done, hdone, h⟩ := h
  cases h
  have hrun : ∀ p q : Progress, ∀ x ∈ xs, Tidy p.root → p.run x = some q → Tidy q.root :=
    fun p q x hx => run_tidy (statements_tidy hxs x hx)
  exact foldlM_keeps (P := fun p => Tidy p.root) hrun tidy_nil hdone

end StructuralDiff.Toml
