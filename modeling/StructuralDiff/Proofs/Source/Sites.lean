/-
  StructuralDiff.Proofs.Source.Sites

  Where the calls made on a source go.

  A `Site` is a node of a source: its label, and the labels of the children of
  composites that it is or lies below.  Polls and requests turn the list of
  sites of a source into a smaller one and leave a log.  `Traced A log B` says
  that a log does so in the right way: once a child of a composite has answered
  that it is exhausted, no site in it is left and no later call reaches one.

  Such logs can be put one behind the other (`Traced.trans`), and what is
  traced in one part of a source is traced in the whole (`Traced.around`,
  `Traced.inside`), so that it is enough to trace each call where it is made.
-/

import Mathlib.Data.List.Nodup
import StructuralDiff.Proofs.Source.Scan

namespace StructuralDiff

variable {κ α : Type}

/-- The node that was called. -/
def Contact.label : Contact κ → κ
  | .polled l _ => l
  | .asked l => l

/-- A node of a source: its label, and those of the children of composites that
    it is or lies below, the outermost first. -/
structure Site (κ : Type) where
  label : κ
  within : List κ

/-- The site as seen from the composite whose child `g` it lies in. -/
def Site.inside (g : κ) (a : Site κ) : Site κ := ⟨a.label, g :: a.within⟩

-- ============================================================================
-- Traced logs
-- ============================================================================

/-- If `k` is the answer of an exhausted child, the call `k'` does not reach that
    child or a node below it. -/
def LeavesAlone (A : List (Site κ)) (k k' : Contact κ) : Prop :=
  ∀ a ∈ A, ∀ g ∈ a.within, k = .polled g .exhausted → k'.label ≠ a.label

/-- The calls of `log` are made on the sites `A` and leave the sites `B`, and
    each child of a composite that answers that it is exhausted is dropped and
    left alone. -/
structure Traced (A : List (Site κ)) (log : List (Contact κ)) (B : List (Site κ)) : Prop where
  left : B.Sublist A
  reached : ∀ k ∈ log, k.label ∈ A.map Site.label
  quiet : log.Pairwise (LeavesAlone A)
  dropped : ∀ a ∈ A, ∀ g ∈ a.within, .polled g .exhausted ∈ log → a ∉ B

/-- The children of composites that the sites lie in are among them. -/
def Enclosed (A : List (Site κ)) : Prop := ∀ a ∈ A, ∀ g ∈ a.within, g ∈ A.map Site.label

section Lists

variable {A B C X Y : List (Site κ)} {L M : List (Contact κ)} {l g : κ}

theorem Enclosed.append (hX : Enclosed X) (hY : Enclosed Y) : Enclosed (X ++ Y) := by
  intro a ha g hg
  rw [List.map_append, List.mem_append]
  rcases List.mem_append.mp ha with haX | haY
  · exact .inl (hX a haX g hg)
  · exact .inr (hY a haY g hg)

theorem Traced.labels (h : Traced A L B) : (B.map Site.label).Sublist (A.map Site.label) :=
  h.left.map Site.label

theorem Traced.nil (A : List (Site κ)) : Traced A [] A :=
  ⟨.refl A, List.forall_mem_nil _, .nil, fun _ _ _ _ hlog => absurd hlog List.not_mem_nil⟩

/-- A call that drops nothing: it is not the answer of an exhausted child. -/
theorem Traced.single {k : Contact κ} (hk : k.label ∈ A.map Site.label)
    (hother : ∀ a ∈ A, ∀ g ∈ a.within, k ≠ .polled g .exhausted) : Traced A [k] A := by
  refine ⟨.refl A, ?_, List.pairwise_singleton _ k, ?_⟩
  · intro k' hk'
    rw [List.mem_singleton.mp hk']
    exact hk
  · intro a ha g hg hlog
    exact absurd (List.mem_singleton.mp hlog).symm (hother a ha g hg)

/-- The answer of an exhausted child, of which no site is left. -/
theorem Traced.drop (hl : l ∈ A.map Site.label) : Traced A [.polled l .exhausted] [] := by
  refine ⟨List.nil_sublist A, ?_, List.pairwise_singleton _ _, fun _ _ _ _ _ => List.not_mem_nil⟩
  intro k hk
  rw [List.mem_singleton.mp hk]
  exact hl

/-- Requests drop nothing: none of them is an answer. -/
theorem Traced.asked {ms : List κ} (h : ∀ m ∈ ms, m ∈ A.map Site.label) :
    Traced A (ms.map .asked) A := by
  refine ⟨.refl A, ?_, ?_, ?_⟩
  · intro k hk
    obtain ⟨m, hm, rfl⟩ := List.mem_map.mp hk
    exact h m hm
  · refine List.pairwise_map.mpr (List.pairwise_of_forall ?_)
    intro m m' a ha g hg heq
    cases heq
  · intro a ha g hg hlog
    obtain ⟨m, hm, heq⟩ := List.mem_map.mp hlog
    cases heq

theorem Traced.trans (hA : (A.map Site.label).Nodup) (h : Traced A L B) (h' : Traced B M C) :
    Traced A (L ++ M) C := by
  -- A site that `M` reaches, or that is left behind `M`, is still there between the two.
  have survives : ∀ a ∈ A, a.label ∈ B.map Site.label → a ∈ B := by
    intro a ha hlabel
    obtain ⟨b, hb, hba⟩ := List.mem_map.mp hlabel
    have heq : b = a := List.inj_on_of_nodup_map hA (h.left.subset hb) ha hba
    rwa [heq] at hb
  refine ⟨h'.left.trans h.left, ?_, ?_, ?_⟩
  · intro k hk
    rcases List.mem_append.mp hk with hL | hM
    · exact h.reached k hL
    · exact h.labels.subset (h'.reached k hM)
  · refine List.pairwise_append.mpr ⟨h.quiet, h'.quiet.imp_of_mem ?_, ?_⟩
    · intro k k' _ hk' hquiet a ha g hg hk heq
      have haB : a ∈ B := survives a ha (heq ▸ h'.reached k' hk')
      exact hquiet a haB g hg hk heq
    · intro k hkL k' hk' a ha g hg hk heq
      have haB : a ∈ B := survives a ha (heq ▸ h'.reached k' hk')
      exact h.dropped a ha g hg (hk ▸ hkL) haB
  · intro a ha g hg hlog haC
    have haB : a ∈ B := h'.left.subset haC
    rcases List.mem_append.mp hlog with hL | hM
    · exact h.dropped a ha g hg hL haB
    · exact h'.dropped a haB g hg hM haC

/-- Calls made in one part of the sites, seen in the whole. -/
theorem Traced.around (h : Traced A L B) (hX : Enclosed X) (hY : Enclosed Y)
    (hnodup : ((X ++ A ++ Y).map Site.label).Nodup) : Traced (X ++ A ++ Y) L (X ++ B ++ Y) := by
  rw [List.map_append, List.map_append] at hnodup
  obtain ⟨hXA, -, hXAY⟩ := List.nodup_append.mp hnodup
  obtain ⟨-, -, hXdisjoint⟩ := List.nodup_append.mp hXA
  -- No call of `L` goes to a node outside the part.
  have hout : ∀ k ∈ L, k.label ∉ X.map Site.label ∧ k.label ∉ Y.map Site.label := by
    intro k hk
    have hA := h.reached k hk
    exact ⟨fun hmem => hXdisjoint _ hmem _ hA rfl,
      fun hmem => hXAY _ (List.mem_append_right _ hA) _ hmem rfl⟩
  -- So a child that answers in `L` is a child of the part, and its sites are there.
  have hpart : ∀ a ∈ X ++ A ++ Y, ∀ g ∈ a.within, .polled g .exhausted ∈ L → a ∈ A := by
    intro a ha g hg hlog
    have hnot := hout _ hlog
    rcases List.mem_append.mp ha with haXA | haY
    · rcases List.mem_append.mp haXA with haX | haA
      · exact absurd (hX a haX g hg) hnot.1
      · exact haA
    · exact absurd (hY a haY g hg) hnot.2
  refine ⟨(h.left.append_left X).append_right Y, ?_, h.quiet.imp_of_mem ?_, ?_⟩
  · intro k hk
    rw [List.map_append, List.map_append]
    exact List.mem_append_left _ (List.mem_append_right _ (h.reached k hk))
  · intro k k' hkL _ hquiet a ha g hg hk
    exact hquiet a (hpart a ha g hg (hk ▸ hkL)) g hg hk
  · intro a ha g hg hlog hleft
    have haA : a ∈ A := hpart a ha g hg hlog
    have hlabel : a.label ∈ A.map Site.label := List.mem_map_of_mem haA
    rcases List.mem_append.mp hleft with haXB | haY
    · rcases List.mem_append.mp haXB with haX | haB
      · exact hXdisjoint _ (List.mem_map_of_mem haX) _ hlabel rfl
      · exact h.dropped a haA g hg hlog haB
    · exact hXAY _ (List.mem_append_right _ hlabel) _ (List.mem_map_of_mem haY) rfl

theorem Traced.append_right (h : Traced A L B) (hY : Enclosed Y)
    (hnodup : ((A ++ Y).map Site.label).Nodup) : Traced (A ++ Y) L (B ++ Y) :=
  h.around (X := []) (List.forall_mem_nil _) hY hnodup

theorem Traced.append_left (h : Traced A L B) (hX : Enclosed X)
    (hnodup : ((X ++ A).map Site.label).Nodup) : Traced (X ++ A) L (X ++ B) := by
  have hend : ((X ++ A ++ []).map Site.label).Nodup := by rwa [List.append_nil]
  have haround := h.around hX (Y := []) (List.forall_mem_nil _) hend
  rwa [List.append_nil, List.append_nil] at haround

theorem map_label_inside (g : κ) (A : List (Site κ)) :
    (A.map (Site.inside g)).map Site.label = A.map Site.label := by
  rw [List.map_map]
  rfl

/-- Calls made below the child `g`, seen from the composite. -/
theorem Traced.inside (h : Traced A L B) (hg : g ∉ A.map Site.label) :
    Traced (A.map (Site.inside g)) L (B.map (Site.inside g)) := by
  -- The child itself is not called, so that its own answer is not in the log.
  have hself {f : κ} (hlog : .polled f .exhausted ∈ L) : f ≠ g := by
    rintro rfl
    exact hg (h.reached _ hlog)
  refine ⟨h.left.map _, ?_, h.quiet.imp_of_mem ?_, ?_⟩
  · rw [map_label_inside]
    exact h.reached
  · intro k k' hkL _ hquiet b hb f hf hk
    obtain ⟨a, ha, rfl⟩ := List.mem_map.mp hb
    have hmem : f ∈ a.within := (List.mem_cons.mp hf).resolve_left (hself (hk ▸ hkL))
    exact hquiet a ha f hmem hk
  · intro b hb f hf hlog hleft
    obtain ⟨a, ha, rfl⟩ := List.mem_map.mp hb
    obtain ⟨a', ha', heq⟩ := List.mem_map.mp hleft
    have hsame : a' = a := by
      cases a'
      cases a
      cases heq
      rfl
    have hmem : f ∈ a.within := (List.mem_cons.mp hf).resolve_left (hself hlog)
    exact h.dropped a ha f hmem hlog (hsame ▸ ha')

end Lists

-- ============================================================================
-- The sites of a source
-- ============================================================================

namespace Source

mutual
/-- The sites below the topmost node. -/
def beneath : Source κ α → List (Site κ)
  | .empty _ => []
  | .feed _ _ => []
  | .scripted _ _ => []
  | .suspended _ inner => ⟨inner.label, []⟩ :: beneath inner
  | .opened _ inner => ⟨inner.label, []⟩ :: beneath inner
  | .composite _ cs => beneathAll cs
  | .focused _ before c after =>
    beneathAll before ++ (⟨c.label, [c.label]⟩ :: (beneath c).map (Site.inside c.label))
      ++ beneathAll after

/-- The sites of the children of a composite and those below them. -/
def beneathAll : List (Source κ α) → List (Site κ)
  | [] => []
  | c :: cs => ⟨c.label, [c.label]⟩ :: (beneath c).map (Site.inside c.label) ++ beneathAll cs
end

/-- All sites of a source. -/
def sites (s : Source κ α) : List (Site κ) := ⟨s.label, []⟩ :: s.beneath

/-- The labels of all nodes of a source. -/
def labels (s : Source κ α) : List κ := s.sites.map Site.label

/-- The sites of a child, seen from its composite. -/
def childSites (c : Source κ α) : List (Site κ) := c.sites.map (Site.inside c.label)

variable {s t c : Source κ α} {l : κ} {cs front behind : List (Source κ α)}
  {L : List (Contact κ)}

theorem beneathAll_cons (c : Source κ α) (cs : List (Source κ α)) :
    beneathAll (c :: cs) = c.childSites ++ beneathAll cs := by
  rw [beneathAll]
  rfl

theorem beneathAll_append (cs ds : List (Source κ α)) :
    beneathAll (cs ++ ds) = beneathAll cs ++ beneathAll ds := by
  induction cs with
  | nil => rw [beneathAll, List.nil_append, List.nil_append]
  | cons c cs ih => rw [List.cons_append, beneathAll_cons, beneathAll_cons, ih, List.append_assoc]

theorem beneathAll_singleton (c : Source κ α) : beneathAll [c] = c.childSites := by
  rw [beneathAll_cons, beneathAll, List.append_nil]

theorem Composed.beneath_eq (h : s.Composed l front behind) :
    s.beneath = beneathAll (front ++ behind) := by
  cases h with
  | composite l cs => rw [beneath, List.nil_append]
  | focused l before c after =>
    rw [beneath, beneathAll_append, beneathAll_cons, List.append_assoc]
    rfl

theorem labels_childSites (c : Source κ α) : c.childSites.map Site.label = c.labels :=
  map_label_inside _ _

theorem labels_eq_cons (s : Source κ α) : s.labels = s.label :: s.beneath.map Site.label := rfl

theorem enclosed_childSites (h : Enclosed c.beneath) : Enclosed c.childSites := by
  intro b hb g hg
  rw [labels_childSites, labels_eq_cons, List.mem_cons]
  obtain ⟨a, ha, rfl⟩ := List.mem_map.mp hb
  rcases List.mem_cons.mp hg with rfl | hg
  · exact .inl rfl
  · rcases List.mem_cons.mp ha with rfl | ha
    · cases hg
    · exact .inr (h a ha g hg)

theorem enclosed_beneathAll_of (h : ∀ c ∈ cs, Enclosed c.beneath) : Enclosed (beneathAll cs) := by
  induction cs with
  | nil => exact List.forall_mem_nil _
  | cons c cs ih =>
    obtain ⟨hc, hcs⟩ := List.forall_mem_cons.mp h
    rw [beneathAll_cons]
    exact (enclosed_childSites hc).append (ih hcs)

theorem enclosed_root (l : κ) : Enclosed [(⟨l, []⟩ : Site κ)] := by
  intro a ha g hg
  rw [List.mem_singleton.mp ha] at hg
  cases hg

theorem enclosed_beneath (s : Source κ α) : Enclosed s.beneath := by
  induction s using treeInduction with
  | empty l => exact List.forall_mem_nil _
  | feed l f => exact List.forall_mem_nil _
  | scripted l steps => exact List.forall_mem_nil _
  | suspended l inner ih => exact (enclosed_root inner.label).append ih
  | opened l inner ih => exact (enclosed_root inner.label).append ih
  | composed s l front behind h ihfront ihbehind =>
    rw [h.beneath_eq]
    exact enclosed_beneathAll_of (List.forall_mem_append.mpr ⟨ihfront, ihbehind⟩)

theorem enclosed_beneathAll (cs : List (Source κ α)) : Enclosed (beneathAll cs) :=
  enclosed_beneathAll_of fun c _ => enclosed_beneath c

theorem childSites_sublist (hc : c ∈ cs) : c.childSites.Sublist (beneathAll cs) := by
  induction cs with
  | nil => cases hc
  | cons d cs ih =>
    rw [beneathAll_cons]
    rcases List.mem_cons.mp hc with rfl | hc
    · exact List.sublist_append_left _ _
    · exact (ih hc).trans (List.sublist_append_right _ _)

theorem map_label_beneathAll (cs : List (Source κ α)) :
    (beneathAll cs).map Site.label = cs.flatMap labels := by
  induction cs with
  | nil => rfl
  | cons c cs ih =>
    rw [beneathAll_cons, List.map_append, labels_childSites, ih, List.flatMap_cons]

-- ============================================================================
-- Calls below a node
-- ============================================================================

/-- Calls made below the topmost node, which stays. -/
theorem traced_sites (hs : s.labels.Nodup) (h : Traced s.beneath L t.beneath)
    (hlabel : t.label = s.label) : Traced s.sites L t.sites := by
  rw [sites, sites, hlabel]
  exact h.append_left (enclosed_root s.label) hs

/-- Calls made below a child, which stays, seen from its composite. -/
theorem traced_childSites (hs : s.labels.Nodup) (h : Traced s.beneath L t.beneath)
    (hlabel : t.label = s.label) : Traced s.childSites L t.childSites := by
  have hself : Enclosed [(⟨s.label, [s.label]⟩ : Site κ)] := by
    intro a ha g hg
    rw [List.mem_singleton.mp ha] at hg
    exact hg
  have hinside := h.inside (List.nodup_cons.mp hs).1
  rw [childSites, childSites, hlabel, sites, sites, hlabel]
  refine hinside.append_left hself ?_
  have hnodup : (s.childSites.map Site.label).Nodup := by rwa [labels_childSites]
  exact hnodup

theorem Composed.nodup_children (h : s.Composed l front behind) (hs : s.labels.Nodup) :
    ((front ++ behind).flatMap labels).Nodup := by
  rw [← map_label_beneathAll, ← h.beneath_eq]
  exact (List.nodup_cons.mp hs).2

section Parts

variable {M : List (Contact κ)} {cs' ds ds' : List (Source κ α)}

theorem nodup_beneathAll_singleton (hc : c.labels.Nodup) :
    ((beneathAll [c]).map Site.label).Nodup := by
  rwa [beneathAll_singleton, labels_childSites]

theorem nodup_parts (h : ((cs ++ ds).flatMap labels).Nodup) :
    (cs.flatMap labels).Nodup ∧ (ds.flatMap labels).Nodup := by
  rw [List.flatMap_append] at h
  exact ⟨h.of_append_left, h.of_append_right⟩

theorem nodup_beneathAll (h : ((cs ++ ds).flatMap labels).Nodup) :
    ((beneathAll cs ++ beneathAll ds).map Site.label).Nodup := by
  rwa [← beneathAll_append, map_label_beneathAll]

/-- Calls in two lists of children, those in the left list first. -/
theorem traced_beside (h : Traced (beneathAll cs) L (beneathAll cs'))
    (h' : Traced (beneathAll ds) M (beneathAll ds')) (hnodup : ((cs ++ ds).flatMap labels).Nodup) :
    Traced (beneathAll (cs ++ ds)) (L ++ M) (beneathAll (cs' ++ ds')) := by
  have hlabels := nodup_beneathAll hnodup
  have hleft := h.append_right (enclosed_beneathAll ds) hlabels
  have hright := h'.append_left (enclosed_beneathAll cs') (hlabels.sublist hleft.labels)
  rw [beneathAll_append, beneathAll_append]
  exact hleft.trans hlabels hright

/-- Calls in two lists of children, those in the right list first. -/
theorem traced_beside_of_right (h : Traced (beneathAll cs) L (beneathAll cs'))
    (h' : Traced (beneathAll ds) M (beneathAll ds')) (hnodup : ((cs ++ ds).flatMap labels).Nodup) :
    Traced (beneathAll (cs ++ ds)) (M ++ L) (beneathAll (cs' ++ ds')) := by
  have hlabels := nodup_beneathAll hnodup
  have hright := h'.append_left (enclosed_beneathAll cs) hlabels
  have hleft := h.append_right (enclosed_beneathAll ds') (hlabels.sublist hright.labels)
  rw [beneathAll_append, beneathAll_append]
  exact hright.trans hlabels hleft

end Parts

-- ============================================================================
-- Children
-- ============================================================================

/-- `c` is a child of a composite in `s`, at any depth. -/
inductive ChildIn (c : Source κ α) : Source κ α → Prop where
  | child {s : Source κ α} {l : κ} {front behind : List (Source κ α)}
      (h : s.Composed l front behind) (hc : c ∈ front ++ behind) : ChildIn c s
  | deeper {s d : Source κ α} {l : κ} {front behind : List (Source κ α)}
      (h : s.Composed l front behind) (hd : d ∈ front ++ behind) (hc : ChildIn c d) : ChildIn c s
  | suspended {l : κ} {inner : Source κ α} (hc : ChildIn c inner) : ChildIn c (.suspended l inner)
  | opened {l : κ} {inner : Source κ α} (hc : ChildIn c inner) : ChildIn c (.opened l inner)

/-- The nodes of a child lie in it, seen from its composite. -/
theorem exists_childSite {m : κ} (hm : m ∈ c.labels) :
    ∃ a ∈ c.childSites, a.label = m ∧ c.label ∈ a.within := by
  obtain ⟨a, ha, rfl⟩ := List.mem_map.mp hm
  exact ⟨a.inside c.label, List.mem_map_of_mem ha, rfl, List.mem_cons_self⟩

/-- What lies in a child further down lies in it also when seen from here. -/
theorem exists_site_beneathAll {d : Source κ α} (hd : d ∈ cs) {g m : κ}
    (h : ∃ a ∈ d.beneath, a.label = m ∧ g ∈ a.within) :
    ∃ a ∈ beneathAll cs, a.label = m ∧ g ∈ a.within := by
  obtain ⟨a, ha, hlabel, hwithin⟩ := h
  have hmem : a.inside d.label ∈ d.childSites := List.mem_map_of_mem (List.mem_cons_of_mem _ ha)
  exact ⟨a.inside d.label, (childSites_sublist hd).subset hmem, hlabel,
    List.mem_cons_of_mem _ hwithin⟩

theorem exists_site_of_mem (hc : c ∈ cs) {m : κ} (hm : m ∈ c.labels) :
    ∃ a ∈ beneathAll cs, a.label = m ∧ c.label ∈ a.within := by
  obtain ⟨a, ha, hsite⟩ := exists_childSite hm
  exact ⟨a, (childSites_sublist hc).subset ha, hsite⟩

/-- The nodes of a child lie in it, seen from the topmost node. -/
theorem exists_site_of_childIn (hc : ChildIn c s) {m : κ} (hm : m ∈ c.labels) :
    ∃ a ∈ s.beneath, a.label = m ∧ c.label ∈ a.within := by
  induction hc with
  | child h hc =>
    rw [h.beneath_eq]
    exact exists_site_of_mem hc hm
  | deeper h hd _ ih =>
    rw [h.beneath_eq]
    exact exists_site_beneathAll hd ih
  | suspended _ ih =>
    obtain ⟨a, ha, hsite⟩ := ih
    exact ⟨a, List.mem_cons_of_mem _ ha, hsite⟩
  | opened _ ih =>
    obtain ⟨a, ha, hsite⟩ := ih
    exact ⟨a, List.mem_cons_of_mem _ ha, hsite⟩

end Source
end StructuralDiff
