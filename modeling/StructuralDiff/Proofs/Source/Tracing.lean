/-
  StructuralDiff.Proofs.Source.Tracing

  Polls, requests and drains leave traced logs.

  Each of them is traced first below the node that is called (`traced_survey`,
  `take_beneath`) and then with this node (`traced_poll`, `traced_take`,
  `traced_drain`).  The poll of a composite is put together from the polls of
  its children (`traced_stay`, `traced_upTo`).
-/

import StructuralDiff.Proofs.Source.Readiness
import StructuralDiff.Proofs.Source.Sites
import StructuralDiff.Source.Drain

namespace StructuralDiff

variable {κ α : Type}

namespace Source

variable {s t c rest : Source κ α} {x : α} {l : κ} {cs front behind : List (Source κ α)}
  {L : List (Contact κ)}

-- ============================================================================
-- The called node
-- ============================================================================

theorem Composed.label_eq (h : s.Composed l front behind) : s.label = l := by
  cases h with
  | composite l cs => rfl
  | focused l before c after => rfl

/-- A poll leaves the polled node in its place. -/
theorem label_survey (s : Source κ α) : s.survey.finding.source.label = s.label := by
  induction s using treeInduction with
  | empty l => rfl
  | feed l f =>
    rw [survey]
    cases f.next? <;> rfl
  | scripted l steps => rcases steps with _ | ⟨_ | x, steps⟩ <;> rfl
  | suspended l inner _ => rfl
  | opened l inner _ =>
    simp only [survey, Poll.reported]
    cases inner.survey.finding <;> rfl
  | composed s l front behind h _ _ =>
    rw [h.label_eq]
    have hpolled := polled_survey h
    generalize s.survey = p at hpolled
    cases hpolled with
    | behind hbefore hc => rfl
    | wrapped hbehind hbefore hc => rfl
    | idle hbehind hfront => cases stay front ++ stay behind <;> rfl

/-- The topmost node is no child of a composite inside. -/
theorem label_not_mem_within (hs : s.labels.Nodup) {a : Site κ} (ha : a ∈ s.sites) :
    s.label ∉ a.within := by
  intro hmem
  rcases List.mem_cons.mp ha with rfl | ha
  · cases hmem
  · exact (List.nodup_cons.mp hs).1 (enclosed_beneath s a ha _ hmem)

/-- A call of the topmost node drops nothing. -/
theorem traced_root (hs : s.labels.Nodup) {k : Contact κ} (hk : k.label = s.label) :
    Traced s.sites [k] s.sites := by
  have hmem : k.label ∈ s.sites.map Site.label := hk ▸ List.mem_cons_self
  refine .single hmem ?_
  rintro a ha g hg rfl
  have hg' : s.label ∈ a.within := hk ▸ hg
  exact label_not_mem_within hs ha hg'

/-- A poll, once the calls below the polled node are traced. -/
theorem traced_poll_of (hs : s.labels.Nodup)
    (h : Traced s.beneath s.survey.contacts s.survey.finding.source.beneath) :
    Traced s.sites s.poll.contacts s.poll.finding.source.sites := by
  have hbelow := traced_sites hs h (label_survey s)
  have hleft : s.survey.finding.source.labels.Nodup := hs.sublist hbelow.labels
  exact hbelow.trans hs (traced_root hleft (label_survey s).symm)

-- ============================================================================
-- Polling children
-- ============================================================================

/-- What a poll of the source does below the polled node is traced. -/
def SurveyTraced (s : Source κ α) : Prop :=
  s.labels.Nodup → Traced s.beneath s.survey.contacts s.survey.finding.source.beneath

/-- The calls of a poll below a child, seen from its composite. -/
theorem traced_child (hc : c.labels.Nodup) (h : c.SurveyTraced) :
    Traced (beneathAll [c]) c.survey.contacts (beneathAll [c.survey.finding.source]) := by
  rw [beneathAll_singleton, beneathAll_singleton]
  exact traced_childSites hc (h hc) (label_survey c)

theorem label_mem_beneathAll (c : Source κ α) :
    c.label ∈ (beneathAll [c.survey.finding.source]).map Site.label := by
  rw [beneathAll_singleton, labels_childSites, labels_eq_cons, label_survey]
  exact List.mem_cons_self

/-- A child that stays. -/
theorem traced_kept (hc : c.labels.Nodup) (h : c.SurveyTraced) (hstatus : c.status ≠ .exhausted) :
    Traced (beneathAll [c]) c.poll.contacts (beneathAll [c.survey.finding.source]) := by
  refine (traced_child hc h).trans (nodup_beneathAll_singleton hc)
    (.single (label_mem_beneathAll c) ?_)
  intro a _ g _ heq
  injection heq with _ hanswer
  exact hstatus hanswer

/-- A child that is dropped. -/
theorem traced_gone (hc : c.labels.Nodup) (h : c.SurveyTraced) (hstatus : c.status = .exhausted) :
    Traced (beneathAll [c]) c.poll.contacts [] := by
  have hanswer : c.poll.contacts = c.survey.contacts ++ [.polled c.label .exhausted] := by
    rw [← hstatus]
    rfl
  rw [hanswer]
  exact (traced_child hc h).trans (nodup_beneathAll_singleton hc) (.drop (label_mem_beneathAll c))

theorem traced_of_not_ready (hc : c.labels.Nodup) (h : c.SurveyTraced)
    (hstatus : c.status ≠ .ready) :
    Traced (beneathAll [c]) c.poll.contacts (beneathAll c.kept?.toList) := by
  cases hanswer : c.status with
  | ready => exact absurd hanswer hstatus
  | exhausted =>
    obtain ⟨t, ht⟩ := survey_of_status_exhausted hanswer
    simp only [kept?, ht]
    exact traced_gone hc h hanswer
  | waiting =>
    obtain ⟨t, ht⟩ := survey_of_status_waiting hanswer
    have hkept := traced_kept hc h (by rw [hanswer]; decide)
    rw [ht] at hkept
    simp only [kept?, ht]
    exact hkept

theorem traced_of_ready (hc : c.labels.Nodup) (h : c.SurveyTraced)
    (hf : c.survey.finding = .ready t x rest) :
    Traced (beneathAll [c]) c.poll.contacts (beneathAll [t]) := by
  have hstatus : c.status ≠ .exhausted := by
    rw [status_eq, hf]
    exact Status.noConfusion
  have hkept := traced_kept hc h hstatus
  rwa [hf] at hkept

/-- Calls in the first of some children. -/
theorem traced_head (h : Traced (beneathAll [c]) L (beneathAll [t]))
    (hnodup : ((c :: cs).flatMap labels).Nodup) :
    Traced (beneathAll (c :: cs)) L (beneathAll (t :: cs)) := by
  have hall : Traced (beneathAll ([c] ++ cs)) (L ++ []) (beneathAll ([t] ++ cs)) :=
    traced_beside h (.nil (beneathAll cs)) hnodup
  rwa [List.append_nil] at hall

/-- Children none of which is ready. -/
theorem traced_stay (h : ∀ c ∈ cs, c.SurveyTraced) (hcs : ∀ c ∈ cs, c.status ≠ .ready)
    (hnodup : (cs.flatMap labels).Nodup) :
    Traced (beneathAll cs) (reports cs) (beneathAll (stay cs)) := by
  induction cs with
  | nil => exact .nil _
  | cons c cs ih =>
    obtain ⟨hc, hrest⟩ := List.forall_mem_cons.mp h
    obtain ⟨hcstatus, hreststatus⟩ := List.forall_mem_cons.mp hcs
    have hclabels : c.labels.Nodup := hnodup.of_append_left
    have hrestlabels : (cs.flatMap labels).Nodup := hnodup.of_append_right
    have hfirst := traced_of_not_ready hclabels hc hcstatus
    have hothers := ih hrest hreststatus hrestlabels
    rw [stay_cons]
    show Traced (beneathAll ([c] ++ cs)) _ _
    exact traced_beside hfirst hothers hnodup

/-- Children up to the first that is ready. -/
theorem traced_upTo {before after : List (Source κ α)}
    (h : ∀ d ∈ before ++ c :: after, d.SurveyTraced) (hbefore : ∀ b ∈ before, b.status ≠ .ready)
    (hf : c.survey.finding = .ready t x rest)
    (hnodup : ((before ++ c :: after).flatMap labels).Nodup) :
    Traced (beneathAll (before ++ c :: after)) (reports before ++ c.poll.contacts)
      (beneathAll (stay before ++ t :: after)) := by
  obtain ⟨htraced, hcafter⟩ := List.forall_mem_append.mp h
  obtain ⟨hbeforelabels, hrestlabels⟩ := nodup_parts hnodup
  have hclabels : c.labels.Nodup := hrestlabels.of_append_left
  have hready := traced_of_ready hclabels (hcafter c List.mem_cons_self) hf
  exact traced_beside (traced_stay htraced hbefore hbeforelabels)
    (traced_head hready hrestlabels) hnodup

theorem beneath_settled (l : κ) (cs : List (Source κ α)) :
    (settled l cs).source.beneath = beneathAll cs := by
  cases cs <;> rfl

theorem beneath_focused (l : κ) (before : List (Source κ α)) (c : Source κ α)
    (after : List (Source κ α)) :
    (focused l before c after).beneath = beneathAll (before ++ c :: after) := by
  rw [(Composed.focused l before c after).beneath_eq, beneathAll_append]

theorem beneath_within_opened (l : κ) (f : Finding κ α) :
    (f.within (opened l)).source.beneath = f.source.sites := by
  cases f <;> rfl

/-- What a poll does below the polled node is traced. -/
theorem traced_survey (s : Source κ α) : s.SurveyTraced := by
  induction s using treeInduction with
  | empty l => exact fun _ => .nil _
  | feed l f =>
    intro _
    rw [survey]
    cases f.next? <;> exact .nil _
  | scripted l steps =>
    intro _
    rcases steps with _ | ⟨_ | x, steps⟩ <;> exact .nil _
  | suspended l inner _ => exact fun _ => .nil _
  | opened l inner ih =>
    intro hs
    have hinner : inner.labels.Nodup := (List.nodup_cons.mp hs).2
    have hpoll := traced_poll_of hinner (ih hinner)
    rw [survey, beneath_within_opened]
    exact hpoll
  | composed s l front behind h ihfront ihbehind =>
    intro hs
    have hnodup : ((front ++ behind).flatMap labels).Nodup := h.nodup_children hs
    obtain ⟨hfrontlabels, hbehindlabels⟩ := nodup_parts hnodup
    have hpolled := polled_survey h
    rw [h.beneath_eq]
    generalize s.survey = p at hpolled
    -- The children `behind` stand last and are polled first.
    cases hpolled with
    | @behind _ before after c t rest x hbefore hc =>
      have hupTo := traced_upTo ihbehind hbefore hc hbehindlabels
      have hall := traced_beside (.nil (beneathAll front)) hupTo hnodup
      show Traced _ _ (focused l (front ++ stay before) t after).beneath
      rw [beneath_focused, List.append_assoc]
      exact hall
    | @wrapped _ before after c t rest x hbehind hbefore hc =>
      have hupTo := traced_upTo ihfront hbefore hc hfrontlabels
      have hstay := traced_stay ihbehind hbehind hbehindlabels
      have hlist : stay before ++ t :: (after ++ stay behind) =
          (stay before ++ t :: after) ++ stay behind := by
        rw [List.append_assoc, List.cons_append]
      show Traced _ _ (focused l (stay before) t (after ++ stay behind)).beneath
      rw [beneath_focused, hlist]
      exact traced_beside_of_right hupTo hstay hnodup
    | idle hbehind hfront =>
      have hfrontstay := traced_stay ihfront hfront hfrontlabels
      have hbehindstay := traced_stay ihbehind hbehind hbehindlabels
      rw [beneath_settled]
      exact traced_beside_of_right hfrontstay hbehindstay hnodup

theorem traced_poll (hs : s.labels.Nodup) :
    Traced s.sites s.poll.contacts s.poll.finding.source.sites :=
  traced_poll_of hs (traced_survey s hs)

-- ============================================================================
-- Requests
-- ============================================================================

/-- A request is passed on inside the source. -/
theorem requestPath_eq (s : Source κ α) :
    ∃ ms, s.requestPath = s.label :: ms ∧ ∀ m ∈ ms, m ∈ s.beneath.map Site.label := by
  induction s using treeInduction with
  | empty l => exact ⟨[], rfl, List.forall_mem_nil _⟩
  | feed l f => exact ⟨[], rfl, List.forall_mem_nil _⟩
  | scripted l steps => exact ⟨[], rfl, List.forall_mem_nil _⟩
  | suspended l inner _ => exact ⟨[], rfl, List.forall_mem_nil _⟩
  | opened l inner ih =>
    obtain ⟨ms, hpath, hms⟩ := ih
    refine ⟨inner.label :: ms, congrArg (l :: ·) hpath, ?_⟩
    exact List.forall_mem_cons.mpr
      ⟨List.mem_cons_self, fun m hm => List.mem_cons_of_mem _ (hms m hm)⟩
  | composed s l front behind h _ ihbehind =>
    cases h with
    | composite => exact ⟨[], rfl, List.forall_mem_nil _⟩
    | focused _ _ c after =>
      obtain ⟨ms, hpath, hms⟩ := ihbehind c List.mem_cons_self
      have hc : ∀ m ∈ c.labels, m ∈ (focused l front c after).beneath.map Site.label := by
        intro m hm
        rw [beneath_focused, map_label_beneathAll]
        exact List.mem_flatMap.mpr ⟨c, List.mem_append_right _ List.mem_cons_self, hm⟩
      refine ⟨c.label :: ms, congrArg (l :: ·) hpath, ?_⟩
      exact List.forall_mem_cons.mpr
        ⟨hc _ List.mem_cons_self, fun m hm => hc m (List.mem_cons_of_mem _ (hms m hm))⟩

/-- Giving an element leaves every node in its place. -/
theorem Poised.label_eq {g : κ} (h : s.Poised g x t) : t.label = s.label := by
  cases h <;> rfl

theorem Poised.beneath_eq {g : κ} (h : s.Poised g x t) : t.beneath = s.beneath := by
  induction h with
  | feed hf => rfl
  | scripted l x steps => rfl
  | opened h ih => rw [beneath, beneath, ih, h.label_eq]
  | focused h ih =>
    simp only [beneath_focused, beneathAll_append, beneathAll_cons, childSites, sites, ih,
      h.label_eq]

/-- A request of a composite that remembers no child: after the poll that finds
    one, the nodes on the way to the element are asked. -/
theorem take_composite (hs : (composite l cs).labels.Nodup) :
    ∃ L, (composite l cs).take.contacts = .asked l :: L ∧
      (composite l cs).take.source.label = l ∧
      Traced (beneathAll cs) L (composite l cs).take.source.beneath := by
  have hsurvey := traced_survey (composite l cs) hs
  have hlabel := label_survey (composite l cs)
  rw [take]
  cases hf : (composite l cs).survey.finding with
  | exhausted t =>
    rw [hf] at hsurvey hlabel
    exact ⟨_, rfl, hlabel, hsurvey⟩
  | waiting t =>
    rw [hf] at hsurvey hlabel
    exact ⟨_, rfl, hlabel, hsurvey⟩
  | ready t x rest =>
    rw [hf] at hsurvey hlabel
    obtain ⟨g, hg⟩ := poised_of_survey hf
    obtain ⟨ms, hpath, hms⟩ := requestPath_eq t
    have hnodup : ((beneathAll cs).map Site.label).Nodup := (List.nodup_cons.mp hs).2
    refine ⟨_, List.cons_append, hg.label_eq.trans hlabel, ?_⟩
    rw [hpath, hg.beneath_eq]
    exact hsurvey.trans hnodup (.asked hms)

/-- The request that a composite passes on to a child. -/
theorem traced_asked_child (c : Source κ α) :
    Traced c.childSites [.asked c.label] c.childSites := by
  have hmem : c.label ∈ c.childSites.map Site.label := by
    rw [labels_childSites]
    exact List.mem_cons_self
  show Traced c.childSites ([c.label].map .asked) c.childSites
  exact .asked (List.forall_mem_singleton.mpr hmem)

/-- A request reaches the node that it is made on, and then nodes below it. -/
theorem take_beneath (hs : s.labels.Nodup) :
    ∃ L, s.take.contacts = .asked s.label :: L ∧ s.take.source.label = s.label ∧
      Traced s.beneath L s.take.source.beneath := by
  induction s using treeInduction with
  | empty l => exact ⟨[], rfl, rfl, .nil _⟩
  | feed l f =>
    rw [take]
    cases f.next? <;> exact ⟨[], rfl, rfl, .nil _⟩
  | scripted l steps => rcases steps with _ | ⟨_ | x, steps⟩ <;> exact ⟨[], rfl, rfl, .nil _⟩
  | suspended l inner _ => exact ⟨[], rfl, rfl, .nil _⟩
  | opened l inner ih =>
    have hinner : inner.labels.Nodup := (List.nodup_cons.mp hs).2
    obtain ⟨L, hcontacts, hlabel, hbelow⟩ := ih hinner
    refine ⟨.asked inner.label :: L, by rw [take, Take.through, hcontacts]; rfl, rfl, ?_⟩
    exact (traced_root hinner rfl).trans hinner (traced_sites hinner hbelow hlabel)
  | composed s l front behind h _ ihbehind =>
    have hnodup := h.nodup_children hs
    cases h with
    | composite => exact take_composite hs
    | focused _ _ c after =>
      have hrest : ((c :: after).flatMap labels).Nodup := (nodup_parts hnodup).2
      have hc : c.labels.Nodup := hrest.of_append_left
      obtain ⟨L, hcontacts, hlabel, hbelow⟩ := ihbehind c List.mem_cons_self hc
      refine ⟨.asked c.label :: L, by rw [take, Take.through, hcontacts]; rfl, rfl, ?_⟩
      have hchild : Traced (beneathAll [c]) (.asked c.label :: L) (beneathAll [c.take.source]) := by
        rw [beneathAll_singleton, beneathAll_singleton]
        exact (traced_asked_child c).trans (by rwa [labels_childSites])
          (traced_childSites hc hbelow hlabel)
      show Traced (focused l front c after).beneath _ (focused l front c.take.source after).beneath
      rw [beneath_focused, beneath_focused]
      have hall := traced_beside (.nil (beneathAll front)) (traced_head hchild hrest) hnodup
      exact hall

/-- A request, with the node that it is made on. -/
theorem traced_take (hs : s.labels.Nodup) : Traced s.sites s.take.contacts s.take.source.sites := by
  obtain ⟨L, hcontacts, hlabel, hbelow⟩ := take_beneath hs
  rw [hcontacts]
  exact (traced_root hs rfl).trans hs (traced_sites hs hbelow hlabel)

-- ============================================================================
-- Drains
-- ============================================================================

/-- Polling until the source no longer waits. -/
theorem traced_awaitReady (hs : s.labels.Nodup) :
    Traced s.sites s.awaitReady.contacts s.awaitReady.finding.source.sites := by
  fun_induction awaitReady s with
  | case1 s p hwaiting later ih =>
    have hpoll := traced_poll hs
    exact hpoll.trans hs (ih (hs.sublist hpoll.labels))
  | case2 s p hready => exact traced_poll hs

theorem traced_drain (limit : Nat) (hs : s.labels.Nodup) :
    Traced s.sites (s.drain limit).contacts (s.drain limit).source.sites := by
  induction limit generalizing s with
  | zero => exact .nil _
  | succ limit ih =>
    have hawait := traced_awaitReady hs
    rw [drain]
    cases hf : s.awaitReady.finding with
    | exhausted t =>
      rw [hf] at hawait
      exact hawait
    | waiting t =>
      rw [hf] at hawait
      exact hawait
    | ready t x rest =>
      rw [hf] at hawait
      have ht : t.labels.Nodup := hs.sublist hawait.labels
      have htake := hawait.trans hs (traced_take ht)
      cases houtcome : t.take.outcome with
      | error fault =>
        simp only [houtcome]
        exact htake
      | ok y =>
        simp only [houtcome]
        exact htake.trans hs (ih (hs.sublist htake.labels))

end Source
end StructuralDiff
