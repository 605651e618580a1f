/-
  StructuralDiff.Proofs.Source.Scan

  What one poll of a composite does.

  A composite polls its children in cyclic order: those from the remembered
  child on, and then, wrapping around, those before it.  `Composed` shows both
  forms of a composite in this way, and `Polled` lists all that a poll of it
  can come to: a child is found ready before the wrap, or behind it, or no
  child is ready.  `treeInduction` goes through a source with both forms of a
  composite in one case.
-/

import StructuralDiff.Source.Poll

namespace StructuralDiff
namespace Source

variable {κ α : Type}

-- ============================================================================
-- Polling order
-- ============================================================================

/-- `s` is a composite called `l`, which polls the children `behind` first and
    those in `front` of them afterwards. -/
inductive Composed : Source κ α → κ → List (Source κ α) → List (Source κ α) → Prop where
  | composite (l : κ) (cs : List (Source κ α)) : Composed (.composite l cs) l [] cs
  | focused (l : κ) (before : List (Source κ α)) (c : Source κ α) (after : List (Source κ α)) :
      Composed (.focused l before c after) l before (c :: after)

/-- A child is added behind the children that are polled first. -/
theorem composed_of_addChild? {s t child : Source κ α} (h : s.addChild? child = some t) :
    ∃ l front behind, s.Composed l front behind ∧ t.Composed l front (behind ++ [child]) := by
  cases s with
  | composite l cs =>
    cases h
    exact ⟨l, [], cs, .composite l cs, .composite l _⟩
  | focused l before c after =>
    cases h
    exact ⟨l, before, c :: after, .focused l before c after, .focused l before c _⟩
  | empty => cases h
  | feed => cases h
  | scripted => cases h
  | suspended => cases h
  | opened => cases h

/-- Induction over a source with one case for composites of either form. -/
theorem treeInduction {P : Source κ α → Prop} (empty : ∀ l, P (.empty l))
    (feed : ∀ l f, P (.feed l f)) (scripted : ∀ l steps, P (.scripted l steps))
    (suspended : ∀ l inner, P inner → P (.suspended l inner))
    (opened : ∀ l inner, P inner → P (.opened l inner))
    (composed : ∀ s l front behind, s.Composed l front behind → (∀ c ∈ front, P c) →
      (∀ c ∈ behind, P c) → P s)
    (s : Source κ α) : P s := by
  refine WellFounded.induction (measure (sizeOf (α := Source κ α))).wf s
    fun s (descend : ∀ t, sizeOf t < sizeOf s → P t) => ?_
  have within {cs : List (Source κ α)} (hcs : sizeOf cs < sizeOf s) : ∀ c ∈ cs, P c :=
    fun c hc => descend c (Nat.lt_trans (List.sizeOf_lt_of_mem hc) hcs)
  cases s with
  | empty l => exact empty l
  | feed l f => exact feed l f
  | scripted l steps => exact scripted l steps
  | suspended l inner =>
    rw [Source.suspended.sizeOf_spec] at descend
    exact suspended l inner (descend inner (by omega))
  | opened l inner =>
    rw [Source.opened.sizeOf_spec] at descend
    exact opened l inner (descend inner (by omega))
  | composite l cs =>
    rw [Source.composite.sizeOf_spec] at within
    exact composed _ l [] cs (.composite l cs) (List.forall_mem_nil _) (within (by omega))
  | focused l before c after =>
    rw [Source.focused.sizeOf_spec] at descend within
    have hc : P c := descend c (by omega)
    have hafter : ∀ d ∈ after, P d := within (by omega)
    exact composed _ l before (c :: after) (.focused l before c after) (within (by omega))
      (List.forall_mem_cons.mpr ⟨hc, hafter⟩)

-- ============================================================================
-- Answers and findings
-- ============================================================================

theorem status_eq (s : Source κ α) : s.status = s.survey.finding.status := rfl

section

variable {s : Source κ α}

theorem survey_of_status_exhausted (h : s.status = .exhausted) :
    ∃ t, s.survey.finding = .exhausted t := by
  rw [status_eq] at h
  cases hf : s.survey.finding with
  | exhausted t => exact ⟨t, rfl⟩
  | waiting t => rw [hf] at h; cases h
  | ready t x rest => rw [hf] at h; cases h

theorem survey_of_status_waiting (h : s.status = .waiting) :
    ∃ t, s.survey.finding = .waiting t := by
  rw [status_eq] at h
  cases hf : s.survey.finding with
  | exhausted t => rw [hf] at h; cases h
  | waiting t => exact ⟨t, rfl⟩
  | ready t x rest => rw [hf] at h; cases h

theorem survey_of_status_ready (h : s.status = .ready) :
    ∃ t x rest, s.survey.finding = .ready t x rest := by
  rw [status_eq] at h
  cases hf : s.survey.finding with
  | exhausted t => rw [hf] at h; cases h
  | waiting t => rw [hf] at h; cases h
  | ready t x rest => exact ⟨t, x, rest, rfl⟩

end

-- ============================================================================
-- Running through a list of children
-- ============================================================================

/-- What is kept of a child that is not ready: if it waits, the child as the
    poll leaves it. -/
def kept? (c : Source κ α) : Option (Source κ α) :=
  match c.survey.finding with
  | .waiting s => some s
  | _ => none

/-- What is kept of children none of which is ready. -/
def stay (cs : List (Source κ α)) : List (Source κ α) := cs.filterMap kept?

/-- The calls made in polling the children one after another. -/
def reports (cs : List (Source κ α)) : List (Contact κ) := cs.flatMap fun c => c.poll.contacts

theorem stay_cons (c : Source κ α) (cs : List (Source κ α)) :
    stay (c :: cs) = c.kept?.toList ++ stay cs := by
  cases h : c.kept? <;> simp [stay, h]

theorem scanAll_cons_of_ready {c s rest : Source κ α} {x : α}
    (hc : c.survey.finding = .ready s x rest) (cs : List (Source κ α)) :
    scanAll (c :: cs) = ⟨[], some (s, x, rest, cs), c.poll.contacts⟩ := by
  simp only [scanAll, poll, Poll.reported, hc]

theorem scanAll_cons_of_not_ready {c : Source κ α} (hc : c.status ≠ .ready)
    (cs : List (Source κ α)) :
    scanAll (c :: cs) = ⟨c.kept?.toList ++ (scanAll cs).kept, (scanAll cs).hit,
      c.poll.contacts ++ (scanAll cs).contacts⟩ := by
  rw [status_eq] at hc
  simp only [scanAll, poll, Poll.reported, kept?]
  cases hf : c.survey.finding with
  | exhausted s => rfl
  | waiting s => rfl
  | ready s x rest => exact absurd (by rw [hf]; rfl) hc

/-- A scan that meets no ready child. -/
theorem scanAll_of_not_ready {cs : List (Source κ α)} (hcs : ∀ c ∈ cs, c.status ≠ .ready) :
    scanAll cs = ⟨stay cs, none, reports cs⟩ := by
  induction cs with
  | nil => rfl
  | cons c cs ih =>
    rw [scanAll_cons_of_not_ready (hcs c List.mem_cons_self),
      ih fun d hd => hcs d (List.mem_cons_of_mem c hd), stay_cons]
    rfl

/-- A scan stops at the first ready child. -/
theorem scanAll_of_ready {before after : List (Source κ α)} {c s rest : Source κ α} {x : α}
    (hbefore : ∀ b ∈ before, b.status ≠ .ready) (hc : c.survey.finding = .ready s x rest) :
    scanAll (before ++ c :: after) =
      ⟨stay before, some (s, x, rest, after), reports before ++ c.poll.contacts⟩ := by
  induction before with
  | nil => exact scanAll_cons_of_ready hc after
  | cons b before ih =>
    rw [List.cons_append, scanAll_cons_of_not_ready (hbefore b List.mem_cons_self),
      ih fun d hd => hbefore d (List.mem_cons_of_mem b hd), stay_cons]
    simp [reports]

/-- Either no child is ready or there is a first ready one. -/
theorem exists_first_ready (cs : List (Source κ α)) :
    (∀ c ∈ cs, c.status ≠ .ready) ∨
      ∃ before c after s x rest, cs = before ++ c :: after ∧
        (∀ b ∈ before, b.status ≠ .ready) ∧ c.survey.finding = .ready s x rest := by
  induction cs with
  | nil => exact .inl (List.forall_mem_nil _)
  | cons d cs ih =>
    by_cases hd : d.status = .ready
    · obtain ⟨s, x, rest, hf⟩ := survey_of_status_ready hd
      exact .inr ⟨[], d, cs, s, x, rest, rfl, List.forall_mem_nil _, hf⟩
    · rcases ih with hnone | ⟨before, c, after, s, x, rest, rfl, hbefore, hc⟩
      · exact .inl (List.forall_mem_cons.mpr ⟨hd, hnone⟩)
      · exact .inr ⟨d :: before, c, after, s, x, rest, rfl,
          List.forall_mem_cons.mpr ⟨hd, hbefore⟩, hc⟩

-- ============================================================================
-- What a poll of a composite comes to
-- ============================================================================

/-- What the poll of a composite called `l` comes to that polls `behind` first
    and `front` afterwards. -/
inductive Polled (l : κ) : List (Source κ α) → List (Source κ α) → Poll κ α → Prop where
  /-- A child is ready before the scan wraps around. -/
  | behind {front before after : List (Source κ α)} {c s rest : Source κ α} {x : α}
      (hbefore : ∀ b ∈ before, b.status ≠ .ready) (hc : c.survey.finding = .ready s x rest) :
      Polled l front (before ++ c :: after)
        ⟨focusedOn l (front ++ stay before) s x rest after, reports before ++ c.poll.contacts⟩
  /-- The first ready child is met after the scan wrapped around. -/
  | wrapped {behind before after : List (Source κ α)} {c s rest : Source κ α} {x : α}
      (hbehind : ∀ b ∈ behind, b.status ≠ .ready) (hbefore : ∀ b ∈ before, b.status ≠ .ready)
      (hc : c.survey.finding = .ready s x rest) :
      Polled l (before ++ c :: after) behind
        ⟨focusedOn l (stay before) s x rest (after ++ stay behind),
          reports behind ++ (reports before ++ c.poll.contacts)⟩
  /-- No child is ready. -/
  | idle {front behind : List (Source κ α)} (hbehind : ∀ b ∈ behind, b.status ≠ .ready)
      (hfront : ∀ b ∈ front, b.status ≠ .ready) :
      Polled l front behind
        ⟨settled l (stay front ++ stay behind), reports behind ++ reports front⟩

/-- The poll of either form of a composite is one turn of it. -/
theorem survey_composed {s : Source κ α} {l : κ} {front behind : List (Source κ α)}
    (h : s.Composed l front behind) :
    s.survey = turned l front (scanAll behind) (scanAll front) := by
  cases h with
  | composite l => exact survey_composite l behind
  | focused l _ c after => exact survey_focused l front c after

theorem polled_survey {s : Source κ α} {l : κ} {front behind : List (Source κ α)}
    (h : s.Composed l front behind) : Polled l front behind s.survey := by
  rw [survey_composed h, turned]
  rcases exists_first_ready behind with
    hbehind | ⟨before, c, after, t, x, rest, rfl, hbefore, hc⟩
  · rw [scanAll_of_not_ready hbehind]
    rcases exists_first_ready front with
      hfront | ⟨before, c, after, t, x, rest, rfl, hbefore, hc⟩
    · rw [scanAll_of_not_ready hfront]
      exact .idle hbehind hfront
    · rw [scanAll_of_ready hbefore hc]
      exact .wrapped hbehind hbefore hc
  · rw [scanAll_of_ready hbefore hc]
    exact .behind hbefore hc

end Source
end StructuralDiff
