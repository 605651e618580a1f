/-
  StructuralDiff.Proofs.Source.Draining

  Draining a source whose leaves are all finite.

  `Drains` is the loop that polls a source, takes what is ready and goes on
  until the source is exhausted, as it runs when nothing bounds it; it has no
  rule for a request that is refused.  Each poll but the last uses up an
  element or a moment of waiting, so that a source with finite leaves has a run
  (`exists_drains`), and the bounded functions give its answer
  (`Drains.drain_eq`).
-/

import Mathlib.Data.List.Perm.Basic
import StructuralDiff.Proofs.Source.Sessions
import StructuralDiff.Source.Drain

namespace StructuralDiff

open Stream' (Seq)

variable {κ α : Type}

-- ============================================================================
-- Finite leaves
-- ============================================================================

/-- The leaves hold the lists `xss`, one each. -/
def Contain (L : List (Leaf κ α)) (xss : List (List α)) : Prop :=
  L.map Leaf.elements = xss.map Seq.ofList

/-- A feed that holds a list of elements is finite. -/
theorem Feed.extent_eq_length (f : Feed α) {xs : List α} (hf : f.elements = Seq.ofList xs) :
    f.extent = xs.length := by
  cases f with
  | finite rest => rw [extent, Seq.ofList_injective hf]
  | endless element start =>
    have hend : (Seq.ofList xs).get? xs.length = none := by
      rw [Seq.ofList_get?, List.getElem?_eq_none (Nat.le_refl _)]
    rw [← hf] at hend
    cases hend

section Lists

variable {L M : List (Leaf κ α)} {xss : List (List α)} {g : κ} {x : α} {o : Option (κ × α)}

theorem contain_cons_iff {a : Leaf κ α} :
    Contain (a :: L) xss ↔ ∃ xs yss, a.elements = Seq.ofList xs ∧ Contain L yss ∧ xss = xs :: yss := by
  constructor
  · intro h
    cases xss with
    | nil => cases h
    | cons xs yss =>
      obtain ⟨ha, hL⟩ := List.cons.inj h
      exact ⟨xs, yss, ha, hL, rfl⟩
  · rintro ⟨xs, yss, ha, hL, rfl⟩
    exact congrArg₂ List.cons ha hL

theorem contain_singleton {a : Leaf κ α} (h : Contain [a] xss) :
    ∃ xs, a.elements = Seq.ofList xs ∧ xss.flatten = xs := by
  obtain ⟨xs, yss, ha, hyss, rfl⟩ := contain_cons_iff.mp h
  have hnil : yss = [] := List.map_eq_nil_iff.mp hyss.symm
  exact ⟨xs, ha, by rw [hnil, List.flatten_cons, List.flatten_nil, List.append_nil]⟩

theorem contain_append {M : List (Leaf κ α)} (h : Contain (L ++ M) xss) :
    ∃ yss zss, Contain L yss ∧ Contain M zss ∧ xss = yss ++ zss := by
  rw [Contain, List.map_append] at h
  obtain ⟨yss, zss, hxss, hL, hM⟩ := List.append_eq_map_iff.mp h
  exact ⟨yss, zss, hL.symm, hM.symm, hxss⟩

theorem Pruned.contain (h : Pruned L M) (hL : Contain L xss) :
    ∃ yss, Contain M yss ∧ yss.flatten = xss.flatten := by
  induction h generalizing xss with
  | nil => exact ⟨xss, hL, rfl⟩
  | keep a _ ih =>
    obtain ⟨xs, yss, ha, hrest, rfl⟩ := contain_cons_iff.mp hL
    obtain ⟨zss, hM, hflat⟩ := ih hrest
    exact ⟨xs :: zss, contain_cons_iff.mpr ⟨xs, zss, ha, hM, rfl⟩, by
      rw [List.flatten_cons, List.flatten_cons, hflat]⟩
  | drop l _ ih =>
    obtain ⟨xs, yss, ha, hrest, rfl⟩ := contain_cons_iff.mp hL
    have hxs : xs = [] := Seq.ofList_injective (ha.symm.trans Seq.ofList_nil.symm)
    obtain ⟨zss, hM, hflat⟩ := ih hrest
    exact ⟨zss, hM, by rw [hflat, List.flatten_cons, hxs, List.nil_append]⟩

theorem Gives.contain (h : Gives g x L M) (hL : Contain L xss) :
    ∃ yss, Contain M yss ∧ xss.flatten.Perm (x :: yss.flatten) := by
  induction h generalizing xss with
  | here q L =>
    obtain ⟨xs, yss, ha, hrest, rfl⟩ := contain_cons_iff.mp hL
    cases xs with
    | nil => exact absurd (ha.trans Seq.ofList_nil) Seq.cons_ne_nil
    | cons y xs =>
      rw [Seq.ofList_cons] at ha
      obtain ⟨rfl, hq⟩ := Seq.cons_eq_cons.mp ha
      exact ⟨xs :: yss, contain_cons_iff.mpr ⟨xs, yss, hq, hrest, rfl⟩, .refl _⟩
  | there a _ ih =>
    obtain ⟨xs, yss, ha, hrest, rfl⟩ := contain_cons_iff.mp hL
    obtain ⟨zss, hM, hperm⟩ := ih hrest
    refine ⟨xs :: zss, contain_cons_iff.mpr ⟨xs, zss, ha, hM, rfl⟩, ?_⟩
    rw [List.flatten_cons, List.flatten_cons]
    exact (hperm.append_left xs).trans List.perm_middle

theorem Moves.contain (h : Moves L o M) (hL : Contain L xss) :
    ∃ yss, Contain M yss ∧ xss.flatten.Perm ((o.map Prod.snd).toList ++ yss.flatten) := by
  cases h with
  | keep h =>
    obtain ⟨yss, hM, hflat⟩ := h.contain hL
    exact ⟨yss, hM, .of_eq hflat.symm⟩
  | give h hg =>
    obtain ⟨yss, hM, hflat⟩ := h.contain hL
    obtain ⟨zss, hN, hperm⟩ := hg.contain hM
    exact ⟨zss, hN, hflat ▸ hperm⟩

end Lists

-- ============================================================================
-- The elements of replies
-- ============================================================================

/-- The elements among the answers. -/
def elements (rs : List (Reply κ α)) : List α :=
  rs.filterMap fun r =>
    match r.answer with
    | .element x => some x
    | _ => none

namespace Source

variable {s t : Source κ α} {g : κ} {x : α}

theorem elements_perform (s : Source κ α) (call : Call κ α) (rs : List (Reply κ α)) :
    elements (s.perform call :: rs) =
      ((s.perform call).given?.map Prod.snd).toList ++ elements rs := by
  cases call with
  | status => rfl
  | add child =>
    rw [perform]
    cases s.addChild? child <;> rfl
  | next =>
    rcases perform_next s with ⟨g, x, hanswer, hgiven⟩ | ⟨why, hanswer, hgiven⟩
    · rw [elements, List.filterMap_cons, hanswer, hgiven]
      rfl
    · rw [elements, List.filterMap_cons, hanswer, hgiven]
      rfl

/-- What was held at first is what was given during the calls and what is held
    after them. -/
theorem contain_after (s : Source κ α) (calls : List (Call κ α)) {xss : List (List α)}
    (hfin : Contain (s.stock calls) xss) :
    ∃ yss, Contain (s.after calls).leaves yss ∧
      xss.flatten.Perm (elements (s.replies calls) ++ yss.flatten) := by
  induction calls generalizing s xss with
  | nil =>
    rw [stock, stock.brought, List.append_nil] at hfin
    exact ⟨xss, hfin, .refl _⟩
  | cons call calls ih =>
    rw [stock_cons] at hfin
    have hmoves := (moves_perform s call).append_right
      (stock.brought (s.perform call).source calls)
    obtain ⟨yss, hyss, hfirst⟩ := hmoves.contain hfin
    obtain ⟨zss, hzss, hrest⟩ := ih (s.perform call).source hyss
    refine ⟨zss, hzss, ?_⟩
    rw [replies, elements_perform, List.append_assoc]
    exact hfirst.trans (hrest.append_left _)

-- ============================================================================
-- The drain loop
-- ============================================================================

/-- Polling `s` again and again and taking what is ready gives the elements `xs`
    in order and ends, at the `n`-th poll, with the exhausted source `t`. -/
inductive Drains : Source κ α → List α → Nat → Source κ α → Prop where
  | done {s t : Source κ α} (h : s.poll.finding = .exhausted t) : Drains s [] 1 t
  | again {s r t : Source κ α} {xs : List α} {n : Nat} (h : s.poll.finding = .waiting r)
      (hrest : Drains r xs n t) : Drains s xs (n + 1) t
  | gives {s t : Source κ α} {x : α} {xs : List α} {n : Nat} (h : s.status = .ready)
      (hx : s.poll.finding.source.take.outcome = .ok x)
      (hrest : Drains s.poll.finding.source.take.source xs n t) : Drains s (x :: xs) (n + 1) t

/-- Giving an element uses up no moment of waiting. -/
theorem Poised.delays_eq (h : s.Poised g x t) : t.delays = s.delays := by
  induction h with
  | feed hf => rfl
  | scripted l x steps => rfl
  | opened _ ih => exact ih
  | focused _ ih => rw [delays, delays, ih]

/-- A source that a poll finds exhausted holds nothing. -/
theorem contain_of_exhausted (h : s.survey.finding = .exhausted t) {xss : List (List α)}
    (hfin : Contain s.leaves xss) : xss.flatten = [] := by
  obtain ⟨yss, hyss, hflat⟩ := (pruned_survey s).contain hfin
  rw [h] at hyss
  obtain ⟨zss, hzss, hempty⟩ := (ended_of_survey h).pruned.contain hyss
  rw [← hflat, ← hempty, List.map_eq_nil_iff.mp hzss.symm, List.flatten_nil]

/-- A poll that has to wait uses up a moment of waiting and no element. -/
theorem contain_of_waiting (h : s.survey.finding = .waiting t) {xss : List (List α)}
    (hfin : Contain s.leaves xss) :
    ∃ yss, Contain t.leaves yss ∧ yss.flatten = xss.flatten ∧ t.delays < s.delays := by
  obtain ⟨yss, hyss, hflat⟩ := (pruned_survey s).contain hfin
  have hlt : s.survey.finding.source.delays < s.delays :=
    delays_poll_lt (by rw [status_eq, h]; rfl)
  rw [h] at hyss hlt
  exact ⟨yss, hyss, hflat, hlt⟩

/-- A poll that finds an element ready, and the request after it, use up this
    element. -/
theorem contain_of_ready {rest : Source κ α} (h : s.survey.finding = .ready t x rest)
    {xss : List (List α)} (hfin : Contain s.leaves xss) :
    ∃ yss, Contain rest.leaves yss ∧ xss.flatten.Perm (x :: yss.flatten) ∧
      rest.delays ≤ s.delays := by
  obtain ⟨yss, hyss, hflat⟩ := (pruned_survey s).contain hfin
  have hle : s.survey.finding.source.delays ≤ s.delays := delays_poll_le s
  rw [h] at hyss hle
  obtain ⟨g, hg⟩ := poised_of_survey h
  obtain ⟨zss, hzss, hgive⟩ := hg.gives.contain hyss
  exact ⟨zss, hzss, hflat ▸ hgive, hg.delays_eq.trans_le hle⟩

/-- A source with finite leaves drains in no more polls than it holds elements
    and moments of waiting, and one. -/
theorem exists_drains (s : Source κ α) {xss : List (List α)} (hfin : Contain s.leaves xss) :
    ∃ xs n t, s.Drains xs n t ∧ xs.Perm xss.flatten ∧
      n ≤ xss.flatten.length + s.delays + 1 := by
  -- Elements and moments of waiting together: each poll but the last uses one up.
  induction hsize : xss.flatten.length + s.delays using Nat.strong_induction_on
    generalizing s xss with
  | h size ih =>
    cases hf : s.survey.finding with
    | exhausted t =>
      have hnil := contain_of_exhausted hf hfin
      exact ⟨[], 1, t, .done hf, .of_eq hnil.symm, by omega⟩
    | waiting r =>
      obtain ⟨yss, hyss, hflat, hdelays⟩ := contain_of_waiting hf hfin
      have hlength := congrArg List.length hflat
      obtain ⟨xs, n, t, hdrains, hperm, hn⟩ :=
        ih (yss.flatten.length + r.delays) (by omega) r hyss rfl
      exact ⟨xs, n + 1, t, .again hf hdrains, hflat ▸ hperm, by omega⟩
    | ready r x rest =>
      obtain ⟨yss, hyss, hgive, hdelays⟩ := contain_of_ready hf hfin
      have hlength := hgive.length_eq
      rw [List.length_cons] at hlength
      obtain ⟨xs, n, t, hdrains, hperm, hn⟩ :=
        ih (yss.flatten.length + rest.delays) (by omega) rest hyss rfl
      have htake := take_after_poll hf
      refine ⟨x :: xs, n + 1, t, .gives ?_ ?_ ?_, ?_, by omega⟩
      · rw [status_eq, hf]
        rfl
      · rw [htake]
      · rw [htake]
        exact hdrains
      · exact (hperm.cons x).trans hgive.symm

-- ============================================================================
-- The bounded functions
-- ============================================================================

theorem awaitReady_of_waiting {r : Source κ α} (h : s.poll.finding = .waiting r) :
    s.awaitReady.finding = r.awaitReady.finding := by
  rw [awaitReady]
  simp only [h, Finding.status, dite_true, Finding.source]

theorem awaitReady_of_not_waiting (h : s.status ≠ .waiting) : s.awaitReady = s.poll := by
  rw [awaitReady]
  exact dif_neg h

/-- Only what is found at the end of the wait matters to what is drawn. -/
theorem drain_congr {r : Source κ α} (h : s.awaitReady.finding = r.awaitReady.finding) (n : Nat) :
    (s.drain (n + 1)).elements = (r.drain (n + 1)).elements ∧
      (s.drain (n + 1)).fault = (r.drain (n + 1)).fault ∧
      (s.drain (n + 1)).source = (r.drain (n + 1)).source := by
  simp only [drain, h]
  cases r.awaitReady.finding with
  | exhausted t => exact ⟨rfl, rfl, rfl⟩
  | waiting t => exact ⟨rfl, rfl, rfl⟩
  | ready t x rest =>
    simp only
    cases t.take.outcome <;> exact ⟨rfl, rfl, rfl⟩

theorem drain_of_exhausted (h : s.awaitReady.finding = .exhausted t) (n : Nat) :
    (s.drain (n + 1)).elements = [] ∧ (s.drain (n + 1)).fault = none ∧
      (s.drain (n + 1)).source = t := by
  simp only [drain, h]
  exact ⟨trivial, trivial, rfl⟩

/-- The request of a drain is made right after a poll that answered `ready`, and
    so it is met. -/
theorem drain_of_poised {r : Source κ α} (h : s.awaitReady.finding = .ready r x t)
    (hr : r.Poised g x t) (n : Nat) :
    (s.drain (n + 1)).elements = x :: (t.drain n).elements ∧
      (s.drain (n + 1)).fault = (t.drain n).fault ∧
      (s.drain (n + 1)).source = (t.drain n).source := by
  simp only [drain, h, hr.take]
  exact ⟨trivial, trivial, trivial⟩

/-- With a limit above the number of elements, `drain` gives what the loop
    gives. -/
theorem Drains.drain_eq {xs : List α} {n limit : Nat} (h : s.Drains xs n t)
    (hlimit : xs.length < limit) :
    (s.drain limit).elements = xs ∧ (s.drain limit).fault = none ∧
      (s.drain limit).source = t := by
  induction h generalizing limit with
  | @done s t h =>
    obtain ⟨k, rfl⟩ := Nat.exists_eq_succ_of_ne_zero (Nat.ne_zero_of_lt hlimit)
    have hawait : s.awaitReady = s.poll :=
      awaitReady_of_not_waiting (by rw [status, h]; simp [Finding.status])
    exact drain_of_exhausted (hawait ▸ h) k
  | again h _ ih =>
    obtain ⟨k, rfl⟩ := Nat.exists_eq_succ_of_ne_zero (Nat.ne_zero_of_lt hlimit)
    obtain ⟨helements, hfault, hsource⟩ := drain_congr (awaitReady_of_waiting h) k
    rw [helements, hfault, hsource]
    exact ih hlimit
  | @gives s t x xs n h hx _ ih =>
    obtain ⟨k, rfl⟩ := Nat.exists_eq_succ_of_ne_zero (Nat.ne_zero_of_lt hlimit)
    have hawait : s.awaitReady = s.poll := awaitReady_of_not_waiting (by rw [h]; decide)
    obtain ⟨r, y, rest, hf⟩ := survey_of_status_ready h
    have hpoll : s.poll.finding = .ready r y rest := hf
    obtain ⟨g, hg⟩ := poised_of_survey hf
    rw [take_after_poll hf] at hx ih
    cases hx
    obtain ⟨helements, hfault, hsource⟩ := drain_of_poised (hawait ▸ hpoll) hg k
    rw [helements, hfault, hsource]
    obtain ⟨ihelements, ihfault, ihsource⟩ := ih (Nat.lt_of_succ_lt_succ hlimit)
    exact ⟨congrArg _ ihelements, ihfault, ihsource⟩

theorem Drains.drainAll_eq {xs : List α} {n : Nat} (h : s.Drains xs n t)
    (hheld : xs.length ≤ s.held) :
    s.drainAll.elements = xs ∧ s.drainAll.fault = none ∧ s.drainAll.source = t :=
  h.drain_eq (Nat.lt_succ_of_le hheld)

/-- Draining the elements of a list gives them in order. -/
theorem drains_ofList (l : κ) (xs : List α) :
    (ofList l xs).Drains xs (xs.length + 1) (ofList l []) := by
  induction xs with
  | nil => exact .done rfl
  | cons x xs ih => exact .gives rfl rfl ih

theorem heldAll_eq_length {cs : List (Source κ α)} {xss : List (List α)}
    (hfin : Contain (leavesAll cs) xss)
    (ih : ∀ c ∈ cs, ∀ yss, Contain c.leaves yss → c.held = yss.flatten.length) :
    heldAll cs = xss.flatten.length := by
  induction cs generalizing xss with
  | nil =>
    rw [show xss = [] from List.map_eq_nil_iff.mp hfin.symm]
    rfl
  | cons c cs ih' =>
    obtain ⟨ihc, ihcs⟩ := List.forall_mem_cons.mp ih
    obtain ⟨yss, zss, hc, hcs, rfl⟩ := contain_append hfin
    rw [heldAll, ihc yss hc, ih' hcs ihcs, List.flatten_append, List.length_append]

/-- A source with finite leaves holds as many elements as its leaves. -/
theorem held_eq_length (s : Source κ α) {xss : List (List α)} (hfin : Contain s.leaves xss) :
    s.held = xss.flatten.length := by
  induction s using treeInduction generalizing xss with
  | empty l =>
    obtain ⟨xs, hxs, hflat⟩ := contain_singleton hfin
    rw [hflat, Seq.ofList_injective (hxs.symm.trans Seq.ofList_nil.symm)]
    rfl
  | feed l f =>
    obtain ⟨xs, hxs, hflat⟩ := contain_singleton hfin
    rw [hflat]
    exact f.extent_eq_length hxs
  | scripted l steps =>
    obtain ⟨xs, hxs, hflat⟩ := contain_singleton hfin
    rw [hflat, Seq.ofList_injective hxs.symm]
    rfl
  | suspended l inner ih => exact ih hfin
  | opened l inner ih => exact ih hfin
  | composed s l front behind h ihfront ihbehind =>
    rw [h.leaves_eq] at hfin
    obtain ⟨yss, zss, hfront, hbehind, rfl⟩ := contain_append hfin
    have hlengthfront := heldAll_eq_length hfront fun c hc _ => ihfront c hc
    have hlengthbehind := heldAll_eq_length hbehind fun c hc _ => ihbehind c hc
    rw [List.flatten_append, List.length_append, ← hlengthfront, ← hlengthbehind]
    cases h with
    | composite l cs => simp [held, heldAll]
    | focused l before c after => rw [held, heldAll, Nat.add_assoc]

/-- What `drainAll` draws is what the loop gives, in full. -/
theorem drains_drainAll (s : Source κ α) {xss : List (List α)} (hfin : Contain s.leaves xss) :
    s.drainAll.fault = none ∧ s.drainAll.elements.Perm xss.flatten ∧
      ∃ n, s.Drains s.drainAll.elements n s.drainAll.source ∧
        n ≤ xss.flatten.length + s.delays + 1 := by
  obtain ⟨xs, n, t, hdrains, hperm, hn⟩ := exists_drains s hfin
  have hlimit : xs.length < s.held + 1 := by
    rw [s.held_eq_length hfin, hperm.length_eq]
    exact Nat.lt_succ_self _
  obtain ⟨helements, hfault, hsource⟩ := hdrains.drain_eq hlimit
  rw [drainAll, helements, hsource]
  exact ⟨hfault, hperm, n, hdrains, hn⟩

-- ============================================================================
-- After the end
-- ============================================================================

theorem Ended.perform (h : s.Ended) {call : Call κ α} (hcall : ∀ child, call ≠ .add child) :
    (s.perform call).source = s ∧
      ∀ found, (s.perform call).answer = .status found → found = .exhausted := by
  cases call with
  | status =>
    refine ⟨?_, fun found hfound => ?_⟩
    · show s.survey.finding.source = s
      rw [h.survey]
      rfl
    · cases hfound
      exact h.status
  | next =>
    obtain ⟨why, hwhy, hsource⟩ := h.take
    simp only [Source.perform]
    generalize s.take = t at hwhy hsource
    obtain ⟨outcome, t, contacts⟩ := t
    cases hwhy
    exact ⟨hsource, fun found hfound => by cases hfound⟩
  | add child => exact absurd rfl (hcall child)

theorem Ended.replies (h : s.Ended) {calls : List (Call κ α)}
    (hcalls : ∀ child, .add child ∉ calls) :
    ∀ r ∈ s.replies calls, ∀ found, r.answer = .status found → found = .exhausted := by
  induction calls with
  | nil => exact List.forall_mem_nil _
  | cons call calls ih =>
    have hcall : ∀ child, call ≠ .add child := fun child heq =>
      hcalls child (heq ▸ List.mem_cons_self)
    have hrest : ∀ child, .add child ∉ calls := fun child hmem =>
      hcalls child (List.mem_cons_of_mem call hmem)
    obtain ⟨hsource, hanswer⟩ := h.perform hcall
    rw [Source.replies, hsource]
    exact List.forall_mem_cons.mpr ⟨hanswer, ih hrest⟩

/-- **Draining ends and is complete.**  Take a source all of whose leaves, those
    of children added later included, hold finite lists, and make any calls,
    those of an owner who asks only after a poll that answered `ready` among
    them.  Then what was given and what is still held is what there was.
    Polling and taking comes to its end in finitely many polls without a fault,
    and gives exactly the elements still held, each once.  Once a poll answers
    `exhausted`, all elements were given, no leaf holds one, and all later
    polls answer `exhausted` again. -/
theorem drain_complete (s : Source κ α) (calls : List (Call κ α)) (xss : List (List α))
    (hfin : Contain (s.stock calls) xss) :
    let now := s.after calls
    let given := elements (s.replies calls)
    (∃ yss, Contain now.leaves yss ∧ xss.flatten.Perm (given ++ yss.flatten)) ∧
    (∀ yss, Contain now.leaves yss →
      now.drainAll.fault = none ∧ now.drainAll.elements.Perm yss.flatten ∧
        ∃ n, now.Drains now.drainAll.elements n now.drainAll.source ∧
          n ≤ yss.flatten.length + now.delays + 1) ∧
    (now.status = .exhausted →
      given.Perm xss.flatten ∧ (∀ a ∈ now.leaves, a.elements = .nil) ∧
        ∀ later, (∀ child, .add child ∉ later) →
          ∀ r ∈ (now.perform .status).source.replies later,
            ∀ found, r.answer = .status found → found = .exhausted) := by
  intro now given
  obtain ⟨yss, hyss, hperm⟩ := contain_after s calls hfin
  refine ⟨⟨yss, hyss, hperm⟩, fun zss hzss => drains_drainAll now hzss, fun hend => ?_⟩
  obtain ⟨t, hf⟩ := survey_of_status_exhausted hend
  have hnil : yss.flatten = [] := contain_of_exhausted hf hyss
  refine ⟨?_, fun a ha => ?_, fun later hlater => ?_⟩
  · rw [hnil, List.append_nil] at hperm
    exact hperm.symm
  · have hmem : a.elements ∈ yss.map Seq.ofList := hyss ▸ List.mem_map_of_mem ha
    obtain ⟨ys, hys, hofList⟩ := List.mem_map.mp hmem
    rw [← hofList, List.flatten_eq_nil_iff.mp hnil ys hys, Seq.ofList_nil]
  · have hsource : (now.perform .status).source = t := congrArg Finding.source hf
    rw [hsource]
    exact (ended_of_survey hf).replies hlater

namespace Sample

/-- A suspended composite, whose script waits first, beside a feed. -/
def nested : Source Nat Nat :=
  .composite 0 [.suspended 1 (.composite 2 [.scripted 3 [none, some 8], .empty 4]),
    .ofList 5 [1, 2]]

end Sample

open Sample in
/-- After one element of the feed two are left, and an orderly owner who is told
    that a feed of one element is exhausted has been given that element. -/
theorem drain_complete_nested :
    Contain (nested.stock [.status, .next]) [[8], [], [1, 2]] ∧
    (nested.after [.status, .next]).drainAll.fault = none ∧
    (nested.after [.status, .next]).drainAll.elements.Perm [8, 2] ∧
    (∃ n, (nested.after [.status, .next]).Drains (nested.after [.status, .next]).drainAll.elements n
      (nested.after [.status, .next]).drainAll.source ∧ n ≤ 4) ∧
    ((ofList 0 [7]).after [.status, .next]).status = .exhausted ∧
    (elements ((ofList 0 [7]).replies [.status, .next])).Perm [7] := by
  have hfin : Contain (nested.stock [.status, .next]) [[8], [], [1, 2]] := rfl
  have hsingle : Contain ((ofList 0 [7]).stock [.status, .next]) [[7]] := rfl
  have hleft : Contain (nested.after [.status, .next]).leaves [[8], [], [2]] := rfl
  obtain ⟨hfault, hperm, hpolls⟩ := (drain_complete nested [.status, .next] _ hfin).2.1 _ hleft
  have hgiven := ((drain_complete (ofList 0 [7]) [.status, .next] _ hsingle).2.2 rfl).1
  exact ⟨hfin, hfault, hperm, hpolls, rfl, hgiven⟩

end Source
end StructuralDiff
