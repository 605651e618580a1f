/-
  StructuralDiff.Proofs.Source.Suspensions

  Suspensions that keep opening to suspensions.

  A poll opens a suspension and leaves what is inside it for the next poll, so
  `n` calls reach nothing that lies under more than `n` suspensions.  `cut n`
  leaves such parts out.  One call agrees on trees that are equal up to the
  depth `n + 1`, and leaves trees that are equal up to the depth `n`
  (`perform_cut`), so calls made one after the other agree as long as their
  number is at most the depth (`observed_eq_of_cut_eq`).

  A tree without an end of its suspensions is given by its finite parts
  (`Unending`).  What it answers to given calls is what each part answers that
  is deep enough for them.
-/

import StructuralDiff.Proofs.Source.Sessions

namespace StructuralDiff

variable {κ α : Type}

-- ============================================================================
-- Up to a depth
-- ============================================================================

/-- The reply to the call `status`. -/
def Poll.reply (p : Poll κ α) : Reply κ α :=
  ⟨.status p.finding.status, p.finding.source, p.contacts⟩

/-- The reply to the call `next`. -/
def Take.reply (t : Take κ α) : Reply κ α :=
  match t.outcome with
  | .ok x => ⟨.element x, t.source, t.contacts⟩
  | .error why => ⟨.fault why, t.source, t.contacts⟩

namespace Source

mutual
/-- The source without what lies under more than `n` unopened suspensions. -/
def cut : Source κ α → (n : Nat) → Source κ α
  | .empty l, _ => .empty l
  | .feed l f, _ => .feed l f
  | .scripted l steps, _ => .scripted l steps
  | .suspended l _, 0 => .suspended l (.empty l)
  | .suspended l inner, n + 1 => .suspended l (cut inner n)
  | .opened l inner, n => .opened l (cut inner n)
  | .composite l cs, n => .composite l (cutAll cs n)
  | .focused l before c after, n => .focused l (cutAll before n) (cut c n) (cutAll after n)

/-- Some sources without what lies under more than `n` unopened suspensions. -/
def cutAll : List (Source κ α) → (n : Nat) → List (Source κ α)
  | [], _ => []
  | c :: cs, n => cut c n :: cutAll cs n
end

@[simp] theorem cutAll_append (cs ds : List (Source κ α)) (n : Nat) :
    cutAll (cs ++ ds) n = cutAll cs n ++ cutAll ds n := by
  induction cs with
  | nil => rfl
  | cons c cs ih => simp [cutAll, ih]

end Source

/-- The finding up to the depth `n`. -/
def Finding.cut (f : Finding κ α) (n : Nat) : Finding κ α := f.within fun s => s.cut n

/-- The poll up to the depth `n`. -/
def Poll.cut (p : Poll κ α) (n : Nat) : Poll κ α := ⟨p.finding.cut n, p.contacts⟩

/-- The scan up to the depth `n`. -/
def Scan.cut (scan : Scan κ α) (n : Nat) : Scan κ α where
  kept := Source.cutAll scan.kept n
  hit := scan.hit.map fun (s, x, rest, after) =>
    (s.cut n, x, rest.cut n, Source.cutAll after n)
  contacts := scan.contacts

/-- What a request comes to, up to the depth `n`. -/
def Take.cut (t : Take κ α) (n : Nat) : Take κ α := ⟨t.outcome, t.source.cut n, t.contacts⟩

/-- The call up to the depth `n`. -/
def Call.cut : Call κ α → (n : Nat) → Call κ α
  | .status, _ => .status
  | .next, _ => .next
  | .add child, n => .add (child.cut n)

/-- The reply up to the depth `n`. -/
def Reply.cut (r : Reply κ α) (n : Nat) : Reply κ α := ⟨r.answer, r.source.cut n, r.contacts⟩

namespace Source

variable {s t : Source κ α} {m n : Nat}

theorem Composed.cut {l : κ} {front behind : List (Source κ α)} (h : s.Composed l front behind)
    (n : Nat) : (s.cut n).Composed l (cutAll front n) (cutAll behind n) := by
  cases h with
  | composite l cs => rw [Source.cut]; exact .composite l _
  | focused l before c after => rw [Source.cut]; exact .focused l _ _ _

theorem label_cut (s : Source κ α) (n : Nat) : (s.cut n).label = s.label := by
  cases s with
  | suspended l inner => cases n <;> rfl
  | empty | feed | scripted | opened | composite | focused => simp only [cut, label]

theorem cutAll_cutAll {cs : List (Source κ α)} (h : ∀ c ∈ cs, (c.cut m).cut n = c.cut n) :
    cutAll (cutAll cs m) n = cutAll cs n := by
  induction cs with
  | nil => rfl
  | cons c cs ih =>
    obtain ⟨hc, hcs⟩ := List.forall_mem_cons.mp h
    rw [cutAll, cutAll, cutAll, hc, ih hcs]

/-- Of two cuts the deeper one does not matter. -/
theorem cut_cut (s : Source κ α) (h : n ≤ m) : (s.cut m).cut n = s.cut n := by
  induction s using treeInduction generalizing m n with
  | empty l => simp only [cut]
  | feed l f => simp only [cut]
  | scripted l steps => simp only [cut]
  | suspended l inner ih =>
    cases n with
    | zero => cases m <;> rfl
    | succ n =>
      cases m with
      | zero => exact absurd h (Nat.not_succ_le_zero n)
      | succ m => simp only [cut, ih (Nat.le_of_succ_le_succ h)]
  | opened l inner ih => simp only [cut, ih h]
  | composed s l front behind hs ihfront ihbehind =>
    have hfront := cutAll_cutAll fun c hc => ihfront c hc h
    have hbehind := cutAll_cutAll fun c hc => ihbehind c hc h
    cases hs with
    | composite l cs => simp only [cut, hbehind]
    | focused l before c after =>
      simp only [cutAll, List.cons.injEq] at hbehind
      simp only [cut, hfront, hbehind]

theorem requestPath_cut (s : Source κ α) (n : Nat) : (s.cut n).requestPath = s.requestPath := by
  match s with
  | .empty l => simp only [cut]
  | .feed l f => simp only [cut, requestPath, label]
  | .scripted l steps => simp only [cut]
  | .suspended l inner => cases n <;> rfl
  | .opened l inner => simp only [cut, requestPath, requestPath_cut inner n]
  | .composite l cs => simp only [cut, requestPath, label]
  | .focused l before c after => simp only [cut, requestPath, requestPath_cut c n]

-- ============================================================================
-- Polling
-- ============================================================================

theorem settled_cut (l : κ) (cs : List (Source κ α)) (n : Nat) :
    (settled l cs).cut n = settled l (cutAll cs n) := by
  cases cs with
  | nil => simp only [settled, Finding.cut, Finding.within, cut, cutAll]
  | cons c cs => simp only [settled, Finding.cut, Finding.within, cut, cutAll]

theorem turned_cut (l : κ) (front : List (Source κ α)) (behind wrapped : Scan κ α) (n : Nat) :
    (turned l front behind wrapped).cut n =
      turned l (cutAll front n) (behind.cut n) (wrapped.cut n) := by
  simp only [turned, Scan.cut]
  cases behind.hit with
  | some hit =>
    simp only [Option.map_some, focusedOn, Poll.cut, Finding.cut, Finding.within, cut,
      cutAll_append]
  | none =>
    cases wrapped.hit with
    | some hit =>
      simp only [Option.map_some, Option.map_none, focusedOn, Poll.cut, Finding.cut,
        Finding.within, cut, cutAll_append]
    | none => simp only [Option.map_none, Poll.cut, settled_cut, cutAll_append]

/-- The scan of a child and those behind it, given the poll of the child and the
    scan of the others. -/
def scanned (p : Poll κ α) (cs : List (Source κ α)) (scan : Scan κ α) : Scan κ α :=
  match p.finding with
  | .ready s x rest => ⟨[], some (s, x, rest, cs), p.contacts⟩
  | .waiting s => ⟨s :: scan.kept, scan.hit, p.contacts ++ scan.contacts⟩
  | .exhausted _ => ⟨scan.kept, scan.hit, p.contacts ++ scan.contacts⟩

theorem scanAll_cons (c : Source κ α) (cs : List (Source κ α)) :
    scanAll (c :: cs) = scanned c.poll cs (scanAll cs) := by
  have hpoll : c.survey.reported c.label = c.poll := rfl
  rw [scanAll, hpoll]
  cases hf : c.poll.finding <;> simp only [scanned, hf]

theorem scanned_cut (p : Poll κ α) (cs : List (Source κ α)) (scan : Scan κ α) (n : Nat) :
    (scanned p cs scan).cut n = scanned (p.cut n) (cutAll cs n) (scan.cut n) := by
  simp only [scanned, Poll.cut]
  cases p.finding <;> rfl

theorem reported_cut (l : κ) (p : Poll κ α) (n : Nat) :
    (p.reported l).cut n = (p.cut n).reported l := by
  simp only [Poll.reported, Poll.cut]
  cases p.finding <;> rfl

theorem survey_opened (l : κ) (inner : Source κ α) :
    (opened l inner).survey = ⟨inner.poll.finding.within (.opened l), inner.poll.contacts⟩ := rfl

theorem opened_cut (l : κ) (p : Poll κ α) (n : Nat) :
    Poll.cut ⟨p.finding.within (.opened l), p.contacts⟩ n =
      ⟨(p.cut n).finding.within (.opened l), (p.cut n).contacts⟩ := by
  simp only [Poll.cut]
  cases p.finding <;> simp only [Finding.cut, Finding.within, cut]

theorem poll_cut_of_survey (h : (s.cut m).survey.cut n = s.survey.cut n) :
    (s.cut m).poll.cut n = s.poll.cut n := by
  rw [poll, poll, reported_cut, reported_cut, h, label_cut]

theorem scanAll_cut {cs : List (Source κ α)}
    (h : ∀ c ∈ cs, (c.cut (n + 1)).survey.cut n = c.survey.cut n) :
    (scanAll (cutAll cs (n + 1))).cut n = (scanAll cs).cut n := by
  induction cs with
  | nil => rfl
  | cons c cs ih =>
    obtain ⟨hc, hcs⟩ := List.forall_mem_cons.mp h
    rw [cutAll, scanAll_cons, scanAll_cons, scanned_cut, scanned_cut, poll_cut_of_survey hc,
      ih hcs, cutAll_cutAll fun d _ => cut_cut d (Nat.le_succ n)]

/-- A poll opens at most one more suspension above each part of the tree. -/
theorem survey_cut (s : Source κ α) (n : Nat) :
    (s.cut (n + 1)).survey.cut n = s.survey.cut n := by
  induction s using treeInduction with
  | empty l => simp only [cut]
  | feed l f => simp only [cut]
  | scripted l steps => simp only [cut]
  | suspended l inner => simp only [cut, survey, Poll.cut, Finding.cut, Finding.within,
      cut_cut inner (Nat.le_refl n)]
  | opened l inner ih =>
    rw [cut, survey_opened, survey_opened, opened_cut, opened_cut, poll_cut_of_survey ih]
  | composed s l front behind hs ihfront ihbehind =>
    rw [survey_composed (hs.cut (n + 1)), survey_composed hs, turned_cut, turned_cut,
      scanAll_cut ihfront, scanAll_cut ihbehind,
      cutAll_cutAll fun c _ => cut_cut c (Nat.le_succ n)]

theorem poll_cut (s : Source κ α) (n : Nat) : (s.cut (n + 1)).poll.cut n = s.poll.cut n :=
  poll_cut_of_survey (survey_cut s n)

-- ============================================================================
-- Requests
-- ============================================================================

/-- The request to a composite called `l` that remembers no child, given the poll
    that looks for one. -/
def requested (l : κ) (p : Poll κ α) : Take κ α :=
  match p.finding with
  | .ready s x rest => ⟨.ok x, rest, .asked l :: p.contacts ++ s.requestPath.tail.map .asked⟩
  | found => ⟨.error .noReadyChild, found.source, .asked l :: p.contacts⟩

theorem take_composite_eq (l : κ) (cs : List (Source κ α)) :
    (composite l cs).take = requested l (composite l cs).survey := by
  cases hf : (composite l cs).survey.finding <;> simp only [take, requested, hf]

theorem requested_cut (l : κ) (p : Poll κ α) (n : Nat) :
    (requested l p).cut n = requested l (p.cut n) := by
  simp only [requested, Poll.cut]
  cases p.finding with
  | exhausted s => rfl
  | waiting s => rfl
  | ready s x rest => simp only [Finding.cut, Finding.within, Take.cut, requestPath_cut]

/-- A request that is passed on, by a node that `wrap` puts around the one that
    meets it. -/
theorem through_cut {l : κ} {wrap wrap' : Source κ α → Source κ α}
    (hwrap : ∀ s, (wrap s).cut n = wrap' (s.cut n)) (t : Take κ α) :
    (t.through l wrap).cut n = (t.cut n).through l wrap' := by
  simp only [Take.through, Take.cut, hwrap]

theorem take_cut (s : Source κ α) (n : Nat) : (s.cut (n + 1)).take.cut n = s.take.cut n := by
  match s with
  | .empty l => simp only [cut]
  | .feed l f => simp only [cut]
  | .scripted l steps => simp only [cut]
  | .suspended l inner =>
    have hsame := cut_cut (suspended l inner) (Nat.le_succ n)
    rw [cut] at hsame ⊢
    simp only [take, Take.cut, hsame]
  | .opened l inner =>
    have hwrap (t : Source κ α) : (opened l t).cut n = opened l (t.cut n) := by rw [cut]
    rw [cut, take, take, through_cut hwrap, through_cut hwrap, take_cut inner n]
  | .composite l cs =>
    have hsurvey := survey_cut (composite l cs) n
    rw [cut] at hsurvey ⊢
    rw [take_composite_eq, take_composite_eq, requested_cut, requested_cut, hsurvey]
  | .focused l before c after =>
    have hsame (ds : List (Source κ α)) : cutAll (cutAll ds (n + 1)) n = cutAll ds n :=
      cutAll_cutAll fun d _ => cut_cut d (Nat.le_succ n)
    have hthrough (ds es : List (Source κ α)) (t : Take κ α) :
        (t.through l fun s => focused l ds s es).cut n =
          (t.cut n).through l fun s => focused l (cutAll ds n) s (cutAll es n) :=
      through_cut (fun s => by rw [cut]) t
    rw [cut, take, take, hthrough, hthrough, take_cut c n, hsame, hsame]

-- ============================================================================
-- Calls
-- ============================================================================

theorem addChild?_cut (s child : Source κ α) (n : Nat) :
    (s.cut n).addChild? (child.cut n) = (s.addChild? child).map fun t => t.cut n := by
  cases s with
  | suspended l inner => cases n <;> rfl
  | empty | feed | scripted | opened => simp only [cut, addChild?, Option.map_none]
  | composite | focused => simp only [cut, addChild?, Option.map_some, cutAll_append, cutAll]

theorem perform_status (s : Source κ α) : s.perform .status = s.poll.reply := rfl

theorem reply_poll_cut (p : Poll κ α) (n : Nat) : p.reply.cut n = (p.cut n).reply := by
  simp only [Poll.reply, Poll.cut]
  cases p.finding <;> rfl

theorem perform_next_eq (s : Source κ α) : s.perform .next = s.take.reply := by
  rw [perform, Take.reply]
  rcases s.take with ⟨outcome, t, contacts⟩
  cases outcome <;> rfl

theorem reply_take_cut (t : Take κ α) (n : Nat) : t.reply.cut n = (t.cut n).reply := by
  simp only [Take.reply, Take.cut]
  cases t.outcome <;> rfl

/-- The answer to a call and the calls made on the nodes do not depend on what
    lies under more than `n + 1` suspensions, and the source that is left agrees
    up to the depth `n`. -/
theorem perform_cut (s : Source κ α) (call : Call κ α) (n : Nat) :
    ((s.cut (n + 1)).perform (call.cut (n + 1))).cut n = (s.perform call).cut n := by
  cases call with
  | status =>
    rw [Call.cut, perform_status, perform_status, reply_poll_cut, reply_poll_cut, poll_cut]
  | next =>
    rw [Call.cut, perform_next_eq, perform_next_eq, reply_take_cut, reply_take_cut, take_cut]
  | add child =>
    have hadd := addChild?_cut s child (n + 1)
    cases hchild : s.addChild? child with
    | some t =>
      rw [hchild, Option.map_some] at hadd
      simp only [Call.cut, perform, hadd, hchild, Reply.cut, cut_cut t (Nat.le_succ n)]
    | none =>
      rw [hchild, Option.map_none] at hadd
      simp only [Call.cut, perform, hadd, hchild, Reply.cut, cut_cut s (Nat.le_succ n)]

/-- What the owner sees of the replies to some calls: the answers, and the log of
    the calls made on the nodes. -/
def observed (s : Source κ α) (calls : List (Call κ α)) : List (Answer α × List (Contact κ)) :=
  (s.replies calls).map fun r => (r.answer, r.contacts)

theorem observed_cons (s : Source κ α) (call : Call κ α) (calls : List (Call κ α)) :
    s.observed (call :: calls) =
      ((s.perform call).answer, (s.perform call).contacts) ::
        (s.perform call).source.observed calls := rfl

theorem call_cut_cut (call : Call κ α) (h : n ≤ m) : (call.cut m).cut n = call.cut n := by
  cases call with
  | status => rfl
  | next => rfl
  | add child => rw [Call.cut, Call.cut, Call.cut, cut_cut child h]

theorem map_call_cut_cut (calls : List (Call κ α)) (h : n ≤ m) :
    (calls.map (Call.cut · m)).map (Call.cut · n) = calls.map (Call.cut · n) := by
  rw [List.map_map]
  exact List.map_congr_left fun call _ => call_cut_cut call h

/-- Two sources that agree up to a depth answer calls alike as long as these are no
    more than the depth; so may the children that are added agree up to the
    depth only. -/
theorem observed_eq_of_cut_eq {calls calls' : List (Call κ α)} (h : s.cut n = t.cut n)
    (hcalls : calls.map (Call.cut · n) = calls'.map (Call.cut · n)) (hlength : calls.length ≤ n) :
    s.observed calls = t.observed calls' := by
  induction calls generalizing s t n calls' with
  | nil =>
    cases List.map_eq_nil_iff.mp hcalls.symm
    rfl
  | cons call calls ih =>
    cases calls' with
    | nil => cases hcalls
    | cons call' calls' =>
      -- one level is used up by the first call
      obtain ⟨m, rfl⟩ := Nat.exists_eq_add_of_lt (Nat.zero_lt_of_lt hlength)
      rw [Nat.zero_add] at h hcalls hlength
      simp only [List.map_cons, List.cons.injEq] at hcalls
      obtain ⟨hcall, hcalls⟩ := hcalls
      have hreply : (s.perform call).cut m = (t.perform call').cut m := by
        rw [← perform_cut, ← perform_cut t, h, hcall]
      have hrest : calls.map (Call.cut · m) = calls'.map (Call.cut · m) := by
        rw [← map_call_cut_cut calls (Nat.le_succ m), hcalls,
          map_call_cut_cut calls' (Nat.le_succ m)]
      obtain ⟨hanswer, hsource, hcontacts⟩ := Reply.mk.inj hreply
      rw [observed_cons, observed_cons, hanswer, hcontacts,
        ih hsource hrest (Nat.le_of_succ_le_succ hlength)]

end Source

-- ============================================================================
-- Trees without an end
-- ============================================================================

/-- A source whose suspensions may open to suspensions without end, given by its
    parts up to each depth. -/
structure Unending (κ α : Type) where
  upTo : Nat → Source κ α
  upTo_succ_cut (n : Nat) : (upTo (n + 1)).cut n = upTo n

namespace Unending

theorem upTo_cut (u : Unending κ α) {m n : Nat} (h : n ≤ m) : (u.upTo m).cut n = u.upTo n := by
  induction m, h using Nat.le_induction with
  | base => rw [← u.upTo_succ_cut n, Source.cut_cut _ (Nat.le_refl n)]
  | succ m h ih => rw [← Source.cut_cut _ h, u.upTo_succ_cut, ih]

/-- What the source answers to some calls: what its part up to their number
    does. -/
def observed (u : Unending κ α) (calls : List (Call κ α)) : List (Answer α × List (Contact κ)) :=
  (u.upTo calls.length).observed calls

/-- **A finite run opens finitely many suspensions.**  All parts that reach as deep
    as the calls are many answer them alike. -/
theorem observed_eq (u : Unending κ α) {calls : List (Call κ α)} {n : Nat}
    (h : calls.length ≤ n) : (u.upTo n).observed calls = u.observed calls :=
  Source.observed_eq_of_cut_eq
    (by rw [u.upTo_cut h, u.upTo_cut (Nat.le_refl _)]) rfl (Nat.le_refl _)

namespace Sample

/-- The numbers from `k` on: a suspension that opens to `k` and to the suspension
    of the others, and so on down to a depth. -/
def numbersFrom (k : Nat) : (depth : Nat) → Source Nat Nat
  | 0 => .suspended k (.empty k)
  | n + 1 => .suspended k (.composite k [.singleton k k, numbersFrom (k + 1) n])

theorem numbersFrom_succ_cut (k n : Nat) : (numbersFrom k (n + 1)).cut n = numbersFrom k n := by
  induction n generalizing k with
  | zero => rfl
  | succ n ih =>
    rw [numbersFrom, Source.cut, Source.cut, Source.cutAll, Source.cutAll, Source.cutAll, ih,
      Source.singleton, Source.ofList, Source.cut]
    rfl

def naturals : Unending Nat Nat := ⟨numbersFrom 0, numbersFrom_succ_cut 0⟩

/-- Every second poll opens one more suspension. -/
example :
    (naturals.observed [.status, .status, .next, .status, .status, .next]).map Prod.fst =
      [.status .waiting, .status .ready, .element 0, .status .waiting, .status .ready,
        .element 1] := rfl

end Sample
end Unending
end StructuralDiff
