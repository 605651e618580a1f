/-
  StructuralDiff.Proofs.Types.Freshness

  Copies of types made with any number of renaming maps that draw from one
  supply.

  A `CopySession` keeps the log of all variables created in it.  Its invariant
  is `Orderly`: the log is numbered without a gap, each map leads from a
  variable to one that stands behind it in the log, and no variable is the
  target of two.  Meeting one variable keeps it (`Orderly.renamed`), and so does
  meeting those of a type one after the other, which is all that copying the
  type does to the session (`perform_eq`).  The maps may have met targets of
  earlier copies, their own ones among them.
-/

import Mathlib.Data.List.Nodup
import Mathlib.Logic.Function.Basic
import StructuralDiff.Proofs.Types.Copies

namespace StructuralDiff
namespace Renaming

variable {r : Renaming} {x y : Var}

-- ============================================================================
-- The variables that a copy draws
-- ============================================================================

/-- The variables drawn between a state and a later one, in order: the targets
    behind those that were there. -/
def drawnUntil (r later : Renaming) : List Var := later.targets.values.drop r.targets.values.length

theorem drawnUntil_self (r : Renaming) : r.drawnUntil r = [] := List.drop_length

theorem values_prefix_renameVar (r : Renaming) (x : Var) :
    r.targets.values <+: (r.renameVar x).2.targets.values := by
  cases hx : r.targets.find? x with
  | some y => rw [renameVar_of_some hx]
  | none =>
    rw [renameVar_of_none hx, OrderedMap.values_insert_of_new hx]
    exact List.prefix_append _ _

theorem values_prefix_meet (r : Renaming) (xs : List Var) :
    r.targets.values <+: (r.meet xs).targets.values := by
  induction xs generalizing r with
  | nil => exact List.prefix_rfl
  | cons x xs ih => exact (values_prefix_renameVar r x).trans (ih _)

theorem drawnUntil_renameVar_of_none (hx : r.targets.find? x = none) :
    r.drawnUntil (r.renameVar x).2 = [⟨x.name, r.supply.next⟩] := by
  rw [drawnUntil, renameVar_of_none hx, OrderedMap.values_insert_of_new hx, List.drop_left]

theorem drawnUntil_meet_cons (r : Renaming) (x : Var) (xs : List Var) :
    r.drawnUntil (r.meet (x :: xs)) =
      r.drawnUntil (r.renameVar x).2 ++ (r.renameVar x).2.drawnUntil (r.meet (x :: xs)) := by
  obtain ⟨ys, hys⟩ := values_prefix_renameVar r x
  obtain ⟨zs, hzs⟩ := values_prefix_meet (r.renameVar x).2 xs
  simp only [drawnUntil, meet_cons, ← hzs, ← hys, List.append_assoc, List.drop_left]
  rw [← List.append_assoc, List.drop_left]

/-- A target was there before, or it is drawn: it has the name of what it stands
    for, and a number of the supply. -/
theorem find?_meet_cases (r : Renaming) (xs : List Var) (h : (r.meet xs).targets.find? x = some y) :
    r.targets.find? x = some y ∨ y.name = x.name ∧ r.supply.next ≤ y.id := by
  induction xs generalizing r with
  | nil => exact .inl h
  | cons z xs ih =>
    rw [meet_cons] at h
    cases hz : r.targets.find? z with
    | some w =>
      rw [renameVar_of_some hz] at h
      exact ih r h
    | none =>
      have hmet := ih _ h
      rw [renameVar_of_none hz] at hmet
      rcases hmet with hold | ⟨hname, hnext⟩
      · rcases OrderedMap.find?_insert_cases hold with ⟨rfl, rfl⟩ | hthere
        · exact .inr ⟨rfl, Nat.le_refl _⟩
        · exact .inl hthere
      · exact .inr ⟨hname, Nat.le_of_succ_le hnext⟩

end Renaming

-- ============================================================================
-- Sessions
-- ============================================================================

/-- A stretch of work in which variables are created and types are copied. -/
structure CopySession (κ : Type) where
  /-- All variables created so far, oldest first. -/
  created : List Var
  /-- The renaming maps. -/
  maps : κ → OrderedMap Var Var
  /-- Where the next variable comes from. -/
  supply : VarSupply

/-- What can be done in a session. -/
inductive CopyCall (κ : Type) where
  /-- Create a variable of a given name. -/
  | create (name : String)
  /-- Rename a variable with a map. -/
  | renameVar (map : κ) (x : Var)
  /-- Copy a type with a map. -/
  | renameTy (map : κ) (t : Ty)
  /-- Copy a composite type with a map. -/
  | renameComposite (map : κ) (c : CompositeTy)

/-- The variables that a call is about. -/
def CopyCall.vars {κ : Type} : CopyCall κ → List Var
  | .create _ => []
  | .renameVar _ x => [x]
  | .renameTy _ t => t.vars
  | .renameComposite _ c => c.toTy.vars

namespace CopySession

variable {κ : Type} {s : CopySession κ} {m : κ} {x : Var} {xs : List Var}

/-- The session in which nothing was done yet: all maps are empty. -/
def start : CopySession κ := ⟨[], fun _ => .empty, .initial⟩

/-- The state from which the next copy with the map `m` starts. -/
def state (s : CopySession κ) (m : κ) : Renaming := ⟨s.maps m, s.supply⟩

-- ============================================================================
-- The order of the variables
-- ============================================================================

/-- The log is numbered without a gap, each map leads to a later variable of the
    same name, and no variable is the target of two. -/
structure Orderly (s : CopySession κ) : Prop where
  numbered : s.created.map Var.id = List.range s.supply.next
  later : ∀ m x y, (s.maps m).find? x = some y → y.name = x.name ∧ [x, y].Sublist s.created
  apart : ∀ m n x x' y, (s.maps m).find? x = some y → (s.maps n).find? x' = some y → m = n ∧ x = x'

theorem orderly_start : (start : CopySession κ).Orderly := by
  constructor
  · rfl
  · intro m x y h
    cases h
  · intro m n x x' y h _
    cases h

theorem Orderly.id_lt (h : s.Orderly) (hx : x ∈ s.created) : x.id < s.supply.next := by
  rw [← List.mem_range, ← h.numbered]
  exact List.mem_map_of_mem hx

theorem Orderly.nodup (h : s.Orderly) : s.created.Nodup := by
  apply List.Nodup.of_map Var.id
  rw [h.numbered]
  exact List.nodup_range

theorem Orderly.length_eq (h : s.Orderly) : s.created.length = s.supply.next := by
  have hlength := congrArg List.length h.numbered
  rwa [List.length_map, List.length_range] at hlength

theorem Orderly.target_mem (h : s.Orderly) {y : Var} (hy : (s.maps m).find? x = some y) :
    y ∈ s.created := by
  obtain ⟨-, hlater⟩ := h.later m x y hy
  apply hlater.subset
  exact List.mem_cons_of_mem x List.mem_cons_self

/-- The log stays numbered when the supply gives one more variable. -/
theorem Orderly.numbered_append (h : s.Orderly) (name : String) :
    (s.created ++ [(s.supply.fresh name).1]).map Var.id = List.range (s.supply.next + 1) := by
  rw [List.map_append, h.numbered, List.range_succ]
  rfl

-- ============================================================================
-- Calls
-- ============================================================================

variable [DecidableEq κ]

/-- The session once the work with the map `m` has come to the state `r`. -/
def leave (s : CopySession κ) (m : κ) (r : Renaming) : CopySession κ :=
  ⟨s.created ++ (s.state m).drawnUntil r, Function.update s.maps m r.targets, r.supply⟩

/-- The session after a call. -/
def perform (s : CopySession κ) : CopyCall κ → CopySession κ
  | .create name => ⟨s.created ++ [(s.supply.fresh name).1], s.maps, (s.supply.fresh name).2⟩
  | .renameVar m x => s.leave m ((s.state m).renameVar x).2
  | .renameTy m t => s.leave m ((s.state m).renameTy t).2
  | .renameComposite m c => s.leave m ((s.state m).renameComposite c).2

/-- The sessions that come about by calls about variables that exist. -/
inductive Reached : CopySession κ → Prop where
  | start : Reached .start
  | perform {s : CopySession κ} (h : Reached s) (call : CopyCall κ)
      (hcall : ∀ x ∈ call.vars, x ∈ s.created) : Reached (s.perform call)

theorem leave_self (s : CopySession κ) (m : κ) : s.leave m (s.state m) = s := by
  rw [leave, Renaming.drawnUntil_self, List.append_nil, state, Function.update_eq_self]

theorem state_leave (s : CopySession κ) (m : κ) (r : Renaming) : (s.leave m r).state m = r := by
  show (⟨Function.update s.maps m r.targets m, r.supply⟩ : Renaming) = r
  rw [Function.update_self]

/-- Meeting some variables is meeting the first, then the others. -/
theorem leave_meet_cons (s : CopySession κ) (m : κ) (x : Var) (xs : List Var) :
    let s' := s.leave m ((s.state m).renameVar x).2
    s.leave m ((s.state m).meet (x :: xs)) = s'.leave m ((s'.state m).meet xs) := by
  intro s'
  have hstate : s'.state m = ((s.state m).renameVar x).2 := state_leave _ _ _
  have hcreated : s'.created =
      s.created ++ (s.state m).drawnUntil ((s.state m).renameVar x).2 := rfl
  have hmaps : s'.maps = Function.update s.maps m ((s.state m).renameVar x).2.targets := rfl
  rw [leave, leave, hstate, hcreated, hmaps, Renaming.drawnUntil_meet_cons, Function.update_idem,
    List.append_assoc]
  rfl

/-- Copying does to a session what meeting the variables does one after the
    other. -/
theorem perform_eq (s : CopySession κ) (call : CopyCall κ) :
    (∃ name, call = .create name) ∨
      ∃ m, s.perform call = s.leave m ((s.state m).meet call.vars) := by
  cases call with
  | create name => exact .inl ⟨name, rfl⟩
  | renameVar m x => exact .inr ⟨m, rfl⟩
  | renameTy m t => exact .inr ⟨m, congrArg (s.leave m) (Renaming.snd_renameTy t _)⟩
  | renameComposite m c => exact .inr ⟨m, congrArg (s.leave m) (Renaming.snd_renameTy c.toTy _)⟩

-- ============================================================================
-- Every call keeps the order
-- ============================================================================

theorem Orderly.create (h : s.Orderly) (name : String) : (s.perform (.create name)).Orderly := by
  constructor
  · exact h.numbered_append name
  · intro m x y hy
    obtain ⟨hname, hlater⟩ := h.later m x y hy
    exact ⟨hname, hlater.trans (List.sublist_append_left _ _)⟩
  · exact h.apart

/-- The session once a variable without a target has got the next one. -/
theorem leave_renameVar_of_none (s : CopySession κ) (h : (s.maps m).find? x = none) :
    let fresh : Var := ⟨x.name, s.supply.next⟩
    s.leave m ((s.state m).renameVar x).2 =
      ⟨s.created ++ [fresh], Function.update s.maps m ((s.maps m).insert x fresh),
        ⟨s.supply.next + 1⟩⟩ := by
  intro fresh
  rw [leave, Renaming.drawnUntil_renameVar_of_none h, Renaming.renameVar_of_none h]
  rfl

/-- With one more entry in one of the maps, a target is the new one or was
    there. -/
theorem find?_update_cases {maps : κ → OrderedMap Var Var} {n : κ} {y z w : Var}
    (h : (Function.update maps m ((maps m).insert x y) n).find? z = some w) :
    n = m ∧ z = x ∧ w = y ∨ (maps n).find? z = some w := by
  by_cases hn : n = m
  · subst hn
    rw [Function.update_self] at h
    rcases OrderedMap.find?_insert_cases h with ⟨hz, hw⟩ | hold
    · exact .inl ⟨rfl, hz, hw⟩
    · exact .inr hold
  · rw [Function.update_of_ne hn] at h
    exact .inr h

/-- Meeting a variable that exists keeps the order. -/
theorem Orderly.renamed (h : s.Orderly) (m : κ) (hx : x ∈ s.created) :
    (s.leave m ((s.state m).renameVar x).2).Orderly := by
  cases hfind : (s.maps m).find? x with
  | some y =>
    rw [Renaming.renameVar_of_some (r := s.state m) hfind, leave_self]
    exact h
  | none =>
    -- the target drawn is in no map yet, as its number is above all of the log
    have hfresh : ∀ n z, (s.maps n).find? z ≠ some ⟨x.name, s.supply.next⟩ := by
      intro n z hz
      exact Nat.lt_irrefl _ (h.id_lt (h.target_mem hz))
    rw [leave_renameVar_of_none s hfind]
    constructor
    · exact h.numbered_append x.name
    · intro n z y hz
      rcases find?_update_cases hz with ⟨-, rfl, rfl⟩ | hold
      · refine ⟨rfl, ?_⟩
        exact (List.singleton_sublist.mpr hx).append (List.Sublist.refl _)
      · obtain ⟨hname, hlater⟩ := h.later n z y hold
        exact ⟨hname, hlater.trans (List.sublist_append_left _ _)⟩
    · intro n n' z z' y hz hz'
      rcases find?_update_cases hz with ⟨rfl, rfl, rfl⟩ | hold
      · rcases find?_update_cases hz' with ⟨rfl, rfl, -⟩ | hold'
        · exact ⟨rfl, rfl⟩
        · exact absurd hold' (hfresh n' z')
      · rcases find?_update_cases hz' with ⟨-, -, rfl⟩ | hold'
        · exact absurd hold (hfresh n z)
        · exact h.apart n n' z z' y hold hold'

theorem Orderly.met (h : s.Orderly) (m : κ) (hxs : ∀ x ∈ xs, x ∈ s.created) :
    (s.leave m ((s.state m).meet xs)).Orderly := by
  induction xs generalizing s with
  | nil =>
    have hnone : (s.state m).meet [] = s.state m := rfl
    rw [hnone, leave_self]
    exact h
  | cons x xs ih =>
    obtain ⟨hx, hrest⟩ := List.forall_mem_cons.mp hxs
    rw [leave_meet_cons]
    apply ih (h.renamed m hx)
    intro y hy
    exact List.mem_append_left _ (hrest y hy)

theorem Reached.orderly (h : s.Reached) : s.Orderly := by
  induction h with
  | start => exact orderly_start
  | @perform s _ call hcall ih =>
    rcases perform_eq s call with ⟨name, rfl⟩ | ⟨m, hperform⟩
    · exact ih.create name
    · rw [hperform]
      exact ih.met m hcall

-- ============================================================================
-- Copies
-- ============================================================================

/-- **Copies are consistent, injective and fresh.**  After any calls about
    variables that exist, on any number of maps that were empty at first, all
    variables created differ, and they are as many as the supply has given, so
    that their numbers lie below how many there are.  Each map keeps names and
    leads to variables created later; it is injective, and two maps share no
    target.  Copying any type with any of the maps replaces each variable by its
    target in the map that is left, which keeps the targets that it had and has
    one more for each other variable of the type; the text stays the same.  If
    the map was empty, the copy has no variable in common with any type of
    variables that existed. -/
theorem copies_fresh {s : CopySession κ} (h : s.Reached) :
    (s.created.Nodup ∧ s.created.length = s.supply.next) ∧
    (∀ m x y, (s.maps m).find? x = some y → y.name = x.name ∧ [x, y].Sublist s.created) ∧
    (∀ m n x x' y, (s.maps m).find? x = some y → (s.maps n).find? x' = some y →
      m = n ∧ x = x') ∧
    ∀ m (t : Ty),
      let r := s.state m
      let copy := r.renameTy t
      copy.1 = t.rename copy.2.target ∧
      r.targets.KeptIn copy.2.targets ∧
      (∀ x, x ∈ copy.2.targets.keys ↔ x ∈ r.targets.keys ∨ t.mentions x) ∧
      copy.1.display = t.display ∧
      (r.targets = .empty → ∀ u : Ty, (∀ x, u.mentions x → x ∈ s.created) →
        ∀ x, copy.1.mentions x → ¬ u.mentions x) := by
  have hs := h.orderly
  refine ⟨⟨hs.nodup, hs.length_eq⟩, hs.later, hs.apart, fun m t => ?_⟩
  intro r copy
  have hcopy : copy.1 = t.rename copy.2.target := Renaming.fst_renameTy t r (.refl _)
  have hstate : copy.2 = r.meet t.vars := Renaming.snd_renameTy t r
  have htarget : ∀ x, t.mentions x → ∃ y, copy.2.targets.find? x = some y ∧ copy.2.target x = y := by
    intro x hx
    obtain ⟨y, hy⟩ := Renaming.find?_meet r ((t.mem_vars x).mpr hx)
    rw [← hstate] at hy
    exact ⟨y, hy, Renaming.target_of_some hy⟩
  refine ⟨hcopy, ?_, fun x => ?_, ?_, fun hempty u hu x hx hux => ?_⟩
  · rw [hstate]
    exact Renaming.keptIn_meet r _
  · rw [hstate, Renaming.mem_keys_meet, Ty.mem_vars]
  · rw [hcopy]
    apply Ty.display_rename
    intro x hx
    obtain ⟨y, hy, hxy⟩ := htarget x hx
    rw [hxy]
    rw [hstate] at hy
    rcases Renaming.find?_meet_cases r _ hy with hold | ⟨hname, -⟩
    · exact (hs.later m x y hold).1
    · exact hname
  · -- a variable of the copy is drawn from the supply, above all that existed
    rw [hcopy, Ty.mentions_rename] at hx
    obtain ⟨z, hz, hzx⟩ := hx
    obtain ⟨y, hy, hzy⟩ := htarget z hz
    rw [hstate] at hy
    rcases Renaming.find?_meet_cases r _ hy with hold | ⟨-, hnext⟩
    · rw [hempty] at hold
      cases hold
    · have hlt := hs.id_lt (hu x hux)
      rw [← hzx, hzy] at hlt
      exact Nat.not_lt.mpr hnext hlt

end CopySession

namespace Sample

/-- Two variables, and a pair of them copied with the map 0. -/
def paired : CopySession Nat :=
  ((CopySession.start.perform (.create "a")).perform (.create "b")).perform
    (.renameTy 0 (pair (.var a) (.var b)))

/-- The copy of the first variable, which has the number 2, is copied in turn,
    with the map that made it and with another one. -/
def recopied : CopySession Nat :=
  (paired.perform (.renameVar 0 ⟨"a", 2⟩)).perform (.renameTy 1 (list (.var ⟨"a", 2⟩)))

theorem recopied_reached : recopied.Reached := by
  have hfirst := CopySession.Reached.start.perform (.create "a" : CopyCall Nat) (by decide)
  have hpaired : paired.Reached := (hfirst.perform (.create "b") (by decide)).perform _ (by decide)
  exact (hpaired.perform _ (by decide)).perform _ (by decide)

end Sample

namespace CopySession

open Sample in
/-- The map 0 leads from the number 0 to 2 and from 2 to 4, the map 1 from 2 to
    5; a copy with a third map draws the number 6. -/
theorem copies_fresh_recopied :
    recopied.Reached ∧
    recopied.created.map Var.id = [0, 1, 2, 3, 4, 5] ∧ recopied.created.Nodup ∧
    (recopied.maps 0).find? ⟨"a", 2⟩ = some ⟨"a", 4⟩ ∧
    (recopied.maps 1).find? ⟨"a", 2⟩ = some ⟨"a", 5⟩ ∧
    [(⟨"a", 2⟩ : Var), ⟨"a", 5⟩].Sublist recopied.created ∧
    ((recopied.state 2).renameTy (list (.var ⟨"a", 4⟩))).1 = list (.var ⟨"a", 6⟩) ∧
    ¬ (list (.var ⟨"a", 4⟩)).mentions ⟨"a", 6⟩ := by
  obtain ⟨⟨hnodup, -⟩, hlater, -, hcopy⟩ := copies_fresh recopied_reached
  have hfind : (recopied.maps 1).find? ⟨"a", 2⟩ = some ⟨"a", 5⟩ := by decide
  have hvars : ∀ x ∈ (list (.var ⟨"a", 4⟩)).vars, x ∈ recopied.created := by decide
  have hknown : ∀ x, (list (.var ⟨"a", 4⟩)).mentions x → x ∈ recopied.created := fun x hx =>
    hvars x ((Ty.mem_vars _ x).mpr hx)
  have hnew := (hcopy 2 (list (.var ⟨"a", 4⟩))).2.2.2.2 rfl _ hknown ⟨"a", 6⟩ (by decide)
  exact ⟨recopied_reached, by decide, hnodup, by decide, hfind, (hlater 1 _ _ hfind).2, by decide,
    hnew⟩

end CopySession
end StructuralDiff
