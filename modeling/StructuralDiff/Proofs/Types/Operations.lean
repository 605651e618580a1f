/-
  StructuralDiff.Proofs.Types.Operations

  Any sequence of operations on types.

  A `TypeSession` keeps every type and every substitution that was returned, and
  a call works on these and on what stands in them.  Its invariant is `Sound`:
  the types are saturated, the substitutions store saturated types and are
  reached by unifying and by extending unbound variables.  One call either is a
  constructor met with a wrong number of arguments, or it is answered and keeps
  the invariant (`Sound.perform_cases`); so does any sequence of calls
  (`Reached.sound`).

  Resolving and applying build their composites with the constructors, which
  could refuse; as no type that was returned has a wrong number of arguments
  anywhere, they never do.
-/

import StructuralDiff.Proofs.Types.Saturation

namespace StructuralDiff

/-- What was returned in the course of some operations on types. -/
structure TypeSession where
  /-- All types, oldest first. -/
  types : List Ty
  /-- All substitutions, oldest first. -/
  substitutions : List Substitution
  /-- Where the next variable comes from. -/
  supply : VarSupply

/-- An operation on types. -/
inductive TypeCall where
  /-- The atomic type of a name. -/
  | atomic (name : String)
  /-- A variable as a type. -/
  | var (x : Var)
  /-- A tuple of types. -/
  | tuple (items : List Ty)
  /-- A composite type. -/
  | apply (c : TypeConstructor) (args : List Ty)
  /-- A copy of a type with new variables, from a map of those met before. -/
  | rename (targets : OrderedMap Var Var) (t : Ty)
  /-- A copy of a composite type with new variables. -/
  | renameComposite (targets : OrderedMap Var Var) (c : CompositeTy)
  /-- One more binding. -/
  | extend (σ : Substitution) (x : Var) (t : Ty)
  /-- The bindings that make two types agree. -/
  | unify (σ : Substitution) (t u : Ty)
  /-- The end of a chain of bindings. -/
  | walk (σ : Substitution) (t : Ty)
  /-- A type with everything bound in it replaced. -/
  | resolve (σ : Substitution) (t : Ty)
  /-- The type of an application. -/
  | applyType (c : Constructor) (arg : Ty)

namespace TypeCall

/-- The types that a call works on. -/
def types : TypeCall → List Ty
  | .atomic _ => []
  | .var _ => []
  | .tuple items => items
  | .apply _ args => args
  | .rename _ t => [t]
  | .renameComposite _ c => [c.toTy]
  | .extend _ _ t => [t]
  | .unify _ t u => [t, u]
  | .walk _ t => [t]
  | .resolve _ t => [t]
  | .applyType c arg => [c.argument, c.result.toTy, arg]

/-- The substitutions that a call works on. -/
def substitutions : TypeCall → List Substitution
  | .extend σ _ _ => [σ]
  | .unify σ _ _ => [σ]
  | .walk σ _ => [σ]
  | .resolve σ _ => [σ]
  | _ => []

/-- A binding is asked for only where there is none. -/
def Unbound : TypeCall → Prop
  | .extend σ x _ => σ.lookup x = none
  | _ => True

/-- A constructor meets a number of arguments that it does not take. -/
def Misapplies (call : TypeCall) (e : ArityError) : Prop :=
  ∃ c args, call = .apply c args ∧ args.length ≠ c.arity ∧ e = ⟨args.length, c.arity⟩

end TypeCall

namespace TypeSession

variable {s s' : TypeSession} {call : TypeCall} {σ : Substitution} {t : Ty}

/-- Nothing was returned yet, but the substitution without bindings is there. -/
def start : TypeSession := ⟨[], [.empty], .initial⟩

-- ============================================================================
-- Calls
-- ============================================================================

/-- The session once a type was returned. -/
def keep (s : TypeSession) (t : Ty) : TypeSession := { s with types := s.types ++ [t] }

/-- The session once a substitution was returned, or none. -/
def keepBindings (s : TypeSession) : Option Substitution → TypeSession
  | some σ => { s with substitutions := s.substitutions ++ [σ] }
  | none => s

/-- The session once variables were drawn. -/
def draw (s : TypeSession) (supply : VarSupply) : TypeSession := { s with supply := supply }

/-- Do one call, unless a constructor refuses its arguments. -/
def perform (s : TypeSession) : TypeCall → Except ArityError TypeSession
  | .atomic name => .ok (s.keep (.atomic name))
  | .var x => .ok (s.keep (.var x))
  | .tuple items => .ok (s.keep (.tuple items))
  | .apply c args => do
    let built ← c.apply args
    return s.keep built.toTy
  | .rename targets t =>
    let (copy, r) := Renaming.renameTy ⟨targets, s.supply⟩ t
    .ok ((s.draw r.supply).keep copy)
  | .renameComposite targets c =>
    let (copy, r) := Renaming.renameComposite ⟨targets, s.supply⟩ c
    .ok ((s.draw r.supply).keep copy.toTy)
  | .extend σ x t => .ok (s.keepBindings (σ.extend x t))
  | .unify σ t u => .ok (s.keepBindings (σ.unify t u))
  | .walk σ t => .ok (s.keep (σ.walk t))
  | .resolve σ t => do
    let r ← σ.rebuild t
    return s.keep r
  | .applyType c arg => do
    let (answer, supply) ← c.rebuildType arg s.supply
    match answer with
    | .ok r => return (s.draw supply).keep r
    | .error _ => return s.draw supply

/-- The session after a call; one that fails returns nothing. -/
def after (s : TypeSession) (call : TypeCall) : TypeSession :=
  match s.perform call with
  | .ok s' => s'
  | .error _ => s

/-- The type stands in one that was returned. -/
def Holds (s : TypeSession) (t : Ty) : Prop := ∃ u ∈ s.types, t.Inside u

/-- The call works on what was returned. -/
structure Permits (s : TypeSession) (call : TypeCall) : Prop where
  types : ∀ t ∈ call.types, s.Holds t
  substitutions : ∀ σ ∈ call.substitutions, σ ∈ s.substitutions
  unbound : call.Unbound

theorem Permits.of_mem (htypes : ∀ t ∈ call.types, t ∈ s.types)
    (hsubs : ∀ σ ∈ call.substitutions, σ ∈ s.substitutions) (hunbound : call.Unbound) :
    s.Permits call :=
  ⟨fun t ht => ⟨t, htypes t ht, .self⟩, hsubs, hunbound⟩

/-- The sessions that come about by calls on what was returned before, failed
    ones among them. -/
inductive Reached : TypeSession → Prop where
  | start : Reached start
  | call {s : TypeSession} (h : Reached s) (call : TypeCall) (hcall : s.Permits call) :
      Reached (s.after call)

-- ============================================================================
-- One call
-- ============================================================================

/-- All types are saturated, in the substitutions as well, and no chain of
    bindings leads back to where it began. -/
structure Sound (s : TypeSession) : Prop where
  types : ∀ t ∈ s.types, t.Saturated
  substitutions : ∀ σ ∈ s.substitutions, σ.Saturated
  reached : ∀ σ ∈ s.substitutions, σ.Reached

theorem sound_start : start.Sound where
  types := List.forall_mem_nil _
  substitutions := List.forall_mem_singleton.mpr Substitution.saturated_empty
  reached := List.forall_mem_singleton.mpr .empty

theorem Sound.keep (h : s.Sound) (ht : t.Saturated) : (s.keep t).Sound where
  types := List.forall_mem_append.mpr ⟨h.types, List.forall_mem_singleton.mpr ht⟩
  substitutions := h.substitutions
  reached := h.reached

theorem Sound.draw (h : s.Sound) (supply : VarSupply) : (s.draw supply).Sound :=
  ⟨h.types, h.substitutions, h.reached⟩

theorem Sound.keepBindings {o : Option Substitution} (h : s.Sound)
    (ho : ∀ τ, o = some τ → τ.Saturated ∧ τ.Reached) : (s.keepBindings o).Sound := by
  cases o with
  | none => exact h
  | some τ =>
    obtain ⟨hsaturated, hreached⟩ := ho τ rfl
    refine ⟨h.types, List.forall_mem_append.mpr ⟨h.substitutions, ?_⟩,
      List.forall_mem_append.mpr ⟨h.reached, ?_⟩⟩
    · exact List.forall_mem_singleton.mpr hsaturated
    · exact List.forall_mem_singleton.mpr hreached

theorem Sound.holds (h : s.Sound) (ht : s.Holds t) : t.Saturated := by
  obtain ⟨u, hu, hin⟩ := ht
  exact (h.types u hu).inside hin

theorem Sound.acyclic (h : s.Sound) (hσ : σ ∈ s.substitutions) : σ.Acyclic :=
  (h.reached σ hσ).acyclic

theorem perform_apply_of_ne {c : TypeConstructor} {args : List Ty} (h : args.length ≠ c.arity) :
    s.perform (.apply c args) = .error ⟨args.length, c.arity⟩ := by
  rw [perform, TypeConstructor.apply, if_neg h]
  rfl

/-- A call on what was returned either meets a constructor with a wrong number of
    arguments, or it is answered and keeps the session sound. -/
theorem Sound.perform_cases (h : s.Sound) (hcall : s.Permits call) :
    (∃ e, call.Misapplies e ∧ s.perform call = .error e) ∨
      ∃ s', s.perform call = .ok s' ∧ s'.Sound := by
  have hheld : ∀ t ∈ call.types, t.Saturated := fun t ht => h.holds (hcall.types t ht)
  have hthere := hcall.substitutions
  have hunbound := hcall.unbound
  cases call with
  | atomic name => exact .inr ⟨_, rfl, h.keep (Ty.saturated_atomic name)⟩
  | var x => exact .inr ⟨_, rfl, h.keep (Ty.saturated_var x)⟩
  | tuple items => exact .inr ⟨_, rfl, h.keep (Ty.saturated_tuple_iff.mpr hheld)⟩
  | apply c args =>
    by_cases hlength : args.length = c.arity
    · refine .inr ⟨s.keep (.composite c args), ?_, h.keep ?_⟩
      · rw [perform, TypeConstructor.apply, if_pos hlength]
        rfl
      · exact Ty.saturated_composite_iff.mpr ⟨hlength, hheld⟩
    · exact .inl ⟨_, ⟨c, args, rfl, hlength, rfl⟩, perform_apply_of_ne hlength⟩
  | rename targets t =>
    refine .inr ⟨_, rfl, (h.draw _).keep ?_⟩
    exact (Renaming.saturated_renameTy_iff _ t).mpr (hheld t List.mem_cons_self)
  | renameComposite targets c =>
    refine .inr ⟨_, rfl, (h.draw _).keep ?_⟩
    exact (Renaming.saturated_renameComposite_iff _ c).mpr (hheld _ List.mem_cons_self)
  | extend σ x t =>
    have hσ := hthere σ List.mem_cons_self
    refine .inr ⟨_, rfl, h.keepBindings fun τ hτ => ⟨?_, ?_⟩⟩
    · exact (h.substitutions σ hσ).extend (hheld t List.mem_cons_self) hτ
    · exact .extend (h.reached σ hσ) hunbound hτ
  | unify σ t u =>
    have hσ := hthere σ List.mem_cons_self
    have ht := hheld t List.mem_cons_self
    have hu := hheld u (List.mem_cons_of_mem t List.mem_cons_self)
    refine .inr ⟨_, rfl, h.keepBindings fun τ hτ => ⟨?_, ?_⟩⟩
    · exact (h.substitutions σ hσ).unify (h.acyclic hσ) ht hu hτ
    · exact .unify (h.reached σ hσ) hτ
  | walk σ t =>
    have hσ := hthere σ List.mem_cons_self
    have hwalk := Substitution.walksTo_walk (h.acyclic hσ) t
    refine .inr ⟨_, rfl, h.keep ?_⟩
    exact hwalk.saturated (h.substitutions σ hσ) (hheld t List.mem_cons_self)
  -- the answers of the last two calls are built by constructors
  | resolve σ t =>
    have hσ := h.substitutions σ (hthere σ List.mem_cons_self)
    have ht := hheld t List.mem_cons_self
    refine .inr ⟨s.keep (σ.resolve t), ?_, h.keep (hσ.resolve ht)⟩
    rw [perform, hσ.rebuild_eq ht]
    rfl
  | applyType c arg =>
    obtain ⟨hargument, hresult, harg⟩ : c.argument.Saturated ∧ c.result.toTy.Saturated ∧
        arg.Saturated := by
      simpa [TypeCall.types] using hheld
    have hc : c.Saturated := ⟨hargument, hresult⟩
    rw [perform, hc.rebuildType_eq harg]
    rcases hanswer : c.applyType arg s.supply with ⟨answer, supply⟩
    cases answer with
    | error e => exact .inr ⟨_, rfl, h.draw supply⟩
    | ok r =>
      have hr : r.Saturated := hc.applyType harg (congrArg Prod.fst hanswer)
      exact .inr ⟨_, rfl, (h.draw supply).keep hr⟩

theorem Sound.after (h : s.Sound) (hcall : s.Permits call) : (s.after call).Sound := by
  rw [TypeSession.after]
  rcases h.perform_cases hcall with ⟨e, -, hfails⟩ | ⟨s', hs', hsound⟩
  · rw [hfails]
    exact h
  · rw [hs']
    exact hsound

/-- A call fails just if it misapplies a constructor. -/
theorem Sound.perform_eq_error_iff (h : s.Sound) (hcall : s.Permits call) (e : ArityError) :
    s.perform call = .error e ↔ call.Misapplies e := by
  constructor
  · intro hfails
    rcases h.perform_cases hcall with ⟨e', hmis, hfails'⟩ | ⟨s', hs', -⟩
    · rw [hfails] at hfails'
      cases hfails'
      exact hmis
    · rw [hfails] at hs'
      cases hs'
  · rintro ⟨c, args, rfl, hlength, rfl⟩
    exact perform_apply_of_ne hlength

theorem Reached.sound (h : s.Reached) : s.Sound := by
  induction h with
  | start => exact sound_start
  | call _ _ hcall ih => exact ih.after hcall

-- ============================================================================
-- Any sequence of calls
-- ============================================================================

/-- **An arity fails only where a caller misapplies a constructor.**  After any
    calls, every composite in a type that was returned, or that a substitution
    stores, has as many arguments as its constructor takes.  So a further call
    fails just if it is a constructor met with a wrong number of arguments, and
    none is refused its arguments inside of resolving or of applying: both come
    to what they come to without looking at the arity. -/
theorem arity_fails_only_where_misapplied (s : TypeSession) (h : s.Reached) :
    (∀ t ∈ s.types, ∀ c args, (Ty.composite c args).Inside t → args.length = c.arity) ∧
    (∀ σ ∈ s.substitutions, σ.Acyclic ∧ ∀ x t, σ.lookup x = some t →
      ∀ c args, (Ty.composite c args).Inside t → args.length = c.arity) ∧
    (∀ call, s.Permits call → ∀ e, s.perform call = .error e ↔
      ∃ c args, call = .apply c args ∧ args.length ≠ c.arity ∧ e = ⟨args.length, c.arity⟩) ∧
    (∀ σ ∈ s.substitutions, ∀ t, s.Holds t → σ.rebuild t = .ok (σ.resolve t)) ∧
    ∀ (c : Constructor) (arg : Ty), s.Holds c.argument → s.Holds c.result.toTy → s.Holds arg →
      ∀ supply, c.rebuildType arg supply = .ok (c.applyType arg supply) := by
  have hs : s.Sound := h.sound
  refine ⟨hs.types, fun σ hσ => ⟨hs.acyclic hσ, hs.substitutions σ hσ⟩, ?_, ?_, ?_⟩
  · intro call hcall e
    exact hs.perform_eq_error_iff hcall e
  · intro σ hσ t ht
    exact (hs.substitutions σ hσ).rebuild_eq (hs.holds ht)
  · intro c arg hargument hresult harg supply
    have hc : c.Saturated := ⟨hs.holds hargument, hs.holds hresult⟩
    exact hc.rebuildType_eq (hs.holds harg) supply

end TypeSession

namespace Sample

open TypeSession

/-- Two variables were made, a list of the second one, and a substitution that
    binds the first one to that list. -/
def listed : TypeSession :=
  (((start.after (.var a)).after (.var b)).after (.apply ⟨"List", 1⟩ [.var b])).after
    (.extend .empty a (list (.var b)))

theorem reached_listed : listed.Reached := by
  refine (((Reached.start.call (.var a) ?_).call (.var b) ?_).call (.apply _ _) ?_).call _ ?_
  · exact .of_mem (List.forall_mem_nil _) (List.forall_mem_nil _) trivial
  · exact .of_mem (List.forall_mem_nil _) (List.forall_mem_nil _) trivial
  · exact .of_mem (by decide) (List.forall_mem_nil _) trivial
  · refine .of_mem (by decide) (List.forall_mem_singleton.mpr ?_) rfl
    exact List.mem_singleton_self _

end Sample

open Sample in
/-- Where `?a` is bound to a list of `?b`, a pair of `?a` alone is refused, and
    resolving builds the list anew. -/
theorem TypeSession.arity_fails_only_where_misapplied_listed :
    listed.Reached ∧ chain ∈ listed.substitutions ∧
    listed.perform (.apply ⟨"Pair", 2⟩ [.var a]) = .error ⟨1, 2⟩ ∧
    chain.rebuild (.var a) = .ok (list (.var b)) := by
  have h := TypeSession.arity_fails_only_where_misapplied listed reached_listed
  have ha : listed.Holds (.var a) := ⟨.var a, by decide, .self⟩
  have hchain : chain ∈ listed.substitutions := List.mem_cons_of_mem _ List.mem_cons_self
  refine ⟨reached_listed, hchain, ?_, ?_⟩
  · have hcall : listed.Permits (.apply ⟨"Pair", 2⟩ [.var a]) :=
      .of_mem (by decide) (List.forall_mem_nil _) trivial
    exact (h.2.2.1 _ hcall _).mpr ⟨⟨"Pair", 2⟩, [.var a], rfl, by decide, rfl⟩
  · exact h.2.2.2.1 chain hchain (.var a) ha

end StructuralDiff
