import Mathlib.Init

/-!
# Fallible state transformers

A computation that reads and changes a state and may fail half way. Unlike
`StateT σ (Except ε)`, a failed computation keeps the state it failed in: a call
that returns an error does not undo what it did before the error.

Besides the monad, this file gives the inversion lemmas that take a run apart
step by step, the simulation rule for loops over lists, and the rules for invariants
(`Keeps`), for how a computation ends in either case (`Ends`) and for what it does not look at
(`Respects`).
-/

/-- A state transformer that returns a value or an error, and a state in both cases. -/
def Fallible (ε σ α : Type) : Type := σ → Except ε α × σ

namespace Fallible

variable {ε σ τ α β γ : Type}

instance : Monad (Fallible ε σ) where
  pure value := fun state => (.ok value, state)
  bind action next := fun state =>
    match action state with
    | (.ok value, state') => next value state'
    | (.error failure, state') => (.error failure, state')

/-- Read the state. -/
def get : Fallible ε σ σ := fun state => (.ok state, state)

/-- Change the state. -/
def modify (change : σ → σ) : Fallible ε σ Unit := fun state => (.ok (), change state)

/-- Fail, keeping the state. -/
def throw (failure : ε) : Fallible ε σ α := fun state => (.error failure, state)

/-- Run a computation that does not touch the state. -/
def ofExcept (result : Except ε α) : Fallible ε σ α := fun state => (result, state)

/-- Rename the failures of a computation. -/
def mapError (rename : ε → ε) (action : Fallible ε σ α) : Fallible ε σ α := fun state =>
  match action state with
  | (.ok value, state') => (.ok value, state')
  | (.error failure, state') => (.error (rename failure), state')

/-- Run an action for every element of a list, from left to right. -/
def forEach : List α → (α → Fallible ε σ Unit) → Fallible ε σ Unit
  | [], _ => pure ()
  | item :: items, action => do
      action item
      forEach items action

/-- Run an action so many times, and collect what it returns. -/
def times : Nat → Fallible ε σ α → Fallible ε σ (List α)
  | 0, _ => pure []
  | count + 1, action => do
      let item ← action
      let items ← times count action
      return item :: items

section Apply

variable {state state' : σ}

@[simp]
theorem pure_apply (value : α) : (pure value : Fallible ε σ α) state = (.ok value, state) := rfl

@[simp]
theorem get_apply : (get : Fallible ε σ σ) state = (.ok state, state) := rfl

@[simp]
theorem modify_apply (change : σ → σ) :
    (modify change : Fallible ε σ Unit) state = (.ok (), change state) := rfl

@[simp]
theorem throw_apply (failure : ε) :
    (throw failure : Fallible ε σ α) state = (.error failure, state) := rfl

@[simp]
theorem ofExcept_apply (result : Except ε α) :
    (ofExcept result : Fallible ε σ α) state = (result, state) := rfl

theorem bind_apply (action : Fallible ε σ α) (next : α → Fallible ε σ β) :
    (action >>= next) state =
      match action state with
      | (.ok value, state') => next value state'
      | (.error failure, state') => (.error failure, state') := rfl

theorem bind_ok {action : Fallible ε σ α} {next : α → Fallible ε σ β} {value : α}
    (run : action state = (.ok value, state')) :
    (action >>= next) state = next value state' := by
  rw [bind_apply, run]

theorem bind_error {action : Fallible ε σ α} {next : α → Fallible ε σ β} {failure : ε}
    (run : action state = (.error failure, state')) :
    (action >>= next) state = (.error failure, state') := by
  rw [bind_apply, run]

theorem bind_failed {action : Fallible ε σ α} {next : α → Fallible ε σ β} {failure : ε}
    (failed : (action state).1 = .error failure) :
    ((action >>= next) state).1 = .error failure := by
  rw [bind_error (Prod.ext failed rfl)]

/-- To change what is returned is to change the result. -/
theorem bind_pure_apply (action : Fallible ε σ α) (change : α → β) :
    (action >>= fun value => pure (change value)) state =
      ((action state).1.map change, (action state).2) := by
  rw [bind_apply]
  rcases action state with ⟨_ | _, _⟩ <;> rfl

theorem mapError_ok {rename : ε → ε} {action : Fallible ε σ α} {value : α}
    (run : action state = (.ok value, state')) :
    mapError rename action state = (.ok value, state') := by
  rw [mapError, run]

theorem mapError_error {rename : ε → ε} {action : Fallible ε σ α} {failure : ε}
    (run : action state = (.error failure, state')) :
    mapError rename action state = (.error (rename failure), state') := by
  rw [mapError, run]

@[simp]
theorem get_bind (next : σ → Fallible ε σ β) : (get >>= next) state = next state state := rfl

@[simp]
theorem modify_bind (change : σ → σ) (next : Unit → Fallible ε σ β) :
    (modify change >>= next) state = next () (change state) := rfl

@[simp]
theorem pure_bind_apply (value : α) (next : α → Fallible ε σ β) :
    ((pure value : Fallible ε σ α) >>= next) state = next value state := rfl

@[simp]
theorem ofExcept_ok_bind (value : α) (next : α → Fallible ε σ β) :
    (ofExcept (.ok value) >>= next) state = next value state := rfl

@[simp]
theorem ofExcept_error_bind (failure : ε) (next : α → Fallible ε σ β) :
    (ofExcept (.error failure) >>= next) state = (.error failure, state) := rfl

theorem ofExcept_bind (result : Except ε α) (next : α → Except ε β) :
    (ofExcept (result.bind next) : Fallible ε σ β) =
      ofExcept result >>= fun value => ofExcept (next value) := by
  cases result <;> rfl

/-- A successful run of a sequence is a successful run of both parts. -/
theorem bind_eq_ok {action : Fallible ε σ α} {next : α → Fallible ε σ β} {value : β}
    (run : (action >>= next) state = (.ok value, state')) :
    ∃ middle between, action state = (.ok middle, between) ∧
      next middle between = (.ok value, state') := by
  rw [bind_apply] at run
  rcases outcome : action state with ⟨result, between⟩
  rw [outcome] at run
  cases result with
  | ok middle => exact ⟨middle, between, rfl, run⟩
  | error failure => simp at run

theorem bind_eq_ok_iff {action : Fallible ε σ α} {next : α → Fallible ε σ β} {value : β} :
    (action >>= next) state = (.ok value, state') ↔
      ∃ middle between, action state = (.ok middle, between) ∧
        next middle between = (.ok value, state') := by
  refine ⟨bind_eq_ok, ?_⟩
  rintro ⟨middle, between, first, second⟩
  rw [bind_ok first, second]

/-- The same for computations without a state. -/
theorem except_bind_eq_ok {result : Except ε α} {next : α → Except ε β} {value : β}
    (run : (result >>= next) = .ok value) :
    ∃ middle, result = .ok middle ∧ next middle = .ok value := by
  cases result with
  | ok middle => exact ⟨middle, rfl, run⟩
  | error failure => simp [bind, Except.bind] at run

/-- A loop whose steps simulate a step of another state simulates the fold of that step. -/
theorem forEach_simulates (relation : τ → σ → Prop) (step : τ → α → τ)
    {action : α → Fallible ε σ Unit} {items : List α}
    (steps : ∀ item ∈ items, ∀ abstract state, relation abstract state →
      ∃ state', action item state = (.ok (), state') ∧ relation (step abstract item) state')
    (abstract : τ) (related : relation abstract state) :
    ∃ state', forEach items action state = (.ok (), state') ∧
      relation (items.foldl step abstract) state' := by
  induction items generalizing abstract state with
  | nil => exact ⟨state, rfl, related⟩
  | cons item items ih =>
      rcases steps item (by simp) abstract state related with ⟨next, run, related'⟩
      rcases ih (fun other inside => steps other (by simp [inside])) _ related' with
        ⟨state', rest, related''⟩
      exact ⟨state', by rw [forEach, bind_ok run, rest], related''⟩

end Apply

section Keeps

variable {invariant : σ → Prop}

/-- A computation keeps an invariant, whether it returns a value or an error. -/
def Keeps (invariant : σ → Prop) (action : Fallible ε σ α) : Prop :=
  ∀ state, invariant state → invariant (action state).2

theorem keeps_pure (value : α) : Keeps invariant (pure value : Fallible ε σ α) :=
  fun _ holds => holds

theorem keeps_throw (failure : ε) : Keeps invariant (throw failure : Fallible ε σ α) :=
  fun _ holds => holds

theorem keeps_modify {change : σ → σ} (step : ∀ state, invariant state → invariant (change state)) :
    Keeps invariant (modify change : Fallible ε σ Unit) :=
  step

theorem Keeps.bind {action : Fallible ε σ α} {next : α → Fallible ε σ β}
    (first : Keeps invariant action) (rest : ∀ value, Keeps invariant (next value)) :
    Keeps invariant (action >>= next) := by
  intro state holds
  have kept := first state holds
  rw [bind_apply]
  generalize action state = ended at kept ⊢
  rcases ended with ⟨result, between⟩
  cases result with
  | ok value => exact rest value between kept
  | error failure => exact kept

theorem keeps_ofExcept (result : Except ε α) :
    Keeps invariant (ofExcept result : Fallible ε σ α) :=
  fun _ holds => holds

theorem Keeps.mapError {action : Fallible ε σ α} (kept : Keeps invariant action) (rename : ε → ε) :
    Keeps invariant (mapError rename action) := by
  intro state holds
  have after := kept state holds
  rw [Fallible.mapError]
  generalize action state = ended at after ⊢
  rcases ended with ⟨_ | _, _⟩ <;> exact after

theorem keeps_get_bind {next : σ → Fallible ε σ β}
    (rest : ∀ state, invariant state → invariant (next state state).2) :
    Keeps invariant (get >>= next) :=
  rest

theorem keeps_forEach {items : List α} {action : α → Fallible ε σ Unit}
    (step : ∀ item, Keeps invariant (action item)) : Keeps invariant (forEach items action) := by
  induction items with
  | nil => exact keeps_pure ()
  | cons item items ih => exact (step item).bind fun _ => ih

end Keeps

section Ends

variable {before : σ → Prop} {after : α → σ → Prop} {failed : ε → σ → Prop}

/-- From a state that satisfies `before`, a computation that returns a value ends in one that
satisfies `after`, and one that returns an error in one that satisfies `failed`. -/
def Ends (before : σ → Prop) (action : Fallible ε σ α) (after : α → σ → Prop)
    (failed : ε → σ → Prop) : Prop :=
  ∀ state, before state →
    match action state with
    | (.ok value, state') => after value state'
    | (.error failure, state') => failed failure state'

theorem Ends.ok {action : Fallible ε σ α} (ends : Ends before action after failed)
    {state state' : σ} {value : α} (holds : before state)
    (run : action state = (.ok value, state')) : after value state' := by
  have ended := ends state holds
  rw [run] at ended
  exact ended

theorem Ends.error {action : Fallible ε σ α} (ends : Ends before action after failed)
    {state state' : σ} {failure : ε} (holds : before state)
    (run : action state = (.error failure, state')) : failed failure state' := by
  have ended := ends state holds
  rw [run] at ended
  exact ended

theorem Keeps.ends {invariant : σ → Prop} {action : Fallible ε σ α}
    (kept : Keeps invariant action) :
    Ends invariant action (fun _ => invariant) (fun _ => invariant) := by
  intro state holds
  have after := kept state holds
  rcases run : action state with ⟨failure | value, state'⟩
  · rwa [run] at after
  · rwa [run] at after

theorem Ends.keeps {invariant : σ → Prop} {action : Fallible ε σ α}
    (ends : Ends invariant action (fun _ => invariant) (fun _ => invariant)) :
    Keeps invariant action := by
  intro state holds
  rcases run : action state with ⟨failure | value, state'⟩
  · exact ends.error holds run
  · exact ends.ok holds run

theorem ends_pure {value : α} (step : ∀ state, before state → after value state) :
    Ends before (pure value : Fallible ε σ α) after failed := step

theorem ends_throw {failure : ε} (step : ∀ state, before state → failed failure state) :
    Ends before (throw failure : Fallible ε σ α) after failed := step

theorem ends_modify {change : σ → σ} {after : Unit → σ → Prop}
    (step : ∀ state, before state → after () (change state)) :
    Ends before (modify change : Fallible ε σ Unit) after failed := step

theorem ends_ofExcept {result : Except ε α}
    (ok : ∀ value, result = .ok value → ∀ state, before state → after value state)
    (error : ∀ failure, result = .error failure → ∀ state, before state → failed failure state) :
    Ends before (ofExcept result : Fallible ε σ α) after failed := by
  intro state holds
  rw [ofExcept_apply]
  cases result with
  | ok value => exact ok value rfl state holds
  | error failure => exact error failure rfl state holds

theorem Ends.bind {action : Fallible ε σ α} {next : α → Fallible ε σ β}
    {final : β → σ → Prop} (first : Ends before action after failed)
    (rest : ∀ value, Ends (after value) (next value) final failed) :
    Ends before (action >>= next) final failed := by
  intro state holds
  rw [bind_apply]
  rcases run : action state with ⟨failure | value, state'⟩
  · exact first.error holds run
  · exact rest value state' (first.ok holds run)

theorem ends_modify_bind {change : σ → σ} {next : Unit → Fallible ε σ α} (between : σ → Prop)
    (step : ∀ state, before state → between (change state))
    (rest : Ends between (next ()) after failed) :
    Ends before (modify change >>= next) after failed :=
  Ends.bind (ends_modify step : Ends before (modify change) (fun _ => between) failed) fun _ => rest

theorem ends_get_bind {next : σ → Fallible ε σ α}
    (rest : ∀ state, before state → Ends (fun other => other = state) (next state) after failed) :
    Ends before (get >>= next) after failed :=
  fun state holds => rest state holds state rfl

/-- Nothing is needed of the state that was read. -/
theorem ends_get_then {next : σ → Fallible ε σ α}
    (rest : ∀ state, Ends before (next state) after failed) :
    Ends before (get >>= next) after failed :=
  fun state holds => rest state state holds

theorem Ends.mapError {action : Fallible ε σ α} {failed' : ε → σ → Prop} {rename : ε → ε}
    (ends : Ends before action after failed)
    (renamed : ∀ failure state, failed failure state → failed' (rename failure) state) :
    Ends before (mapError rename action) after failed' := by
  intro state holds
  rw [Fallible.mapError]
  rcases run : action state with ⟨failure | value, state'⟩
  · exact renamed failure state' (ends.error holds run)
  · exact ends.ok holds run

theorem Ends.imp {action : Fallible ε σ α} {before' : σ → Prop} {after' : α → σ → Prop}
    {failed' : ε → σ → Prop} (ends : Ends before action after failed)
    (start : ∀ state, before' state → before state)
    (weaker : ∀ value state, after value state → after' value state)
    (weaker' : ∀ failure state, failed failure state → failed' failure state) :
    Ends before' action after' failed' := by
  intro state holds
  rcases run : action state with ⟨failure | value, state'⟩
  · exact weaker' failure state' (ends.error (start state holds) run)
  · exact weaker value state' (ends.ok (start state holds) run)

/-- Only what is said about errors changes. -/
theorem Ends.failing {action : Fallible ε σ α} {failed' : ε → σ → Prop}
    (ends : Ends before action after failed)
    (weaker : ∀ failure state, failed failure state → failed' failure state) :
    Ends before action after failed' :=
  ends.imp (fun _ holds => holds) (fun _ _ holds => holds) weaker

/-- Two specifications of one computation hold together. -/
theorem Ends.and {action : Fallible ε σ α} {before' : σ → Prop} {after' : α → σ → Prop}
    {failed' : ε → σ → Prop} (ends : Ends before action after failed)
    (ends' : Ends before' action after' failed') :
    Ends (fun state => before state ∧ before' state) action
      (fun value state => after value state ∧ after' value state)
      (fun failure state => failed failure state ∧ failed' failure state) := by
  rintro state ⟨holds, holds'⟩
  rcases run : action state with ⟨failure | value, state'⟩
  · exact ⟨ends.error holds run, ends'.error holds' run⟩
  · exact ⟨ends.ok holds run, ends'.ok holds' run⟩

theorem ends_forEach {items : List α} {action : α → Fallible ε σ Unit}
    (step : ∀ item, Ends before (action item) (fun _ => before) failed) :
    Ends before (forEach items action) (fun _ => before) failed := by
  induction items with
  | nil => exact ends_pure fun _ holds => holds
  | cons item items ih => exact (step item).bind fun _ => ih

end Ends

section Respects

variable {related : σ → σ → Prop}

/-- From related states a computation returns the same and ends in related states. -/
def Respects (related : σ → σ → Prop) (action : Fallible ε σ α) : Prop :=
  ∀ state other, related state other →
    (action state).1 = (action other).1 ∧ related (action state).2 (action other).2

theorem respects_pure (value : α) : Respects related (pure value : Fallible ε σ α) :=
  fun _ _ alike => ⟨rfl, alike⟩

theorem respects_throw (failure : ε) : Respects related (throw failure : Fallible ε σ α) :=
  fun _ _ alike => ⟨rfl, alike⟩

theorem respects_ofExcept (result : Except ε α) :
    Respects related (ofExcept result : Fallible ε σ α) :=
  fun _ _ alike => ⟨rfl, alike⟩

theorem respects_modify {change : σ → σ}
    (step : ∀ state other, related state other → related (change state) (change other)) :
    Respects related (modify change : Fallible ε σ Unit) :=
  fun state other alike => ⟨rfl, step state other alike⟩

theorem Respects.bind {action : Fallible ε σ α} {next : α → Fallible ε σ β}
    (first : Respects related action) (rest : ∀ value, Respects related (next value)) :
    Respects related (action >>= next) := by
  intro state other alike
  rcases first state other alike with ⟨same, alike'⟩
  rw [bind_apply, bind_apply]
  generalize action state = ended at same alike' ⊢
  generalize action other = ended' at same alike' ⊢
  rcases ended with ⟨result, between⟩
  rcases ended' with ⟨result', between'⟩
  obtain rfl : result = result' := same
  cases result with
  | ok value => exact rest value between between' alike'
  | error failure => exact ⟨rfl, alike'⟩

/-- What is read of the state is the same in related states. -/
theorem respects_get_bind {next : σ → Fallible ε σ β}
    (same : ∀ state other, related state other → next state = next other)
    (rest : ∀ state, Respects related (next state)) : Respects related (get >>= next) := by
  intro state other alike
  rw [get_bind, get_bind, ← same state other alike]
  exact rest state state other alike

theorem Respects.mapError {action : Fallible ε σ α} (respects : Respects related action)
    (rename : ε → ε) : Respects related (mapError rename action) := by
  intro state other alike
  rcases respects state other alike with ⟨same, alike'⟩
  rw [Fallible.mapError, Fallible.mapError]
  generalize action state = ended at same alike' ⊢
  generalize action other = ended' at same alike' ⊢
  rcases ended with ⟨result, between⟩
  rcases ended' with ⟨result', between'⟩
  obtain rfl : result = result' := same
  rcases result with failure | value
  · exact ⟨rfl, alike'⟩
  · exact ⟨rfl, alike'⟩

end Respects

section Yields

variable {Holds : α → Prop}

/-- Every value that a computation returns satisfies `Holds`. -/
def Yields (action : Fallible ε σ α) (Holds : α → Prop) : Prop :=
  ∀ state value state', action state = (.ok value, state') → Holds value

theorem yields_pure {value : α} (holds : Holds value) :
    Yields (pure value : Fallible ε σ α) Holds := by
  intro state found state' run
  rw [← Except.ok.inj (Prod.mk.inj run).1]
  exact holds

theorem yields_ofExcept {result : Except ε α} (step : ∀ value, result = .ok value → Holds value) :
    Yields (ofExcept result : Fallible ε σ α) Holds := by
  intro state value state' run
  exact step value (Prod.mk.inj run).1

theorem Yields.bind {action : Fallible ε σ α} {next : α → Fallible ε σ β} {Final : β → Prop}
    (first : Yields action Holds) (rest : ∀ value, Holds value → Yields (next value) Final) :
    Yields (action >>= next) Final := by
  intro state value state' run
  rcases bind_eq_ok run with ⟨middle, between, run', run''⟩
  exact rest middle (first state middle between run') between value state' run''

/-- Nothing is needed of the first value. -/
theorem yields_bind {action : Fallible ε σ α} {next : α → Fallible ε σ β} {Final : β → Prop}
    (rest : ∀ value, Yields (next value) Final) : Yields (action >>= next) Final := by
  intro state value state' run
  rcases bind_eq_ok run with ⟨middle, between, -, run'⟩
  exact rest middle between value state' run'

end Yields

/-- A list that is written item by item is read back item by item. -/
theorem times_flatMap {read : Fallible ε (List τ) β} {write : α → List τ} {value : α → β}
    {items : List α}
    (step : ∀ item ∈ items, ∀ rest, read (write item ++ rest) = (.ok (value item), rest))
    (rest : List τ) :
    times items.length read (items.flatMap write ++ rest) = (.ok (items.map value), rest) := by
  induction items with
  | nil => rfl
  | cons item items ih =>
      rw [List.length_cons, times, List.flatMap_cons, List.append_assoc,
        bind_ok (step item List.mem_cons_self _),
        bind_ok (ih fun other inside => step other (List.mem_cons_of_mem _ inside))]
      rfl

end Fallible
