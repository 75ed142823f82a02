import Aesd.Transition.Core
import Mathlib.Data.List.Basic
import Mathlib.Logic.Function.Basic

/-!
# Programs of atomic actions

A program is a sequence of actions on a shared state, each of which depends on
the results of the earlier ones.  Run by itself it is a function of the state.
Run by a thread among others, it may find the state changed before each of its
actions: `Interleaved.step` is the transition of any number of threads, each of
which is called, performs the actions of its program in order, and responds.

`Served.step` is what the threads would see if each call took effect at once, at
some moment between its invocation and its response.  A run of the first that
looks like a run of the second from outside is linearizable.
-/

namespace Aesd.Atomic

open Aesd.Transition

/-! ## Programs -/

/-- A program over a shared state: it is done, or it performs an action and goes
on with the value the action returns.  An undefined action cannot be performed in
the present state. -/
inductive Program (σ ε α : Type) : Type 1
  | done (result : α) : Program σ ε α
  | act {β : Type} (action : σ → Except ε (β × σ)) (next : β → Program σ ε α) : Program σ ε α

namespace Program

variable {σ ε α β γ : Type}

/-- Go on with another program. -/
def andThen (program : Program σ ε α) (rest : α → Program σ ε β) : Program σ ε β :=
  match program with
  | .done result => rest result
  | .act action next => .act action fun value => (next value).andThen rest

instance instMonad : Monad (Program σ ε) where
  pure := .done
  bind := .andThen

/-- The program of a single action. -/
def perform (action : σ → Except ε (α × σ)) : Program σ ε α :=
  .act action .done

/-- An action that only looks at the state. -/
def observe (query : σ → Except ε α) : Program σ ε α :=
  perform fun state => (query state).map fun value => (value, state)

/-- An action that returns nothing. -/
def modify (update : σ → Except ε σ) : Program σ ε Unit :=
  perform fun state => (update state).map fun state => ((), state)

/-- The program from its first action to its last, with nothing in between. -/
def alone : Program σ ε α → σ → Except ε (α × σ)
  | .done result, state => .ok (result, state)
  | .act action next, state =>
      match action state with
      | .error stop => .error stop
      | .ok (value, state) => (next value).alone state

@[simp]
theorem alone_pure (result : α) (state : σ) :
    (pure result : Program σ ε α).alone state = .ok (result, state) :=
  rfl

@[simp]
theorem alone_perform (action : σ → Except ε (α × σ)) (state : σ) :
    (perform action).alone state = action state := by
  simp only [perform, alone]
  cases action state <;> rfl

@[simp]
theorem alone_observe (query : σ → Except ε α) (state : σ) :
    (observe query).alone state = (query state).map fun value => (value, state) :=
  alone_perform _ _

@[simp]
theorem alone_modify (update : σ → Except ε σ) (state : σ) :
    (modify update).alone state = (update state).map fun state => ((), state) :=
  alone_perform _ _

theorem alone_andThen (program : Program σ ε α) (rest : α → Program σ ε β) (state : σ) :
    (program.andThen rest).alone state =
      program.alone state >>= fun outcome => (rest outcome.1).alone outcome.2 := by
  induction program generalizing state with
  | done result => rfl
  | act action next ih =>
      simp only [andThen, alone]
      cases action state with
      | error stop => rfl
      | ok outcome => exact ih outcome.1 outcome.2

/-- One program after the other. -/
@[simp]
theorem alone_bind (program : Program σ ε α) (rest : α → Program σ ε β) (state : σ) :
    (program >>= rest).alone state =
      program.alone state >>= fun outcome => (rest outcome.1).alone outcome.2 :=
  alone_andThen program rest state

/-- A look at the state, and the rest of the program. -/
theorem alone_observe_bind (query : σ → Except ε α) (rest : α → Program σ ε β) (state : σ) :
    (observe query >>= rest).alone state =
      query state >>= fun value => (rest value).alone state := by
  rw [alone_bind, alone_observe]
  cases query state <;> rfl

/-- A change of the state, and the rest of the program. -/
theorem alone_modify_bind (update : σ → Except ε σ) (rest : Unit → Program σ ε β) (state : σ) :
    (modify update >>= rest).alone state =
      update state >>= fun state => (rest ()).alone state := by
  rw [alone_bind, alone_modify]
  cases update state <;> rfl

/-- The first action of a program that runs to its end. -/
theorem alone_act_eq_ok_iff {action : σ → Except ε (β × σ)} {next : β → Program σ ε α} {state : σ}
    {outcome : α × σ} :
    (Program.act action next).alone state = .ok outcome ↔
      ∃ value state', action state = .ok (value, state') ∧
        (next value).alone state' = .ok outcome := by
  simp only [alone]
  cases action state with
  | error stop => simp
  | ok performed =>
      obtain ⟨value, state'⟩ := performed
      simp

end Program

/-! ## Threads -/

/-- What happens to a thread: it is called, performs its next action, or responds
to its caller. -/
inductive Event (ι χ ρ : Type)
  | invoke (thread : ι) (call : χ)
  | advance (thread : ι)
  | respond (thread : ι) (reply : ρ)

/-- The caller sees invocations and responses. -/
def Event.visible {ι χ ρ : Type} : Event ι χ ρ → Bool
  | .invoke .. => true
  | .advance _ => false
  | .respond .. => true

/-- The shared state, and what is left of the program of each thread that has been
called. -/
structure Interleaved (ι σ ε ρ : Type) : Type 1 where
  shared : σ
  thread : ι → Option (Program σ ε ρ)

/-- What a thread has been called for, or its reply. -/
inductive Stage (χ ρ : Type)
  | idle
  | invoked (call : χ)
  | answered (reply : ρ)

/-- The shared state, and the stage of each thread. -/
structure Served (ι σ χ ρ : Type) where
  shared : σ
  stage : ι → Stage χ ρ

section Machines

variable {ι σ ε χ ρ : Type} [DecidableEq ι] [DecidableEq ρ]

namespace Interleaved

/-- No thread has been called. -/
def start (shared : σ) : Interleaved ι σ ε ρ where
  shared := shared
  thread _ := none

/-- Replace the program of one thread. -/
def withThread (state : Interleaved ι σ ε ρ) (thread : ι) (program : Option (Program σ ε ρ)) :
    Interleaved ι σ ε ρ where
  shared := state.shared
  thread := Function.update state.thread thread program

/-- One event.  A thread whose next action is undefined waits. -/
def step (program : χ → Program σ ε ρ) : Step (Event ι χ ρ) (Interleaved ι σ ε ρ) :=
  fun event state =>
    match event with
    | .invoke thread call =>
        match state.thread thread with
        | none => some (state.withThread thread (some (program call)))
        | some _ => none
    | .advance thread =>
        match state.thread thread with
        | some (.act action next) =>
            match action state.shared with
            | .error _ => none
            | .ok (value, shared) =>
                some ({ state with shared := shared }.withThread thread (some (next value)))
        | _ => none
    | .respond thread reply =>
        match state.thread thread with
        | some (.done result) =>
            if result = reply then some (state.withThread thread none) else none
        | _ => none

/-- The steps, one by one. -/
inductive Moves (program : χ → Program σ ε ρ) (state : Interleaved ι σ ε ρ) :
    Event ι χ ρ → Interleaved ι σ ε ρ → Prop
  | invoke (thread : ι) (call : χ) : state.thread thread = none →
      Moves program state (.invoke thread call) (state.withThread thread (some (program call)))
  | advance (thread : ι) {β : Type} {action : σ → Except ε (β × σ)} {next : β → Program σ ε ρ}
      {value : β} {shared : σ} : state.thread thread = some (.act action next) →
      action state.shared = .ok (value, shared) →
      Moves program state (.advance thread)
        ({ state with shared := shared }.withThread thread (some (next value)))
  | respond (thread : ι) (reply : ρ) : state.thread thread = some (.done reply) →
      Moves program state (.respond thread reply) (state.withThread thread none)

/-- There are no other steps. -/
theorem moves_of_step {program : χ → Program σ ε ρ} {state target : Interleaved ι σ ε ρ}
    {event : Event ι χ ρ} (stepped : step program event state = some target) :
    Moves program state event target := by
  cases event with
  | invoke thread call =>
      simp only [step] at stepped
      split at stepped
      · next idle =>
          cases stepped
          exact .invoke thread call idle
      · contradiction
  | advance thread =>
      simp only [step] at stepped
      split at stepped
      · next action next running =>
          split at stepped
          · contradiction
          · next performed =>
              cases stepped
              exact .advance thread running performed
      · contradiction
  | respond thread reply =>
      simp only [step] at stepped
      split at stepped
      · next result running =>
          split at stepped
          · next same =>
              cases stepped
              exact .respond thread reply (same ▸ running)
          · contradiction
      · contradiction

theorem step_of_moves {program : χ → Program σ ε ρ} {state target : Interleaved ι σ ε ρ}
    {event : Event ι χ ρ} (moves : Moves program state event target) :
    step program event state = some target := by
  cases moves with
  | invoke thread call idle => simp [step, idle]
  | advance thread running performed => simp [step, running, performed]
  | respond thread reply running => simp [step, running]

end Interleaved

namespace Served

/-- No thread has been called. -/
def start (shared : σ) : Served ι σ χ ρ where
  shared := shared
  stage _ := .idle

/-- Replace the stage of one thread. -/
def withStage (state : Served ι σ χ ρ) (thread : ι) (stage : Stage χ ρ) : Served ι σ χ ρ where
  shared := state.shared
  stage := Function.update state.stage thread stage

/-- One event.  The whole call takes effect when its thread advances. -/
def step (serve : χ → σ → Except ε (ρ × σ)) : Step (Event ι χ ρ) (Served ι σ χ ρ) :=
  fun event state =>
    match event with
    | .invoke thread call =>
        match state.stage thread with
        | .idle => some (state.withStage thread (.invoked call))
        | _ => none
    | .advance thread =>
        match state.stage thread with
        | .invoked call =>
            match serve call state.shared with
            | .error _ => none
            | .ok (reply, shared) =>
                some ({ state with shared := shared }.withStage thread (.answered reply))
        | _ => none
    | .respond thread reply =>
        match state.stage thread with
        | .answered result =>
            if result = reply then some (state.withStage thread .idle) else none
        | _ => none

/-- The steps, one by one. -/
inductive Moves (serve : χ → σ → Except ε (ρ × σ)) (state : Served ι σ χ ρ) :
    Event ι χ ρ → Served ι σ χ ρ → Prop
  | invoke (thread : ι) (call : χ) : state.stage thread = .idle →
      Moves serve state (.invoke thread call) (state.withStage thread (.invoked call))
  | advance (thread : ι) {call : χ} {reply : ρ} {shared : σ} :
      state.stage thread = .invoked call → serve call state.shared = .ok (reply, shared) →
      Moves serve state (.advance thread)
        ({ state with shared := shared }.withStage thread (.answered reply))
  | respond (thread : ι) (reply : ρ) : state.stage thread = .answered reply →
      Moves serve state (.respond thread reply) (state.withStage thread .idle)

/-- There are no other steps. -/
theorem moves_of_step {serve : χ → σ → Except ε (ρ × σ)} {state target : Served ι σ χ ρ}
    {event : Event ι χ ρ} (stepped : step serve event state = some target) :
    Moves serve state event target := by
  cases event with
  | invoke thread call =>
      simp only [step] at stepped
      split at stepped
      · next idle =>
          cases stepped
          exact .invoke thread call idle
      · contradiction
  | advance thread =>
      simp only [step] at stepped
      split at stepped
      · next call invoked =>
          split at stepped
          · contradiction
          · next served =>
              cases stepped
              exact .advance thread invoked served
      · contradiction
  | respond thread reply =>
      simp only [step] at stepped
      split at stepped
      · next result answered =>
          split at stepped
          · next same =>
              cases stepped
              exact .respond thread reply (same ▸ answered)
          · contradiction
      · contradiction

end Served

end Machines

end Aesd.Atomic
