import Aesd.Server.Handler
import Aesd.Transition.Core

/-!
# The process

`main` with its accept loop, the handlers it creates and the signal that stops
it.  A label names the thread that takes the next step and what is decided
outside the process; every interleaving is a list of labels.
-/

namespace Aesd.Server

open Aesd.Driver
open Aesd.Mutex
open Aesd.Transition

variable {δ χ : Type}

/-- The program points of `main` from the accept loop on. -/
inductive MainPc
  | loop
  | accept
  | addNode (index : Nat)
  | lockInsert (index : Nat)
  | insert (index : Nat)
  | unlockInsert (index : Nat)
  | check (point : Check)
  | cleanup (point : Cleanup)

/-- A handler: its program point and the bytes it has passed to `send` so far. -/
structure Handler where
  pc : Pc
  sent : Bytes

/-- The state of the process.  `closed` are the handlers whose descriptor `main` has closed,
and whose block it has freed, in a failure exit. -/
structure Process (δ : Type) where
  file : DeviceFile δ
  clients : Clients
  handlers : Nat → Handler
  created : Nat
  closed : List Nat
  main : MainPc
  last : Option Nat
  keepRunning : Bool
  alive : Bool

/-- The thread of the next step, or the signal that clears `keep_running`. -/
inductive Label (χ : Type)
  | signal
  | main (ok : Bool)
  | handler (index : Nat) (outcomes : Outcomes χ)

/-- The thread that takes the step. -/
def Label.thread : Label χ → Option Thread
  | .signal => none
  | .main _ => some .main
  | .handler index _ => some (.handler index)

/-- A handler that has returned can be joined. -/
def Pc.hasReturned : Pc → Bool
  | .returned => true
  | _ => false

namespace Process

/-- The process when `main` reaches the accept loop. -/
def start (device : δ) : Process δ where
  file := ⟨none, device, []⟩
  clients := ⟨none, [], fun _ => false⟩
  handlers _ := ⟨.start, []⟩
  created := 0
  closed := []
  main := .loop
  last := none
  keepRunning := true
  alive := true

/-- Which handlers have returned. -/
def returned (process : Process δ) (index : Nat) : Bool :=
  (process.handlers index).pc.hasReturned

/-- What `main` changes in one step, with the handlers left out. -/
structure MainEffect where
  control : Control MainPc
  clients : Clients
  created : Nat
  closed : List Nat
  last : Option Nat

/-- One step of `main`.  After a failure inside the accept loop it tries again; the failure
exits behind `pthread_create` first close the descriptor and free the block that the new
thread uses.  A run ends with the `unlink` in `cleanup`: what other threads do between it and
the end of the process is left out. -/
def mainEffect (ok : Bool) (process : Process δ) : Option MainEffect :=
  let keep (control : Control MainPc) (clients : Clients) : MainEffect :=
    ⟨control, clients, process.created, process.closed, process.last⟩
  match process.main with
  | .loop =>
      if process.keepRunning then
        some (keep (.goto .accept) process.clients)
      else
        some (keep (.goto (.cleanup .start)) process.clients)
  | .accept =>
      if process.keepRunning = false then
        some (keep (.goto (.cleanup .start)) process.clients)
      else if ok then
        some { keep (.goto (.addNode process.created)) process.clients with
          created := process.created + 1 }
      else
        some (keep (.goto .loop) process.clients)
  | .addNode index =>
      if ok then
        some (keep (.goto (.lockInsert index)) process.clients)
      else
        some { keep (.goto .loop) process.clients with closed := process.closed ++ [index] }
  | .lockInsert index =>
      (process.clients.lockThen .main ok (.goto (.insert index)) (.goto .loop)).map
        fun (next, clients) =>
          { keep next clients with
            closed := if ok then process.closed else process.closed ++ [index] }
  | .insert index =>
      some (keep (.goto (.unlockInsert index)) (process.clients.insert process.last index))
  | .unlockInsert index =>
      if ok then
        some { keep (.goto (.check .lock)) (process.clients.unlock ok) with last := some index }
      else
        some (keep (.goto .loop) (process.clients.unlock ok))
  | .check point =>
      (point.step .main process.returned ok process.clients).map fun (control, clients) =>
        keep (control.embed .check (.goto .loop)) clients
  | .cleanup point =>
      (point.step .main process.returned ok process.clients).map fun (control, clients) =>
        keep (control.embed .cleanup .done) clients

/-- The handlers whose descriptor `main` closes and whose block it frees in this step.  From
then on what such a handler passes to `send` need not come to its client. -/
def abandoned (process : Process δ) : Label χ → List Nat
  | .main false =>
      match process.main with
      | .addNode index | .lockInsert index => [index]
      | _ => []
  | _ => []

/-- The steps of `main`, one by one: the point they start from and what they come
to. -/
inductive MainMove (process : Process δ) (ok : Bool) : MainPc → MainEffect → Prop
  | run : MainMove process ok .loop
      ⟨.goto .accept, process.clients, process.created, process.closed, process.last⟩
  | stop {pc : MainPc} : pc = .loop ∨ pc = .accept → MainMove process ok pc
      ⟨.goto (.cleanup .start), process.clients, process.created, process.closed, process.last⟩
  | retry : MainMove process ok .accept
      ⟨.goto .loop, process.clients, process.created, process.closed, process.last⟩
  | create : MainMove process ok .accept
      ⟨.goto (.addNode process.created), process.clients, process.created + 1, process.closed,
        process.last⟩
  | allocate (index : Nat) : ok = true → MainMove process ok (.addNode index)
      ⟨.goto (.lockInsert index), process.clients, process.created, process.closed,
        process.last⟩
  | lock (index : Nat) : ok = true → process.clients.mutex = none →
      MainMove process ok (.lockInsert index)
      ⟨.goto (.insert index), { process.clients with mutex := some .main }, process.created,
        process.closed, process.last⟩
  | abandon {pc : MainPc} (index : Nat) : ok = false →
      pc = .addNode index ∨ pc = .lockInsert index → MainMove process ok pc
        ⟨.goto .loop, process.clients, process.created, process.closed ++ [index],
          process.last⟩
  | insert (index : Nat) : MainMove process ok (.insert index)
      ⟨.goto (.unlockInsert index), process.clients.insert process.last index, process.created,
        process.closed, process.last⟩
  | unlock (index : Nat) : MainMove process ok (.unlockInsert index)
      ⟨.goto (.check .lock), process.clients.unlock ok, process.created, process.closed,
        some index⟩
  | unlockFails (index : Nat) : MainMove process ok (.unlockInsert index)
      ⟨.goto .loop, process.clients.unlock ok, process.created, process.closed, process.last⟩
  | check {point : Check} {control : Control Check} {clients : Clients} :
      point.step .main process.returned ok process.clients = some (control, clients) →
      MainMove process ok (.check point)
        ⟨control.embed .check (.goto .loop), clients, process.created, process.closed,
          process.last⟩
  | cleanup {point : Cleanup} {control : Control Cleanup} {clients : Clients} :
      point.step .main process.returned ok process.clients = some (control, clients) →
      MainMove process ok (.cleanup point)
        ⟨control.embed .cleanup .done, clients, process.created, process.closed, process.last⟩

/-- There are no other steps. -/
theorem mainMove {process : Process δ} {ok : Bool} {effect : MainEffect}
    (stepped : process.mainEffect ok = some effect) : MainMove process ok process.main effect := by
  cases pc : process.main with
  | loop =>
      simp only [mainEffect, pc] at stepped
      split at stepped <;> cases stepped
      · exact .run
      · exact .stop (Or.inl rfl)
  | accept =>
      simp only [mainEffect, pc] at stepped
      split at stepped
      · cases stepped
        exact .stop (Or.inr rfl)
      · split at stepped <;> cases stepped
        · exact .create
        · exact .retry
  | addNode index =>
      simp only [mainEffect, pc] at stepped
      split at stepped <;> rename_i obtains <;> cases stepped
      · exact .allocate index obtains
      · exact .abandon index (eq_false_of_ne_true obtains) (Or.inl rfl)
  | lockInsert index =>
      simp only [mainEffect, pc] at stepped
      obtain ⟨⟨next, clients⟩, called, rfl⟩ := Option.map_eq_some_iff.mp stepped
      rcases Clients.lockThen_cases called with ⟨rfl, free, rfl, rfl⟩ | ⟨rfl, rfl, rfl⟩
      · exact .lock index rfl free
      · exact .abandon index rfl (Or.inr rfl)
  | insert index =>
      simp only [mainEffect, pc] at stepped
      cases stepped
      exact .insert index
  | unlockInsert index =>
      simp only [mainEffect, pc] at stepped
      split at stepped <;> cases stepped
      · exact .unlock index
      · exact .unlockFails index
  | check point =>
      simp only [mainEffect, pc] at stepped
      obtain ⟨⟨control, clients⟩, checkStep, rfl⟩ := Option.map_eq_some_iff.mp stepped
      exact .check checkStep
  | cleanup point =>
      simp only [mainEffect, pc] at stepped
      obtain ⟨⟨control, clients⟩, cleanupStep, rfl⟩ := Option.map_eq_some_iff.mp stepped
      exact .cleanup cleanupStep

theorem created_le {process : Process δ} {ok : Bool} {effect : MainEffect}
    (made : process.mainEffect ok = some effect) : process.created ≤ effect.created := by
  have move := mainMove made
  generalize process.main = pc at move
  cases move <;> simp

/-- The process after a step of `main`. -/
def applyMain (process : Process δ) (effect : MainEffect) : Process δ :=
  { process with
    clients := effect.clients
    created := effect.created
    closed := effect.closed
    last := effect.last
    main := effect.control.point process.main
    alive := effect.control.goesOn }

/-- The process after a step of a handler. -/
def applyHandler (process : Process δ) (index : Nat) (effect : Effect δ) : Process δ :=
  let handler := process.handlers index
  { process with
    file := effect.file
    clients := effect.clients
    handlers := Function.update process.handlers index
      ⟨effect.control.point handler.pc, handler.sent ++ effect.sent⟩
    alive := effect.control.goesOn }

/-- One step of the process. -/
def step (device : Device δ χ) : Step (Label χ) (Process δ) := fun label process =>
  if process.alive = false then
    none
  else
    match label with
    | .signal => some { process with keepRunning := false }
    | .main ok => (process.mainEffect ok).map process.applyMain
    | .handler index outcomes =>
        if index < process.created then
          ((process.handlers index).pc.step device index process.returned outcomes process.file
            process.clients).map (process.applyHandler index)
        else
          none

/-- What a step is: the signal, or a step of `main` or of a handler that has been
created. -/
theorem step_cases {device : Device δ χ} {label : Label χ} {process target : Process δ}
    (stepped : step device label process = some target) :
    label = .signal ∧ target = { process with keepRunning := false } ∨
      (∃ ok effect, label = .main ok ∧ process.mainEffect ok = some effect ∧
        target = process.applyMain effect) ∨
      ∃ index outcomes effect, label = .handler index outcomes ∧ index < process.created ∧
        (process.handlers index).pc.step device index process.returned outcomes process.file
          process.clients = some effect ∧
        target = process.applyHandler index effect := by
  unfold step at stepped
  split at stepped
  · contradiction
  · cases label with
    | signal => exact Or.inl ⟨rfl, (Option.some.inj stepped).symm⟩
    | main ok =>
        obtain ⟨effect, made, rfl⟩ := Option.map_eq_some_iff.mp stepped
        exact Or.inr (Or.inl ⟨ok, effect, rfl, made, rfl⟩)
    | handler index outcomes =>
        simp only at stepped
        split at stepped
        · obtain ⟨effect, made, rfl⟩ := Option.map_eq_some_iff.mp stepped
          exact Or.inr (Or.inr ⟨index, outcomes, effect, rfl, ‹_›, made, rfl⟩)
        · contradiction

/-- What a step of `main` closes and frees. -/
theorem closed_of_mainEffect {process : Process δ} {ok : Bool} {effect : MainEffect}
    (made : process.mainEffect ok = some effect) :
    effect.closed = process.closed ++ process.abandoned (.main ok : Label χ) := by
  have move := mainMove made
  cases ok with
  | true =>
      generalize process.main = pc at move
      cases move with
      | abandon index fails _ => contradiction
      | _ => exact (List.append_nil _).symm
  | false =>
      simp only [abandoned]
      generalize process.main = pc at move ⊢
      cases move with
      | allocate index obtains => contradiction
      | lock index obtains free => contradiction
      | abandon index _ atExit => rcases atExit with rfl | rfl <;> rfl
      | stop atHead => rcases atHead with rfl | rfl <;> exact (List.append_nil _).symm
      | _ => exact (List.append_nil _).symm

/-- The other threads close and free no block in use. -/
theorem closed_step {device : Device δ χ} {label : Label χ} {process target : Process δ}
    (stepped : step device label process = some target) :
    target.closed = process.closed ++ process.abandoned label := by
  rcases step_cases stepped with
    ⟨rfl, rfl⟩ | ⟨ok, effect, rfl, made, rfl⟩ | ⟨index, outcomes, effect, rfl, _, made, rfl⟩
  · exact (List.append_nil _).symm
  · exact closed_of_mainEffect made
  · exact (List.append_nil _).symm

/-! ## What a step leaves alone -/

section Apply

variable (process : Process δ) (index : Nat)

@[simp]
theorem applyMain_file (effect : MainEffect) : (process.applyMain effect).file = process.file :=
  rfl

@[simp]
theorem applyMain_handlers (effect : MainEffect) :
    (process.applyMain effect).handlers = process.handlers :=
  rfl

@[simp]
theorem applyMain_clients (effect : MainEffect) :
    (process.applyMain effect).clients = effect.clients :=
  rfl

@[simp]
theorem applyMain_main (effect : MainEffect) :
    (process.applyMain effect).main = effect.control.point process.main :=
  rfl

@[simp]
theorem applyHandler_file (effect : Effect δ) :
    (process.applyHandler index effect).file = effect.file :=
  rfl

@[simp]
theorem applyHandler_clients (effect : Effect δ) :
    (process.applyHandler index effect).clients = effect.clients :=
  rfl

@[simp]
theorem applyHandler_main (effect : Effect δ) :
    (process.applyHandler index effect).main = process.main :=
  rfl

/-- The handler that takes the step. -/
@[simp]
theorem applyHandler_self (effect : Effect δ) :
    (process.applyHandler index effect).handlers index =
      ⟨effect.control.point (process.handlers index).pc,
        (process.handlers index).sent ++ effect.sent⟩ :=
  Function.update_self ..

/-- Every other handler. -/
theorem applyHandler_of_ne (effect : Effect δ) {other : Nat} (differs : other ≠ index) :
    (process.applyHandler index effect).handlers other = process.handlers other :=
  Function.update_of_ne differs ..

end Apply

section Others

variable {device : Device δ χ} {process target : Process δ} {label : Label χ}

/-- Only a step of `main` moves `main` on. -/
theorem main_of_ne (stepped : step device label process = some target)
    (differs : label.thread ≠ some .main) :
    target.main = process.main ∧ target.last = process.last := by
  rcases step_cases stepped with
    ⟨rfl, rfl⟩ | ⟨ok, effect, rfl, made, rfl⟩ | ⟨index, outcomes, effect, rfl, _, made, rfl⟩
  · exact ⟨rfl, rfl⟩
  · exact absurd rfl differs
  · exact ⟨rfl, rfl⟩

/-- Only its own steps move a handler on. -/
theorem handlers_of_ne (stepped : step device label process = some target) {index : Nat}
    (differs : label.thread ≠ some (.handler index)) :
    target.handlers index = process.handlers index := by
  rcases step_cases stepped with
    ⟨rfl, rfl⟩ | ⟨ok, effect, rfl, made, rfl⟩ | ⟨other, outcomes, effect, rfl, _, made, rfl⟩
  · rfl
  · rfl
  · apply process.applyHandler_of_ne other effect
    rintro rfl
    exact differs rfl

end Others

end Process

end Aesd.Server
