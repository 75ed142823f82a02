import Aesd.Mutex.Core
import Aesd.Transition.Core
import Mathlib.Algebra.Order.BigOperators.Group.Finset

/-!
# Threads that obtain a mutex

`start_thread_obtaining_mutex` starts threads that share mutexes, in any number and
order, while the threads run and are joined.  Each thread has a block of memory of its
own, which its joiner gets back and frees.
-/

namespace Aesd.Threading

open Aesd.Mutex
open Aesd.Transition

/-! ## The program -/

/-- `struct thread_data`; mutexes are numbered. -/
structure ThreadData where
  threadCompleteSuccess : Bool
  waitToObtainMs : Int
  waitToReleaseMs : Int
  mutex : Nat
  deriving DecidableEq

/-- The `return` statements of `threadfunc`. -/
inductive Exit
  | lockFailed
  | unlockFailed
  | success
  deriving DecidableEq

/-- The program points of `threadfunc`: the next call, the assignment of the flag, or
the end. -/
inductive Point
  | usleepToObtain
  | lock
  | usleepToRelease
  | unlock
  | setComplete
  | returned (exit : Exit)
  deriving DecidableEq

/-- A thread: its argument, which it also returns, and where it is.  `fill` is what
`malloc` has left in the flag of the block. -/
structure Thread where
  threadParam : Nat
  point : Point
  fill : Bool
  deriving DecidableEq

/-- The process: the blocks of `thread_data`, the address of the next one, the owner of
each mutex, the threads that have been started and not joined, and how many have been
started. -/
structure Process where
  data : Nat → Option ThreadData
  next : Nat
  mutexes : Nat → Option Nat
  threads : Nat → Option Thread
  started : Nat

namespace Process

/-- Nothing has been started. -/
def initial : Process :=
  ⟨fun _ => none, 0, fun _ => none, fun _ => none, 0⟩

/-- The block at an address becomes `block`, or is freed. -/
def withData (process : Process) (address : Nat) (block : Option ThreadData) : Process :=
  { process with data := Function.update process.data address block }

/-- A thread goes on, or is joined. -/
def withThread (process : Process) (thread : Nat) (running : Option Thread) : Process :=
  { process with threads := Function.update process.threads thread running }

/-- A mutex changes its owner. -/
def withMutex (process : Process) (mutex : Nat) (owner : Option Nat) : Process :=
  { process with mutexes := Function.update process.mutexes mutex owner }

/-- What is decided outside while a thread is started: what `malloc` leaves in the flag,
if there is memory, and the result of `pthread_create`. -/
structure StartOutcomes where
  malloc : Option Bool
  create : Int

/-- `start_thread_obtaining_mutex` -/
def startThreadObtainingMutex (mutex : Nat) (waitToObtainMs waitToReleaseMs : Int)
    (outcomes : StartOutcomes) (process : Process) : Bool × Process :=
  match outcomes.malloc with
  | none => (false, process)
  | some fill =>
      let newData := process.next
      let process := { process with next := newData + 1 }.withData newData
        (some ⟨fill, waitToObtainMs, waitToReleaseMs, mutex⟩)
      if outcomes.create ≠ 0 then
        (false, process.withData newData none)
      else
        (true, { process with started := process.started + 1 }.withThread process.started
          (some ⟨newData, .usleepToObtain, fill⟩))

/-- The next step of `threadfunc`; `rc` is what a mutex call returns.  There is no step
while the mutex is owned, nor if the block of the thread is not live. -/
def threadfunc (thread : Nat) (running : Thread) (rc : Int) (process : Process) :
    Option Process :=
  match process.data running.threadParam with
  | none => none
  | some data =>
      let goOn (process : Process) (point : Point) : Process :=
        process.withThread thread (some { running with point := point })
      match running.point with
      | .usleepToObtain => some (goOn process .lock)
      | .lock =>
          match lock (process.mutexes data.mutex) thread (decide (rc = 0)) with
          | none => none
          | some (true, owner) => some (goOn (process.withMutex data.mutex owner) .usleepToRelease)
          | some (false, _) => some (goOn process (.returned .lockFailed))
      | .usleepToRelease => some (goOn process .unlock)
      | .unlock =>
          let owner := unlock (process.mutexes data.mutex) (decide (rc = 0))
          some (goOn (process.withMutex data.mutex owner)
            (if rc = 0 then .setComplete else .returned .unlockFailed))
      | .setComplete =>
          some (goOn (process.withData running.threadParam
            (some { data with threadCompleteSuccess := true })) (.returned .success))
      | .returned _ => none

/-- A thread that has returned is joined: the joiner reads the flag and frees the block. -/
def join (thread : Nat) (process : Process) : Option (Bool × Process) :=
  match process.threads thread with
  | some ⟨threadParam, .returned _, _⟩ =>
      match process.data threadParam with
      | none => none
      | some data =>
          some (data.threadCompleteSuccess,
            (process.withThread thread none).withData threadParam none)
  | _ => none

end Process

/-- What happens in the process. -/
inductive Event
  | start (mutex : Nat) (waitToObtainMs waitToReleaseMs : Int)
      (outcomes : Process.StartOutcomes)
  | run (thread : Nat) (rc : Int)
  | join (thread : Nat)

/-- One event, if it is possible. -/
def Process.step : Step Event Process := fun event process =>
  match event with
  | .start mutex waitToObtainMs waitToReleaseMs outcomes =>
      some (process.startThreadObtainingMutex mutex waitToObtainMs waitToReleaseMs outcomes).2
  | .run thread rc =>
      match process.threads thread with
      | none => none
      | some running => process.threadfunc thread running rc
  | .join thread => (process.join thread).map Prod.snd

/-! ## Steps of a thread -/

/-- Between the calls that lock and unlock. -/
def Point.isInside : Point → Bool
  | .usleepToRelease | .unlock => true
  | .usleepToObtain | .lock | .setComplete | .returned _ => false

/-- What a step of a thread does to its point, its block and the owner of its mutex. -/
inductive Goes (thread : Nat) (rc : Int) :
    Point → ThreadData → Option Nat → Point → ThreadData → Option Nat → Prop
  | usleepToObtain {data : ThreadData} {owner : Option Nat} :
      Goes thread rc .usleepToObtain data owner .lock data owner
  | lock {data : ThreadData} : rc = 0 →
      Goes thread rc .lock data none .usleepToRelease data (some thread)
  | lockFails {data : ThreadData} {owner : Option Nat} : rc ≠ 0 →
      Goes thread rc .lock data owner (.returned .lockFailed) data owner
  | usleepToRelease {data : ThreadData} {owner : Option Nat} :
      Goes thread rc .usleepToRelease data owner .unlock data owner
  | unlock {data : ThreadData} {owner : Option Nat} : rc = 0 →
      Goes thread rc .unlock data owner .setComplete data none
  | unlockFails {data : ThreadData} {owner : Option Nat} : rc ≠ 0 →
      Goes thread rc .unlock data owner (.returned .unlockFailed) data owner
  | setComplete {data : ThreadData} {owner : Option Nat} :
      Goes thread rc .setComplete data owner (.returned .success)
        { data with threadCompleteSuccess := true } owner

namespace Goes

variable {thread : Nat} {rc : Int} {point point' : Point} {data data' : ThreadData}
  {owner owner' : Option Nat}

theorem mutex_eq (goes : Goes thread rc point data owner point' data' owner') :
    data'.mutex = data.mutex := by
  cases goes <;> rfl

/-- The flag changes at the end only. -/
theorem flag_eq (goes : Goes thread rc point data owner point' data' owner') {fill : Bool}
    (flag : data.threadCompleteSuccess = (fill || decide (point = .returned .success))) :
    data'.threadCompleteSuccess = (fill || decide (point' = .returned .success)) := by
  cases goes with
  | setComplete => simp
  | usleepToObtain => simpa using flag
  | lock _ => simpa using flag
  | lockFails _ => simpa using flag
  | usleepToRelease => simpa using flag
  | unlock _ => simpa using flag
  | unlockFails _ => simpa using flag

theorem move (goes : Goes thread rc point data owner point' data' owner') :
    Move thread (point.isInside = true) (point'.isInside = true) owner owner' := by
  cases goes with
  | usleepToObtain => exact Move.stay fun after => by contradiction
  | lock _ => exact Move.acquire
  | lockFails _ => exact Move.stay fun after => by contradiction
  | usleepToRelease => exact Move.stay fun _ => rfl
  | unlock _ => exact Move.release rfl (by simp [Point.isInside])
  | unlockFails _ => exact Move.stay fun after => by contradiction
  | setComplete => exact Move.stay fun after => by contradiction

/-- As long as no mutex call fails, the owner is the thread inside. -/
theorem exactMove (goes : Goes thread rc point data owner point' data' owner') (ok : rc = 0) :
    ExactMove thread (point.isInside = true) (point'.isInside = true) owner owner' := by
  cases goes with
  | usleepToObtain => exact ExactMove.stay (by simp [Point.isInside])
  | lock _ => exact ExactMove.acquire rfl
  | lockFails fails => exact absurd ok fails
  | usleepToRelease => exact ExactMove.stay (by simp [Point.isInside])
  | unlock _ => exact ExactMove.release rfl (by simp [Point.isInside])
  | unlockFails fails => exact absurd ok fails
  | setComplete => exact ExactMove.stay (by simp [Point.isInside])

/-- A thread that has not returned goes on, or waits for a mutex that is owned. -/
theorem exists_or_waits (thread : Nat) (rc : Int) (data : ThreadData) (owner : Option Nat)
    (notReturned : ∀ exit, point ≠ .returned exit) :
    (∃ point' data' owner', Goes thread rc point data owner point' data' owner') ∨
      point = .lock ∧ ∃ other, owner = some other := by
  cases point with
  | usleepToObtain => exact Or.inl ⟨_, _, _, .usleepToObtain⟩
  | usleepToRelease => exact Or.inl ⟨_, _, _, .usleepToRelease⟩
  | setComplete => exact Or.inl ⟨_, _, _, .setComplete⟩
  | returned exit => exact absurd rfl (notReturned exit)
  | unlock =>
      by_cases ok : rc = 0
      · exact Or.inl ⟨_, _, _, .unlock ok⟩
      · exact Or.inl ⟨_, _, _, .unlockFails ok⟩
  | lock =>
      cases owner with
      | some other => exact Or.inr ⟨rfl, other, rfl⟩
      | none =>
          by_cases ok : rc = 0
          · exact Or.inl ⟨_, _, _, .lock ok⟩
          · exact Or.inl ⟨_, _, _, .lockFails ok⟩

end Goes

namespace Process

/-- The process after a step of a thread. -/
def afterStep (process : Process) (thread : Nat) (running : Thread) (mutex : Nat)
    (point' : Point) (data' : ThreadData) (owner' : Option Nat) : Process :=
  ((process.withData running.threadParam (some data')).withMutex mutex owner').withThread thread
    (some { running with point := point' })

theorem withData_self {process : Process} {address : Nat} {block : Option ThreadData}
    (same : process.data address = block) : process.withData address block = process := by
  rw [withData, ← same, Function.update_eq_self]

theorem withMutex_self (process : Process) (mutex : Nat) :
    process.withMutex mutex (process.mutexes mutex) = process := by
  rw [withMutex, Function.update_eq_self]

/-- A step of `threadfunc` reads the block and goes on. -/
theorem threadfunc_eq_some_iff {thread : Nat} {running : Thread} {rc : Int}
    {process process' : Process} :
    process.threadfunc thread running rc = some process' ↔
      ∃ data point' data' owner', process.data running.threadParam = some data ∧
        Goes thread rc running.point data (process.mutexes data.mutex) point' data' owner' ∧
        process' = process.afterStep thread running data.mutex point' data' owner' := by
  obtain ⟨threadParam, point, fill⟩ := running
  unfold threadfunc
  cases live : process.data threadParam with
  | none => simp
  | some data =>
      have sameData := withData_self live
      have sameMutex := process.withMutex_self data.mutex
      have sameMutex' (block : Option ThreadData) :=
        (process.withData threadParam block).withMutex_self data.mutex
      change ∀ block, (process.withData threadParam block).withMutex data.mutex
        (process.mutexes data.mutex) = process.withData threadParam block at sameMutex'
      simp only [Option.some.injEq, exists_and_left, exists_eq_left']
      cases point with
      | usleepToObtain =>
          constructor
          · rintro ⟨rfl⟩
            exact ⟨_, _, _, .usleepToObtain, by rw [afterStep, sameData, sameMutex]⟩
          · rintro ⟨_, _, _, goes, rfl⟩
            cases goes
            rw [afterStep, sameData, sameMutex]
      | usleepToRelease =>
          constructor
          · rintro ⟨rfl⟩
            exact ⟨_, _, _, .usleepToRelease, by rw [afterStep, sameData, sameMutex]⟩
          · rintro ⟨_, _, _, goes, rfl⟩
            cases goes
            rw [afterStep, sameData, sameMutex]
      | setComplete =>
          constructor
          · rintro ⟨rfl⟩
            exact ⟨_, _, _, .setComplete, by rw [afterStep, sameMutex']⟩
          · rintro ⟨_, _, _, goes, rfl⟩
            cases goes
            rw [afterStep, sameMutex']
      | returned exit =>
          constructor
          · intro stepped
            contradiction
          · rintro ⟨_, _, _, goes, _⟩
            cases goes
      | unlock =>
          by_cases ok : rc = 0
          · simp only [ok, decide_true, unlock, if_true, Option.some.injEq]
            constructor
            · rintro rfl
              exact ⟨_, _, _, .unlock rfl, by rw [afterStep, sameData]⟩
            · rintro ⟨_, _, _, goes, rfl⟩
              cases goes with
              | unlock _ => rw [afterStep, sameData]
              | unlockFails fails => exact absurd rfl fails
          · simp only [ok, decide_false, unlock, Bool.false_eq_true, if_false, Option.some.injEq,
              sameMutex]
            constructor
            · rintro rfl
              exact ⟨_, _, _, .unlockFails ok, by rw [afterStep, sameData, sameMutex]⟩
            · rintro ⟨_, _, _, goes, rfl⟩
              cases goes with
              | unlock isZero => exact absurd isZero ok
              | unlockFails _ => rw [afterStep, sameData, sameMutex]
      | lock =>
          by_cases ok : rc = 0
          · cases owner : process.mutexes data.mutex with
            | some other =>
                simp only [ok, decide_true, lock]
                constructor
                · intro stepped
                  cases stepped
                · rintro ⟨_, _, _, goes, _⟩
                  cases goes with
                  | lockFails fails => exact absurd rfl fails
            | none =>
                simp only [ok, decide_true, lock]
                constructor
                · rintro ⟨rfl⟩
                  exact ⟨_, _, _, .lock rfl, by rw [afterStep, sameData]⟩
                · rintro ⟨_, _, _, goes, rfl⟩
                  cases goes with
                  | lock _ => rw [afterStep, sameData]; rfl
                  | lockFails fails => exact absurd rfl fails
          · simp only [ok, decide_false, lock, if_true]
            constructor
            · rintro ⟨rfl⟩
              exact ⟨_, _, _, .lockFails ok, by rw [afterStep, sameData, sameMutex]⟩
            · rintro ⟨_, _, _, goes, rfl⟩
              generalize process.mutexes data.mutex = owner at goes sameMutex
              cases goes with
              | lock isZero => exact absurd isZero ok
              | lockFails _ => rw [afterStep, sameData, sameMutex]

/-! ## What holds between events -/

/-- The thread has locked the mutex and not called `pthread_mutex_unlock` yet. -/
def Inside (process : Process) (mutex thread : Nat) : Prop :=
  ∃ running data, process.threads thread = some running ∧
    process.data running.threadParam = some data ∧ data.mutex = mutex ∧
    running.point.isInside = true

structure Sound (process : Process) : Prop where
  fresh : ∀ address, process.next ≤ address → process.data address = none
  unstarted : ∀ thread, process.started ≤ thread → process.threads thread = none
  /-- Every thread has its block, whose flag is what `malloc` has left until the end. -/
  owns : ∀ thread running, process.threads thread = some running →
    ∃ data, process.data running.threadParam = some data ∧
      data.threadCompleteSuccess =
        (running.fill || decide (running.point = .returned .success))
  apart : ∀ first second running running', process.threads first = some running →
    process.threads second = some running' → running.threadParam = running'.threadParam →
    first = second
  /-- Every block has its thread. -/
  owned : ∀ address data, process.data address = some data →
    ∃ thread running, process.threads thread = some running ∧ running.threadParam = address
  guarded : ∀ mutex, Guarded (process.mutexes mutex) (process.Inside mutex)

theorem sound_initial : initial.Sound where
  fresh _ _ := rfl
  unstarted _ _ := rfl
  owns _ _ running := by cases running
  apart _ _ _ _ running := by cases running
  owned _ _ live := by cases live
  guarded mutex thread inside := by
    obtain ⟨_, _, running, _⟩ := inside
    cases running

section AfterStep

variable (process : Process) (thread : Nat) (running : Thread) (mutex : Nat) (point' : Point)
  (data' : ThreadData) (owner' : Option Nat)

@[simp]
theorem afterStep_threads_self :
    (process.afterStep thread running mutex point' data' owner').threads thread =
      some { running with point := point' } :=
  Function.update_self _ _ _

@[simp]
theorem afterStep_data_self :
    (process.afterStep thread running mutex point' data' owner').data running.threadParam =
      some data' :=
  Function.update_self _ _ _

@[simp]
theorem afterStep_mutexes_self :
    (process.afterStep thread running mutex point' data' owner').mutexes mutex = owner' :=
  Function.update_self _ _ _

variable {thread running mutex}

theorem afterStep_threads_of_ne {other : Nat} (differs : other ≠ thread) :
    (process.afterStep thread running mutex point' data' owner').threads other =
      process.threads other :=
  Function.update_of_ne differs _ _

theorem afterStep_data_of_ne {address : Nat} (differs : address ≠ running.threadParam) :
    (process.afterStep thread running mutex point' data' owner').data address =
      process.data address :=
  Function.update_of_ne differs _ _

theorem afterStep_mutexes_of_ne {other : Nat} (differs : other ≠ mutex) :
    (process.afterStep thread running mutex point' data' owner').mutexes other =
      process.mutexes other :=
  Function.update_of_ne differs _ _

end AfterStep

section Run

variable {process : Process} {thread : Nat} {running : Thread} {rc : Int} {data data' : ThreadData}
  {point' : Point} {owner' : Option Nat}

theorem inside_iff (isRunning : process.threads thread = some running)
    (live : process.data running.threadParam = some data) (mutex : Nat) :
    process.Inside mutex thread ↔ data.mutex = mutex ∧ running.point.isInside = true := by
  constructor
  · rintro ⟨_, _, isRunning', live', same, inside⟩
    rw [isRunning] at isRunning'
    cases isRunning'
    rw [live] at live'
    cases live'
    exact ⟨same, inside⟩
  · rintro ⟨same, inside⟩
    exact ⟨running, data, isRunning, live, same, inside⟩

theorem inside_afterStep_self (mutex changed : Nat) :
    (process.afterStep thread running changed point' data' owner').Inside mutex thread ↔
      data'.mutex = mutex ∧ point'.isInside = true :=
  inside_iff (afterStep_threads_self ..) (afterStep_data_self ..) mutex

/-- The block of another thread is another one. -/
theorem Sound.param_ne (sound : process.Sound) (isRunning : process.threads thread = some running)
    {other : Nat} {otherRunning : Thread} (otherIs : process.threads other = some otherRunning)
    (differs : other ≠ thread) : otherRunning.threadParam ≠ running.threadParam :=
  fun same => differs (sound.apart _ _ _ _ otherIs isRunning same)

/-- A step does not move the other threads in or out. -/
theorem Sound.inside_afterStep_of_ne (sound : process.Sound)
    (isRunning : process.threads thread = some running) {other : Nat} (differs : other ≠ thread)
    (mutex changed : Nat) :
    (process.afterStep thread running changed point' data' owner').Inside mutex other ↔
      process.Inside mutex other := by
  unfold Inside
  simp only [afterStep_threads_of_ne _ _ _ _ differs]
  refine exists_congr fun otherRunning => exists_congr fun otherData => and_congr_right ?_
  intro otherIs
  rw [afterStep_data_of_ne _ _ _ _ (sound.param_ne isRunning otherIs differs)]

/-- A thread of the process after a step was there before, with the same block. -/
theorem exists_before (isRunning : process.threads thread = some running) {mutex other : Nat}
    {otherRunning : Thread}
    (otherIs : (process.afterStep thread running mutex point' data' owner').threads other =
      some otherRunning) :
    ∃ before, process.threads other = some before ∧
      before.threadParam = otherRunning.threadParam := by
  by_cases same : other = thread
  · subst other
    rw [afterStep_threads_self, Option.some.injEq] at otherIs
    subst otherRunning
    exact ⟨running, isRunning, rfl⟩
  · rw [afterStep_threads_of_ne _ _ _ _ same] at otherIs
    exact ⟨otherRunning, otherIs, rfl⟩

/-- A step of a thread. -/
theorem Sound.afterStep (sound : process.Sound) (isRunning : process.threads thread = some running)
    (live : process.data running.threadParam = some data)
    (goes : Goes thread rc running.point data (process.mutexes data.mutex) point' data' owner') :
    (process.afterStep thread running data.mutex point' data' owner').Sound where
  fresh := by
    intro address above
    have isFresh := sound.fresh address above
    have differs : address ≠ running.threadParam := by
      rintro rfl
      rw [live] at isFresh
      contradiction
    rw [afterStep_data_of_ne _ _ _ _ differs, isFresh]
  unstarted := by
    intro other above
    have isFree := sound.unstarted other above
    have differs : other ≠ thread := by
      rintro rfl
      rw [isRunning] at isFree
      contradiction
    rw [afterStep_threads_of_ne _ _ _ _ differs, isFree]
  owns := by
    intro other otherRunning otherIs
    by_cases same : other = thread
    · subst other
      rw [afterStep_threads_self, Option.some.injEq] at otherIs
      subst otherRunning
      obtain ⟨_, live', flag⟩ := sound.owns thread running isRunning
      rw [live] at live'
      cases live'
      exact ⟨data', afterStep_data_self .., goes.flag_eq flag⟩
    · rw [afterStep_threads_of_ne _ _ _ _ same] at otherIs
      obtain ⟨otherData, otherLive, flag⟩ := sound.owns other otherRunning otherIs
      refine ⟨otherData, ?_, flag⟩
      rw [afterStep_data_of_ne _ _ _ _ (sound.param_ne isRunning otherIs same), otherLive]
  apart := by
    intro first second firstRunning secondRunning isFirst isSecond sameParam
    obtain ⟨_, wasFirst, firstEq⟩ := exists_before isRunning isFirst
    obtain ⟨_, wasSecond, secondEq⟩ := exists_before isRunning isSecond
    exact sound.apart _ _ _ _ wasFirst wasSecond (firstEq.trans (sameParam.trans secondEq.symm))
  owned := by
    intro address block isLive
    obtain ⟨before, wasLive⟩ : ∃ before, process.data address = some before := by
      by_cases same : address = running.threadParam
      · exact ⟨data, by rw [same, live]⟩
      · exact ⟨block, by rw [← isLive, afterStep_data_of_ne _ _ _ _ same]⟩
    obtain ⟨owner, ownerRunning, isOwner, param⟩ := sound.owned address before wasLive
    by_cases same : owner = thread
    · subst owner
      rw [isRunning] at isOwner
      cases isOwner
      exact ⟨thread, _, afterStep_threads_self .., param⟩
    · exact ⟨owner, ownerRunning, by rw [afterStep_threads_of_ne _ _ _ _ same, isOwner], param⟩
  guarded := by
    intro mutex
    by_cases changed : mutex = data.mutex
    · subst mutex
      rw [afterStep_mutexes_self]
      refine (sound.guarded data.mutex).move thread ?_ fun other differs =>
        (sound.inside_afterStep_of_ne isRunning differs _ _).mp
      rw [inside_iff isRunning live, inside_afterStep_self, goes.mutex_eq]
      simpa using goes.move
    · rw [afterStep_mutexes_of_ne _ _ _ _ changed]
      intro other inside
      by_cases same : other = thread
      · subst other
        rw [inside_afterStep_self, goes.mutex_eq] at inside
        exact absurd inside.1.symm changed
      · exact sound.guarded mutex other
          ((sound.inside_afterStep_of_ne isRunning same _ _).mp inside)

/-- The process in which a thread with a new block has been started. -/
def withStarted (process : Process) (data : ThreadData) : Process where
  data := Function.update process.data process.next (some data)
  next := process.next + 1
  mutexes := process.mutexes
  threads := Function.update process.threads process.started
    (some ⟨process.next, .usleepToObtain, data.threadCompleteSuccess⟩)
  started := process.started + 1

/-- A start succeeds, or leaves at most an address unused. -/
theorem start_cases (mutex : Nat) (waitToObtainMs waitToReleaseMs : Int)
    (outcomes : StartOutcomes) (isFresh : process.data process.next = none) :
    (∃ next, process.next ≤ next ∧
      process.startThreadObtainingMutex mutex waitToObtainMs waitToReleaseMs outcomes =
        (false, { process with next := next })) ∨
      ∃ fill, process.startThreadObtainingMutex mutex waitToObtainMs waitToReleaseMs outcomes =
        (true, process.withStarted ⟨fill, waitToObtainMs, waitToReleaseMs, mutex⟩) := by
  unfold startThreadObtainingMutex
  cases outcomes.malloc with
  | none => exact Or.inl ⟨process.next, Nat.le_refl _, rfl⟩
  | some fill =>
      by_cases fails : outcomes.create ≠ 0
      · refine Or.inl ⟨process.next + 1, Nat.le_succ _, ?_⟩
        have dataEq : Function.update (Function.update process.data process.next
            (some ⟨fill, waitToObtainMs, waitToReleaseMs, mutex⟩)) process.next none =
              process.data := by
          rw [Function.update_idem, ← isFresh, Function.update_eq_self]
        simp only [if_pos fails, withData, dataEq]
      · simp only [if_neg fails]
        exact Or.inr ⟨fill, rfl⟩

/-- A thread is the new one, or was there before and has another block. -/
theorem Sound.started_cases (sound : process.Sound) {data : ThreadData}
    (isRunning : (process.withStarted data).threads thread = some running) :
    thread = process.started ∧
        running = ⟨process.next, .usleepToObtain, data.threadCompleteSuccess⟩ ∨
      process.threads thread = some running ∧ running.threadParam ≠ process.next := by
  by_cases same : thread = process.started
  · subst thread
    have isNew := (Function.update_self _ _ _).symm.trans isRunning
    exact Or.inl ⟨rfl, (Option.some.inj isNew).symm⟩
  · have wasRunning := (Function.update_of_ne same _ _).symm.trans isRunning
    obtain ⟨block, live, _⟩ := sound.owns thread running wasRunning
    refine Or.inr ⟨wasRunning, ?_⟩
    intro isNext
    rw [isNext, sound.fresh process.next (Nat.le_refl _)] at live
    contradiction

/-- Who is inside stays inside, and nobody else is. -/
theorem Sound.inside_withStarted (sound : process.Sound) {data : ThreadData} {mutex : Nat}
    (inside : (process.withStarted data).Inside mutex thread) : process.Inside mutex thread := by
  obtain ⟨running, block, isRunning, live, sameMutex, isInside⟩ := inside
  rcases sound.started_cases isRunning with ⟨_, rfl⟩ | ⟨wasRunning, differs⟩
  · simp [Point.isInside] at isInside
  · exact ⟨running, block, wasRunning, (Function.update_of_ne differs _ _).symm.trans live,
      sameMutex, isInside⟩

/-- A new thread. -/
theorem Sound.withStarted (sound : process.Sound) (data : ThreadData) :
    (process.withStarted data).Sound where
  fresh := by
    intro address above
    have differs : address ≠ process.next := Nat.ne_of_gt above
    exact (Function.update_of_ne differs _ _).trans (sound.fresh address (Nat.le_of_lt above))
  unstarted := by
    intro thread above
    have differs : thread ≠ process.started := Nat.ne_of_gt above
    exact (Function.update_of_ne differs _ _).trans (sound.unstarted thread (Nat.le_of_lt above))
  owns := by
    intro thread running isRunning
    rcases sound.started_cases isRunning with ⟨_, rfl⟩ | ⟨wasRunning, differs⟩
    · exact ⟨data, Function.update_self _ _ _, by simp⟩
    · obtain ⟨block, live, flag⟩ := sound.owns thread running wasRunning
      exact ⟨block, (Function.update_of_ne differs _ _).trans live, flag⟩
  apart := by
    intro first second running running' isFirst isSecond sameParam
    rcases sound.started_cases isFirst with ⟨rfl, rfl⟩ | ⟨wasFirst, firstNe⟩
    · rcases sound.started_cases isSecond with ⟨rfl, _⟩ | ⟨_, secondNe⟩
      · rfl
      · exact absurd sameParam.symm secondNe
    · rcases sound.started_cases isSecond with ⟨_, rfl⟩ | ⟨wasSecond, _⟩
      · exact absurd sameParam firstNe
      · exact sound.apart _ _ _ _ wasFirst wasSecond sameParam
  owned := by
    intro address block isLive
    by_cases same : address = process.next
    · subst address
      exact ⟨process.started, _, Function.update_self _ _ _, rfl⟩
    · have wasLive := (Function.update_of_ne same _ _).symm.trans isLive
      obtain ⟨thread, running, isRunning, param⟩ := sound.owned address block wasLive
      have differs : thread ≠ process.started := by
        rintro rfl
        rw [sound.unstarted process.started (Nat.le_refl _)] at isRunning
        contradiction
      exact ⟨thread, running, (Function.update_of_ne differs _ _).trans isRunning, param⟩
  guarded mutex thread inside := sound.guarded mutex thread (sound.inside_withStarted inside)

/-- The process in which a thread has been joined. -/
def withJoined (process : Process) (thread threadParam : Nat) : Process :=
  (process.withThread thread none).withData threadParam none

/-- A thread that is joined has returned. -/
theorem join_eq_some_iff {flag : Bool} {process' : Process} :
    process.join thread = some (flag, process') ↔
      ∃ threadParam exit fill data, process.threads thread =
          some ⟨threadParam, .returned exit, fill⟩ ∧
        process.data threadParam = some data ∧ data.threadCompleteSuccess = flag ∧
        process' = process.withJoined thread threadParam := by
  unfold join
  constructor
  · intro joined
    split at joined
    · next threadParam exit fill isRunning =>
        split at joined
        · contradiction
        · next data live =>
            cases joined
            exact ⟨threadParam, exit, fill, data, isRunning, live, rfl, rfl⟩
    · contradiction
  · rintro ⟨threadParam, exit, fill, data, isRunning, live, rfl, rfl⟩
    simp only [isRunning, live]
    rfl

/-- A thread that is left has another block. -/
theorem Sound.joined_cases (sound : process.Sound)
    (isRunning : process.threads thread = some running) {other : Nat} {otherRunning : Thread}
    (otherIs : (process.withJoined thread running.threadParam).threads other =
      some otherRunning) :
    other ≠ thread ∧ process.threads other = some otherRunning ∧
      otherRunning.threadParam ≠ running.threadParam := by
  have differs : other ≠ thread := by
    rintro rfl
    have gone := (Function.update_self _ _ _).symm.trans otherIs
    contradiction
  have wasRunning := (Function.update_of_ne differs _ _).symm.trans otherIs
  exact ⟨differs, wasRunning, sound.param_ne isRunning wasRunning differs⟩

/-- Who is inside was inside. -/
theorem Sound.inside_withJoined (sound : process.Sound)
    (isRunning : process.threads thread = some running) {mutex other : Nat}
    (inside : (process.withJoined thread running.threadParam).Inside mutex other) :
    process.Inside mutex other := by
  obtain ⟨otherRunning, block, otherIs, live, sameMutex, isInside⟩ := inside
  obtain ⟨_, wasRunning, differs⟩ := sound.joined_cases isRunning otherIs
  exact ⟨otherRunning, block, wasRunning, (Function.update_of_ne differs _ _).symm.trans live,
    sameMutex, isInside⟩

/-- A thread less. -/
theorem Sound.withJoined (sound : process.Sound)
    (isRunning : process.threads thread = some running) :
    (process.withJoined thread running.threadParam).Sound where
  fresh := by
    intro address above
    by_cases same : address = running.threadParam
    · subst address
      exact Function.update_self _ _ _
    · exact (Function.update_of_ne same _ _).trans (sound.fresh address above)
  unstarted := by
    intro other above
    by_cases same : other = thread
    · subst other
      exact Function.update_self _ _ _
    · exact (Function.update_of_ne same _ _).trans (sound.unstarted other above)
  owns := by
    intro other otherRunning otherIs
    obtain ⟨_, wasRunning, differs⟩ := sound.joined_cases isRunning otherIs
    obtain ⟨block, live, flag⟩ := sound.owns other otherRunning wasRunning
    exact ⟨block, (Function.update_of_ne differs _ _).trans live, flag⟩
  apart := by
    intro first second firstRunning secondRunning isFirst isSecond sameParam
    exact sound.apart _ _ _ _ (sound.joined_cases isRunning isFirst).2.1
      (sound.joined_cases isRunning isSecond).2.1 sameParam
  owned := by
    intro address block isLive
    have differs : address ≠ running.threadParam := by
      rintro rfl
      have gone := (Function.update_self _ _ _).symm.trans isLive
      contradiction
    have wasLive := (Function.update_of_ne differs _ _).symm.trans isLive
    obtain ⟨other, otherRunning, otherIs, rfl⟩ := sound.owned address block wasLive
    have notThread : other ≠ thread := by
      rintro rfl
      rw [isRunning] at otherIs
      cases otherIs
      exact differs rfl
    exact ⟨other, otherRunning, (Function.update_of_ne notThread _ _).trans otherIs, rfl⟩
  guarded mutex other inside :=
    sound.guarded mutex other (sound.inside_withJoined isRunning inside)

theorem Sound.skip (sound : process.Sound) {next : Nat} (later : process.next ≤ next) :
    Sound { process with next := next } where
  fresh address above := sound.fresh address (Nat.le_trans later above)
  unstarted := sound.unstarted
  owns := sound.owns
  apart := sound.apart
  owned := sound.owned
  guarded := sound.guarded

/-- One event. -/
theorem Sound.step (sound : process.Sound) {event : Event} {process' : Process}
    (stepped : Process.step event process = some process') : process'.Sound := by
  cases event with
  | start mutex waitToObtainMs waitToReleaseMs outcomes =>
      simp only [Process.step, Option.some.injEq] at stepped
      subst stepped
      rcases start_cases mutex waitToObtainMs waitToReleaseMs outcomes
        (sound.fresh process.next (Nat.le_refl _)) with ⟨next, later, failed⟩ | ⟨fill, started⟩
      · rw [failed]
        exact sound.skip later
      · rw [started]
        exact sound.withStarted _
  | run thread rc =>
      simp only [Process.step] at stepped
      split at stepped
      · contradiction
      · next running isRunning =>
          obtain ⟨data, _, _, _, live, goes, rfl⟩ := threadfunc_eq_some_iff.mp stepped
          exact sound.afterStep isRunning live goes
  | join thread =>
      obtain ⟨⟨flag, _⟩, joined, rfl⟩ := Option.map_eq_some_iff.mp stepped
      obtain ⟨threadParam, exit, fill, _, isRunning, _, _, rfl⟩ := join_eq_some_iff.mp joined
      exact sound.withJoined isRunning

/-- What the caller of the functions can rely on. -/
structure Accounted (process : Process) : Prop where
  /-- A thread has a block until it is joined, and no block is left without its thread. -/
  owned : ∀ address, (∃ data, process.data address = some data) ↔
    ∃ thread running, process.threads thread = some running ∧ running.threadParam = address
  apart : ∀ first second running running', process.threads first = some running →
    process.threads second = some running' → running.threadParam = running'.threadParam →
    first = second
  /-- At most one thread is between the calls that lock and unlock a mutex. -/
  exclusive : ∀ mutex first second, process.Inside mutex first → process.Inside mutex second →
    first = second
  /-- A thread goes on, or waits for a mutex that is owned. -/
  goesOn : ∀ thread running rc, process.threads thread = some running →
    (∀ exit, running.point ≠ .returned exit) →
    (∃ process', Process.step (.run thread rc) process = some process') ∨
      running.point = .lock ∧ ∃ data owner, process.data running.threadParam = some data ∧
        process.mutexes data.mutex = some owner
  /-- The joiner of a thread finds the flag set if the thread has got to its end, or if
  `malloc` has left it set. -/
  joins : ∀ thread threadParam exit fill,
    process.threads thread = some ⟨threadParam, .returned exit, fill⟩ →
    ∃ process', process.join thread = some (fill || decide (exit = .success), process')

theorem Sound.accounted (sound : process.Sound) : process.Accounted where
  owned := by
    intro address
    constructor
    · rintro ⟨data, live⟩
      exact sound.owned address data live
    · rintro ⟨thread, running, isRunning, rfl⟩
      obtain ⟨data, live, _⟩ := sound.owns thread running isRunning
      exact ⟨data, live⟩
  apart := sound.apart
  exclusive mutex first second isFirst isSecond :=
    (sound.guarded mutex).unique isSecond isFirst
  goesOn := by
    intro thread running rc isRunning notReturned
    obtain ⟨data, live, _⟩ := sound.owns thread running isRunning
    rcases Goes.exists_or_waits thread rc data (process.mutexes data.mutex) notReturned with
      ⟨point', data', owner', goes⟩ | ⟨atLock, other, isOwned⟩
    · refine Or.inl ⟨process.afterStep thread running data.mutex point' data' owner', ?_⟩
      simp only [Process.step, isRunning]
      exact threadfunc_eq_some_iff.mpr ⟨data, point', data', owner', live, goes, rfl⟩
    · exact Or.inr ⟨atLock, data, other, live, isOwned⟩
  joins := by
    intro thread threadParam exit fill isRunning
    obtain ⟨data, live, flag⟩ := sound.owns _ _ isRunning
    refine ⟨_, join_eq_some_iff.mpr ⟨threadParam, exit, fill, data, isRunning, live, ?_, rfl⟩⟩
    simpa using flag

end Run

end Process

/-- In every run, whatever fails: the blocks of memory are those of the threads that have
been started and not joined, one for each; no thread accesses another block; at most one
thread is inside the section of a mutex; a thread goes on unless it waits for a mutex
that is owned; and the joiner learns from the flag whether the thread got to its end,
unless `malloc` left the flag set, which nothing initialises. -/
theorem threads_accounted {events : List Event} {process : Process}
    (executed : exec Process.step events Process.initial = some process) : process.Accounted :=
  (Reachable.invariant Process.Sound ⟨events, executed⟩ Process.sound_initial
    fun sound stepped => sound.step stepped).accounted

/-- Two threads share a mutex; while the first one is inside, the second one fails to lock
it and is joined. -/
def secondFails : List Event :=
  [.start 7 10 20 ⟨some false, 0⟩, .start 7 30 40 ⟨some false, 0⟩, .run 0 0, .run 0 0,
    .run 1 0, .run 1 22, .join 1]

theorem threads_accounted_second : ∃ process,
    exec Process.step secondFails Process.initial = some process ∧
      process.Inside 7 0 ∧ process.Accounted := by
  have executed : exec Process.step secondFails Process.initial = some _ := rfl
  exact ⟨_, executed, ⟨_, _, rfl, rfl, rfl, rfl⟩, threads_accounted executed⟩

/-! ## No mutex call fails -/

/-- The mutex calls of the event succeed. -/
def Event.Succeeds : Event → Prop
  | .run _ rc => rc = 0
  | .start .. | .join _ => True

/-- The steps that are left of `threadfunc`. -/
def Point.remaining : Point → Nat
  | .usleepToObtain => 5
  | .lock => 4
  | .usleepToRelease => 3
  | .unlock => 2
  | .setComplete => 1
  | .returned _ => 0

theorem Goes.remaining_lt {thread : Nat} {rc : Int} {point point' : Point}
    {data data' : ThreadData} {owner owner' : Option Nat}
    (goes : Goes thread rc point data owner point' data' owner') :
    point'.remaining < point.remaining := by
  cases goes <;> decide

namespace Process

/-- As long as no mutex call has failed, the owner of a mutex is the thread inside, and
every thread that has returned has got to its end. -/
structure Healthy (process : Process) : Prop where
  sound : process.Sound
  exactly : ∀ mutex, Exact (process.mutexes mutex) (process.Inside mutex)
  ended : ∀ thread running exit, process.threads thread = some running →
    running.point = .returned exit → exit = .success

theorem healthy_initial : initial.Healthy where
  sound := sound_initial
  exactly mutex thread := by
    constructor
    · intro owner
      cases owner
    · exact sound_initial.guarded mutex thread
  ended _ _ _ running := by cases running

section Healthy

variable {process : Process} {thread : Nat} {running : Thread} {data data' : ThreadData}
  {point' : Point} {owner' : Option Nat}

/-- A step of a thread. -/
theorem Healthy.afterStep (healthy : process.Healthy)
    (isRunning : process.threads thread = some running)
    (live : process.data running.threadParam = some data)
    (goes : Goes thread 0 running.point data (process.mutexes data.mutex) point' data' owner') :
    (process.afterStep thread running data.mutex point' data' owner').Healthy where
  sound := healthy.sound.afterStep isRunning live goes
  exactly := by
    intro mutex
    have others : ∀ other, other ≠ thread →
        ((process.afterStep thread running data.mutex point' data' owner').Inside mutex other ↔
          process.Inside mutex other) :=
      fun other differs => healthy.sound.inside_afterStep_of_ne isRunning differs _ _
    refine (healthy.exactly mutex).move thread ?_ others
    rw [inside_iff isRunning live, inside_afterStep_self, goes.mutex_eq]
    by_cases changed : mutex = data.mutex
    · subst mutex
      rw [afterStep_mutexes_self]
      simpa using goes.exactMove rfl
    · rw [afterStep_mutexes_of_ne _ _ _ _ changed]
      exact ExactMove.stay (by simp [Ne.symm changed])
  ended := by
    intro other otherRunning exit otherIs atEnd
    by_cases same : other = thread
    · subst other
      rw [afterStep_threads_self, Option.some.injEq] at otherIs
      subst otherRunning
      have returns : point' = .returned exit := atEnd
      generalize running.point = point at goes
      generalize process.mutexes data.mutex = owner at goes
      cases goes with
      | lockFails fails => exact absurd rfl fails
      | unlockFails fails => exact absurd rfl fails
      | setComplete =>
          cases returns
          rfl
      | usleepToObtain => contradiction
      | lock _ => contradiction
      | usleepToRelease => contradiction
      | unlock _ => contradiction
    · rw [afterStep_threads_of_ne _ _ _ _ same] at otherIs
      exact healthy.ended other otherRunning exit otherIs atEnd

/-- A new thread. -/
theorem Healthy.withStarted (healthy : process.Healthy) (data : ThreadData) :
    (process.withStarted data).Healthy where
  sound := healthy.sound.withStarted data
  exactly := by
    intro mutex thread
    refine (healthy.exactly mutex thread).trans ⟨?_, healthy.sound.inside_withStarted⟩
    rintro ⟨running, block, isRunning, live, sameMutex, isInside⟩
    have notStarted : thread ≠ process.started := by
      rintro rfl
      rw [healthy.sound.unstarted process.started (Nat.le_refl _)] at isRunning
      contradiction
    have notNext : running.threadParam ≠ process.next := by
      intro isNext
      rw [isNext, healthy.sound.fresh process.next (Nat.le_refl _)] at live
      contradiction
    exact ⟨running, block, (Function.update_of_ne notStarted _ _).trans isRunning,
      (Function.update_of_ne notNext _ _).trans live, sameMutex, isInside⟩
  ended := by
    intro thread running exit isRunning atEnd
    rcases healthy.sound.started_cases isRunning with ⟨_, rfl⟩ | ⟨wasRunning, _⟩
    · contradiction
    · exact healthy.ended thread running exit wasRunning atEnd

/-- A thread that has returned is joined. -/
theorem Healthy.withJoined (healthy : process.Healthy)
    (isRunning : process.threads thread = some running) {exit : Exit}
    (atEnd : running.point = .returned exit) :
    (process.withJoined thread running.threadParam).Healthy where
  sound := healthy.sound.withJoined isRunning
  exactly := by
    intro mutex other
    refine (healthy.exactly mutex other).trans
      ⟨?_, healthy.sound.inside_withJoined isRunning⟩
    rintro ⟨otherRunning, block, otherIs, live, sameMutex, isInside⟩
    have differs : other ≠ thread := by
      rintro rfl
      rw [isRunning] at otherIs
      cases otherIs
      rw [atEnd] at isInside
      contradiction
    have notParam := healthy.sound.param_ne isRunning otherIs differs
    exact ⟨otherRunning, block, (Function.update_of_ne differs _ _).trans otherIs,
      (Function.update_of_ne notParam _ _).trans live, sameMutex, isInside⟩
  ended := by
    intro other otherRunning otherExit otherIs otherEnd
    exact healthy.ended other otherRunning otherExit
      (healthy.sound.joined_cases isRunning otherIs).2.1 otherEnd

/-- One event. -/
theorem Healthy.step (healthy : process.Healthy) {event : Event} (succeeds : event.Succeeds)
    {process' : Process} (stepped : Process.step event process = some process') :
    process'.Healthy := by
  cases event with
  | start mutex waitToObtainMs waitToReleaseMs outcomes =>
      simp only [Process.step, Option.some.injEq] at stepped
      subst stepped
      rcases start_cases mutex waitToObtainMs waitToReleaseMs outcomes
        (healthy.sound.fresh process.next (Nat.le_refl _)) with
        ⟨next, later, failed⟩ | ⟨fill, started⟩
      · rw [failed]
        exact ⟨healthy.sound.skip later, healthy.exactly, healthy.ended⟩
      · rw [started]
        exact healthy.withStarted _
  | run thread rc =>
      obtain rfl : rc = 0 := succeeds
      simp only [Process.step] at stepped
      split at stepped
      · contradiction
      · next running isRunning =>
          obtain ⟨data, _, _, _, live, goes, rfl⟩ := threadfunc_eq_some_iff.mp stepped
          exact healthy.afterStep isRunning live goes
  | join thread =>
      obtain ⟨⟨flag, _⟩, joined, rfl⟩ := Option.map_eq_some_iff.mp stepped
      obtain ⟨threadParam, exit, fill, _, isRunning, _, _, rfl⟩ := join_eq_some_iff.mp joined
      exact healthy.withJoined isRunning rfl

/-- The steps that are left of all threads. -/
def remaining (process : Process) : Nat :=
  ∑ thread ∈ Finset.range process.started,
    ((process.threads thread).map fun running => running.point.remaining).getD 0

/-- Unless all threads have returned, one of them can go on. -/
theorem Healthy.exists_step (healthy : process.Healthy)
    (isRunning : process.threads thread = some running)
    (notReturned : ∀ exit, running.point ≠ .returned exit) :
    ∃ able process', Process.step (.run able 0) process = some process' ∧
      process'.remaining < process.remaining := by
  have goesOn : ∀ {able running data point' data' owner'},
      process.threads able = some running → process.data running.threadParam = some data →
      Goes able 0 running.point data (process.mutexes data.mutex) point' data' owner' →
      ∃ able process', Process.step (.run able 0) process = some process' ∧
        process'.remaining < process.remaining := by
    intro able running data point' data' owner' isRunning live goes
    refine ⟨able, process.afterStep able running data.mutex point' data' owner', ?_, ?_⟩
    · simp only [Process.step, isRunning]
      exact threadfunc_eq_some_iff.mpr ⟨data, point', data', owner', live, goes, rfl⟩
    · have isStarted : able < process.started := by
        by_contra above
        rw [healthy.sound.unstarted able (Nat.not_lt.mp above)] at isRunning
        contradiction
      refine Finset.sum_lt_sum ?_ ⟨able, Finset.mem_range.mpr isStarted, ?_⟩
      · intro other _
        by_cases same : other = able
        · subst other
          simpa [isRunning] using Nat.le_of_lt goes.remaining_lt
        · rw [afterStep_threads_of_ne _ _ _ _ same]
      · simpa [isRunning] using goes.remaining_lt
  obtain ⟨data, live, _⟩ := healthy.sound.owns thread running isRunning
  rcases Goes.exists_or_waits thread 0 data (process.mutexes data.mutex) notReturned with
    ⟨point', data', owner', goes⟩ | ⟨_, other, isOwned⟩
  · exact goesOn isRunning live goes
  · -- the owner is inside, where it does not wait
    obtain ⟨otherRunning, otherData, otherIs, otherLive, _, isInside⟩ :=
      (healthy.exactly data.mutex other).mp isOwned
    have inSection : (∀ exit, otherRunning.point ≠ .returned exit) ∧
        otherRunning.point ≠ .lock := by
      cases point : otherRunning.point <;> rw [point] at isInside <;>
        first | contradiction | simp
    rcases Goes.exists_or_waits other 0 otherData (process.mutexes otherData.mutex)
      inSection.1 with ⟨point', data', owner', goes⟩ | ⟨atLock, _⟩
    · exact goesOn otherIs otherLive goes
    · exact absurd atLock inSection.2

/-- All threads get to their end. -/
theorem Healthy.finish (healthy : process.Healthy) :
    ∃ events process', exec Process.step events process = some process' ∧
      (∀ event ∈ events, ∃ thread, event = .run thread 0) ∧
      (∀ thread running, process'.threads thread = some running →
        running.point = .returned .success) ∧
      ∀ mutex, process'.mutexes mutex = none := by
  obtain ⟨events, process', run, healthy', allReturned⟩ :
      ∃ events process', Run Process.step (fun _ event => ∃ thread, event = .run thread 0)
        process events process' ∧ process'.Healthy ∧
          ∀ thread running, process'.threads thread = some running →
            ∃ exit, running.point = .returned exit := by
    refine exists_run_of_decreasing remaining (fun {process} healthy notDone => ?_) healthy
    push Not at notDone
    obtain ⟨thread, running, isRunning, notReturned⟩ := notDone
    obtain ⟨able, middle, stepped, fewer⟩ := healthy.exists_step isRunning notReturned
    exact ⟨.run able 0, middle, ⟨able, rfl⟩, stepped,
      healthy.step (show Event.Succeeds (.run able 0) from rfl) stepped, fewer⟩
  refine ⟨events, process', run.exec_eq_some, run.admits_of_mem, ?_, ?_⟩
  · intro thread running isRunning
    obtain ⟨exit, returned⟩ := allReturned thread running isRunning
    rw [returned, healthy'.ended thread running exit isRunning returned]
  · intro mutex
    rw [Option.eq_none_iff_forall_ne_some]
    intro owner isOwned
    obtain ⟨running, _, isRunning, _, _, isInside⟩ :=
      (healthy'.exactly mutex owner).mp isOwned
    obtain ⟨exit, returned⟩ := allReturned owner running isRunning
    rw [returned] at isInside
    contradiction

end Healthy

end Process

/-- As long as no mutex call fails, the threads never block each other for good: from
every state reached, all of them can be brought to their end, and then every mutex is
free. -/
theorem threads_finish {events : List Event} {process : Process}
    (run : Run Process.step (fun _ event => event.Succeeds) Process.initial events process) :
    ∃ events' process', exec Process.step events' process = some process' ∧
      (∀ event ∈ events', ∃ thread, event = .run thread 0) ∧
      (∀ thread running, process'.threads thread = some running →
        running.point = .returned .success) ∧
      ∀ mutex, process'.mutexes mutex = none := by
  refine Process.Healthy.finish (run.invariant (fun _ process => process.Healthy)
    Process.healthy_initial ?_)
  intro labels middle event target healthy succeeds stepped
  exact healthy.step succeeds stepped

/-- One thread inside, another one about to lock the same mutex. -/
def secondWaits : List Event :=
  [.start 7 10 20 ⟨some false, 0⟩, .start 7 30 40 ⟨some true, 0⟩, .run 0 0, .run 0 0, .run 1 0]

theorem threads_finish_second : ∃ process,
    exec Process.step secondWaits Process.initial = some process ∧
    ∃ events' process', exec Process.step events' process = some process' ∧
      (∀ event ∈ events', ∃ thread, event = .run thread 0) ∧
      (∀ thread running, process'.threads thread = some running →
        running.point = .returned .success) ∧
      ∀ mutex, process'.mutexes mutex = none := by
  have executed : exec Process.step secondWaits Process.initial = some _ := rfl
  refine ⟨_, executed, threads_finish (run_of_forall executed ?_)⟩
  intro event member _
  simp only [secondWaits, List.mem_cons, List.not_mem_nil, or_false] at member
  rcases member with rfl | rfl | rfl | rfl | rfl <;> trivial

end Aesd.Threading
