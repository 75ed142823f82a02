import Aesd.Server.Records

/-!
# When `file_mutex` is released

While nothing fails inside the sections, the owner of `file_mutex` comes to its unlock,
unless the signal has interrupted it and `print_timestamp` waits for the mutex, or the turn
is a seek, which a plain file rejects.
-/

namespace Aesd.Server

open Aesd.Driver
open Aesd.Mutex
open Aesd.Transition

/-! ## The owner -/

/-- An upper bound for the steps that are left of the section of a handler, when the file
has `size` bytes. -/
def Pc.fileStepsLeft (size : Nat) : Pc → Nat
  | .openFile bytes => 2 * (size + bytes.length) + 6
  | .flush bytes _ => 2 * (size + bytes.length) + 5
  | .seek _ => 2 * size + 4
  | .echo _ ahead fPos => 2 * (size - fPos.toNat) + ahead.length + 2
  | .unlockFile => 1
  | _ => 0

/-- The steps that are left of `print_timestamp`, when it does not wait for the mutex. -/
def PrintTimestamp.stepsLeft : PrintTimestamp → Nat
  | .format => 1
  | .openFile _ => 3
  | .flush .. => 2
  | .unlock => 1
  | .lock _ | .cleanup _ => 0

/-- Nothing fails, and `write` takes `room` bytes. -/
def taking (room : Nat) : Outcomes (Option Nat) :=
  ⟨true, [], fun _ => 0, 0, 4096, some room⟩

theorem fileServes_taking (pc : Pc) (room : Nat) : FileServes pc (taking room) :=
  ⟨fun _ => rfl, rfl, show 0 < 4096 by decide⟩

/-- A write for which there is room takes everything. -/
theorem takes_whole (bytes : Bytes) : ¬ (0 ≤ ((bytes.take bytes.length).length : Int) ∧
    ((bytes.take bytes.length).length : Int) < bytes.length) := by
  rw [List.take_length]
  omega

section Advance

variable {turns : List Turn} {file : DeviceFile Bytes} {index : Nat} {pc : Pc} {sent : Bytes}

/-- A step inside the section of a handler that unlocks the mutex or comes closer to the
unlock. -/
def Nears (file : DeviceFile Bytes) (index : Nat) (pc : Pc) (room : Nat) : Prop :=
  ∀ returned clients, ∃ effect,
    pc.step dataFile index returned (taking room) file clients = some effect ∧
      effect.control.goesOn = true ∧ effect.file.order = file.order ∧
      (effect.file.mutex = none ∨ effect.file.mutex = file.mutex ∧
        (effect.control.point pc).fileStepsLeft effect.file.device.length <
          pc.fileStepsLeft file.device.length)

theorem FilePhase.nears (phase : FilePhase turns file.device index pc sent)
    (inside : pc.inFileSection = true) (noSeek : .seek index ∉ turns) :
    ∃ room, Nears file index pc room := by
  cases pc with
  | handleIoctl point =>
      cases point with
      | «open» cmd | ioctl cmd => exact absurd phase.1 noSeek
      | read cmdBuffer fPos | unlock => exact phase.elim
      | _ => contradiction
  | openFile bytes =>
      refine ⟨0, fun returned clients => ⟨_, rfl, rfl, rfl, Or.inr ⟨rfl, ?_⟩⟩⟩
      simp [Pc.fileStepsLeft]
  | cleanup point => exact phase.elim
  | flush bytes fPos =>
      refine ⟨bytes.length, fun returned clients => ?_⟩
      simp only [Pc.step, flushStep, taking, dataFile, if_neg (takes_whole bytes)]
      exact ⟨_, rfl, rfl, rfl, Or.inr ⟨rfl, by simp [Pc.fileStepsLeft]⟩⟩
  | seek fPos =>
      refine ⟨0, fun returned clients => ⟨_, rfl, rfl, rfl, Or.inr ⟨rfl, ?_⟩⟩⟩
      simp [Pc.fileStepsLeft]
  | echo line ahead fPos =>
      obtain ⟨_, position, rfl, _⟩ := phase
      refine ⟨0, fun returned clients => ?_⟩
      cases ahead with
      | cons byte ahead =>
          simp only [Pc.step, echoStep]
          split <;> exact ⟨_, rfl, rfl, rfl, Or.inr ⟨rfl, by simp [Pc.fileStepsLeft]⟩⟩
      | nil =>
          have count : (taking 0).count = 4096 := rfl
          have length : ((file.device.drop position).take 4096).length =
              min 4096 (file.device.length - position) := by
            rw [List.length_take, List.length_drop]
          simp only [Pc.step, echoStep, dataFile, count, Int.toNat_natCast]
          split
          · refine ⟨_, rfl, rfl, rfl, Or.inr ⟨rfl, ?_⟩⟩
            simp only [Control.point_goto, Pc.fileStepsLeft, List.length_nil, ← Int.natCast_add,
              Int.toNat_natCast]
            omega
          · split <;> exact ⟨_, rfl, rfl, rfl, Or.inr ⟨rfl, by simp [Pc.fileStepsLeft]⟩⟩
  | unlockFile => exact ⟨0, fun returned clients => ⟨_, rfl, rfl, rfl, Or.inl rfl⟩⟩
  | _ => contradiction

theorem fileStepsLeft_of_outside (size : Nat) (outside : pc.inFileSection = false) :
    pc.fileStepsLeft size = 0 := by
  cases pc with
  | openFile _ | flush _ _ | seek _ | echo _ _ _ | unlockFile => contradiction
  | _ => rfl

/-- `print_timestamp` gives up before its lock, and comes to its unlock behind it. -/
theorem PrintTimestamp.nears {point : PrintTimestamp} (waits : 0 < point.stepsLeft)
    (thread : Thread) (returned : Nat → Bool) (file : DeviceFile Bytes) (clients : Clients) :
    ∃ outcomes effect, (point.inSection = true → outcomes.ok = true) ∧
      outcomes.device.isSome = true ∧
      point.step dataFile thread returned outcomes file clients = some effect ∧
      (effect.control = .done ∨ ∃ next, effect.control = .goto next ∧ next.inSection = true ∧
        next.stepsLeft < point.stepsLeft) ∧
      (effect.file.mutex = none ∨ effect.file.mutex = file.mutex) ∧
      (point.inSection = true ∨ effect.file = file) := by
  cases point with
  | format =>
      exact ⟨⟨false, [], some 0⟩, _, nofun, rfl, rfl, Or.inl rfl, Or.inr rfl, Or.inr rfl⟩
  | lock _ | cleanup _ => contradiction
  | openFile line =>
      exact ⟨⟨true, [], some 0⟩, _, fun _ => rfl, rfl, rfl,
        Or.inr ⟨_, rfl, rfl, by simp [stepsLeft]⟩, Or.inr rfl, Or.inl rfl⟩
  | flush bytes fPos =>
      refine ⟨⟨true, [], some bytes.length⟩, ?_⟩
      simp only [step, dataFile, if_neg (takes_whole bytes)]
      exact ⟨_, fun _ => trivial, rfl, rfl, Or.inr ⟨_, rfl, rfl, by simp [stepsLeft]⟩, Or.inr rfl,
        Or.inl rfl⟩
  | unlock =>
      exact ⟨⟨true, [], some 0⟩, _, fun _ => rfl, rfl, rfl, Or.inl rfl, Or.inl rfl, Or.inl rfl⟩

end Advance

/-! ## Runs -/

namespace Timed

/-- The steps that are left of a thread's sections. -/
def stepsLeftOf (timed : Timed Bytes) (thread : Thread) : Nat :=
  (match thread with
    | .main => 0
    | .handler index =>
        (timed.process.handlers index).pc.fileStepsLeft timed.process.file.device.length) +
    (timed.alarms thread).elim 0 PrintTimestamp.stepsLeft

/-- The steps that the owner of the mutex is away from its unlock. -/
def stepsToUnlock (timed : Timed Bytes) : Nat :=
  timed.process.file.mutex.elim 0 fun thread => timed.stepsLeftOf thread + 1

/-- A step in which nothing fails inside a section, and the lock of `print_timestamp`
neither. -/
def GoesWell (timed : Timed Bytes) (label : TimedLabel (Option Nat)) : Prop :=
  timed.ServesFile label ∧ ∀ thread, LockWorks thread timed label

/-- Some run in which all goes well leads to a state where nobody holds `file_mutex`. -/
def CanRelease (timed : Timed Bytes) : Prop :=
  ∃ labels target, Run (step dataFile) GoesWell timed labels target ∧
    target.process.file.mutex = none

/-- What holds while the owner comes to its unlock. -/
structure Moving (timed : Timed Bytes) : Prop where
  recording : Recording timed
  fresh : ∀ index, timed.process.created ≤ index → (timed.process.handlers index).pc = .start
  alive : timed.process.alive = true
  thawed : ∀ thread, ¬ timed.Frozen thread
  noSeek : ∀ index, .seek index ∉ timed.turns

section Release

variable {timed target : Timed Bytes} {label : TimedLabel (Option Nat)} {index : Nat}

/-- Handlers that have not been created are at their start. -/
theorem fresh_step
    (fresh : ∀ index, timed.process.created ≤ index → (timed.process.handlers index).pc = .start)
    (stepped : step dataFile label timed = some target) :
    ∀ index, target.process.created ≤ index → (target.process.handlers index).pc = .start := by
  rcases step_cases stepped with ⟨label', process, rfl, _, made, rfl⟩ |
    ⟨thread, rfl, _, _, rfl⟩ | ⟨thread, outcomes, point, effect, rfl, _, _, rfl⟩
  · rcases Process.step_cases made with
      ⟨_, rfl⟩ | ⟨ok, effect, _, moved, rfl⟩ | ⟨index, outcomes, effect, _, created, _, rfl⟩
    · exact fresh
    · intro index above
      have grows : timed.process.created ≤ effect.created := Process.created_le moved
      exact fresh index (grows.trans above)
    · intro other above
      have above : timed.process.created ≤ other := above
      rw [timed.process.applyHandler_of_ne index effect (by omega)]
      exact fresh other above
  · exact fresh
  · exact fresh

/-- Turns are added only. -/
theorem turns_step (stepped : step dataFile label timed = some target) :
    timed.turns <+: target.turns := by
  rcases step_cases stepped with
    ⟨_, _, _, _, _, rfl⟩ | ⟨_, _, _, _, rfl⟩ | ⟨_, _, _, _, _, _, _, rfl⟩
  · exact List.prefix_append ..
  · exact List.prefix_rfl
  · exact List.prefix_append ..

/-- Only the owner can be interrupted at the wrong place. -/
theorem not_frozen_of_owner {thread : Thread}
    (owner : timed.process.file.mutex = none ∨ timed.process.file.mutex = some thread)
    (passed : ∀ line, timed.alarms thread ≠ some (.lock line)) :
    ∀ other, ¬ timed.Frozen other := by
  rintro other ⟨owns, line, waits⟩
  rcases owner with free | owner
  · simp [free] at owns
  · rw [owner, Option.some.injEq] at owns
    subst other
    exact passed line waits

/-- A step of the handler that owns the mutex. -/
theorem Moving.handler_step (moving : Moving timed)
    (inside : (timed.process.handlers index).pc.inFileSection = true)
    (undisturbed : timed.alarms (.handler index) = none) :
    ∃ label target, timed.GoesWell label ∧ step dataFile label timed = some target ∧
      Moving target ∧ target.stepsToUnlock < timed.stepsToUnlock := by
  have owns := moving.recording.sound.guarded (.handler index) (Or.inl inside)
  have created : index < timed.process.created := by
    by_contra above
    rw [moving.fresh index (Nat.not_lt.mp above)] at inside
    contradiction
  obtain ⟨room, nears⟩ :=
    (moving.recording.phases index).nears inside (moving.noSeek index)
  obtain ⟨effect, made, goesOn, order, closer⟩ :=
    nears timed.process.returned timed.process.clients
  have serves : timed.ServesFile (.process (.handler index (taking room))) :=
    fileServes_taking _ room
  have stepped : step dataFile (.process (.handler index (taking room))) timed =
      some ⟨timed.process.applyHandler index effect, timed.alarms, timed.turns⟩ := by
    have noTurns : newTurns timed.process (timed.process.applyHandler index effect) = [] :=
      newTurns_of_same order
    simp [step, Process.step, Label.thread, undisturbed, moving.alive, created, made, noTurns]
  have works : ∀ thread, LockWorks thread timed (.process (.handler index (taking room))) := by
    intro thread outcomes isTimestamp
    contradiction
  refine ⟨_, _, ⟨serves, works⟩, stepped, ⟨moving.recording.step serves stepped,
    fresh_step moving.fresh stepped, goesOn, ?_, moving.noSeek⟩, ?_⟩
  · refine not_frozen_of_owner (closer.imp_right fun same => same.1.trans owns) ?_
    intro line waits
    rw [undisturbed] at waits
    contradiction
  · rcases closer with free | ⟨same, closer⟩
    · simp [stepsToUnlock, free, owns]
    · simpa [stepsToUnlock, stepsLeftOf, same, owns, undisturbed] using closer

/-- A step of `print_timestamp` brings its thread closer to the unlock: a handler below it
that is inside its own section finds the file as it was. -/
theorem Sound.stepsToUnlock_lt {thread : Thread} {point : PrintTimestamp}
    {effect : TimestampEffect Bytes} (sound : timed.Sound)
    (owns : timed.process.file.mutex = some thread) (running : timed.alarms thread = some point)
    (waits : 0 < point.stepsLeft)
    (control : effect.control = .done ∨ ∃ next, effect.control = .goto next ∧
      next.inSection = true ∧ next.stepsLeft < point.stepsLeft)
    (mutex : effect.file.mutex = none ∨ effect.file.mutex = timed.process.file.mutex)
    (file : point.inSection = true ∨ effect.file = timed.process.file) :
    (timed.applyTimestamp thread point effect).stepsToUnlock < timed.stepsToUnlock := by
  rcases mutex with free | same
  · simp [stepsToUnlock, free, owns]
  have fewer : ((timed.applyTimestamp thread point effect).alarms thread).elim 0
      PrintTimestamp.stepsLeft < point.stepsLeft := by
    rcases control with done | ⟨next, goto, _, closer⟩
    · rwa [timed.applyTimestamp_done thread point done]
    · rwa [timed.applyTimestamp_goto thread point goto]
  simp only [stepsToUnlock, applyTimestamp_file, same, owns, Option.elim_some]
  refine Nat.add_lt_add_right ?_ 1
  cases thread with
  | main => simpa [stepsLeftOf, running] using fewer
  | handler index =>
      have stays : (timed.process.handlers index).pc.fileStepsLeft effect.file.device.length =
          (timed.process.handlers index).pc.fileStepsLeft timed.process.file.device.length := by
        rcases file with inside | same
        · have outside : (timed.process.handlers index).pc.inFileSection = false := by
            by_contra insideFile
            exact sound.apart running inside (by simpa using insideFile)
          rw [fileStepsLeft_of_outside _ outside, fileStepsLeft_of_outside _ outside]
        · rw [same]
      simp only [stepsLeftOf, applyTimestamp_file, applyTimestamp_handlers, stays, running,
        Option.elim_some]
      exact Nat.add_lt_add_left fewer _

/-- A step of `print_timestamp` between its lock and its unlock, or before its lock. -/
theorem Moving.timestamp_step {thread : Thread} {point : PrintTimestamp} (moving : Moving timed)
    (owns : timed.process.file.mutex = some thread)
    (running : timed.alarms thread = some point) :
    ∃ label target, timed.GoesWell label ∧ step dataFile label timed = some target ∧
      Moving target ∧ target.stepsToUnlock < timed.stepsToUnlock := by
  have notLock (line : Bytes) : point ≠ .lock line := by
    rintro rfl
    exact moving.thawed thread ⟨owns, line, running⟩
  have phase := moving.recording.alarms thread point running
  have waits : 0 < point.stepsLeft := by
    cases point with
    | lock line => exact absurd rfl (notLock line)
    | cleanup _ => exact phase.elim
    | _ => simp [PrintTimestamp.stepsLeft]
  obtain ⟨outcomes, effect, ok, room, made, control, mutex, file⟩ :=
    PrintTimestamp.nears waits thread timed.process.returned timed.process.file
      timed.process.clients
  have serves : timed.ServesFile (.timestamp thread outcomes) :=
    ⟨fun inside => ok ((inTimestamp_iff running).mp inside), room⟩
  have works (other : Thread) : LockWorks other timed (.timestamp thread outcomes) := by
    rintro outcomes' isLabel ⟨line, atLock⟩
    obtain ⟨rfl, _⟩ := TimedLabel.timestamp.inj isLabel
    rw [running, Option.some.injEq] at atLock
    exact absurd atLock (notLock line)
  have stepped : step dataFile (.timestamp thread outcomes) timed =
      some (timed.applyTimestamp thread point effect) := by
    simp [step, moving.alive, running, made]
  have noTurns : newTimestamp point effect.control = [] := by
    cases point with
    | lock line => exact absurd rfl (notLock line)
    | _ => rfl
  have turns : (timed.applyTimestamp thread point effect).turns = timed.turns := by
    rw [applyTimestamp_turns, noTurns, List.append_nil]
  refine ⟨_, _, ⟨serves, works⟩, stepped, ⟨moving.recording.step serves stepped,
    fresh_step moving.fresh stepped, ?_, ?_, fun index => by rw [turns]; exact moving.noSeek index⟩,
    ?_⟩
  · rcases control with done | ⟨next, goto, _, _⟩
    · simp [applyTimestamp, done]
    · simp [applyTimestamp, goto]
  · refine not_frozen_of_owner (mutex.imp_right fun same => same.trans owns) fun line atLock => ?_
    rcases control with done | ⟨next, goto, inside, _⟩
    · rw [timed.applyTimestamp_done thread point done] at atLock
      contradiction
    · rw [timed.applyTimestamp_goto thread point goto, Option.some.injEq] at atLock
      subst next
      contradiction
  · exact moving.recording.sound.stepsToUnlock_lt owns running waits control mutex file

/-- As long as the owner has not come to its unlock, it can go on. -/
theorem Moving.exists_step (moving : Moving timed) (owned : timed.process.file.mutex ≠ none) :
    ∃ label target, timed.GoesWell label ∧ step dataFile label timed = some target ∧
      Moving target ∧ target.stepsToUnlock < timed.stepsToUnlock := by
  obtain ⟨thread, owns⟩ := Option.ne_none_iff_exists'.mp owned
  rcases moving.recording.owner thread owns with
    inside | ⟨point, running, _⟩ | ⟨index, _, seeks⟩
  · cases thread with
    | main => exact inside.elim
    | handler index =>
        cases undisturbed : timed.alarms (.handler index) with
        | none => exact moving.handler_step inside undisturbed
        | some point => exact moving.timestamp_step owns undisturbed
  · exact moving.timestamp_step owns running
  · exact absurd seeks (moving.noSeek index)

/-- Otherwise the mutex comes free. -/
theorem Moving.canRelease (moving : Moving timed) : timed.CanRelease := by
  obtain ⟨later, target, run, _, free⟩ : ∃ later target,
      Run (step dataFile) GoesWell timed later target ∧ Moving target ∧
        target.process.file.mutex = none :=
    exists_run_of_decreasing stepsToUnlock (fun moving owned => moving.exists_step owned) moving
  exact ⟨later, target, run, free⟩

/-- A thread that waits for itself keeps the mutex. -/
theorem Sound.not_canRelease {thread : Thread} (sound : timed.Sound)
    (frozen : timed.Frozen thread) : ¬ timed.CanRelease := by
  rintro ⟨later, target, run, free⟩
  have works : Run (Timed.step dataFile) (LockWorks thread) timed later target :=
    run.mono fun _ _ well => well.2 thread
  have owns := (sound.stopped_run frozen works).1.1
  simp [free] at owns

/-- A client with a seek command keeps the mutex. -/
theorem Recording.not_canRelease (recording : Recording timed)
    (seeks : .seek index ∈ timed.turns) : ¬ timed.CanRelease := by
  rintro ⟨later, target, run, free⟩
  have stays : Recording target ∧ .seek index ∈ target.turns := by
    refine run.invariant (fun _ target => Recording target ∧ .seek index ∈ target.turns)
      ⟨recording, seeks⟩ ?_
    rintro later middle label target ⟨recording, seeks⟩ well stepped
    exact ⟨recording.step well.1 stepped, (turns_step stepped).subset seeks⟩
  have owns := (stays.1.seeks index stays.2).2.1
  simp [free] at owns

/-- In a state that is reached while nothing fails inside the sections, and as long as the
process has not ended: the mutex can be released if and only if `print_timestamp` does not
wait for the thread below it, and no client has had a turn with a seek command. -/
theorem dataFile_released_iff {labels : List (TimedLabel (Option Nat))}
    (run : Run (step dataFile) ServesFile (start []) labels timed)
    (alive : timed.process.alive = true) :
    timed.CanRelease ↔
      (∀ thread, ¬ timed.Frozen thread) ∧ ∀ index, .seek index ∉ timed.turns := by
  have reached : Recording timed ∧ ∀ index, timed.process.created ≤ index →
      (timed.process.handlers index).pc = .start := by
    refine run.invariant (fun _ timed => Recording timed ∧ ∀ index, timed.process.created ≤ index →
      (timed.process.handlers index).pc = .start) ⟨recording_start, fun _ _ => rfl⟩ ?_
    rintro labels middle label target ⟨recording, fresh⟩ serves stepped
    exact ⟨recording.step serves stepped, fresh_step fresh stepped⟩
  obtain ⟨recording, fresh⟩ := reached
  constructor
  · intro released
    exact ⟨fun thread frozen => recording.sound.not_canRelease frozen released,
      fun index seeks => recording.not_canRelease seeks released⟩
  · rintro ⟨thawed, noSeek⟩
    exact Moving.canRelease ⟨recording, fresh, alive, thawed, noSeek⟩

end Release

end Timed

theorem servesFile_interruptedTurn :
    ∀ label ∈ interruptedTurn, ∀ timed, Timed.ServesFile timed label := by
  intro label member timed
  simp only [interruptedTurn, List.mem_append, List.mem_replicate, List.mem_cons, List.not_mem_nil,
    or_false] at member
  rcases member with (⟨_, rfl⟩ | ⟨_, rfl⟩) | rfl | rfl
  · trivial
  · exact ⟨fun _ => rfl, rfl, by decide⟩
  · trivial
  · exact ⟨fun _ => rfl, rfl⟩

/-- The handler of the first client owns the mutex: until `print_timestamp` has come to its
lock, it can still be released, and then no more. -/
theorem dataFile_released_interrupted :
    (∃ timed, exec (Timed.step dataFile) interruptedTurn.dropLast (Timed.start []) = some timed ∧
      timed.process.file.mutex = some (.handler 0) ∧ timed.CanRelease) ∧
    ∃ timed, exec (Timed.step dataFile) interruptedTurn (Timed.start []) = some timed ∧
      ¬ timed.CanRelease := by
  constructor
  · obtain ⟨timed, reached, owns, alarmed, turns, alive⟩ :
        ∃ timed, exec (Timed.step dataFile) interruptedTurn.dropLast (Timed.start []) =
            some timed ∧ timed.process.file.mutex = some (.handler 0) ∧
          timed.alarms (.handler 0) = some .format ∧ timed.turns = [.packet 0 [97, 10]] ∧
          timed.process.alive = true :=
      ⟨_, rfl, rfl, rfl, rfl, rfl⟩
    have run : Run (Timed.step dataFile) Timed.ServesFile (Timed.start []) _ timed :=
      run_of_forall reached fun label member =>
        servesFile_interruptedTurn label (List.mem_of_mem_dropLast member)
    refine ⟨timed, reached, owns, (Timed.dataFile_released_iff run alive).mpr ⟨?_, ?_⟩⟩
    · rintro thread ⟨owns', line, waits⟩
      rw [owns, Option.some.injEq] at owns'
      subst thread
      simp [alarmed] at waits
    · simp [turns]
  · obtain ⟨timed, reached, frozen, alive⟩ :
        ∃ timed, exec (Timed.step dataFile) interruptedTurn (Timed.start []) = some timed ∧
          timed.Frozen (.handler 0) ∧ timed.process.alive = true :=
      ⟨_, rfl, ⟨rfl, _, rfl⟩, rfl⟩
    have run : Run (Timed.step dataFile) Timed.ServesFile (Timed.start []) interruptedTurn timed :=
      run_of_forall reached servesFile_interruptedTurn
    refine ⟨timed, reached, fun released => ?_⟩
    exact ((Timed.dataFile_released_iff run alive).mp released).1 _ frozen

end Aesd.Server
