import Aesd.Server.Aesdchar
import Aesd.Server.Core

/-!
# `file_mutex`

The critical sections of the handlers lie between a successful lock and the
unlock at the end of `message_handler_thread` or `handle_ioctl`.  No handler ever
unlocks without holding the mutex, but four exits return with it.  In runs that
avoid them the owner is always inside its section.
-/

namespace Aesd.Server

open Aesd.Driver
open Aesd.Mutex
open Aesd.Transition

variable {δ χ : Type}

/-! ## Critical sections -/

/-- The points of `handle_ioctl` between its lock and its unlock. -/
def HandleIoctl.inSection : HandleIoctl → Bool
  | .parse _ | .lock _ => false
  | .open _ | .ioctl _ | .read .. | .unlock => true

/-- The points of a handler between a lock of `file_mutex` and its unlock. -/
def Pc.inFileSection : Pc → Bool
  | .handleIoctl point => point.inSection
  | .openFile _ | .cleanup _ | .flush .. | .seek _ | .echo .. | .unlockFile => true
  | .start | .recv _ | .lockFile _ | .setComplete _ | .returned => false

/-- The threads inside a section. -/
def Process.InFileSection (process : Process δ) : Thread → Prop
  | .main => False
  | .handler index => (process.handlers index).pc.inFileSection = true

/-- The points at which `pthread_mutex_unlock` is called for `file_mutex`. -/
def Pc.unlocksFile : Pc → Bool
  | .handleIoctl .unlock | .unlockFile => true
  | _ => false

theorem Pc.inFileSection_of_unlocksFile {pc : Pc} (unlocks : pc.unlocksFile = true) :
    pc.inFileSection = true := by
  cases pc with
  | handleIoctl point =>
      cases point with
      | unlock => rfl
      | _ => contradiction
  | unlockFile => rfl
  | _ => contradiction

theorem Pc.not_inFileSection_of_hasReturned {pc : Pc} (hasReturned : pc.hasReturned = true) :
    pc.inFileSection = false := by
  cases pc with
  | returned => rfl
  | _ => contradiction

/-- The exits that keep the mutex: a failing `open`, a rejected command, a failing
unlock, and the return from the cleanup after a failing `fopen`. -/
def Pc.leaks (device : Device δ χ) (outcomes : Outcomes χ) (file : DeviceFile δ) : Pc → Bool
  | .handleIoctl (.open _) => !outcomes.ok
  | .handleIoctl (.ioctl cmd) =>
      (device outcomes.device (.ioctl cmd) 0 file.device).any fun reply =>
        ioctlResult reply.retval < 0
  | .handleIoctl .unlock | .unlockFile => !outcomes.ok
  | .cleanup .unlink => true
  | _ => false

/-- A step that does not leak the mutex. -/
def Process.KeepsFileMutex (device : Device δ χ) (process : Process δ) : Label χ → Prop
  | .signal | .main _ => True
  | .handler index outcomes =>
      (process.handlers index).pc.leaks device outcomes process.file = false

instance (device : Device δ χ) (process : Process δ) (label : Label χ) :
    Decidable (process.KeepsFileMutex device label) :=
  match label with
  | .signal | .main _ => inferInstanceAs (Decidable True)
  | .handler index outcomes =>
      inferInstanceAs
      (Decidable ((process.handlers index).pc.leaks device outcomes process.file = false))

/-! ## One step -/

/-- What a step does to the mutex: an exact move, or one of the exits that keep
it. -/
def KeepsOrLeaks (index : Nat) (Leaks : Prop) (before after : Pc) (owner owner' : Option Thread) :
    Prop :=
  ExactMove (.handler index) (before.inFileSection = true) (after.inFileSection = true)
      owner owner' ∨
    Leaks ∧ before.inFileSection = true ∧ after.inFileSection = false ∧ owner' = owner

section KeepsOrLeaks

variable {index : Nat} {Leaks : Prop} {before after : Pc}

/-- A step that does not touch the mutex. -/
theorem KeepsOrLeaks.of_same {owner : Option Thread}
    (same : after.inFileSection = before.inFileSection) :
    KeepsOrLeaks index Leaks before after owner owner :=
  Or.inl (ExactMove.stay (by rw [same]))

/-- A step that calls `pthread_mutex_unlock`. -/
theorem KeepsOrLeaks.of_unlock (file : DeviceFile δ) {ok : Bool} (leaks : ok = false → Leaks)
    (inside : before.inFileSection = true) (leaves : after.inFileSection = false) :
    KeepsOrLeaks index Leaks before after file.mutex (file.unlock ok).mutex := by
  cases ok with
  | true => exact Or.inl (ExactMove.release inside (by simp [leaves]))
  | false => exact Or.inr ⟨leaks rfl, inside, leaves, rfl⟩

end KeepsOrLeaks

/-- What a step of `handle_ioctl` does to the mutex. -/
theorem HandleIoctl.step_mutex {device : Device δ χ} {index : Nat} {outcomes : Outcomes χ}
    {file file' : DeviceFile δ} {point : HandleIoctl} {control : Control HandleIoctl}
    {sent : Bytes} (stepped : point.step device index outcomes file = some (control, sent, file')) :
    KeepsOrLeaks index ((Pc.handleIoctl point).leaks device outcomes file = true)
      (.handleIoctl point)
      ((control.embed Pc.handleIoctl (.goto (.setComplete .lock))).point (.handleIoctl point))
      file.mutex file'.mutex := by
  cases point with
  | parse cmdBuffer =>
      simp only [HandleIoctl.step] at stepped
      split at stepped <;> cases stepped <;> exact KeepsOrLeaks.of_same rfl
  | lock cmd =>
      obtain ⟨⟨next, file''⟩, called, equal⟩ := Option.map_eq_some_iff.mp stepped
      cases equal
      rcases DeviceFile.lockThen_cases called with ⟨_, free, rfl, rfl⟩ | ⟨_, rfl, rfl⟩
      · rw [free]
        exact Or.inl (ExactMove.acquire rfl)
      · exact KeepsOrLeaks.of_same rfl
  | «open» cmd =>
      cases opens : outcomes.ok with
      | true =>
          simp only [HandleIoctl.step, opens, if_true] at stepped
          cases stepped
          exact KeepsOrLeaks.of_same rfl
      | false =>
          simp only [HandleIoctl.step, opens, Bool.false_eq_true, if_false] at stepped
          cases stepped
          exact Or.inr ⟨by simp [Pc.leaks, opens], rfl, rfl, rfl⟩
  | ioctl cmd =>
      cases called : device outcomes.device (.ioctl cmd) 0 file.device with
      | none => simp [HandleIoctl.step, called] at stepped
      | some reply =>
          simp only [HandleIoctl.step, called] at stepped
          by_cases rejected : ioctlResult reply.retval < 0
          · rw [if_pos rejected] at stepped
            cases stepped
            exact Or.inr ⟨by simpa [Pc.leaks, called] using rejected, rfl, rfl, rfl⟩
          · rw [if_neg rejected] at stepped
            cases stepped
            exact KeepsOrLeaks.of_same rfl
  | read cmdBuffer fPos =>
      simp only [HandleIoctl.step] at stepped
      split at stepped
      · contradiction
      · split at stepped
        · split at stepped <;> cases stepped <;> exact KeepsOrLeaks.of_same rfl
        · cases stepped
          exact KeepsOrLeaks.of_same rfl
  | unlock =>
      cases stepped
      exact KeepsOrLeaks.of_unlock file (by simp [Pc.leaks]) rfl rfl

/-- What a step of a handler does to the mutex. -/
theorem Pc.step_fileMutex {device : Device δ χ} {index : Nat} {returned : Nat → Bool}
    {outcomes : Outcomes χ} {file : DeviceFile δ} {clients : Clients} {pc : Pc}
    {effect : Effect δ}
    (stepped : pc.step device index returned outcomes file clients = some effect) :
    KeepsOrLeaks index (pc.leaks device outcomes file = true) pc (effect.control.point pc)
      file.mutex effect.file.mutex := by
  cases pc with
  | start =>
      simp only [Pc.step] at stepped
      split at stepped <;> cases stepped <;> exact KeepsOrLeaks.of_same rfl
  | recv buffer =>
      simp only [Pc.step] at stepped
      split at stepped
      · cases stepped
        exact KeepsOrLeaks.of_same rfl
      · split at stepped <;> cases stepped <;> exact KeepsOrLeaks.of_same rfl
  | handleIoctl point =>
      obtain ⟨⟨control, sent, file'⟩, ioctlStep, rfl⟩ := Option.map_eq_some_iff.mp stepped
      exact HandleIoctl.step_mutex ioctlStep
  | lockFile bytes =>
      obtain ⟨⟨next, file'⟩, called, rfl⟩ := Option.map_eq_some_iff.mp stepped
      rcases DeviceFile.lockThen_cases called with ⟨_, free, rfl, rfl⟩ | ⟨_, rfl, rfl⟩
      · rw [free]
        exact Or.inl (ExactMove.acquire rfl)
      · exact KeepsOrLeaks.of_same rfl
  | openFile bytes =>
      simp only [Pc.step] at stepped
      split at stepped <;> cases stepped <;> exact KeepsOrLeaks.of_same rfl
  | cleanup point =>
      obtain ⟨⟨control, clients'⟩, cleanupStep, rfl⟩ := Option.map_eq_some_iff.mp stepped
      cases control with
      | goto next => exact KeepsOrLeaks.of_same rfl
      | done =>
          obtain rfl := Cleanup.eq_unlink_of_done cleanupStep
          exact Or.inr ⟨rfl, rfl, rfl, rfl⟩
      | crash => exact KeepsOrLeaks.of_same rfl
  | flush bytes fPos =>
      simp only [Pc.step, flushStep] at stepped
      split at stepped
      · contradiction
      · split at stepped <;> cases stepped <;> exact KeepsOrLeaks.of_same rfl
  | seek fPos =>
      simp only [Pc.step] at stepped
      split at stepped
      · contradiction
      · cases stepped
        exact KeepsOrLeaks.of_same rfl
  | echo line ahead fPos =>
      simp only [Pc.step, echoStep] at stepped
      split at stepped
      · split at stepped <;> cases stepped <;> exact KeepsOrLeaks.of_same rfl
      · split at stepped
        · contradiction
        · split at stepped
          · cases stepped
            exact KeepsOrLeaks.of_same rfl
          · split at stepped <;> cases stepped <;> exact KeepsOrLeaks.of_same rfl
  | unlockFile =>
      cases stepped
      exact KeepsOrLeaks.of_unlock file (by simp [Pc.leaks]) rfl rfl
  | setComplete point =>
      obtain ⟨⟨control, clients'⟩, completeStep, rfl⟩ := Option.map_eq_some_iff.mp stepped
      cases control <;> exact KeepsOrLeaks.of_same rfl
  | returned => contradiction

/-! ## Runs -/

namespace Process

variable {device : Device δ χ} {process target : Process δ} {label : Label χ}

/-- The sections of the other threads are not affected by the step of a
handler. -/
theorem inFileSection_applyHandler {index : Nat} {effect : Effect δ} {other : Thread}
    (differs : other ≠ .handler index) :
    (process.applyHandler index effect).InFileSection other ↔ process.InFileSection other := by
  cases other with
  | main => exact Iff.rfl
  | handler other =>
      have different : other ≠ index := fun same => differs (by rw [same])
      simp only [InFileSection, process.applyHandler_of_ne index effect different]

/-- In every reachable state a thread inside its section owns the mutex. -/
theorem guarded_step (guarded : Guarded process.file.mutex process.InFileSection)
    (stepped : step device label process = some target) :
    Guarded target.file.mutex target.InFileSection := by
  rcases step_cases stepped with
    ⟨_, rfl⟩ | ⟨ok, effect, _, _, rfl⟩ | ⟨index, outcomes, effect, _, _, made, rfl⟩
  · exact guarded
  · exact guarded
  · refine guarded.move (.handler index) ?_
      fun other differs => (inFileSection_applyHandler differs).mp
    have moved := Pc.step_fileMutex made
    simp only [InFileSection, applyHandler_self, applyHandler_file]
    rcases moved with exactly | ⟨_, inside, leaves, same⟩
    · exact exactly.move
    · rw [same]
      exact Move.stay fun _ => inside

/-- A step that keeps to the rule leaves the owner inside its section. -/
theorem exact_step (exactly : Exact process.file.mutex process.InFileSection)
    (keeps : process.KeepsFileMutex device label)
    (stepped : step device label process = some target) :
    Exact target.file.mutex target.InFileSection := by
  rcases step_cases stepped with
    ⟨_, rfl⟩ | ⟨ok, effect, _, _, rfl⟩ | ⟨index, outcomes, effect, rfl, _, made, rfl⟩
  · exact exactly
  · exact exactly
  · refine exactly.move (.handler index) ?_
      fun other differs => inFileSection_applyHandler differs
    simp only [InFileSection, applyHandler_self, applyHandler_file]
    rcases Pc.step_fileMutex made with exactly | ⟨leaks, _⟩
    · exact exactly
    · rw [keeps] at leaks
      contradiction

theorem exact_start (device : δ) :
    Exact (start device).file.mutex (start device).InFileSection := by
  intro thread
  cases thread <;> simp [start, InFileSection, Pc.inFileSection]

end Process

/-- In every run that avoids the leaking exits, for any number of clients and any
device, a handler that has returned does not hold `file_mutex`, and whoever
holds it is between its lock and its unlock.  In every run at all, a handler
about to unlock holds the mutex. -/
theorem fileMutex_not_leaked (device : Device δ χ) (initial : δ) :
    (∀ labels process,
      Run (Process.step device) (Process.KeepsFileMutex device) (Process.start initial)
        labels process →
      (∀ index, process.returned index = true →
        process.file.mutex ≠ some (.handler index)) ∧
      ∀ thread, process.file.mutex = some thread → process.InFileSection thread) ∧
    ∀ process, Reachable (Process.step device) (Process.start initial) process →
      ∀ index, (process.handlers index).pc.unlocksFile = true →
        process.file.mutex = some (.handler index) := by
  have starts := Process.exact_start initial
  constructor
  · intro labels process run
    have exactly : Exact process.file.mutex process.InFileSection :=
      run.invariant (fun _ process => Exact process.file.mutex process.InFileSection) starts
        fun exactly keeps stepped => Process.exact_step exactly keeps stepped
    refine ⟨?_, fun thread => (exactly thread).mp⟩
    intro index hasReturned owns
    have inside : (process.handlers index).pc.inFileSection = true :=
      (exactly (.handler index)).mp owns
    rw [Pc.not_inFileSection_of_hasReturned hasReturned] at inside
    contradiction
  · intro process reachable index unlocks
    have guarded : Guarded process.file.mutex process.InFileSection :=
      reachable.invariant (fun process => Guarded process.file.mutex process.InFileSection)
        starts.guarded fun guarded stepped => Process.guarded_step guarded stepped
    exact guarded (.handler index) (Pc.inFileSection_of_unlocksFile unlocks)

/-- The run in which the only client sends `a\n` and everything succeeds. -/
def oneClient : List (Label DriverOutcomes) :=
  List.replicate 2 (.main true) ++ List.replicate 14 (.handler 0 (Outcomes.success [97, 10]))

theorem fileMutex_not_leaked_one_client :
    ∃ process,
      exec (Process.step aesdchar) oneClient (Process.start aesdInitModule) = some process ∧
        process.returned 0 = true ∧ process.file.mutex ≠ some (.handler 0) := by
  have run : Run (Process.step aesdchar) (Process.KeepsFileMutex aesdchar)
      (Process.start aesdInitModule) oneClient _ :=
    run_iff_exec_admitted.mpr rfl
  exact ⟨_, run.exec_eq_some, rfl,
    ((fileMutex_not_leaked aesdchar aesdInitModule).1 _ _ run).1 0 rfl⟩

/-- The labels of a run in which a client sends the seek command `5,0` to the
empty device. -/
def rejectedSeek : List (Label DriverOutcomes) :=
  List.replicate 10 (.main true) ++
    List.replicate 9 (.handler 0 (Outcomes.success (seekCommand ++ [58, 53, 44, 48, 10])))

/-- The handler of a rejected seek command returns with the mutex, and the handler
of the next client does not obtain it. -/
theorem fileMutex_leaked :
    ∃ process,
      exec (Process.step aesdchar)
          (rejectedSeek ++ [.main true, .main true, .handler 1 (Outcomes.success [97, 10]),
            .handler 1 (Outcomes.success [97, 10])])
          (Process.start aesdInitModule) = some process ∧
        process.returned 0 = true ∧ process.file.mutex = some (.handler 0) ∧
        (process.handlers 1).pc = .lockFile [97, 10] ∧
        ∀ outcomes : Outcomes DriverOutcomes, outcomes.ok = true →
          Process.step aesdchar (.handler 1 outcomes) process = none := by
  refine ⟨_, rfl, rfl, rfl, rfl, ?_⟩
  rintro ⟨ok, _, _, _, _, _⟩ rfl
  rfl

end Aesd.Server
