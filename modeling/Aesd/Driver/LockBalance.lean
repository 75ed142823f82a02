import Aesd.Driver.Calls
import Aesd.Driver.Read

/-!
# Who releases the lock

Every file operation takes `buffer_lock` and is expected to give it back before
it returns.  `aesd_read` and `aesd_ioctl` do.  `aesd_write` does not when the
copy from user space fails, and `aesd_llseek` does not when it rejects its
arguments; from then on every later operation waits for a call that has already
returned.
-/

namespace Aesd.Driver

open Aesd.Transition
open Aesd.Word

/-! ## Idle devices -/

/-- The calls that give the lock back. -/
def DriverCall.Releases (driver : AesdDev) : DriverCall → Prop
  | .read .. => True
  | .write outcomes buf fPos =>
      outcomes.lock = true → outcomes.kbuf.isSome = true → outcomes.uncopied ≠ 0 →
        buf = none ∨ buf = some [] ∨ fPos < 0
  | .llseek lock off whence fPos =>
      lock = true →
        whence = 0 ∧ 0 ≤ off ∨ whence = 1 ∧ 0 ≤ toInt64 (fPos + off) ∨
          whence = 2 ∧ 0 ≤ toInt64 (driver.content.length + off)
  | .ioctl .. => True

/-- The offset search stays inside the array, whatever the buffer contains. -/
theorem findEntryLoop_ok (buffer : CircularBuffer) (charOffset remaining : Nat) :
    ∀ i cumulativeSize, ∃ found, findEntryLoop buffer charOffset remaining i cumulativeSize =
      .ok found ∧ ∀ location ∈ found, location.1 < 10 := by
  induction remaining with
  | zero => exact fun _ _ => ⟨none, rfl, by simp⟩
  | succ remaining ih =>
      intro i cumulativeSize
      have bound : (buffer.outOffs + i) % 10 < 10 := Nat.mod_lt _ (by decide)
      simp only [findEntryLoop, aesdcharMaxWriteOperationsSupported,
        buffer.entryAt_of_lt _ bound, bind, Except.bind]
      split
      · exact ⟨_, rfl, by simpa using bound⟩
      · exact ih _ _

theorem find_ok (buffer : CircularBuffer) (charOffset : Nat) :
    ∃ found, aesdCircularBufferFindEntryOffsetForFpos buffer charOffset = .ok found ∧
      ∀ location ∈ found, location.1 < 10 := by
  unfold aesdCircularBufferFindEntryOffsetForFpos
  split
  · exact ⟨none, rfl, by simp⟩
  · exact findEntryLoop_ok buffer charOffset _ 0 0

/-- A computation that has at most one way to stop. -/
def FailsAtMost {α : Type} (stop : Stop) (result : Except Stop α) : Prop :=
  result = .error stop ∨ ∃ value, result = .ok value

namespace FailsAtMost

variable {α β : Type} {stop : Stop}

theorem ok (value : α) : FailsAtMost stop (.ok value) :=
  Or.inr ⟨value, rfl⟩

theorem bind {result : Except Stop α} {rest : α → Except Stop β}
    (first : FailsAtMost stop result) (second : ∀ value, FailsAtMost stop (rest value)) :
    FailsAtMost stop (result >>= rest) := by
  rcases first with rfl | ⟨value, rfl⟩
  · exact Or.inl rfl
  · exact second value

end FailsAtMost

theorem AesdDev.load_failsAtMost (driver : AesdDev) (ptr : Option Nat) (offset length : Nat) :
    FailsAtMost .badAccess (driver.load ptr offset length) := by
  unfold load
  split
  · exact Or.inl rfl
  · exact FailsAtMost.ok _

/-- What a call does to an idle device.  It may access memory it must not access;
if it returns, it leaves the device in step with some log and gives the lock
back exactly when it is one of the calls that do. -/
def AesdDev.Answers (driver : AesdDev) (call : DriverCall) : Prop :=
  (∃ stop, driver.perform call = .error stop ∧ (stop = .badAccess ∨ stop = .badIndex)) ∨
    ∃ driver' log held leaked, driver.perform call = .ok driver' ∧
      driver'.Represents log held leaked ∧
      (driver'.bufferLock = false ↔ call.Releases driver)

namespace AesdDev.Represents

variable {driver : AesdDev} {log : Log} {held leaked : List (Nat × Bytes)}

/-- The lock of an idle device can be taken and given back. -/
theorem lock_unlock (unlocked : driver.bufferLock = false) :
    ∃ locked : AesdDev, driver.mutexLockInterruptible true = .ok (some locked) ∧
      locked.mutexUnlock = .ok driver ∧ locked.cBuffer = driver.cBuffer ∧
      locked.bufferLock = true ∧
      ∀ log held leaked, driver.Represents log held leaked →
        locked.Represents log held leaked := by
  refine ⟨{ driver with bufferLock := true }, ?_, ?_, rfl, rfl, ?_⟩
  · simp [mutexLockInterruptible, unlocked]
  · simp only [mutexUnlock, if_true]
    rw [← unlocked]
  · exact fun log held leaked rep => ⟨rep.ring, rep.held_eq, rep.memory⟩

/-- A call that leaves an idle device as it was has released the lock. -/
theorem answers_unchanged (rep : driver.Represents log held leaked)
    (unlocked : driver.bufferLock = false) {call : DriverCall}
    (releases : call.Releases driver) (returned : driver.perform call = .ok driver) :
    driver.Answers call :=
  Or.inr ⟨driver, log, held, leaked, returned, rep, by simp [unlocked, releases]⟩

theorem read_answers (rep : driver.Represents log held leaked)
    (unlocked : driver.bufferLock = false) (outcomes : ReadOutcomes) (bufIsNull : Bool)
    (count : Nat) (fPos : Int) :
    driver.Answers (.read outcomes bufIsNull count fPos) := by
  by_cases refused : bufIsNull = true ∨ fPos < 0 ∨ count = 0
  · refine rep.answers_unchanged unlocked trivial ?_
    simp only [perform, Driver.aesdRead, if_pos refused]
    rfl
  · cases obtained : outcomes.lock with
    | false =>
        refine rep.answers_unchanged unlocked trivial ?_
        simp only [perform, Driver.aesdRead, if_neg refused, obtained]
        rfl
    | true =>
        obtain ⟨locked, lockTaken, unlocks, sameBuffer, _, _⟩ := lock_unlock unlocked
        obtain ⟨found, searched, bounded⟩ := find_ok driver.cBuffer (toSizeT fPos)
        cases found with
        | none =>
            refine rep.answers_unchanged unlocked trivial ?_
            simp only [perform, Driver.aesdRead, if_neg refused, obtained, lockTaken, sameBuffer,
              searched, unlocks, bind, Except.bind]
            rfl
        | some location =>
            have slot := driver.cBuffer.entryAt_of_lt location.1 (bounded location rfl)
            let entry := driver.cBuffer.entry (Fin.ofNat 10 location.1)
            let available := toSizeT ((entry.size : Int) - location.2)
            rcases locked.load_failsAtMost entry.buffptr location.2
                (if available > count then count else available) with fails | ⟨bytes, loaded⟩
            · refine Or.inl ⟨.badAccess, ?_, Or.inl rfl⟩
              simp only [perform, Driver.aesdRead, if_neg refused, obtained, lockTaken,
                sameBuffer, searched, slot, bind, Except.bind]
              rw [fails]
              rfl
            · refine rep.answers_unchanged unlocked trivial ?_
              simp only [perform, Driver.aesdRead, if_neg refused, obtained, lockTaken,
                sameBuffer, searched, slot, bind, Except.bind]
              rw [loaded]
              simp only [unlocks]
              split <;> rfl

theorem write_answers (rep : driver.Represents log held leaked)
    (unlocked : driver.bufferLock = false) (outcomes : WriteOutcomes) (buf : Option Bytes)
    (fPos : Int) : driver.Answers (.write outcomes buf fPos) := by
  cases buf with
  | none => exact rep.answers_unchanged unlocked (fun _ _ _ => Or.inl rfl) rfl
  | some user =>
      by_cases refused : fPos < 0 ∨ user.length = 0
      · refine rep.answers_unchanged unlocked ?_ ?_
        · intro _ _ _
          rcases refused with negative | empty
          · exact Or.inr (Or.inr negative)
          · exact Or.inr (Or.inl (by rw [List.length_eq_zero_iff.mp empty]))
        · simp only [perform, Driver.aesdWrite, if_pos refused]
          rfl
      · cases obtained : outcomes.lock with
        | false =>
            refine rep.answers_unchanged unlocked ?_ ?_
            · intro locks
              rw [obtained] at locks
              contradiction
            · simp only [perform, Driver.aesdWrite, if_neg refused, obtained]
              rfl
        | true =>
            have nonempty : user ≠ [] := by
              rintro rfl
              simp at refused
            obtain ⟨driver', held', leaked', returned, rep', locked, _⟩ :=
              rep.aesdWrite unlocked obtained nonempty (show 0 ≤ fPos by omega)
            refine Or.inr ⟨driver', _, held', leaked', ?_, rep', ?_⟩
            · simp only [perform, returned]
              rfl
            · have accepted : ¬ (some user = none ∨ some user = some [] ∨ fPos < 0) := by
                simp [nonempty]
                omega
              simp only [DriverCall.Releases, locked, obtained, accepted]
              cases outcomes.kbuf <;> simp

/-- The slots outside the held entries have size zero. -/
theorem sum_slots_eq (rep : driver.Represents log held leaked) :
    ∑ slot, (driver.cBuffer.entry slot).size = driver.content.length := by
  rw [← rep.sum_sizes_eq]
  refine rep.ring.window.sum_eq BufferEntry.size ?_
  intro index above bound
  rw [rep.ring.entry_unset above bound]
  rfl

/-- The `SEEK_END` loop over any slots. -/
theorem sizeLoop_eq (buffer : CircularBuffer) (indices : List Nat)
    (bounded : ∀ index ∈ indices, index < 10) (total : Nat) :
    indices.foldlM (fun total index => do
        let entry ← buffer.entryAt index
        pure (toSizeT (total + entry.size : Nat))) (total % 2 ^ 64) =
      Except.ok ((total +
        (indices.map fun index => (buffer.entry (Fin.ofNat 10 index)).size).sum) % 2 ^ 64) := by
  induction indices generalizing total with
  | nil => rfl
  | cons index indices ih =>
      have next := ih (fun other member => bounded other (List.mem_cons_of_mem _ member))
        (total + (buffer.entry (Fin.ofNat 10 index)).size)
      have added : toSizeT (total % 2 ^ 64 + (buffer.entry (Fin.ofNat 10 index)).size : Nat) =
          (total + (buffer.entry (Fin.ofNat 10 index)).size) % 2 ^ 64 := by
        unfold toSizeT
        omega
      rw [List.foldlM_cons, buffer.entryAt_of_lt index (bounded index List.mem_cons_self)]
      simp only [bind, Except.bind, pure, Except.pure, added] at next ⊢
      rw [next, List.map_cons, List.sum_cons, Nat.add_assoc]

/-- It computes the length of the content. -/
theorem totalSize_eq (rep : driver.Represents log held leaked) :
    totalSize driver.cBuffer = .ok (driver.content.length % 2 ^ 64) := by
  have looped := sizeLoop_eq driver.cBuffer (List.range 10) (by simp) 0
  have sumEq : ((List.range 10).map fun index =>
      (driver.cBuffer.entry (Fin.ofNat 10 index)).size).sum = driver.content.length := by
    rw [← rep.sum_slots_eq, ← List.sum_ofFn]
    rfl
  rw [Nat.zero_add, sumEq] at looped
  exact looped

/-- The position `aesd_llseek` computes. -/
theorem llseekTarget_eq (rep : driver.Represents log held leaked) (fPos off whence : Int) :
    llseekTarget driver.cBuffer fPos off whence =
      .ok (if whence = 0 then some off
        else if whence = 1 then some (toInt64 (fPos + off))
        else if whence = 2 then some (toInt64 (driver.content.length + off))
        else none) := by
  unfold llseekTarget
  split
  · rfl
  · rfl
  · have wraps : toInt64 ((driver.content.length % 2 ^ 64 : Nat) + off) =
        toInt64 (driver.content.length + off) := by
      unfold toInt64
      exact Int.emod_add_bmod (driver.content.length : Int) (2 ^ 64)
    simp only [rep.totalSize_eq, bind, Except.bind, wraps]
    rfl
  · rename_i notSet notCur notEnd
    rw [if_neg notSet, if_neg notCur, if_neg notEnd]

theorem llseek_answers (rep : driver.Represents log held leaked)
    (unlocked : driver.bufferLock = false) (lock : Bool) (off whence fPos : Int) :
    driver.Answers (.llseek lock off whence fPos) := by
  cases lock with
  | false => exact rep.answers_unchanged unlocked (fun locks => by contradiction) rfl
  | true =>
      obtain ⟨locked, lockTaken, unlocks, sameBuffer, isLocked, keeps⟩ := lock_unlock unlocked
      have computed := rep.llseekTarget_eq fPos off whence
      have releasesIff : (DriverCall.llseek true off whence fPos).Releases driver ↔
          ∃ newpos, llseekTarget driver.cBuffer fPos off whence = .ok (some newpos) ∧
            0 ≤ newpos := by
        rw [computed]
        by_cases set : whence = 0
        · simp [DriverCall.Releases, set]
        · by_cases cur : whence = 1
          · simp [DriverCall.Releases, cur]
          · by_cases fromEnd : whence = 2
            · simp [DriverCall.Releases, fromEnd]
            · simp [DriverCall.Releases, set, cur, fromEnd]
      -- the two early exits return with the lock held
      have keepsLock (returned : driver.perform (.llseek true off whence fPos) = .ok locked)
          (rejected : ¬ (DriverCall.llseek true off whence fPos).Releases driver) :
          driver.Answers (.llseek true off whence fPos) :=
        Or.inr ⟨locked, log, held, leaked, returned, keeps log held leaked rep, by
          simp [isLocked, rejected]⟩
      cases target : llseekTarget driver.cBuffer fPos off whence with
      | error stop =>
          rw [computed] at target
          contradiction
      | ok newpos =>
          rw [target] at releasesIff
          cases newpos with
          | none =>
              refine keepsLock ?_ (by rw [releasesIff]; simp)
              simp only [perform, Driver.aesdLlseek, lockTaken, sameBuffer, target, bind,
                Except.bind]
              rfl
          | some newpos =>
              by_cases negative : newpos < 0
              · refine keepsLock ?_ (by rw [releasesIff]; simpa using negative)
                simp only [perform, Driver.aesdLlseek, lockTaken, sameBuffer, target, negative,
                  if_true, bind, Except.bind]
                rfl
              · refine rep.answers_unchanged unlocked ?_ ?_
                · rw [releasesIff]
                  exact ⟨newpos, rfl, by omega⟩
                · simp only [perform, Driver.aesdLlseek, lockTaken, sameBuffer, target, negative,
                    if_false, unlocks, bind, Except.bind]
                  rfl

theorem entryAt_failsAtMost (buffer : CircularBuffer) (index : Int) :
    FailsAtMost .badIndex (buffer.entryAt index) := by
  unfold CircularBuffer.entryAt
  split
  · exact FailsAtMost.ok _
  · exact Or.inl rfl

theorem seekSum_failsAtMost (buffer : CircularBuffer) (iterations : Nat) :
    FailsAtMost .badIndex (seekSum buffer iterations) := by
  induction iterations with
  | zero => exact FailsAtMost.ok _
  | succ iterations ih =>
      exact ih.bind fun _ => (entryAt_failsAtMost buffer _).bind fun _ => FailsAtMost.ok _

/-- The walk of `aesd_ioctl` fails at most by leaving the array. -/
theorem ioctlSeek_failsAtMost (buffer : CircularBuffer) (seekCmd : AesdSeekto) (fPos : Int) :
    FailsAtMost .badIndex (ioctlSeek buffer seekCmd fPos) := by
  have walks : FailsAtMost .badIndex (ioctlWalk buffer seekCmd fPos) := by
    refine (seekSum_failsAtMost buffer _).bind fun _ =>
      (entryAt_failsAtMost buffer _).bind fun _ => ?_
    split <;> exact FailsAtMost.ok _
  have checked : ∀ rejected : Prop, [Decidable rejected] →
      FailsAtMost .badIndex
        (if rejected then .ok (-einval, fPos) else ioctlWalk buffer seekCmd fPos) := by
    intro rejected _
    split
    · exact FailsAtMost.ok _
    · exact walks
  exact checked _

theorem ioctl_answers (rep : driver.Represents log held leaked)
    (unlocked : driver.bufferLock = false) (outcomes : IoctlOutcomes) (cmd : Nat)
    (arg : AesdSeekto) (fPos : Int) :
    driver.Answers (.ioctl outcomes cmd arg fPos) := by
  by_cases unknown : cmd ≠ aesdcharIocseekto
  · refine rep.answers_unchanged unlocked trivial ?_
    simp only [perform, Driver.aesdIoctl, if_pos unknown]
    rfl
  · by_cases fault : outcomes.uncopied ≠ 0
    · refine rep.answers_unchanged unlocked trivial ?_
      simp only [perform, Driver.aesdIoctl, if_neg unknown, if_pos fault]
      rfl
    · cases obtained : outcomes.lock with
      | false =>
          refine rep.answers_unchanged unlocked trivial ?_
          simp only [perform, Driver.aesdIoctl, if_neg unknown, if_neg fault, obtained]
          rfl
      | true =>
          obtain ⟨locked, lockTaken, unlocks, sameBuffer, _, _⟩ := lock_unlock unlocked
          rcases ioctlSeek_failsAtMost driver.cBuffer arg fPos with stops | ⟨reply, replied⟩
          · refine Or.inl ⟨.badIndex, ?_, Or.inr rfl⟩
            simp only [perform, Driver.aesdIoctl, if_neg unknown, if_neg fault, obtained,
              lockTaken, sameBuffer, stops, bind, Except.bind]
            rfl
          · refine rep.answers_unchanged unlocked trivial ?_
            simp only [perform, Driver.aesdIoctl, if_neg unknown, if_neg fault, obtained,
              lockTaken, sameBuffer, replied, unlocks, bind, Except.bind]
            rfl

end AesdDev.Represents

/-- What any call does to an idle device. -/
theorem AesdDev.answers_of_idle {driver : AesdDev} {log : Log}
    {held leaked : List (Nat × Bytes)} (rep : driver.Represents log held leaked)
    (unlocked : driver.bufferLock = false) (call : DriverCall) : driver.Answers call := by
  cases call with
  | read outcomes bufIsNull count fPos => exact rep.read_answers unlocked _ _ _ _
  | write outcomes buf fPos => exact rep.write_answers unlocked _ _ _
  | llseek lock off whence fPos => exact rep.llseek_answers unlocked _ _ _ _
  | ioctl outcomes cmd arg fPos => exact rep.ioctl_answers unlocked _ _ _ _

/-! ## Runs -/

/-- A run of calls each of which gives the lock back. -/
abbrev ReleasingRun (calls : List DriverCall) (driver : AesdDev) : Prop :=
  Run AesdDev.call (fun driver call => call.Releases driver) aesdInitModule calls driver

/-- After such a run the device is idle and in step with some log. -/
theorem ReleasingRun.idle {calls : List DriverCall} {driver : AesdDev}
    (run : ReleasingRun calls driver) :
    driver.bufferLock = false ∧ ∃ log held leaked, driver.Represents log held leaked := by
  refine Run.invariant (fun _ driver => driver.bufferLock = false ∧
    ∃ log held leaked, driver.Represents log held leaked) run
    ⟨rfl, Log.empty, [], [], AesdDev.represents_init⟩ ?_
  rintro labels middle call target ⟨unlocked, log, held, leaked, rep⟩ releases called
  unfold AesdDev.call at called
  rcases AesdDev.answers_of_idle rep unlocked call with
    ⟨stop, stops, _⟩ | ⟨driver', log', held', leaked', returned, rep', balanced⟩
  · rw [stops] at called
    contradiction
  · rw [returned] at called
    cases called
    exact ⟨balanced.mpr releases, log', held', leaked', rep'⟩

/-- In every run whose calls all give the lock back, no call finds the lock held
or releases a lock it does not hold, and the lock is free after each call; a
call after such a run that returns leaves it free exactly when it is one of the
calls that give it back.  On any device, a call never releases a lock that was
taken before it. -/
theorem bufferLock_balanced {calls : List DriverCall} {driver : AesdDev}
    (run : ReleasingRun calls driver) :
    driver.bufferLock = false ∧
      (∀ call, driver.perform call ≠ .error .blocked ∧
        driver.perform call ≠ .error .badUnlock) ∧
      (∀ call driver', driver.perform call = .ok driver' →
        (driver'.bufferLock = false ↔ call.Releases driver)) ∧
      ∀ (device device' : AesdDev) call, device.bufferLock = true →
        device.perform call = .ok device' → device'.bufferLock = true := by
  obtain ⟨unlocked, log, held, leaked, rep⟩ := run.idle
  refine ⟨unlocked, ?_, ?_, ?_⟩
  · intro call
    rcases AesdDev.answers_of_idle rep unlocked call with
      ⟨stop, stops, rfl | rfl⟩ | ⟨driver', _, _, _, returned, _⟩
    · simp [stops]
    · simp [stops]
    · simp [returned]
  · intro call driver' returned
    rcases AesdDev.answers_of_idle rep unlocked call with
      ⟨stop, stops, _⟩ | ⟨other, _, _, _, returned', _, balanced⟩
    · rw [stops] at returned
      contradiction
    · rw [returned'] at returned
      cases returned
      exact balanced
  · intro device device' call locked returned
    rcases AesdDev.perform_of_locked locked call with blocked | unchanged
    · rw [blocked] at returned
      contradiction
    · rw [unchanged] at returned
      cases returned
      exact locked

/-- After a successful write of `a\n`. -/
theorem bufferLock_balanced_one_write :
    (AesdDev.ofWrites [[97, 10]]).bufferLock = false ∧
      (∀ call, (AesdDev.ofWrites [[97, 10]]).perform call ≠ .error .blocked ∧
        (AesdDev.ofWrites [[97, 10]]).perform call ≠ .error .badUnlock) ∧
      (∀ call driver', (AesdDev.ofWrites [[97, 10]]).perform call = .ok driver' →
        (driver'.bufferLock = false ↔ call.Releases (AesdDev.ofWrites [[97, 10]]))) ∧
      ∀ (device device' : AesdDev) call, device.bufferLock = true →
        device.perform call = .ok device' → device'.bufferLock = true := by
  have run : ReleasingRun [.write WriteOutcomes.success (some [97, 10]) 0]
      (AesdDev.ofWrites [[97, 10]]) := by
    refine Run.tail Run.refl ?_ rfl
    intro _ _ uncopied
    exact absurd rfl uncopied
  exact bufferLock_balanced run

/-- The call returns from a fresh device with the lock held, and the next read
waits for ever. -/
def DriverCall.LeaksLock (call : DriverCall) : Prop :=
  ∃ driver, aesdInitModule.perform call = .ok driver ∧ driver.bufferLock = true ∧
    driver.perform (.read ⟨true, 0⟩ false 1 0) = .error .blocked

/-- A write whose copy from user space fails, a seek to a negative position and a
seek with an unknown `whence` leak the lock. -/
theorem bufferLock_leaked :
    (DriverCall.write ⟨true, some fun _ => 0, 1, none, none⟩ (some [97]) 0).LeaksLock ∧
      (DriverCall.llseek true (-1) 0 0).LeaksLock ∧ (DriverCall.llseek true 0 3 0).LeaksLock :=
  ⟨⟨_, rfl, rfl, rfl⟩, ⟨_, rfl, rfl, rfl⟩, _, rfl, rfl, rfl⟩

end Aesd.Driver
