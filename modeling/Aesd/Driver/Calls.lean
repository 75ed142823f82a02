import Aesd.Driver.Simulation

/-!
# Calls of the driver

The four file operations as the labels of one transition, and what every call
has in common: while the lock is held it waits or changes nothing, and only
`aesd_write` changes the ring, the pending entry or the kernel heap.
-/

namespace Aesd.Driver

open Aesd.Transition

/-- A call of one of the file operations, with what the kernel decides during
it. -/
inductive DriverCall
  | read (outcomes : ReadOutcomes) (bufIsNull : Bool) (count : Nat) (fPos : Int)
  | write (outcomes : WriteOutcomes) (buf : Option Bytes) (fPos : Int)
  | llseek (lock : Bool) (off whence fPos : Int)
  | ioctl (outcomes : IoctlOutcomes) (cmd : Nat) (arg : AesdSeekto) (fPos : Int)

/-- The device after the call, or why the call does not return. -/
def AesdDev.perform (driver : AesdDev) : DriverCall → Except Stop AesdDev
  | .read outcomes bufIsNull count fPos =>
      (aesdRead outcomes bufIsNull count fPos driver).map ReadResult.driver
  | .write outcomes buf fPos => (aesdWrite outcomes buf fPos driver).map Prod.snd
  | .llseek lock off whence fPos =>
      (aesdLlseek lock off whence fPos driver).map SeekResult.driver
  | .ioctl outcomes cmd arg fPos =>
      (aesdIoctl outcomes cmd arg fPos driver).map SeekResult.driver

/-- One call that returns. -/
def AesdDev.call : Step DriverCall AesdDev := fun call driver =>
  match driver.perform call with
  | .error _ => none
  | .ok driver => some driver

/-! ## Locked devices -/

/-- While the lock is held, a call blocks or returns without touching the
device. -/
theorem AesdDev.perform_of_locked {driver : AesdDev} (locked : driver.bufferLock = true)
    (call : DriverCall) :
    driver.perform call = .error .blocked ∨ driver.perform call = .ok driver := by
  have waits : driver.mutexLockInterruptible true = .error .blocked := by
    simp [mutexLockInterruptible, locked]
  have interrupted : driver.mutexLockInterruptible false = .ok none := rfl
  cases call with
  | read outcomes bufIsNull count fPos =>
      simp only [perform]
      unfold aesdRead
      split
      · exact Or.inr rfl
      · cases outcomes.lock
        · rw [interrupted]
          exact Or.inr rfl
        · rw [waits]
          exact Or.inl rfl
  | write outcomes buf fPos =>
      simp only [perform]
      unfold aesdWrite
      cases buf with
      | none => exact Or.inr rfl
      | some user =>
          by_cases refused : fPos < 0 ∨ user.length = 0
          · simp only [refused, if_true]
            exact Or.inr rfl
          · simp only [refused, if_false]
            cases outcomes.lock
            · rw [interrupted]
              exact Or.inr rfl
            · rw [waits]
              exact Or.inl rfl
  | llseek lock off whence fPos =>
      simp only [perform]
      unfold aesdLlseek
      cases lock
      · rw [interrupted]
        exact Or.inr rfl
      · rw [waits]
        exact Or.inl rfl
  | ioctl outcomes cmd arg fPos =>
      simp only [perform]
      unfold aesdIoctl
      split
      · exact Or.inr rfl
      · split
        · exact Or.inr rfl
        · cases outcomes.lock
          · rw [interrupted]
            exact Or.inr rfl
          · rw [waits]
            exact Or.inl rfl

/-! ## Calls that keep the memory -/

theorem bind_eq_ok_iff {α β : Type} {first : Except Stop α} {rest : α → Except Stop β}
    {result : β} :
    (first >>= rest) = .ok result ↔ ∃ value, first = .ok value ∧ rest value = .ok result := by
  cases first <;> simp [bind, Except.bind]

theorem map_eq_ok_iff {α β : Type} {function : α → β} {outcome : Except Stop α} {result : β} :
    outcome.map function = .ok result ↔ ∃ value, outcome = .ok value ∧ function value = result := by
  cases outcome <;> simp [Except.map]

namespace AesdDev

/-- The devices differ at most in the lock. -/
def SameMemory (driver driver' : AesdDev) : Prop :=
  driver' = { driver with bufferLock := driver'.bufferLock }

namespace SameMemory

variable {driver driver' driver'' : AesdDev}

theorem trans (first : driver.SameMemory driver') (second : driver'.SameMemory driver'') :
    driver.SameMemory driver'' := by
  unfold SameMemory at first second ⊢
  rw [second, first]

theorem of_lock {obtained : Bool}
    (called : driver.mutexLockInterruptible obtained = .ok (some driver')) :
    driver.SameMemory driver' := by
  unfold mutexLockInterruptible at called
  split at called
  · split at called
    · contradiction
    · cases called
      rfl
  · cases called

theorem of_unlock (called : driver.mutexUnlock = .ok driver') : driver.SameMemory driver' := by
  unfold mutexUnlock at called
  split at called
  · cases called
    rfl
  · contradiction

theorem represents (same : driver.SameMemory driver') {log : Log} {held leaked : List (Nat × Bytes)}
    (rep : driver.Represents log held leaked) : driver'.Represents log held leaked := by
  rw [same]
  exact ⟨rep.ring, rep.held_eq, rep.memory⟩

end SameMemory

end AesdDev

theorem aesdRead_sameMemory {outcomes : ReadOutcomes} {bufIsNull : Bool} {count : Nat}
    {fPos : Int} {driver : AesdDev} {result : ReadResult}
    (returned : aesdRead outcomes bufIsNull count fPos driver = .ok result) :
    driver.SameMemory result.driver := by
  unfold aesdRead at returned
  split at returned
  · cases returned
    rfl
  · obtain ⟨locked, lockTaken, returned⟩ := bind_eq_ok_iff.mp returned
    cases locked with
    | none =>
        cases returned
        rfl
    | some locked =>
        have taken := AesdDev.SameMemory.of_lock lockTaken
        obtain ⟨found, _, returned⟩ := bind_eq_ok_iff.mp returned
        cases found with
        | none =>
            obtain ⟨unlocked, unlocks, returned⟩ := bind_eq_ok_iff.mp returned
            cases returned
            exact taken.trans (AesdDev.SameMemory.of_unlock unlocks)
        | some location =>
            obtain ⟨entry, _, returned⟩ := bind_eq_ok_iff.mp returned
            obtain ⟨bytes, _, returned⟩ := bind_eq_ok_iff.mp returned
            obtain ⟨unlocked, unlocks, returned⟩ := bind_eq_ok_iff.mp returned
            have released := taken.trans (AesdDev.SameMemory.of_unlock unlocks)
            split at returned <;> cases returned <;> exact released

theorem aesdLlseek_sameMemory {lock : Bool} {off whence fPos : Int} {driver : AesdDev}
    {result : SeekResult} (returned : aesdLlseek lock off whence fPos driver = .ok result) :
    driver.SameMemory result.driver := by
  obtain ⟨locked, lockTaken, returned⟩ := bind_eq_ok_iff.mp returned
  cases locked with
  | none =>
      cases returned
      rfl
  | some locked =>
      have taken := AesdDev.SameMemory.of_lock lockTaken
      obtain ⟨target, _, returned⟩ := bind_eq_ok_iff.mp returned
      cases target with
      | none =>
          cases returned
          exact taken
      | some newpos =>
          simp only at returned
          split at returned
          · cases returned
            exact taken
          · obtain ⟨unlocked, unlocks, returned⟩ := bind_eq_ok_iff.mp returned
            cases returned
            exact taken.trans (AesdDev.SameMemory.of_unlock unlocks)

theorem aesdIoctl_sameMemory {outcomes : IoctlOutcomes} {cmd : Nat} {arg : AesdSeekto}
    {fPos : Int} {driver : AesdDev} {result : SeekResult}
    (returned : aesdIoctl outcomes cmd arg fPos driver = .ok result) :
    driver.SameMemory result.driver := by
  unfold aesdIoctl at returned
  split at returned
  · cases returned
    rfl
  · split at returned
    · cases returned
      rfl
    · obtain ⟨locked, lockTaken, returned⟩ := bind_eq_ok_iff.mp returned
      cases locked with
      | none =>
          cases returned
          rfl
      | some locked =>
          have taken := AesdDev.SameMemory.of_lock lockTaken
          obtain ⟨reply, _, returned⟩ := bind_eq_ok_iff.mp returned
          obtain ⟨unlocked, unlocks, returned⟩ := bind_eq_ok_iff.mp returned
          cases returned
          exact taken.trans (AesdDev.SameMemory.of_unlock unlocks)

/-- Every call other than a write leaves the memory of the device as it is. -/
theorem AesdDev.sameMemory_of_perform {driver driver' : AesdDev} {call : DriverCall}
    (noWrite : ∀ outcomes buf fPos, call ≠ .write outcomes buf fPos)
    (returned : driver.perform call = .ok driver') : driver.SameMemory driver' := by
  cases call with
  | read outcomes bufIsNull count fPos =>
      obtain ⟨result, read, rfl⟩ := map_eq_ok_iff.mp returned
      exact aesdRead_sameMemory read
  | write outcomes buf fPos => exact absurd rfl (noWrite outcomes buf fPos)
  | llseek lock off whence fPos =>
      obtain ⟨result, sought, rfl⟩ := map_eq_ok_iff.mp returned
      exact aesdLlseek_sameMemory sought
  | ioctl outcomes cmd arg fPos =>
      obtain ⟨result, replied, rfl⟩ := map_eq_ok_iff.mp returned
      exact aesdIoctl_sameMemory replied

/-- The call grows the pending entry, if it tries to. -/
def DriverCall.KreallocSucceeds : DriverCall → Prop
  | .write outcomes _ _ => outcomes.krealloc.isSome = true
  | .read .. | .llseek .. | .ioctl .. => True

/-- Whatever the outcomes, a call that returns keeps the device in step with some
log; only a failing `krealloc` leaks a block. -/
theorem AesdDev.Represents.of_perform {driver driver' : AesdDev} {log : Log}
    {held leaked : List (Nat × Bytes)} (rep : driver.Represents log held leaked)
    {call : DriverCall} (returned : driver.perform call = .ok driver') :
    ∃ log' held' leaked', driver'.Represents log' held' leaked' ∧
      (call.KreallocSucceeds → leaked' = leaked) := by
  cases call with
  | write outcomes buf fPos =>
      cases buf with
      | none =>
          cases returned
          exact ⟨log, held, leaked, rep, fun _ => rfl⟩
      | some user =>
          obtain ⟨⟨retval, after⟩, written, rfl⟩ := map_eq_ok_iff.mp returned
          have step : AesdDev.write ⟨outcomes, user, fPos⟩ driver = some after := by
            simp only [AesdDev.write, written]
          exact rep.write step
  | read outcomes bufIsNull count fPos =>
      have same := sameMemory_of_perform (by simp) returned
      exact ⟨log, held, leaked, same.represents rep, fun _ => rfl⟩
  | llseek lock off whence fPos =>
      have same := sameMemory_of_perform (by simp) returned
      exact ⟨log, held, leaked, same.represents rep, fun _ => rfl⟩
  | ioctl outcomes cmd arg fPos =>
      have same := sameMemory_of_perform (by simp) returned
      exact ⟨log, held, leaked, same.represents rep, fun _ => rfl⟩

theorem AesdDev.perform_of_call {driver driver' : AesdDev} {call : DriverCall}
    (called : AesdDev.call call driver = some driver') : driver.perform call = .ok driver' := by
  unfold AesdDev.call at called
  split at called
  · contradiction
  · rename_i returned
    rw [returned, Option.some.inj called]

/-- Every device reached by calls is in step with some log. -/
theorem AesdDev.represents_of_calls {driver : AesdDev}
    (reachable : Reachable AesdDev.call aesdInitModule driver) :
    ∃ log held leaked, driver.Represents log held leaked := by
  refine reachable.invariant (fun driver => ∃ log held leaked, driver.Represents log held leaked)
    ⟨Log.empty, [], [], AesdDev.represents_init⟩ ?_
  rintro middle call target ⟨log, held, leaked, rep⟩ called
  obtain ⟨log', held', leaked', rep', _⟩ := rep.of_perform (AesdDev.perform_of_call called)
  exact ⟨log', held', leaked', rep'⟩

end Aesd.Driver
