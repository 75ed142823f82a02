import Aesd.Driver.Calls

/-!
# Failed writes

A failing `aesd_write` should leave no trace, so that the caller can try again.
Two of its error paths do leave one: a failing copy from user space keeps the
lock, and a failing `krealloc` drops the block of the pending entry while its
size is kept.
-/

namespace Aesd.Driver

open Aesd.Memory.Heap
open Aesd.Transition
open Aesd.Word

/-! ## The same result -/

/-- The devices hold the same bytes, possibly in different blocks. -/
structure AesdDev.Alike (driver other : AesdDev) : Prop where
  held : driver.held = other.held
  pending : driver.pending = other.pending
  size : driver.currentEntry.size = other.currentEntry.size
  bufferLock : driver.bufferLock = other.bufferLock

/-- The calls stop for the same reason, or return the same value and leave devices
with the same bytes. -/
def SameResult : Except Stop (Int × AesdDev) → Except Stop (Int × AesdDev) → Prop
  | .ok (retval, driver), .ok (retval', driver') => retval = retval' ∧ driver.Alike driver'
  | .error stop, .error stop' => stop = stop'
  | .ok _, .error _ => False
  | .error _, .ok _ => False

theorem SameResult.refl (result : Except Stop (Int × AesdDev)) : SameResult result result := by
  cases result with
  | error stop => rfl
  | ok returned => exact ⟨rfl, rfl, rfl, rfl, rfl⟩

namespace AesdDev.Represents

variable {driver driver' : AesdDev} {log : Log}
  {held held' leaked leaked' : List (Nat × Bytes)}

theorem pending_of_lost (rep : driver.Represents log held leaked) {size : Nat}
    (lost : log.pending = .lost size) : driver.pending = [] := by
  obtain ⟨current, is, _⟩ := rep.memory
  rw [lost] at is
  unfold AesdDev.pending
  generalize driver.currentEntry = entry at is
  cases is
  rfl

/-- The log determines the device up to the choice of blocks. -/
theorem alike (rep : driver.Represents log held leaked)
    (rep' : driver'.Represents log held' leaked')
    (lockEq : driver.bufferLock = driver'.bufferLock) : driver.Alike driver' := by
  obtain ⟨_, is, _⟩ := rep.memory
  obtain ⟨_, is', _⟩ := rep'.memory
  constructor
  case held => rw [rep.held_eq_log, rep'.held_eq_log]
  case pending =>
    cases pendingEq : log.pending with
    | held bytes => rw [rep.pending_eq_log pendingEq, rep'.pending_eq_log pendingEq]
    | lost size => rw [rep.pending_of_lost pendingEq, rep'.pending_of_lost pendingEq]
  case size => rw [is.size_eq, is'.size_eq]
  case bufferLock => exact lockEq

end AesdDev.Represents

/-- The call gets as far as copying the user buffer; `locked` says whether it
finds the lock taken. -/
structure ReachesCopy (outcomes : WriteOutcomes) (buf : Option Bytes) (fPos : Int)
    (locked : Bool) : Prop where
  accepted : ∃ user, buf = some user ∧ user ≠ []
  nonneg : 0 ≤ fPos
  obtained : outcomes.lock = true
  unlocked : locked = false
  kbuf : outcomes.kbuf.isSome = true

theorem ReachesCopy.not_refused {outcomes : WriteOutcomes} {user : Bytes} {fPos : Int}
    {locked : Bool} (reaches : ReachesCopy outcomes (some user) fPos locked) :
    ¬ (fPos < 0 ∨ user.length = 0) := by
  obtain ⟨_, acceptedEq, nonempty⟩ := reaches.accepted
  cases acceptedEq
  have positive := List.length_pos_iff.mpr nonempty
  have nonneg := reaches.nonneg
  omega

/-- A call that does not get that far waits for the lock or returns, in either case
without touching the device. -/
theorem aesdWrite_of_not_reachesCopy {outcomes : WriteOutcomes} {buf : Option Bytes} {fPos : Int}
    {locked : Bool} (early : ¬ ReachesCopy outcomes buf fPos locked) :
    ∃ reply : Except Stop Int, ∀ driver : AesdDev, driver.bufferLock = locked →
      aesdWrite outcomes buf fPos driver = reply.map fun retval => (retval, driver) := by
  cases buf with
  | none => exact ⟨.ok (-einval), fun _ _ => rfl⟩
  | some user =>
      by_cases refused : fPos < 0 ∨ user.length = 0
      · simp only [aesdWrite, if_pos refused]
        exact ⟨.ok (-einval), fun _ _ => rfl⟩
      · simp only [aesdWrite, if_neg refused]
        cases obtained : outcomes.lock with
        | false => exact ⟨.ok (-erestartsys), fun _ _ => rfl⟩
        | true =>
            cases locked with
            | true =>
                refine ⟨.error .blocked, ?_⟩
                intro driver lockEq
                simp only [AesdDev.mutexLockInterruptible, lockEq, if_true]
                rfl
            | false =>
                have noKbuf : outcomes.kbuf = none := by
                  by_contra allocated
                  apply early
                  constructor
                  · refine ⟨user, rfl, ?_⟩
                    rintro rfl
                    simp at refused
                  · omega
                  · exact obtained
                  · rfl
                  · exact Option.isSome_iff_ne_none.mpr allocated
                refine ⟨.ok (-enomem), ?_⟩
                intro driver lockEq
                have released : { driver with bufferLock := false } = driver := by rw [← lockEq]
                simp only [AesdDev.mutexLockInterruptible, lockEq, noKbuf, AesdDev.kmalloc,
                  if_true, Bool.false_eq_true, if_false, bind, Except.bind]
                rw [← released]
                rfl

namespace AesdDev.Represents

variable {driver driver' : AesdDev} {log : Log}
  {held held' leaked leaked' : List (Nat × Bytes)} {outcomes : WriteOutcomes} {user : Bytes}
  {fPos : Int}

theorem aesdWrite_of_reachesCopy (rep : driver.Represents log held leaked)
    (reaches : ReachesCopy outcomes (some user) fPos driver.bufferLock) :
    ∃ driver' held' leaked',
      Driver.aesdWrite outcomes (some user) fPos driver =
        .ok ((log.write outcomes user).1, driver') ∧
      driver'.Represents (log.write outcomes user).2 held' leaked' ∧
      driver'.bufferLock = decide (outcomes.uncopied ≠ 0) := by
  obtain ⟨_, acceptedEq, nonempty⟩ := reaches.accepted
  cases acceptedEq
  obtain ⟨driver', held', leaked', returned, rep', lockEq, _⟩ :=
    rep.aesdWrite reaches.unlocked reaches.obtained nonempty reaches.nonneg
  rw [reaches.kbuf, Bool.true_and] at lockEq
  exact ⟨driver', held', leaked', returned, rep', lockEq⟩

/-- When `krealloc` fails, exactly `current_entry.buffptr` is cleared. -/
theorem aesdWrite_of_krealloc_fails (rep : driver.Represents log held leaked)
    (reaches : ReachesCopy outcomes (some user) fPos driver.bufferLock)
    (whole : outcomes.uncopied = 0)
    (fails : outcomes.krealloc = none) :
    ∃ heap', Driver.aesdWrite outcomes (some user) fPos driver =
        .ok (-enomem, { driver with
          currentEntry := ⟨none, driver.currentEntry.size⟩, heap := heap' }) ∧
      heap'.block = driver.heap.block := by
  obtain ⟨fill, kbufEq⟩ := Option.isSome_iff_exists.mp reaches.kbuf
  obtain ⟨current, _, owns⟩ := rep.memory
  let allocated : AesdDev := { driver with
    bufferLock := true, heap := driver.heap.alloc (uninitialised user.length fill) }
  have ownsAllocated : Owns allocated.heap
      ((driver.heap.next, uninitialised user.length fill) :: (held ++ current ++ leaked)) :=
    owns.alloc _
  obtain ⟨heap₁, copied, copies, owns₁, complete⟩ :=
    copyFromUser_of_owns ownsAllocated (length_uninitialised _ _) outcomes.uncopied
  rw [complete whole] at owns₁
  let filled : AesdDev := { allocated with heap := heap₁ }
  let dropped : AesdDev := { filled with currentEntry := ⟨none, driver.currentEntry.size⟩ }
  have ownsFilled :
      Owns filled.heap ((driver.heap.next, user) :: (held ++ current ++ leaked)) := owns₁
  have ownsDropped :
      Owns dropped.heap ((driver.heap.next, user) :: (held ++ current ++ leaked)) := owns₁
  have loaded : filled.load (some driver.heap.next) 0 user.length = .ok user := by
    have read := load_of_owns ownsFilled List.mem_cons_self 0 user.length (by omega)
    simpa using read
  have drops : ∀ more, filled.extendCurrentEntry driver.heap.next more none =
      .ok (false, dropped) := fun _ => rfl
  obtain ⟨heap', exited, owns'⟩ := freeMutex_of_owns rfl ownsDropped (-enomem)
  refine ⟨heap', ?_, owns'.block_unique owns⟩
  have lockTaken : driver.mutexLockInterruptible true =
      .ok (some { driver with bufferLock := true }) := by
    simp [mutexLockInterruptible, reaches.unlocked]
  have allocates : ({ driver with bufferLock := true } : AesdDev).kmalloc user.length (some fill) =
      (some driver.heap.next, allocated) := rfl
  simp only [Driver.aesdWrite, if_neg reaches.not_refused, reaches.obtained, lockTaken, kbufEq,
    bind, Except.bind]
  rw [allocates]
  simp only
  rw [copies]
  simp only [whole, ne_eq, not_true_eq_false, if_false, Driver.aesdWriteCopied, bind, Except.bind]
  rw [loaded]
  simp only [fails]
  rw [drops]
  simp only
  rw [exited, ← reaches.unlocked]

/-- The same write on two devices with the same log. -/
theorem sameResult (rep : driver.Represents log held leaked)
    (rep' : driver'.Represents log held' leaked')
    (lockEq : driver'.bufferLock = driver.bufferLock) (outcomes : WriteOutcomes)
    (buf : Option Bytes) (fPos : Int) :
    SameResult (Driver.aesdWrite outcomes buf fPos driver')
      (Driver.aesdWrite outcomes buf fPos driver) := by
  by_cases reaches : ReachesCopy outcomes buf fPos driver.bufferLock
  · obtain ⟨user, rfl, nonempty⟩ := reaches.accepted
    have reaches' : ReachesCopy outcomes (some user) fPos driver'.bufferLock := by
      rwa [lockEq]
    obtain ⟨_, _, _, returned, after, locked⟩ := rep.aesdWrite_of_reachesCopy reaches
    obtain ⟨_, _, _, returned', after', locked'⟩ := rep'.aesdWrite_of_reachesCopy reaches'
    rw [returned, returned']
    exact ⟨rfl, after'.alike after (locked'.trans locked.symm)⟩
  · obtain ⟨reply, replies⟩ := aesdWrite_of_not_reachesCopy reaches
    rw [replies driver rfl, replies driver' lockEq]
    cases reply with
    | error stop => rfl
    | ok retval => exact ⟨rfl, rep'.alike rep lockEq⟩

end AesdDev.Represents

/-! ## Leaving no trace -/

/-- If the write returns an error, the ring, the pending entry and the kernel heap
are as before, and the same write can be repeated: whatever the kernel decides
then, the repetition goes as if the write had not been tried. -/
def FailsCleanly (outcomes : WriteOutcomes) (buf : Option Bytes) (fPos : Int)
    (driver : AesdDev) : Prop :=
  ∀ retval driver', aesdWrite outcomes buf fPos driver = .ok (retval, driver') → retval < 0 →
    driver'.cBuffer = driver.cBuffer ∧ driver'.currentEntry = driver.currentEntry ∧
    driver'.heap.block = driver.heap.block ∧
    ∀ retry, SameResult (aesdWrite retry buf fPos driver') (aesdWrite retry buf fPos driver)

/-- The call gets as far as copying, and then the copy fails, or `krealloc` fails
for a pending entry that has a block. -/
def LeavesTrace (outcomes : WriteOutcomes) (buf : Option Bytes) (fPos : Int)
    (driver : AesdDev) : Prop :=
  ReachesCopy outcomes buf fPos driver.bufferLock ∧
    (outcomes.uncopied ≠ 0 ∨
      outcomes.krealloc = none ∧ driver.currentEntry.buffptr ≠ none)

theorem Log.accept_nonneg (log : Log) (fill : Nat → UInt8) (roomForRest : Bool) (user : Bytes) :
    0 ≤ (log.accept fill roomForRest user).1 := by
  unfold Log.accept
  split
  · exact Int.natCast_nonneg _
  · split <;> exact Int.natCast_nonneg _

namespace AesdDev.Represents

variable {driver : AesdDev} {log : Log} {held leaked : List (Nat × Bytes)}
  {outcomes : WriteOutcomes} {user : Bytes} {buf : Option Bytes} {fPos : Int}

/-- A failing copy keeps the lock, so that repeating the write waits for ever. -/
theorem not_failsCleanly_of_uncopied (rep : driver.Represents log held leaked)
    (reaches : ReachesCopy outcomes (some user) fPos driver.bufferLock)
    (fault : outcomes.uncopied ≠ 0) : ¬ FailsCleanly outcomes (some user) fPos driver := by
  intro clean
  obtain ⟨driver', _, _, returned, _, locked⟩ := rep.aesdWrite_of_reachesCopy reaches
  obtain ⟨fill, kbufEq⟩ := Option.isSome_iff_exists.mp reaches.kbuf
  have efaults : (log.write outcomes user).1 = -efault := by
    simp [Log.write, kbufEq, fault]
  rw [efaults] at returned
  obtain ⟨_, _, _, same⟩ := clean _ _ returned (by decide)
  have repeats := same { outcomes with uncopied := 0 }
  have reaches' : ReachesCopy { outcomes with uncopied := 0 } (some user) fPos
      driver.bufferLock :=
    ⟨reaches.accepted, reaches.nonneg, reaches.obtained, reaches.unlocked, reaches.kbuf⟩
  obtain ⟨_, _, _, succeeds, _⟩ := rep.aesdWrite_of_reachesCopy reaches'
  have waits : Driver.aesdWrite { outcomes with uncopied := 0 } (some user) fPos driver' =
      .error .blocked := by
    simp only [Driver.aesdWrite, if_neg reaches.not_refused, mutexLockInterruptible,
      reaches.obtained, locked, fault, ne_eq, not_false_eq_true, decide_true, if_true]
    rfl
  rw [waits, succeeds] at repeats
  exact repeats

/-- A failing `krealloc` clears `current_entry.buffptr`. -/
theorem failsCleanly_iff_of_krealloc_fails (rep : driver.Represents log held leaked)
    (reaches : ReachesCopy outcomes (some user) fPos driver.bufferLock)
    (whole : outcomes.uncopied = 0) (fails : outcomes.krealloc = none) :
    FailsCleanly outcomes (some user) fPos driver ↔ driver.currentEntry.buffptr = none := by
  obtain ⟨heap', returned, blockEq⟩ := rep.aesdWrite_of_krealloc_fails reaches whole fails
  constructor
  · intro clean
    obtain ⟨_, entryEq, _⟩ := clean _ _ returned (by decide)
    exact (congrArg BufferEntry.buffptr entryEq).symm
  · intro noBlock retval driver' returned' negative
    rw [returned] at returned'
    cases returned'
    have entryEq : (⟨none, driver.currentEntry.size⟩ : BufferEntry) = driver.currentEntry := by
      rw [← noBlock]
    rw [entryEq]
    refine ⟨rfl, rfl, blockEq, ?_⟩
    intro retry
    obtain ⟨current, is, owns⟩ := rep.memory
    have after : ({ driver with heap := heap' } : AesdDev).Represents log held leaked :=
      ⟨rep.ring, rep.held_eq, current, is, owns.nodup, fun ptr contents => by
        rw [blockEq, owns.block_eq_some_iff]⟩
    exact rep.sameResult after rfl retry _ _

/-- A write fails cleanly unless it leaves a trace. -/
theorem failsCleanly_iff (rep : driver.Represents log held leaked) :
    FailsCleanly outcomes buf fPos driver ↔ ¬ LeavesTrace outcomes buf fPos driver := by
  by_cases reaches : ReachesCopy outcomes buf fPos driver.bufferLock
  · obtain ⟨user, rfl, _⟩ := reaches.accepted
    by_cases whole : outcomes.uncopied = 0
    · cases granted : outcomes.krealloc with
      | none =>
          rw [rep.failsCleanly_iff_of_krealloc_fails reaches whole granted]
          simp [LeavesTrace, reaches, whole, granted]
      | some fill =>
          have noTrace : ¬ LeavesTrace outcomes (some user) fPos driver := by
            simp [LeavesTrace, whole, granted]
          refine iff_of_true ?_ noTrace
          intro retval driver' returned negative
          obtain ⟨_, _, _, returned', _⟩ := rep.aesdWrite_of_reachesCopy reaches
          obtain ⟨kbufFill, kbufEq⟩ := Option.isSome_iff_exists.mp reaches.kbuf
          have nonneg := log.accept_nonneg fill outcomes.remainder.isSome user
          rw [returned'] at returned
          cases returned
          simp only [Log.write, kbufEq, whole, granted, ne_eq, not_true_eq_false,
            if_false] at negative
          omega
    · exact iff_of_false (rep.not_failsCleanly_of_uncopied reaches whole)
        (not_not_intro ⟨reaches, Or.inl whole⟩)
  · have noTrace : ¬ LeavesTrace outcomes buf fPos driver := fun trace => reaches trace.1
    refine iff_of_true ?_ noTrace
    intro retval driver' returned _
    obtain ⟨reply, replies⟩ := aesdWrite_of_not_reachesCopy reaches
    rw [replies driver rfl] at returned
    obtain ⟨_, _, unchanged⟩ := map_eq_ok_iff.mp returned
    cases unchanged
    exact ⟨rfl, rfl, rfl, fun _ => SameResult.refl _⟩

end AesdDev.Represents

/-- Whatever calls were made before and however they failed, the next write fails
cleanly if and only if it does not leave a trace. -/
theorem aesdWrite_failsCleanly_iff {driver : AesdDev}
    (reachable : Reachable AesdDev.call aesdInitModule driver) (outcomes : WriteOutcomes)
    (buf : Option Bytes) (fPos : Int) :
    FailsCleanly outcomes buf fPos driver ↔ ¬ LeavesTrace outcomes buf fPos driver := by
  obtain ⟨log, held, leaked, rep⟩ := AesdDev.represents_of_calls reachable
  exact rep.failsCleanly_iff

/-- Behind a pending `ab` there is no memory for `kbuf`. -/
theorem aesdWrite_failsCleanly_iff_pending :
    ∃ driver, exec AesdDev.call [.write WriteOutcomes.success (some [97, 98]) 0] aesdInitModule =
        some driver ∧
      driver.pending = [97, 98] ∧
      FailsCleanly { WriteOutcomes.success with kbuf := none } (some [99, 10]) 0 driver := by
  obtain ⟨driver, executed, pending⟩ : ∃ driver,
      exec AesdDev.call [.write WriteOutcomes.success (some [97, 98]) 0] aesdInitModule =
        some driver ∧ driver.pending = [97, 98] := ⟨_, rfl, by decide⟩
  refine ⟨driver, executed, pending, (aesdWrite_failsCleanly_iff ⟨_, executed⟩ _ _ _).mpr ?_⟩
  rintro ⟨reaches, _⟩
  exact Bool.noConfusion reaches.kbuf

/-- A write of `c\n` behind a pending `ab` that fails in `krealloc` returns
`-ENOMEM`.  The bytes `ab` stay in a block nothing refers to, and the repeated
write commits two bytes of uninitialised memory in their place. -/
theorem aesdWrite_loses_pending :
    ∃ driver driver' driver'',
      exec AesdDev.call [.write WriteOutcomes.success (some [97, 98]) 0] aesdInitModule =
        some driver ∧
      aesdWrite { WriteOutcomes.success with krealloc := none } (some [99, 10]) 0 driver =
        .ok (-enomem, driver') ∧
      driver'.currentEntry = ⟨none, 2⟩ ∧ driver'.heap.live = [[97, 98]] ∧
      aesdWrite { WriteOutcomes.success with krealloc := some fun _ => 85 } (some [99, 10]) 0
        driver' = .ok (2, driver'') ∧
      driver''.held = [[85, 85, 99, 10]] ∧
      ¬ FailsCleanly { WriteOutcomes.success with krealloc := none } (some [99, 10]) 0 driver := by
  refine ⟨_, _, _, rfl, rfl, rfl, by decide, rfl, by decide, ?_⟩
  intro clean
  obtain ⟨_, entryEq, _⟩ := clean (-enomem) _ rfl (by decide)
  exact absurd entryEq (by decide)

end Aesd.Driver
