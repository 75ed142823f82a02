import Aesd.Driver.LockBalance

/-!
# Who owns kernel memory

Between calls the held entries and the pending one own all kernel memory the
driver has allocated, one block each.  Ownership passes from `kbuf` to the
pending entry, from there to a slot of the ring, and with an evicted entry back
to `aesd_write`, which frees the block.  Only a failing `krealloc` breaks this.

A free of anything but a live block and an access outside of one end a call with
`Stop.badAccess`, so that calls which do not end this way free every block at
most once and stay inside live blocks.
-/

namespace Aesd.Driver

open Aesd.Memory.Heap
open Aesd.Transition
open Aesd.Word

/-! ## Accesses -/

/-- The computation does not stop for the given reason. -/
def Avoids {α : Type} (stop : Stop) (result : Except Stop α) : Prop :=
  result ≠ .error stop

namespace Avoids

variable {α β : Type} {stop : Stop}

theorem ok (value : α) : Avoids stop (.ok value) := by
  simp [Avoids]

theorem bind {result : Except Stop α} {rest : α → Except Stop β} (first : Avoids stop result)
    (second : ∀ value, result = .ok value → Avoids stop (rest value)) :
    Avoids stop (result >>= rest) := by
  cases result with
  | error other => simpa [Avoids, Bind.bind, Except.bind] using first
  | ok value => exact second value rfl

theorem map {result : Except Stop α} (function : α → β) (first : Avoids stop result) :
    Avoids stop (result.map function) := by
  cases result with
  | error other => simpa [Avoids, Except.map] using first
  | ok value => exact ok _

end Avoids

theorem FailsAtMost.avoids {α : Type} {stop other : Stop} {result : Except Stop α}
    (failsAtMost : FailsAtMost other result) (differs : stop ≠ other) : Avoids stop result := by
  rcases failsAtMost with rfl | ⟨value, rfl⟩
  · simp [Avoids, differs.symm]
  · exact Avoids.ok value

theorem AesdDev.mutexLockInterruptible_avoids {stop : Stop} (differs : stop ≠ .blocked)
    (driver : AesdDev) (obtained : Bool) :
    Avoids stop (driver.mutexLockInterruptible obtained) := by
  unfold mutexLockInterruptible
  split
  · split <;> simp [Avoids, differs.symm]
  · exact Avoids.ok _

theorem AesdDev.mutexUnlock_avoids {stop : Stop} (differs : stop ≠ .badUnlock)
    (driver : AesdDev) : Avoids stop driver.mutexUnlock := by
  unfold mutexUnlock
  split <;> simp [Avoids, differs.symm]

/-- The `SEEK_END` loop stays inside the array. -/
theorem totalSize_avoids {stop : Stop} (buffer : CircularBuffer) :
    Avoids stop (totalSize buffer) := by
  have looped := AesdDev.Represents.sizeLoop_eq buffer
    (List.range aesdcharMaxWriteOperationsSupported) (by simp) 0
  have computed : totalSize buffer = .ok _ := looped
  rw [computed]
  exact Avoids.ok _

/-- A seek accesses the slots of the ring only. -/
theorem aesdLlseek_avoids {stop : Stop} (notBlocked : stop ≠ .blocked)
    (notUnlock : stop ≠ .badUnlock) (lock : Bool) (off whence fPos : Int) (driver : AesdDev) :
    Avoids stop (aesdLlseek lock off whence fPos driver) := by
  apply (driver.mutexLockInterruptible_avoids notBlocked lock).bind
  intro locked _
  cases locked with
  | none => exact Avoids.ok _
  | some locked =>
      apply Avoids.bind
      · unfold llseekTarget
        split
        · exact Avoids.ok _
        · exact Avoids.ok _
        · exact (totalSize_avoids _).bind fun _ _ => Avoids.ok _
        · exact Avoids.ok _
      · intro target _
        cases target with
        | none => exact Avoids.ok _
        | some newpos =>
            simp only
            split
            · exact Avoids.ok _
            · exact (locked.mutexUnlock_avoids notUnlock).bind fun _ _ => Avoids.ok _

/-- So does an ioctl, apart from what its walk does. -/
theorem aesdIoctl_avoids {stop : Stop} (notBlocked : stop ≠ .blocked)
    (notUnlock : stop ≠ .badUnlock) (outcomes : IoctlOutcomes) (cmd : Nat) (arg : AesdSeekto)
    (fPos : Int) (driver : AesdDev) (walks : Avoids stop (ioctlSeek driver.cBuffer arg fPos)) :
    Avoids stop (aesdIoctl outcomes cmd arg fPos driver) := by
  unfold aesdIoctl
  split
  · exact Avoids.ok _
  · split
    · exact Avoids.ok _
    · apply (driver.mutexLockInterruptible_avoids notBlocked outcomes.lock).bind
      intro locked lockTaken
      cases locked with
      | none => exact Avoids.ok _
      | some locked =>
          have sameBuffer : locked.cBuffer = driver.cBuffer := by
            rw [AesdDev.SameMemory.of_lock lockTaken]
          rw [← sameBuffer] at walks
          apply walks.bind
          exact fun _ _ =>
            (locked.mutexUnlock_avoids notUnlock).bind fun _ _ => Avoids.ok _

/-- The bytes from `offset` to the end of the entry, as `aesd_read` counts them, lie
inside the entry. -/
def BufferEntry.Covers (entry : BufferEntry) (offset : Nat) : Prop :=
  0 < entry.size ∧ offset + toSizeT ((entry.size : Int) - offset) ≤ entry.size

/-- The entry found covers the offset, whatever the sizes of the entries add up to. -/
theorem findEntryLoop_covers (buffer : CircularBuffer) (charOffset remaining : Nat) :
    ∀ i cumulativeSize, cumulativeSize ≤ charOffset → cumulativeSize < 2 ^ 64 →
      ∀ index offset,
        findEntryLoop buffer charOffset remaining i cumulativeSize = .ok (some (index, offset)) →
        (buffer.entry (Fin.ofNat 10 index)).Covers offset := by
  induction remaining with
  | zero =>
      intro i cumulativeSize _ _ index offset found
      cases found
  | succ remaining ih =>
      intro i cumulativeSize below isSizeT index offset found
      have slotLt : (buffer.outOffs + i) % 10 < 10 := Nat.mod_lt _ (by decide)
      simp only [findEntryLoop, aesdcharMaxWriteOperationsSupported,
        buffer.entryAt_of_lt _ slotLt, bind, Except.bind] at found
      split at found
      · rename_i reached
        cases found
        unfold BufferEntry.Covers
        generalize (buffer.entry (Fin.ofNat 10 ((buffer.outOffs + i) % 10))).size = size
          at reached ⊢
        unfold toSizeT at reached ⊢
        omega
      · rename_i notReached
        refine ih _ _ (Nat.not_lt.mp notReached) ?_ index offset found
        unfold toSizeT
        omega

theorem find_covers (buffer : CircularBuffer) {charOffset index offset : Nat}
    (found : aesdCircularBufferFindEntryOffsetForFpos buffer charOffset =
      .ok (some (index, offset))) : (buffer.entry (Fin.ofNat 10 index)).Covers offset := by
  unfold aesdCircularBufferFindEntryOffsetForFpos at found
  split at found
  · cases found
  · exact findEntryLoop_covers buffer charOffset _ 0 0 (Nat.zero_le _) (by decide) index offset
      found

namespace AesdDev.Represents

variable {driver : AesdDev} {log : Log} {held leaked : List (Nat × Bytes)}

/-- The bytes a read copies lie inside the block of the entry found. -/
theorem aesdRead_avoids (rep : driver.Represents log held leaked) (outcomes : ReadOutcomes)
    (bufIsNull : Bool) (count : Nat) (fPos : Int) :
    Avoids .badAccess (Driver.aesdRead outcomes bufIsNull count fPos driver) := by
  unfold Driver.aesdRead
  split
  · exact Avoids.ok _
  · apply (driver.mutexLockInterruptible_avoids (by simp) outcomes.lock).bind
    intro taken lockTaken
    cases taken with
    | none => exact Avoids.ok _
    | some locked =>
        have repLocked := (SameMemory.of_lock lockTaken).represents rep
        obtain ⟨found, searched, bounded⟩ := find_ok locked.cBuffer (toSizeT fPos)
        simp only [searched]
        cases found with
        | none => exact (locked.mutexUnlock_avoids (by simp)).bind fun _ _ => Avoids.ok _
        | some location =>
            obtain ⟨index, offset⟩ := location
            have indexLt : index < 10 := bounded _ rfl
            have inside := find_covers locked.cBuffer searched
            have slot := locked.cBuffer.entryAt_of_lt index indexLt
            simp only [slot, bind, Except.bind]
            rcases repLocked.ring.slot_cases (Fin.ofNat 10 index) with inHeld | unset
            · obtain ⟨⟨ptr, cmd⟩, member, cellEq⟩ := List.mem_map.mp inHeld
              rw [← cellEq] at inside ⊢
              obtain ⟨current, _, owns⟩ := repLocked.memory
              have isLive : (ptr, cmd) ∈ held ++ current ++ leaked := by simp [member]
              have atMost (available : Nat) :
                  (if available > count then count else available) ≤ available := by
                split <;> omega
              have within := (Nat.add_le_add_left (atMost _) offset).trans inside.2
              rw [entryOfCell_buffptr, load_of_owns owns isLive offset _ within]
              apply (locked.mutexUnlock_avoids (by simp)).bind
              intro unlocked _
              split <;> exact Avoids.ok _
            · rw [unset] at inside
              exact absurd inside.1 (Nat.lt_irrefl 0)

/-- A write returns unless it waits for the lock. -/
theorem aesdWrite_avoids {stop : Stop} (notBlocked : stop ≠ .blocked)
    (rep : driver.Represents log held leaked) (outcomes : WriteOutcomes) (buf : Option Bytes)
    (fPos : Int) : Avoids stop (Driver.aesdWrite outcomes buf fPos driver) := by
  cases buf with
  | none => exact Avoids.ok _
  | some user =>
      by_cases refused : fPos < 0 ∨ user.length = 0
      · simp only [Driver.aesdWrite, if_pos refused]
        exact Avoids.ok _
      · cases obtained : outcomes.lock with
        | false =>
            simp only [Driver.aesdWrite, if_neg refused, obtained]
            exact Avoids.ok _
        | true =>
            cases locked : driver.bufferLock with
            | true =>
                simp only [Driver.aesdWrite, if_neg refused, obtained, mutexLockInterruptible,
                  locked, if_true]
                simp [Avoids, Bind.bind, Except.bind, notBlocked.symm]
            | false =>
                have nonempty : user ≠ [] := by
                  rintro rfl
                  simp at refused
                obtain ⟨driver', _, _, returned, _⟩ :=
                  rep.aesdWrite locked obtained nonempty (show 0 ≤ fPos by omega)
                rw [returned]
                exact Avoids.ok _

/-- No call leaves the live blocks. -/
theorem perform_avoids (rep : driver.Represents log held leaked) (call : DriverCall) :
    driver.perform call ≠ .error .badAccess := by
  cases call with
  | read outcomes bufIsNull count fPos => exact (rep.aesdRead_avoids _ _ _ _).map _
  | write outcomes buf fPos => exact (aesdWrite_avoids (by simp) rep _ _ _).map _
  | llseek lock off whence fPos => exact (aesdLlseek_avoids (by simp) (by simp) _ _ _ _ _).map _
  | ioctl outcomes cmd arg fPos =>
      have walks := (ioctlSeek_failsAtMost driver.cBuffer arg fPos).avoids
        (show Stop.badAccess ≠ .badIndex by simp)
      exact (aesdIoctl_avoids (by simp) (by simp) outcomes cmd arg fPos driver walks).map _

end AesdDev.Represents

/-! ## Ownership -/

namespace AesdDev

/-- The pointers of the held entries and of the pending one. -/
def pointers (driver : AesdDev) : List Nat :=
  driver.cBuffer.heldEntries.filterMap BufferEntry.buffptr ++ driver.currentEntry.buffptr.toList

/-- The held entries and the pending one own all kernel memory. -/
structure OwnsHeap (driver : AesdDev) : Prop where
  live_iff : ∀ ptr, (driver.heap.block ptr).isSome = true ↔ ptr ∈ driver.pointers
  nodup : driver.pointers.Nodup
  /-- Every held entry has a block. -/
  isSome_buffptr : ∀ entry ∈ driver.cBuffer.heldEntries, entry.buffptr.isSome = true
  /-- No entry is longer than its block. -/
  size_le : ∀ entry ∈ driver.currentEntry :: driver.cBuffer.heldEntries, ∀ ptr contents,
    entry.buffptr = some ptr → driver.heap.block ptr = some contents →
      entry.size ≤ contents.length

end AesdDev

theorem CurrentEntry.toList_buffptr {entry : BufferEntry} {pending : Pending}
    {current : List (Nat × Bytes)} (is : CurrentEntry entry pending current) :
    entry.buffptr.toList = current.map Prod.fst := by
  cases is <;> rfl

/-- An entry with a block is as long as the block. -/
theorem CurrentEntry.cell_of_buffptr {entry : BufferEntry} {pending : Pending}
    {current : List (Nat × Bytes)} (is : CurrentEntry entry pending current) {ptr : Nat}
    (ptrEq : entry.buffptr = some ptr) :
    ∃ bytes, (ptr, bytes) ∈ current ∧ entry.size = bytes.length := by
  cases is with
  | empty => cases ptrEq
  | held ptr bytes _ =>
      cases ptrEq
      exact ⟨bytes, by simp, rfl⟩
  | lost size => cases ptrEq

theorem AesdDev.Represents.ownsHeap {driver : AesdDev} {log : Log} {held : List (Nat × Bytes)}
    (rep : driver.Represents log held []) : driver.OwnsHeap := by
  obtain ⟨current, is, owns⟩ := rep.memory
  rw [List.append_nil] at owns
  have entriesEq := rep.ring.heldEntries_eq
  have pointersEq : driver.pointers = (held ++ current).map Prod.fst := by
    rw [pointers, entriesEq, List.map_append, is.toList_buffptr, List.filterMap_map]
    congr 1
    exact congrFun List.filterMap_eq_map held
  have sizeEq : ∀ entry ∈ driver.currentEntry :: driver.cBuffer.heldEntries, ∀ ptr,
      entry.buffptr = some ptr → ∃ bytes, (ptr, bytes) ∈ held ++ current ∧
        entry.size = bytes.length := by
    intro entry member ptr ptrEq
    rcases List.mem_cons.mp member with rfl | inRing
    · obtain ⟨bytes, inCurrent, lengthEq⟩ := is.cell_of_buffptr ptrEq
      exact ⟨bytes, List.mem_append_right _ inCurrent, lengthEq⟩
    · rw [entriesEq] at inRing
      obtain ⟨cell, inHeld, rfl⟩ := List.mem_map.mp inRing
      cases ptrEq
      exact ⟨cell.2, List.mem_append_left _ inHeld, rfl⟩
  constructor
  case live_iff =>
    intro ptr
    rw [pointersEq, owns.isSome_block_iff]
  case nodup =>
    rw [pointersEq]
    exact owns.nodup
  case isSome_buffptr =>
    intro entry member
    rw [entriesEq] at member
    obtain ⟨cell, _, rfl⟩ := List.mem_map.mp member
    rfl
  case size_le =>
    intro entry member ptr contents ptrEq live
    obtain ⟨bytes, cellMem, lengthEq⟩ := sizeEq entry member ptr ptrEq
    rw [owns.block_of_mem cellMem] at live
    obtain rfl := Option.some.inj live
    exact Nat.le_of_eq lengthEq

/-- In every run of calls none of which fails in `krealloc`, the held entries and the
pending one own all kernel memory, and the next call, whichever it is, frees
live blocks only and stays inside them. -/
theorem driver_ownsHeap {calls : List DriverCall} {driver : AesdDev}
    (run : Run AesdDev.call (fun _ call => call.KreallocSucceeds) aesdInitModule calls driver) :
    driver.OwnsHeap ∧ ∀ call, driver.perform call ≠ .error .badAccess := by
  have represents : ∃ log held, driver.Represents log held [] := by
    refine run.invariant (fun _ driver => ∃ log held, driver.Represents log held [])
      ⟨Log.empty, [], AesdDev.represents_init⟩ ?_
    rintro _ middle call target ⟨log, held, rep⟩ grows called
    obtain ⟨log', held', leaked', rep', noLeak⟩ := rep.of_perform (AesdDev.perform_of_call called)
    rw [noLeak grows] at rep'
    exact ⟨log', held', rep'⟩
  obtain ⟨log, held, rep⟩ := represents
  exact ⟨rep.ownsHeap, rep.perform_avoids⟩

/-- Writes of `a\nb` and `c\n`, the second one without memory for `kbuf`. -/
def secondWriteFails : List DriverCall :=
  [.write WriteOutcomes.success (some [97, 10, 98]) 0,
    .write { WriteOutcomes.success with kbuf := none } (some [99, 10]) 3]

theorem driver_ownsHeap_pending :
    ∃ driver, exec AesdDev.call secondWriteFails aesdInitModule = some driver ∧
      driver.OwnsHeap ∧ ∀ call, driver.perform call ≠ .error .badAccess := by
  have grows : ∀ call ∈ secondWriteFails, call.KreallocSucceeds := by
    intro call member
    simp only [secondWriteFails, List.mem_cons, List.not_mem_nil, or_false] at member
    rcases member with rfl | rfl <;> rfl
  obtain ⟨driver, executed⟩ :
      ∃ driver, exec AesdDev.call secondWriteFails aesdInitModule = some driver :=
    ⟨_, rfl⟩
  exact ⟨driver, executed,
    driver_ownsHeap (run_of_forall executed fun call member _ => grows call member)⟩

end Aesd.Driver
