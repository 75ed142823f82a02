import Aesd.Driver.CircularBuffer

/-!
# The file operations of the driver

The four entry points of `main.c` that touch the device, over the device state
and the kernel heap its pointers refer to.  What the kernel decides is an
argument of each call: whether the lock is obtained or the wait interrupted,
which allocations succeed and what the fresh memory contains, and how many
bytes a copy to or from user space leaves uncopied.

The virtual file system calls these functions with non-null `filp` and `f_pos`,
so that only the user buffer can be null.  A size is the length of a block of
kernel memory or the number of bytes about to be appended to one, hence it does
not wrap; sums over several blocks and file positions are computed in machine
arithmetic.
-/

namespace Aesd.Driver

open Aesd.Memory

/-! ## Machine integers and error numbers -/

/-- Conversion to `loff_t`, `long` and `ssize_t`. -/
def toInt64 (value : Int) : Int :=
  Int.bmod value (2 ^ 64)

/-- Conversion to `int`. -/
def toInt32 (value : Int) : Int :=
  Int.bmod value (2 ^ 32)

theorem toInt64_of_lt {value : Int} (nonneg : 0 ≤ value) (bound : value < 2 ^ 63) :
    toInt64 value = value := by
  unfold toInt64
  rw [Int.bmod_eq_of_le] <;> omega

/-- The upper half of the 64 bits is negative. -/
theorem toInt64_of_ge {value : Int} (lower : 2 ^ 63 ≤ value) (upper : value < 2 ^ 64) :
    toInt64 value = value - 2 ^ 64 := by
  unfold toInt64
  rw [← Int.sub_bmod_right, Int.bmod_eq_of_le] <;> omega

/-- Once reduced to 64 bits, a sum that is not a file position is negative. -/
theorem toInt64_neg_iff {sum : Int} (lower : -2 ^ 63 ≤ sum) (upper : sum < 2 ^ 64) :
    toInt64 sum < 0 ↔ sum < 0 ∨ 2 ^ 63 ≤ sum := by
  by_cases small : sum < 2 ^ 63
  · unfold toInt64
    rw [Int.bmod_eq_of_le (by omega) (by omega)]
    omega
  · rw [toInt64_of_ge (by omega) upper]
    omega

/-- `ENOMEM` -/
def enomem : Int := 12

/-- `EFAULT` -/
def efault : Int := 14

/-- `EINVAL` -/
def einval : Int := 22

/-- `ENOTTY` -/
def enotty : Int := 25

/-- `ERESTARTSYS` -/
def erestartsys : Int := 512

/-- The byte `'\n'`. -/
def newline : UInt8 := 10

/-- Memory of the given size handed out by the allocator; `fill` is what it
happens to contain. -/
def uninitialised (size : Nat) (fill : Nat → UInt8) : Bytes :=
  (List.range size).map fill

@[simp]
theorem length_uninitialised (size : Nat) (fill : Nat → UInt8) :
    (uninitialised size fill).length = size := by
  simp [uninitialised]

/-! ## The device -/

/-- `struct aesd_dev`, with the kernel heap its pointers refer to.  The lock is
a flag that says whether some call holds it. -/
structure AesdDev where
  currentEntry : BufferEntry
  cBuffer : CircularBuffer
  bufferLock : Bool
  heap : Heap UInt8

/-- The device as `aesd_init_module` leaves it. -/
def aesdInitModule : AesdDev where
  currentEntry := BufferEntry.zero
  cBuffer := aesdCircularBufferInit
  bufferLock := false
  heap := Heap.empty

namespace AesdDev

/-- `mutex_lock_interruptible`: undefined result of the inner option when a
signal interrupts the wait. -/
def mutexLockInterruptible (driver : AesdDev) (obtained : Bool) :
    Except Stop (Option AesdDev) :=
  if obtained then
    if driver.bufferLock then
      .error .blocked
    else
      .ok (some { driver with bufferLock := true })
  else
    .ok none

/-- `mutex_unlock` -/
def mutexUnlock (driver : AesdDev) : Except Stop AesdDev :=
  if driver.bufferLock then
    .ok { driver with bufferLock := false }
  else
    .error .badUnlock

/-- `kmalloc`: null unless an outcome says what the new block contains. -/
def kmalloc (driver : AesdDev) (size : Nat) (outcome : Option (Nat → UInt8)) :
    Option Nat × AesdDev :=
  match outcome with
  | none => (none, driver)
  | some fill =>
      (some driver.heap.next,
        { driver with heap := driver.heap.alloc (uninitialised size fill) })

/-- `kfree` -/
def kfree (driver : AesdDev) (ptr : Option Nat) : Except Stop AesdDev :=
  match ptr with
  | none => .ok driver
  | some ptr =>
      match driver.heap.free ptr with
      | none => .error .badAccess
      | some heap => .ok { driver with heap := heap }

/-- `krealloc`: the old contents, as far as they fit, followed by memory as the
allocator hands it out.  On failure the old block stays. -/
def krealloc (driver : AesdDev) (ptr : Option Nat) (size : Nat)
    (outcome : Option (Nat → UInt8)) : Except Stop (Option Nat × AesdDev) :=
  match outcome, ptr with
  | none, _ => .ok (none, driver)
  | some fill, none => .ok (driver.kmalloc size (some fill))
  | some fill, some old =>
      match driver.heap.block old with
      | none => .error .badAccess
      | some contents => do
          let block := contents.take size ++ (uninitialised size fill).drop contents.length
          let driver' ← { driver with heap := driver.heap.alloc block }.kfree (some old)
          pure (some driver.heap.next, driver')

/-- Read bytes of a kernel block. -/
def load (driver : AesdDev) (ptr : Option Nat) (offset length : Nat) :
    Except Stop Bytes :=
  match ptr.bind fun ptr => driver.heap.load ptr offset length with
  | none => .error .badAccess
  | some bytes => .ok bytes

/-- `memcpy` into a kernel block. -/
def memcpy (driver : AesdDev) (ptr offset : Nat) (bytes : Bytes) :
    Except Stop AesdDev :=
  match driver.heap.store ptr offset bytes with
  | none => .error .badAccess
  | some heap => .ok { driver with heap := heap }

/-- `copy_from_user` into a kernel block; the uncopied tail is zeroed. -/
def copyFromUser (driver : AesdDev) (ptr : Nat) (user : Bytes) (uncopied : Nat) :
    Except Stop AesdDev :=
  driver.memcpy ptr 0
    (user.take (user.length - uncopied) ++
      List.replicate (user.length - (user.length - uncopied)) 0)

end AesdDev

/-! ## `aesd_read` -/

/-- What the kernel decides during one `aesd_read`. -/
structure ReadOutcomes where
  lock : Bool
  uncopied : Nat

/-- The return value, the bytes that reached user space, the file position and
the device after a call. -/
structure ReadResult where
  retval : Int
  delivered : Bytes
  fPos : Int
  driver : AesdDev

/-- `aesd_read` -/
def aesdRead (outcomes : ReadOutcomes) (bufIsNull : Bool) (count : Nat) (fPos : Int)
    (driver : AesdDev) : Except Stop ReadResult :=
  if bufIsNull ∨ fPos < 0 ∨ count = 0 then
    .ok ⟨-einval, [], fPos, driver⟩
  else do
    match ← driver.mutexLockInterruptible outcomes.lock with
    | none => pure ⟨-erestartsys, [], fPos, driver⟩
    | some driver =>
        match ← aesdCircularBufferFindEntryOffsetForFpos driver.cBuffer (toSizeT fPos) with
        | none => do
            let driver ← driver.mutexUnlock
            pure ⟨0, [], fPos, driver⟩
        | some (index, entryOffset) => do
            let entry ← driver.cBuffer.entryAt index
            let available := toSizeT ((entry.size : Int) - entryOffset)
            let bytesToCopy := if available > count then count else available
            let bytes ← driver.load entry.buffptr entryOffset bytesToCopy
            let driver ← driver.mutexUnlock
            if outcomes.uncopied ≠ 0 then
              pure ⟨-efault, bytes.take (bytesToCopy - outcomes.uncopied), fPos, driver⟩
            else
              pure ⟨bytesToCopy, bytes, toInt64 (fPos + bytesToCopy), driver⟩

/-! ## `aesd_write` -/

/-- What the kernel decides during one `aesd_write`: the lock, the allocation
of `kbuf`, the copy from user space, the enlargement of the current entry and
the allocation for the bytes behind the newline. -/
structure WriteOutcomes where
  lock : Bool
  kbuf : Option (Nat → UInt8)
  uncopied : Nat
  krealloc : Option (Nat → UInt8)
  remainder : Option (Nat → UInt8)

namespace AesdDev

/-- The label `free_kbuf`. -/
def freeKbuf (driver : AesdDev) (kbuf : Option Nat) (retval : Int) :
    Except Stop (Int × AesdDev) := do
  let driver ← driver.kfree kbuf
  pure (retval, driver)

/-- The label `free_mutex`, which falls through to `free_kbuf`. -/
def freeMutex (driver : AesdDev) (kbuf : Option Nat) (retval : Int) :
    Except Stop (Int × AesdDev) := do
  let driver ← driver.mutexUnlock
  driver.freeKbuf kbuf retval

end AesdDev

namespace AesdDev

/-- Enlarge the current entry and append the first `currentCmdBytes` bytes of
`kbuf` to it.  When `krealloc` fails, `buffptr` is null and `size` is kept. -/
def extendCurrentEntry (driver : AesdDev) (kbuf currentCmdBytes : Nat)
    (outcome : Option (Nat → UInt8)) : Except Stop (Bool × AesdDev) := do
  match ← driver.krealloc driver.currentEntry.buffptr
      (driver.currentEntry.size + currentCmdBytes) outcome with
  | (none, driver) =>
      pure (false, { driver with currentEntry := ⟨none, driver.currentEntry.size⟩ })
  | (some ptr, driver) => do
      let cmd ← driver.load (some kbuf) 0 currentCmdBytes
      let driver ← driver.memcpy ptr driver.currentEntry.size cmd
      pure (true, { driver with
        currentEntry := ⟨some ptr, driver.currentEntry.size + currentCmdBytes⟩ })

/-- Push the current entry into the ring, free the block of an overwritten
entry and reset the current entry. -/
def pushCurrentEntry (driver : AesdDev) : Except Stop AesdDev := do
  let (overwrittenBuffptr, cBuffer) ←
    aesdCircularBufferAddEntry driver.cBuffer driver.currentEntry
  let driver ← { driver with cBuffer := cBuffer }.kfree overwrittenBuffptr
  pure { driver with currentEntry := BufferEntry.zero }

/-- Make the bytes of `kbuf` behind the command the new current entry. -/
def startNextEntry (driver : AesdDev) (kbuf currentCmdBytes nextCmdBytes : Nat)
    (outcome : Option (Nat → UInt8)) : Except Stop (Bool × AesdDev) :=
  match driver.kmalloc nextCmdBytes outcome with
  | (none, driver) => .ok (false, driver)
  | (some ptr, driver) => do
      let rest ← driver.load (some kbuf) currentCmdBytes nextCmdBytes
      let driver ← driver.memcpy ptr 0 rest
      pure (true, { driver with currentEntry := ⟨some ptr, nextCmdBytes⟩ })

end AesdDev

/-- The part of `aesd_write` behind the copy from user space. -/
def aesdWriteCopied (outcomes : WriteOutcomes) (kbuf count : Nat) (driver : AesdDev) :
    Except Stop (Int × AesdDev) := do
  let text ← driver.load (some kbuf) 0 count
  let newlinePos := text.idxOf? newline
  let currentCmdBytes := match newlinePos with
    | some position => position + 1
    | none => count
  let nextCmdBytes := count - currentCmdBytes
  match ← driver.extendCurrentEntry kbuf currentCmdBytes outcomes.krealloc with
  | (false, driver) => driver.freeMutex (some kbuf) (-enomem)
  | (true, driver) =>
      if newlinePos.isSome then do
        let driver ← driver.pushCurrentEntry
        if nextCmdBytes > 0 then do
          match ← driver.startNextEntry kbuf currentCmdBytes nextCmdBytes
              outcomes.remainder with
          | (false, driver) => driver.freeMutex (some kbuf) currentCmdBytes
          | (true, driver) => driver.freeMutex (some kbuf) count
        else
          driver.freeMutex (some kbuf) currentCmdBytes
      else
        driver.freeMutex (some kbuf) currentCmdBytes

/-- `aesd_write`; the user buffer is null or holds the `count` bytes passed. -/
def aesdWrite (outcomes : WriteOutcomes) (buf : Option Bytes) (fPos : Int)
    (driver : AesdDev) : Except Stop (Int × AesdDev) :=
  match buf with
  | none => .ok (-einval, driver)
  | some user =>
      if fPos < 0 ∨ user.length = 0 then
        .ok (-einval, driver)
      else do
        match ← driver.mutexLockInterruptible outcomes.lock with
        | none => pure (-erestartsys, driver)
        | some driver =>
            match driver.kmalloc user.length outcomes.kbuf with
            | (none, driver) => driver.freeMutex none (-enomem)
            | (some kbuf, driver) => do
                let driver ← driver.copyFromUser kbuf user outcomes.uncopied
                if outcomes.uncopied ≠ 0 then
                  -- the source jumps past `free_mutex` here
                  driver.freeKbuf (some kbuf) (-efault)
                else
                  aesdWriteCopied outcomes kbuf user.length driver

/-! ## `aesd_llseek` -/

/-- The return value, the file position and the device after a seek. -/
structure SeekResult where
  retval : Int
  fPos : Int
  driver : AesdDev

/-- The `SEEK_END` loop over all ten slots. -/
def totalSize (buffer : CircularBuffer) : Except Stop Nat :=
  (List.range aesdcharMaxWriteOperationsSupported).foldlM
    (fun total index => do
      let entry ← buffer.entryAt index
      pure (toSizeT (total + entry.size : Nat))) 0

/-- The position `aesd_llseek` computes, undefined for a `whence` other than
`SEEK_SET`, `SEEK_CUR` and `SEEK_END`. -/
def llseekTarget (buffer : CircularBuffer) (fPos off whence : Int) :
    Except Stop (Option Int) :=
  match whence with
  | 0 => .ok (some off)
  | 1 => .ok (some (toInt64 (fPos + off)))
  | 2 => do
      let total ← totalSize buffer
      pure (some (toInt64 (total + off)))
  | _ => .ok none

/-- `aesd_llseek` -/
def aesdLlseek (lock : Bool) (off whence fPos : Int) (driver : AesdDev) :
    Except Stop SeekResult := do
  match ← driver.mutexLockInterruptible lock with
  | none => pure ⟨-einval, fPos, driver⟩
  | some driver =>
      match ← llseekTarget driver.cBuffer fPos off whence with
      | none => pure ⟨-einval, fPos, driver⟩
      | some newpos =>
          if newpos < 0 then
            pure ⟨-einval, fPos, driver⟩
          else do
            let driver ← driver.mutexUnlock
            pure ⟨newpos, newpos, driver⟩

/-! ## `aesd_ioctl` -/

/-- `struct aesd_seekto` -/
structure AesdSeekto where
  writeCmd : UInt32
  writeCmdOffset : UInt32
  deriving DecidableEq

/-- `AESDCHAR_IOCSEEKTO`, that is `_IOWR(0x16, 1, struct aesd_seekto)`. -/
def aesdcharIocseekto : Nat := 0xC0081601

/-- What the kernel decides during one `aesd_ioctl`. -/
structure IoctlOutcomes where
  lock : Bool
  uncopied : Nat

/-- The loop of `aesd_ioctl` after its first `iterations` iterations.  The
counter is an `int`, and the sum that indexes the array is one too. -/
def seekSum (buffer : CircularBuffer) : Nat → Except Stop Int
  | 0 => .ok 0
  | iterations + 1 => do
      let retval ← seekSum buffer iterations
      let entry ← buffer.entryAt
        (Int.tmod (toInt32 (buffer.outOffs + toInt32 iterations))
          aesdcharMaxWriteOperationsSupported)
      pure (toInt64 (retval + entry.size))

/-- The part of `aesd_ioctl` behind the check of the command index. -/
def ioctlWalk (buffer : CircularBuffer) (seekCmd : AesdSeekto) (fPos : Int) :
    Except Stop (Int × Int) := do
  let retval ← seekSum buffer seekCmd.writeCmd.toNat
  let entry ← buffer.entryAt
    ((buffer.outOffs + seekCmd.writeCmd.toNat) % 2 ^ 32 %
      aesdcharMaxWriteOperationsSupported : Nat)
  if seekCmd.writeCmdOffset.toNat > entry.size then
    pure (-einval, fPos)
  else
    let retval := toInt64 (retval + seekCmd.writeCmdOffset.toNat)
    pure (retval, retval)

/-- The part of `aesd_ioctl` under the lock: the return value and the file
position. -/
def ioctlSeek (buffer : CircularBuffer) (seekCmd : AesdSeekto) (fPos : Int) :
    Except Stop (Int × Int) :=
  let numEntries : Nat :=
    if buffer.full then
      aesdcharMaxWriteOperationsSupported
    else
      (((buffer.inOffs : Int) - buffer.outOffs) % 256).toNat
  if ¬ buffer.full ∧ seekCmd.writeCmd.toNat ≥ numEntries then
    .ok (-einval, fPos)
  else
    ioctlWalk buffer seekCmd fPos

/-- `aesd_ioctl`; `arg` is the structure the user pointer refers to. -/
def aesdIoctl (outcomes : IoctlOutcomes) (cmd : Nat) (arg : AesdSeekto) (fPos : Int)
    (driver : AesdDev) : Except Stop SeekResult :=
  if cmd ≠ aesdcharIocseekto then
    .ok ⟨-enotty, fPos, driver⟩
  else if outcomes.uncopied ≠ 0 then
    .ok ⟨-efault, fPos, driver⟩
  else do
    match ← driver.mutexLockInterruptible outcomes.lock with
    | none => pure ⟨-einval, fPos, driver⟩
    | some driver => do
        let (retval, fPos) ← ioctlSeek driver.cBuffer arg fPos
        let driver ← driver.mutexUnlock
        pure ⟨retval, fPos, driver⟩

/-! ## `aesd_cleanup_module` -/

/-- `aesd_cleanup_module`: the loop over all ten slots. -/
def aesdCleanupModule (driver : AesdDev) : Except Stop AesdDev :=
  (List.range aesdcharMaxWriteOperationsSupported).foldlM
    (fun (driver : AesdDev) (index : Nat) => do
      let entry ← driver.cBuffer.entryAt index
      if entry.buffptr ≠ none then
        driver.kfree entry.buffptr
      else
        pure driver) driver

end Aesd.Driver
