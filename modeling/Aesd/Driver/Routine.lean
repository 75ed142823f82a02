import Aesd.Atomic.Core
import Aesd.Driver.Device

/-!
# The file operations, one access after the other

The same functions of `main.c` and `aesd-circular-buffer.c` as programs whose
actions are the single accesses to the device: a field of the buffer that is read
or assigned, an array element, a block of kernel memory, the lock.  Between two of
them another call may run.
-/

namespace Aesd.Driver

open Aesd.Atomic

/-- What a call hands to its caller: the return value, the bytes that reached user
space, and the file position. -/
structure Response where
  retval : Int
  delivered : Bytes
  fPos : Int
  deriving DecidableEq

/-- A program of the driver. -/
abbrev Routine := Program AesdDev Stop

namespace Routine

/-! ## Accesses -/

/-- `mutex_lock_interruptible`: whether the lock was obtained. -/
def mutexLockInterruptible (obtained : Bool) : Routine Bool :=
  Program.perform fun driver =>
    (driver.mutexLockInterruptible obtained).map fun locked =>
      (locked.isSome, locked.getD driver)

/-- `mutex_unlock` -/
def mutexUnlock : Routine Unit :=
  Program.modify AesdDev.mutexUnlock

/-- `kmalloc` -/
def kmalloc (size : Nat) (outcome : Option (Nat → UInt8)) : Routine (Option Nat) :=
  Program.perform fun driver => .ok (driver.kmalloc size outcome)

/-- `kfree` -/
def kfree (ptr : Option Nat) : Routine Unit :=
  Program.modify fun driver => driver.kfree ptr

/-- `krealloc` -/
def krealloc (ptr : Option Nat) (size : Nat) (outcome : Option (Nat → UInt8)) :
    Routine (Option Nat) :=
  Program.perform fun driver => driver.krealloc ptr size outcome

/-- Read bytes of a kernel block. -/
def load (ptr : Option Nat) (offset length : Nat) : Routine Bytes :=
  Program.observe fun driver => driver.load ptr offset length

/-- `memcpy` into a kernel block. -/
def memcpy (ptr offset : Nat) (bytes : Bytes) : Routine Unit :=
  Program.modify fun driver => driver.memcpy ptr offset bytes

/-- `copy_from_user` into a kernel block. -/
def copyFromUser (ptr : Nat) (user : Bytes) (uncopied : Nat) : Routine Unit :=
  Program.modify fun driver => driver.copyFromUser ptr user uncopied

/-- Read something of the device apart from its memory. -/
def look {α : Type} (field : AesdDev → α) : Routine α :=
  Program.observe fun driver => .ok (field driver)

/-- Assign `current_entry`. -/
def setCurrentEntry (entry : BufferEntry) : Routine Unit :=
  Program.modify fun driver => .ok { driver with currentEntry := entry }

/-- The expression `c_buffer.entry[index]`. -/
def entryAt (index : Int) : Routine BufferEntry :=
  Program.observe fun driver => driver.cBuffer.entryAt index

/-- Change the buffer. -/
def modifyBuffer (update : CircularBuffer → Except Stop CircularBuffer) : Routine Unit :=
  Program.modify fun driver =>
    (update driver.cBuffer).map fun cBuffer => { driver with cBuffer := cBuffer }

/-! ## `aesd-circular-buffer.c` -/

/-- The loop of `aesd_circular_buffer_find_entry_offset_for_fpos`. -/
def findEntryLoop (charOffset : Nat) : Nat → Nat → Nat → Routine (Option (Nat × Nat))
  | 0, _, _ => pure none
  | remaining + 1, i, cumulativeSize => do
      let outOffs ← look fun driver => driver.cBuffer.outOffs
      let index := (outOffs + i) % aesdcharMaxWriteOperationsSupported
      let entry ← entryAt index
      let cumulativeSize := toSizeT (cumulativeSize + entry.size : Nat)
      if cumulativeSize > charOffset then
        pure (some (index,
          toSizeT (charOffset - toSizeT ((cumulativeSize : Int) - entry.size))))
      else
        findEntryLoop charOffset remaining (i + 1) cumulativeSize

/-- `aesd_circular_buffer_find_entry_offset_for_fpos` -/
def aesdCircularBufferFindEntryOffsetForFpos (charOffset : Nat) :
    Routine (Option (Nat × Nat)) := do
  let inOffs ← look fun driver => driver.cBuffer.inOffs
  let outOffs ← look fun driver => driver.cBuffer.outOffs
  let full ← look fun driver => driver.cBuffer.full
  if inOffs = outOffs ∧ ¬ full then
    pure none
  else
    findEntryLoop charOffset aesdcharMaxWriteOperationsSupported 0 0

/-- The first assignments of `aesd_circular_buffer_add_entry`: the overwritten
pointer, and `out_offs` moved on. -/
def dropOldest : Routine (Option Nat) := do
  let full ← look fun driver => driver.cBuffer.full
  if full then do
    let inOffs ← look fun driver => driver.cBuffer.inOffs
    let oldest ← entryAt inOffs
    let outOffs ← look fun driver => driver.cBuffer.outOffs
    modifyBuffer fun buffer => .ok
      { buffer with outOffs := (outOffs + 1) % aesdcharMaxWriteOperationsSupported }
    pure oldest.buffptr
  else
    pure none

/-- The last assignment of `aesd_circular_buffer_add_entry`: the flag `full`. -/
def noteFull : Routine Unit := do
  let inOffs ← look fun driver => driver.cBuffer.inOffs
  let outOffs ← look fun driver => driver.cBuffer.outOffs
  if inOffs = outOffs then do
    let following ← entryAt inOffs
    if following.size ≠ 0 then
      modifyBuffer fun buffer => .ok { buffer with full := true }
    else
      pure ()
  else
    pure ()

/-- The assignments in between: the entry, and `in_offs` moved on. -/
def storeEntry (addEntry : BufferEntry) : Routine Unit := do
  let inOffs ← look fun driver => driver.cBuffer.inOffs
  modifyBuffer fun buffer => buffer.setEntry inOffs addEntry
  modifyBuffer fun buffer => .ok
    { buffer with inOffs := (inOffs + 1) % aesdcharMaxWriteOperationsSupported }

/-- `aesd_circular_buffer_add_entry` -/
def aesdCircularBufferAddEntry (addEntry : BufferEntry) : Routine (Option Nat) := do
  let retPtr ← dropOldest
  storeEntry addEntry
  noteFull
  pure retPtr

/-! ## `aesd_read` -/

/-- `aesd_read` -/
def aesdRead (outcomes : ReadOutcomes) (bufIsNull : Bool) (count : Nat) (fPos : Int) :
    Routine Response :=
  if bufIsNull ∨ fPos < 0 ∨ count = 0 then
    pure ⟨-einval, [], fPos⟩
  else do
    let obtained ← mutexLockInterruptible outcomes.lock
    if obtained then do
      match ← aesdCircularBufferFindEntryOffsetForFpos (toSizeT fPos) with
      | none => do
          mutexUnlock
          pure ⟨0, [], fPos⟩
      | some (index, entryOffset) => do
          let entry ← entryAt index
          let available := toSizeT ((entry.size : Int) - entryOffset)
          let bytesToCopy := if available > count then count else available
          let bytes ← load entry.buffptr entryOffset bytesToCopy
          mutexUnlock
          if outcomes.uncopied ≠ 0 then
            pure ⟨-efault, bytes.take (bytesToCopy - outcomes.uncopied), fPos⟩
          else
            pure ⟨bytesToCopy, bytes, toInt64 (fPos + bytesToCopy)⟩
    else
      pure ⟨-erestartsys, [], fPos⟩

/-! ## `aesd_write` -/

/-- The label `free_kbuf`. -/
def freeKbuf (kbuf : Option Nat) (retval : Int) : Routine Int := do
  kfree kbuf
  pure retval

/-- The label `free_mutex`. -/
def freeMutex (kbuf : Option Nat) (retval : Int) : Routine Int := do
  mutexUnlock
  freeKbuf kbuf retval

/-- Enlarge the current entry and append the first `currentCmdBytes` bytes of
`kbuf` to it. -/
def extendCurrentEntry (kbuf currentCmdBytes : Nat) (outcome : Option (Nat → UInt8)) :
    Routine Bool := do
  let entry ← look fun driver => driver.currentEntry
  match ← krealloc entry.buffptr (entry.size + currentCmdBytes) outcome with
  | none => do
      setCurrentEntry ⟨none, entry.size⟩
      pure false
  | some ptr => do
      setCurrentEntry ⟨some ptr, entry.size⟩
      let cmd ← load (some kbuf) 0 currentCmdBytes
      memcpy ptr entry.size cmd
      setCurrentEntry ⟨some ptr, entry.size + currentCmdBytes⟩
      pure true

/-- Push the current entry into the ring, free the block of an overwritten entry
and reset the current entry. -/
def pushCurrentEntry : Routine Unit := do
  let entry ← look fun driver => driver.currentEntry
  let overwrittenBuffptr ← aesdCircularBufferAddEntry entry
  kfree overwrittenBuffptr
  setCurrentEntry BufferEntry.zero

/-- Make the bytes of `kbuf` behind the command the new current entry. -/
def startNextEntry (kbuf currentCmdBytes nextCmdBytes : Nat) (outcome : Option (Nat → UInt8)) :
    Routine Bool := do
  match ← kmalloc nextCmdBytes outcome with
  | none => pure false
  | some ptr => do
      setCurrentEntry ⟨some ptr, 0⟩
      let rest ← load (some kbuf) currentCmdBytes nextCmdBytes
      memcpy ptr 0 rest
      setCurrentEntry ⟨some ptr, nextCmdBytes⟩
      pure true

/-- The part of `aesd_write` behind the search for the newline. -/
def acceptCmd (outcomes : WriteOutcomes) (kbuf count currentCmdBytes : Nat)
    (newlineFound : Bool) : Routine Int := do
  let nextCmdBytes := count - currentCmdBytes
  let extended ← extendCurrentEntry kbuf currentCmdBytes outcomes.krealloc
  if extended then
    if newlineFound then do
      pushCurrentEntry
      if nextCmdBytes > 0 then do
        let started ← startNextEntry kbuf currentCmdBytes nextCmdBytes outcomes.remainder
        if started then
          freeMutex (some kbuf) count
        else
          freeMutex (some kbuf) currentCmdBytes
      else
        freeMutex (some kbuf) currentCmdBytes
    else
      freeMutex (some kbuf) currentCmdBytes
  else
    freeMutex (some kbuf) (-enomem)

/-- The part of `aesd_write` behind the copy from user space. -/
def aesdWriteCopied (outcomes : WriteOutcomes) (kbuf count : Nat) : Routine Int := do
  let text ← load (some kbuf) 0 count
  match text.idxOf? newline with
  | some position => acceptCmd outcomes kbuf count (position + 1) true
  | none => acceptCmd outcomes kbuf count count false

/-- `aesd_write`; the user buffer is null or holds the `count` bytes passed. -/
def aesdWrite (outcomes : WriteOutcomes) (buf : Option Bytes) (fPos : Int) : Routine Int :=
  match buf with
  | none => pure (-einval)
  | some user =>
      if fPos < 0 ∨ user.length = 0 then
        pure (-einval)
      else do
        let obtained ← mutexLockInterruptible outcomes.lock
        if obtained then do
          match ← kmalloc user.length outcomes.kbuf with
          | none => freeMutex none (-enomem)
          | some kbuf => do
              copyFromUser kbuf user outcomes.uncopied
              if outcomes.uncopied ≠ 0 then
                freeKbuf (some kbuf) (-efault)
              else
                aesdWriteCopied outcomes kbuf user.length
        else
          pure (-erestartsys)

/-! ## `aesd_llseek` -/

/-- The `SEEK_END` loop over the slots from `index` on, `remaining` of them. -/
def totalSizeLoop : Nat → Nat → Nat → Routine Nat
  | 0, _, total => pure total
  | remaining + 1, index, total => do
      let entry ← entryAt index
      totalSizeLoop remaining (index + 1) (toSizeT (total + entry.size : Nat))

/-- The position `aesd_llseek` computes. -/
def llseekTarget (fPos off whence : Int) : Routine (Option Int) :=
  match whence with
  | 0 => pure (some off)
  | 1 => pure (some (toInt64 (fPos + off)))
  | 2 => do
      let total ← totalSizeLoop aesdcharMaxWriteOperationsSupported 0 0
      pure (some (toInt64 (total + off)))
  | _ => pure none

/-- `aesd_llseek` -/
def aesdLlseek (lock : Bool) (off whence fPos : Int) : Routine Response := do
  let obtained ← mutexLockInterruptible lock
  if obtained then do
    match ← llseekTarget fPos off whence with
    | none => pure ⟨-einval, [], fPos⟩
    | some newpos =>
        if newpos < 0 then
          pure ⟨-einval, [], fPos⟩
        else do
          mutexUnlock
          pure ⟨newpos, [], newpos⟩
  else
    pure ⟨-einval, [], fPos⟩

/-! ## `aesd_ioctl` -/

/-- The array index in the loop of `aesd_ioctl`, computed as an `int`. -/
def loopIndex (outOffs iteration : Nat) : Int :=
  Int.tmod (toInt32 (outOffs + toInt32 iteration)) aesdcharMaxWriteOperationsSupported

/-- The loop of `aesd_ioctl`, `iterations` times. -/
def seekSum : Nat → Routine Int
  | 0 => pure 0
  | iterations + 1 => do
      let retval ← seekSum iterations
      let outOffs ← look fun driver => driver.cBuffer.outOffs
      let entry ← entryAt (loopIndex outOffs iterations)
      pure (toInt64 (retval + entry.size))

/-- The part of `aesd_ioctl` behind the check of the command index. -/
def ioctlWalk (seekCmd : AesdSeekto) (fPos : Int) : Routine (Int × Int) := do
  let retval ← seekSum seekCmd.writeCmd.toNat
  let outOffs ← look fun driver => driver.cBuffer.outOffs
  let entry ← entryAt
    ((outOffs + seekCmd.writeCmd.toNat) % 2 ^ 32 % aesdcharMaxWriteOperationsSupported : Nat)
  if seekCmd.writeCmdOffset.toNat > entry.size then
    pure (-einval, fPos)
  else
    let retval := toInt64 (retval + seekCmd.writeCmdOffset.toNat)
    pure (retval, retval)

/-- The part of `aesd_ioctl` under the lock. -/
def ioctlSeek (seekCmd : AesdSeekto) (fPos : Int) : Routine (Int × Int) := do
  let full ← look fun driver => driver.cBuffer.full
  let inOffs ← look fun driver => driver.cBuffer.inOffs
  let outOffs ← look fun driver => driver.cBuffer.outOffs
  let numEntries : Nat :=
    if full then aesdcharMaxWriteOperationsSupported else (((inOffs : Int) - outOffs) % 256).toNat
  if ¬ full ∧ seekCmd.writeCmd.toNat ≥ numEntries then
    pure (-einval, fPos)
  else
    ioctlWalk seekCmd fPos

/-- `aesd_ioctl` -/
def aesdIoctl (outcomes : IoctlOutcomes) (cmd : Nat) (arg : AesdSeekto) (fPos : Int) :
    Routine Response :=
  if cmd ≠ aesdcharIocseekto then
    pure ⟨-enotty, [], fPos⟩
  else if outcomes.uncopied ≠ 0 then
    pure ⟨-efault, [], fPos⟩
  else do
    let obtained ← mutexLockInterruptible outcomes.lock
    if obtained then do
      let (retval, fPos) ← ioctlSeek arg fPos
      mutexUnlock
      pure ⟨retval, [], fPos⟩
    else
      pure ⟨-einval, [], fPos⟩

end Routine

end Aesd.Driver
