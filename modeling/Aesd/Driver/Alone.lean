import Aesd.Driver.Calls
import Aesd.Driver.Routine
import Aesd.Driver.Seek

/-!
# The file operations, run by themselves

Without another call in between, each program of accesses is the function of the
device that carries the same name.
-/

namespace Aesd.Driver

open Aesd.Atomic

namespace Routine

/-! ## Accesses -/

section Alone

variable {α β : Type} (driver : AesdDev)

theorem map_ok (function : α → β) (value : α) :
    (Except.ok value : Except Stop α).map function = .ok (function value) :=
  rfl

theorem map_error (function : α → β) (stop : Stop) :
    (Except.error stop : Except Stop α).map function = .error stop :=
  rfl

theorem error_bind (stop : Stop) (rest : α → Except Stop β) :
    (Except.error stop >>= rest) = .error stop :=
  rfl

theorem pure_eq_ok (value : α) : (pure value : Except Stop α) = .ok value :=
  rfl

theorem ok_bind (value : α) (rest : α → Except Stop β) : (Except.ok value >>= rest) = rest value :=
  rfl

@[simp]
theorem alone_look_bind (field : AesdDev → α) (rest : α → Routine β) :
    (look field >>= rest).alone driver = (rest (field driver)).alone driver :=
  Program.alone_observe_bind _ _ _

@[simp]
theorem alone_entryAt_bind (index : Int) (rest : BufferEntry → Routine β) :
    (entryAt index >>= rest).alone driver =
      driver.cBuffer.entryAt index >>= fun entry => (rest entry).alone driver :=
  Program.alone_observe_bind _ _ _

@[simp]
theorem alone_load_bind (ptr : Option Nat) (offset length : Nat) (rest : Bytes → Routine β) :
    (load ptr offset length >>= rest).alone driver =
      driver.load ptr offset length >>= fun bytes => (rest bytes).alone driver :=
  Program.alone_observe_bind _ _ _

@[simp]
theorem alone_mutexLockInterruptible_bind (obtained : Bool) (rest : Bool → Routine β) :
    (mutexLockInterruptible obtained >>= rest).alone driver =
      driver.mutexLockInterruptible obtained >>= fun locked =>
        (rest locked.isSome).alone (locked.getD driver) := by
  rw [Program.alone_bind, mutexLockInterruptible, Program.alone_perform]
  cases driver.mutexLockInterruptible obtained <;> rfl

@[simp]
theorem alone_mutexUnlock_bind (rest : Unit → Routine β) :
    (mutexUnlock >>= rest).alone driver =
      driver.mutexUnlock >>= fun driver => (rest ()).alone driver :=
  Program.alone_modify_bind _ _ _

@[simp]
theorem alone_kmalloc_bind (size : Nat) (outcome : Option (Nat → UInt8))
    (rest : Option Nat → Routine β) :
    (kmalloc size outcome >>= rest).alone driver =
      (rest (driver.kmalloc size outcome).1).alone (driver.kmalloc size outcome).2 :=
  rfl

@[simp]
theorem alone_kfree_bind (ptr : Option Nat) (rest : Unit → Routine β) :
    (kfree ptr >>= rest).alone driver =
      driver.kfree ptr >>= fun driver => (rest ()).alone driver :=
  Program.alone_modify_bind _ _ _

@[simp]
theorem alone_krealloc_bind (ptr : Option Nat) (size : Nat) (outcome : Option (Nat → UInt8))
    (rest : Option Nat → Routine β) :
    (krealloc ptr size outcome >>= rest).alone driver =
      driver.krealloc ptr size outcome >>= fun grown => (rest grown.1).alone grown.2 := by
  rw [Program.alone_bind, krealloc, Program.alone_perform]

@[simp]
theorem alone_memcpy_bind (ptr offset : Nat) (bytes : Bytes) (rest : Unit → Routine β) :
    (memcpy ptr offset bytes >>= rest).alone driver =
      driver.memcpy ptr offset bytes >>= fun driver => (rest ()).alone driver :=
  Program.alone_modify_bind _ _ _

@[simp]
theorem alone_copyFromUser_bind (ptr : Nat) (user : Bytes) (uncopied : Nat)
    (rest : Unit → Routine β) :
    (copyFromUser ptr user uncopied >>= rest).alone driver =
      driver.copyFromUser ptr user uncopied >>= fun driver => (rest ()).alone driver :=
  Program.alone_modify_bind _ _ _

@[simp]
theorem alone_setCurrentEntry (entry : BufferEntry) :
    (setCurrentEntry entry).alone driver = .ok ((), { driver with currentEntry := entry }) :=
  rfl

@[simp]
theorem alone_setCurrentEntry_bind (entry : BufferEntry) (rest : Unit → Routine β) :
    (setCurrentEntry entry >>= rest).alone driver =
      (rest ()).alone { driver with currentEntry := entry } :=
  rfl

@[simp]
theorem alone_modifyBuffer (update : CircularBuffer → Except Stop CircularBuffer) :
    (modifyBuffer update).alone driver =
      (update driver.cBuffer).map fun cBuffer => ((), { driver with cBuffer := cBuffer }) := by
  rw [modifyBuffer, Program.alone_modify]
  cases update driver.cBuffer <;> rfl

@[simp]
theorem alone_modifyBuffer_bind (update : CircularBuffer → Except Stop CircularBuffer)
    (rest : Unit → Routine β) :
    (modifyBuffer update >>= rest).alone driver =
      update driver.cBuffer >>= fun cBuffer =>
        (rest ()).alone { driver with cBuffer := cBuffer } := by
  rw [modifyBuffer, Program.alone_modify_bind]
  cases update driver.cBuffer <;> rfl

/-- A program that leaves the device as it is, and the rest. -/
theorem alone_bind_of_map {program : Routine α} {outcome : Except Stop α}
    (alone : program.alone driver = outcome.map fun value => (value, driver))
    (rest : α → Routine β) :
    (program >>= rest).alone driver = outcome >>= fun value => (rest value).alone driver := by
  rw [Program.alone_bind, alone]
  cases outcome <;> rfl

theorem findEntryLoop_alone (charOffset remaining : Nat) : ∀ i cumulativeSize,
    (findEntryLoop charOffset remaining i cumulativeSize).alone driver =
      (Driver.findEntryLoop driver.cBuffer charOffset remaining i cumulativeSize).map
        fun found => (found, driver) := by
  induction remaining with
  | zero => exact fun _ _ => rfl
  | succ remaining ih =>
      intro i cumulativeSize
      simp only [findEntryLoop, Driver.findEntryLoop, alone_look_bind, alone_entryAt_bind]
      cases driver.cBuffer.entryAt
          ((driver.cBuffer.outOffs + i) % aesdcharMaxWriteOperationsSupported : Nat) with
      | error stop => rfl
      | ok entry =>
          simp only [bind, Except.bind]
          split
          · rfl
          · exact ih _ _

theorem find_alone (charOffset : Nat) :
    (aesdCircularBufferFindEntryOffsetForFpos charOffset).alone driver =
      (Driver.aesdCircularBufferFindEntryOffsetForFpos driver.cBuffer charOffset).map
        fun found => (found, driver) := by
  simp only [aesdCircularBufferFindEntryOffsetForFpos,
    Driver.aesdCircularBufferFindEntryOffsetForFpos, alone_look_bind]
  split
  · rfl
  · exact findEntryLoop_alone driver charOffset _ 0 0

/-- The overwritten pointer and the new `out_offs`. -/
def dropped (buffer : CircularBuffer) : Except Stop (Option Nat × Nat) :=
  if buffer.full then do
    let oldest ← buffer.entryAt buffer.inOffs
    pure (oldest.buffptr, (buffer.outOffs + 1) % aesdcharMaxWriteOperationsSupported)
  else
    pure (none, buffer.outOffs)

theorem dropOldest_alone :
    dropOldest.alone driver =
      (dropped driver.cBuffer).map fun dropped =>
        (dropped.1, { driver with cBuffer := { driver.cBuffer with outOffs := dropped.2 } }) := by
  simp only [dropOldest, dropped, alone_look_bind]
  split
  · rw [alone_look_bind, alone_entryAt_bind]
    cases driver.cBuffer.entryAt driver.cBuffer.inOffs <;> rfl
  · rfl

theorem storeEntry_alone (addEntry : BufferEntry) :
    (storeEntry addEntry).alone driver =
      (driver.cBuffer.setEntry driver.cBuffer.inOffs addEntry).map fun cBuffer =>
        ((), { driver with cBuffer := { cBuffer with
          inOffs := (driver.cBuffer.inOffs + 1) % aesdcharMaxWriteOperationsSupported } }) := by
  simp only [storeEntry, alone_look_bind, alone_modifyBuffer_bind]
  cases driver.cBuffer.setEntry driver.cBuffer.inOffs addEntry <;> rfl

theorem noteFull_alone :
    noteFull.alone driver =
      (if driver.cBuffer.inOffs = driver.cBuffer.outOffs then
        driver.cBuffer.entryAt driver.cBuffer.inOffs >>= fun following =>
          .ok (if following.size ≠ 0 then { driver.cBuffer with full := true }
            else driver.cBuffer)
      else
        .ok driver.cBuffer).map fun cBuffer => ((), { driver with cBuffer := cBuffer }) := by
  simp only [noteFull, alone_look_bind]
  split
  · rw [alone_entryAt_bind]
    cases driver.cBuffer.entryAt driver.cBuffer.inOffs with
    | error stop => rfl
    | ok following =>
        simp only [ok_bind]
        split <;> rfl
  · rfl

/-- What follows once the overwritten pointer has been noted. -/
def stored (buffer : CircularBuffer) (addEntry : BufferEntry) (dropped : Option Nat × Nat) :
    Except Stop (Option Nat × CircularBuffer) := do
  let buffer ← { buffer with outOffs := dropped.2 }.setEntry buffer.inOffs addEntry
  let inOffs := (buffer.inOffs + 1) % aesdcharMaxWriteOperationsSupported
  let buffer := { buffer with inOffs := inOffs }
  if inOffs = dropped.2 then do
    let following ← buffer.entryAt inOffs
    if following.size ≠ 0 then
      pure (dropped.1, { buffer with full := true })
    else
      pure (dropped.1, buffer)
  else
    pure (dropped.1, buffer)

theorem addEntry_eq_stored (buffer : CircularBuffer) (addEntry : BufferEntry) :
    Driver.aesdCircularBufferAddEntry buffer addEntry =
      dropped buffer >>= stored buffer addEntry := by
  unfold Driver.aesdCircularBufferAddEntry dropped
  split
  · cases buffer.entryAt buffer.inOffs <;> rfl
  · rfl

/-- The assignments of `aesd_circular_buffer_add_entry` add the entry. -/
theorem addEntry_alone (addEntry : BufferEntry) :
    (aesdCircularBufferAddEntry addEntry).alone driver =
      (Driver.aesdCircularBufferAddEntry driver.cBuffer addEntry).map
        fun added => (added.1, { driver with cBuffer := added.2 }) := by
  rw [aesdCircularBufferAddEntry, Program.alone_bind, dropOldest_alone, addEntry_eq_stored]
  cases dropped driver.cBuffer with
  | error stop => rfl
  | ok dropped =>
      simp only [map_ok, ok_bind, Program.alone_bind, storeEntry_alone, stored,
        CircularBuffer.setEntry]
      by_cases inside : driver.cBuffer.inOffs < aesdcharMaxWriteOperationsSupported
      · simp only [if_pos inside, map_ok, ok_bind, noteFull_alone]
        by_cases wraps :
            (driver.cBuffer.inOffs + 1) % aesdcharMaxWriteOperationsSupported = dropped.2
        · simp only [if_pos wraps]
          cases CircularBuffer.entryAt _ _ with
          | error stop => rfl
          | ok following =>
              simp only [ok_bind, map_ok]
              split <;> rfl
        · simp only [if_neg wraps]
          rfl
      · simp only [if_neg inside]
        rfl

theorem kfree_currentEntry {driver driver' : AesdDev} {ptr : Option Nat}
    (freed : driver.kfree ptr = .ok driver') : driver'.currentEntry = driver.currentEntry := by
  unfold AesdDev.kfree at freed
  split at freed
  · cases freed
    rfl
  · split at freed
    · contradiction
    · cases freed
      rfl

theorem krealloc_currentEntry {driver driver' : AesdDev} {ptr ptr' : Option Nat} {size : Nat}
    {outcome : Option (Nat → UInt8)}
    (grown : driver.krealloc ptr size outcome = .ok (ptr', driver')) :
    driver'.currentEntry = driver.currentEntry := by
  unfold AesdDev.krealloc at grown
  split at grown
  · cases grown
    rfl
  · cases grown
    rfl
  · split at grown
    · contradiction
    · obtain ⟨freed, frees, grown⟩ := bind_eq_ok_iff.mp grown
      cases grown
      have kept := kfree_currentEntry frees
      exact kept

theorem extendCurrentEntry_alone (kbuf currentCmdBytes : Nat) (outcome : Option (Nat → UInt8)) :
    (extendCurrentEntry kbuf currentCmdBytes outcome).alone driver =
      driver.extendCurrentEntry kbuf currentCmdBytes outcome := by
  simp only [extendCurrentEntry, AesdDev.extendCurrentEntry, alone_look_bind, alone_krealloc_bind]
  cases grows : driver.krealloc driver.currentEntry.buffptr
      (driver.currentEntry.size + currentCmdBytes) outcome with
  | error stop => rfl
  | ok grown =>
      obtain ⟨ptr, grown⟩ := grown
      have sameEntry := krealloc_currentEntry grows
      cases ptr with
      | none =>
          simp only [ok_bind, alone_setCurrentEntry_bind, Program.alone_pure, sameEntry]
          rfl
      | some ptr =>
          simp only [ok_bind, alone_setCurrentEntry_bind, alone_load_bind, alone_memcpy_bind,
            Program.alone_pure, sameEntry]
          change grown.load (some kbuf) 0 currentCmdBytes >>= _ = _
          cases grown.load (some kbuf) 0 currentCmdBytes with
          | error stop => rfl
          | ok cmd =>
              simp only [ok_bind, AesdDev.memcpy]
              cases grown.heap.store ptr driver.currentEntry.size cmd with
              | none => rfl
              | some heap => simp only [ok_bind, pure, Except.pure, sameEntry]

theorem pushCurrentEntry_alone :
    pushCurrentEntry.alone driver = driver.pushCurrentEntry.map fun driver => ((), driver) := by
  simp only [pushCurrentEntry, AesdDev.pushCurrentEntry, alone_look_bind]
  rw [Program.alone_bind, addEntry_alone]
  cases Driver.aesdCircularBufferAddEntry driver.cBuffer driver.currentEntry with
  | error stop => rfl
  | ok added =>
      simp only [map_ok, ok_bind, alone_kfree_bind, alone_setCurrentEntry]
      cases AesdDev.kfree { driver with cBuffer := added.2 } added.1 <;> rfl

theorem startNextEntry_alone (kbuf currentCmdBytes nextCmdBytes : Nat)
    (outcome : Option (Nat → UInt8)) :
    (startNextEntry kbuf currentCmdBytes nextCmdBytes outcome).alone driver =
      driver.startNextEntry kbuf currentCmdBytes nextCmdBytes outcome := by
  simp only [startNextEntry, AesdDev.startNextEntry, alone_kmalloc_bind]
  cases outcome with
  | none => rfl
  | some fill =>
      simp only [AesdDev.kmalloc, alone_setCurrentEntry_bind, alone_load_bind, alone_memcpy_bind,
        Program.alone_pure]
      let allocated : AesdDev :=
        { driver with heap := driver.heap.alloc (uninitialised nextCmdBytes fill) }
      change allocated.load (some kbuf) currentCmdBytes nextCmdBytes >>= _ =
        allocated.load (some kbuf) currentCmdBytes nextCmdBytes >>= _
      cases allocated.load (some kbuf) currentCmdBytes nextCmdBytes with
      | error stop => rfl
      | ok rest =>
          simp only [ok_bind, AesdDev.memcpy]
          cases (driver.heap.alloc (uninitialised nextCmdBytes fill)).store driver.heap.next 0
            rest <;> rfl

theorem freeKbuf_alone (kbuf : Option Nat) (retval : Int) :
    (freeKbuf kbuf retval).alone driver = driver.freeKbuf kbuf retval := by
  rw [freeKbuf, alone_kfree_bind]
  rfl

theorem freeMutex_alone (kbuf : Option Nat) (retval : Int) :
    (freeMutex kbuf retval).alone driver = driver.freeMutex kbuf retval := by
  simp only [freeMutex, alone_mutexUnlock_bind, freeKbuf_alone]
  rfl

/-- The part of `aesd_write` behind the search for the newline, at once. -/
def accepted (outcomes : WriteOutcomes) (kbuf count currentCmdBytes : Nat) (newlineFound : Bool)
    (driver : AesdDev) : Except Stop (Int × AesdDev) := do
  match ← driver.extendCurrentEntry kbuf currentCmdBytes outcomes.krealloc with
  | (false, driver) => driver.freeMutex (some kbuf) (-enomem)
  | (true, driver) =>
      if newlineFound then do
        let driver ← driver.pushCurrentEntry
        if count - currentCmdBytes > 0 then do
          match ← driver.startNextEntry kbuf currentCmdBytes (count - currentCmdBytes)
              outcomes.remainder with
          | (false, driver) => driver.freeMutex (some kbuf) currentCmdBytes
          | (true, driver) => driver.freeMutex (some kbuf) count
        else
          driver.freeMutex (some kbuf) currentCmdBytes
      else
        driver.freeMutex (some kbuf) currentCmdBytes

theorem acceptCmd_alone (outcomes : WriteOutcomes) (kbuf count currentCmdBytes : Nat)
    (newlineFound : Bool) :
    (acceptCmd outcomes kbuf count currentCmdBytes newlineFound).alone driver =
      accepted outcomes kbuf count currentCmdBytes newlineFound driver := by
  unfold acceptCmd accepted
  rw [Program.alone_bind, extendCurrentEntry_alone]
  cases driver.extendCurrentEntry kbuf currentCmdBytes outcomes.krealloc with
  | error stop => rfl
  | ok extended =>
      obtain ⟨success, driver⟩ := extended
      cases success with
      | false => exact freeMutex_alone _ _ _
      | true =>
          simp only [ok_bind, if_true]
          split
          · rw [Program.alone_bind, pushCurrentEntry_alone]
            cases driver.pushCurrentEntry with
            | error stop => rfl
            | ok driver =>
                simp only [map_ok, ok_bind]
                split
                · rw [Program.alone_bind, startNextEntry_alone]
                  cases driver.startNextEntry kbuf currentCmdBytes (count - currentCmdBytes)
                      outcomes.remainder with
                  | error stop => rfl
                  | ok started =>
                      obtain ⟨success, driver⟩ := started
                      cases success <;> exact freeMutex_alone _ _ _
                · exact freeMutex_alone _ _ _
          · exact freeMutex_alone _ _ _

theorem aesdWriteCopied_alone (outcomes : WriteOutcomes) (kbuf count : Nat) :
    (aesdWriteCopied outcomes kbuf count).alone driver =
      Driver.aesdWriteCopied outcomes kbuf count driver := by
  simp only [aesdWriteCopied, Driver.aesdWriteCopied, alone_load_bind]
  cases driver.load (some kbuf) 0 count with
  | error stop => rfl
  | ok text =>
      simp only [ok_bind]
      cases text.idxOf? newline with
      | none => exact acceptCmd_alone driver outcomes kbuf count count false
      | some position => exact acceptCmd_alone driver outcomes kbuf count (position + 1) true

/-- `aesd_write`, access by access, does what it does at once. -/
theorem aesdWrite_alone (outcomes : WriteOutcomes) (buf : Option Bytes) (fPos : Int) :
    (aesdWrite outcomes buf fPos).alone driver = Driver.aesdWrite outcomes buf fPos driver := by
  unfold aesdWrite Driver.aesdWrite
  cases buf with
  | none => rfl
  | some user =>
      by_cases refused : fPos < 0 ∨ user.length = 0
      · simp only [if_pos refused]
        rfl
      · simp only [if_neg refused, alone_mutexLockInterruptible_bind]
        cases driver.mutexLockInterruptible outcomes.lock with
        | error stop => rfl
        | ok locked =>
            cases locked with
            | none => rfl
            | some driver =>
                simp only [ok_bind, Option.isSome_some, if_true, alone_kmalloc_bind,
                  Option.getD_some]
                cases outcomes.kbuf with
                | none => exact freeMutex_alone _ _ _
                | some fill =>
                    simp only [AesdDev.kmalloc, alone_copyFromUser_bind]
                    cases AesdDev.copyFromUser _ driver.heap.next user outcomes.uncopied with
                    | error stop => rfl
                    | ok driver =>
                        simp only [ok_bind]
                        split
                        · exact freeKbuf_alone _ _ _
                        · exact aesdWriteCopied_alone _ _ _ _

/-! ### Calls that keep the memory -/

/-- The reply to a read, and the device after it. -/
def ofRead (result : ReadResult) : Response × AesdDev :=
  (⟨result.retval, result.delivered, result.fPos⟩, result.driver)

/-- The reply to a seek or an `ioctl`, and the device after it. -/
def ofSeek (result : SeekResult) : Response × AesdDev :=
  (⟨result.retval, [], result.fPos⟩, result.driver)

theorem aesdRead_alone (outcomes : ReadOutcomes) (bufIsNull : Bool) (count : Nat) (fPos : Int) :
    (aesdRead outcomes bufIsNull count fPos).alone driver =
      (Driver.aesdRead outcomes bufIsNull count fPos driver).map ofRead := by
  unfold aesdRead Driver.aesdRead
  by_cases refused : bufIsNull = true ∨ fPos < 0 ∨ count = 0
  · simp only [if_pos refused]
    rfl
  · simp only [if_neg refused, alone_mutexLockInterruptible_bind]
    cases driver.mutexLockInterruptible outcomes.lock with
    | error stop => rfl
    | ok locked =>
        cases locked with
        | none => rfl
        | some driver =>
            simp only [ok_bind, Option.isSome_some, if_true, Option.getD_some]
            rw [alone_bind_of_map driver (find_alone driver (toSizeT fPos))]
            cases Driver.aesdCircularBufferFindEntryOffsetForFpos driver.cBuffer
                (toSizeT fPos) with
            | error stop => rfl
            | ok found =>
                cases found with
                | none =>
                    simp only [ok_bind, alone_mutexUnlock_bind]
                    cases driver.mutexUnlock <;> rfl
                | some location =>
                    simp only [ok_bind, alone_entryAt_bind]
                    cases driver.cBuffer.entryAt location.1 with
                    | error stop => rfl
                    | ok entry =>
                        simp only [ok_bind, alone_load_bind]
                        cases driver.load entry.buffptr location.2 _ with
                        | error stop => rfl
                        | ok bytes =>
                            simp only [ok_bind, alone_mutexUnlock_bind]
                            cases driver.mutexUnlock with
                            | error stop => rfl
                            | ok driver =>
                                simp only [ok_bind]
                                split <;> rfl

theorem totalSizeLoop_alone (remaining : Nat) : ∀ index total,
    (totalSizeLoop remaining index total).alone driver =
      ((List.range' index remaining).foldlM (fun (total index : Nat) => do
        let entry ← driver.cBuffer.entryAt index
        pure (toSizeT (total + entry.size : Nat))) total).map fun total => (total, driver) := by
  induction remaining with
  | zero => exact fun _ _ => rfl
  | succ remaining ih =>
      intro index total
      rw [totalSizeLoop, alone_entryAt_bind, List.range'_succ, List.foldlM_cons]
      cases driver.cBuffer.entryAt index with
      | error stop => rfl
      | ok entry => exact ih (index + 1) _

theorem llseekTarget_alone (fPos off whence : Int) :
    (llseekTarget fPos off whence).alone driver =
      (Driver.llseekTarget driver.cBuffer fPos off whence).map fun newpos => (newpos, driver) := by
  unfold llseekTarget Driver.llseekTarget
  split
  · rfl
  · rfl
  · rw [alone_bind_of_map driver (totalSizeLoop_alone driver _ _ _)]
    rw [← List.range_eq_range']
    change totalSize driver.cBuffer >>= _ = _
    cases totalSize driver.cBuffer <;> rfl
  · simp_all [map_ok]

theorem aesdLlseek_alone (lock : Bool) (off whence fPos : Int) :
    (aesdLlseek lock off whence fPos).alone driver =
      (Driver.aesdLlseek lock off whence fPos driver).map ofSeek := by
  unfold aesdLlseek Driver.aesdLlseek
  rw [alone_mutexLockInterruptible_bind]
  cases driver.mutexLockInterruptible lock with
  | error stop => rfl
  | ok locked =>
      cases locked with
      | none => rfl
      | some driver =>
          simp only [ok_bind, Option.isSome_some, if_true, Option.getD_some]
          rw [alone_bind_of_map driver (llseekTarget_alone driver fPos off whence)]
          cases Driver.llseekTarget driver.cBuffer fPos off whence with
          | error stop => rfl
          | ok target =>
              cases target with
              | none => rfl
              | some newpos =>
                  simp only [ok_bind]
                  split
                  · rfl
                  · rw [alone_mutexUnlock_bind]
                    cases driver.mutexUnlock <;> rfl

theorem seekSum_alone (iterations : Nat) :
    (seekSum iterations).alone driver =
      (Driver.seekSum driver.cBuffer iterations).map fun sum => (sum, driver) := by
  induction iterations with
  | zero => rfl
  | succ iterations ih =>
      rw [seekSum, alone_bind_of_map driver ih, Driver.seekSum_succ]
      cases Driver.seekSum driver.cBuffer iterations with
      | error stop => simp only [error_bind, map_error]
      | ok sum =>
          have sameIndex : driver.cBuffer.walkIndex iterations =
              loopIndex driver.cBuffer.outOffs iterations := by
            simp only [CircularBuffer.walkIndex, loopIndex, aesdcharMaxWriteOperationsSupported,
              Nat.cast_ofNat]
          rw [ok_bind, alone_look_bind, alone_entryAt_bind, sameIndex, ok_bind]
          cases driver.cBuffer.entryAt (loopIndex driver.cBuffer.outOffs iterations) with
          | error stop => simp only [error_bind, map_error]
          | ok entry => rw [ok_bind, ok_bind, pure_eq_ok, map_ok, Program.alone_pure]

theorem ioctlSeek_alone (seekCmd : AesdSeekto) (fPos : Int) :
    (ioctlSeek seekCmd fPos).alone driver =
      (Driver.ioctlSeek driver.cBuffer seekCmd fPos).map fun reply => (reply, driver) := by
  have walks : (ioctlWalk seekCmd fPos).alone driver =
      (Driver.ioctlWalk driver.cBuffer seekCmd fPos).map fun reply => (reply, driver) := by
    rw [ioctlWalk, alone_bind_of_map driver (seekSum_alone driver _), Driver.ioctlWalk]
    cases Driver.seekSum driver.cBuffer seekCmd.writeCmd.toNat with
    | error stop => rfl
    | ok sum =>
        simp only [ok_bind, alone_look_bind, alone_entryAt_bind]
        generalize driver.cBuffer.entryAt _ = entry
        cases entry with
        | error stop => rfl
        | ok entry =>
            simp only [ok_bind]
            split <;> simp only [map_ok, pure_eq_ok, Program.alone_pure]
  simp only [ioctlSeek, Driver.ioctlSeek, alone_look_bind]
  generalize (if driver.cBuffer.full = true then aesdcharMaxWriteOperationsSupported
    else (((driver.cBuffer.inOffs : Int) - driver.cBuffer.outOffs) % 256).toNat) = numEntries
  by_cases rejected : ¬ driver.cBuffer.full = true ∧ seekCmd.writeCmd.toNat ≥ numEntries
  · simp only [if_pos rejected]
    rfl
  · simp only [if_neg rejected]
    exact walks

theorem aesdIoctl_alone (outcomes : IoctlOutcomes) (cmd : Nat) (arg : AesdSeekto) (fPos : Int) :
    (aesdIoctl outcomes cmd arg fPos).alone driver =
      (Driver.aesdIoctl outcomes cmd arg fPos driver).map ofSeek := by
  unfold aesdIoctl Driver.aesdIoctl
  split
  · rfl
  · split
    · rfl
    · rw [alone_mutexLockInterruptible_bind]
      cases driver.mutexLockInterruptible outcomes.lock with
      | error stop => rfl
      | ok locked =>
          cases locked with
          | none => rfl
          | some driver =>
              simp only [ok_bind, Option.isSome_some, if_true, Option.getD_some]
              rw [alone_bind_of_map driver (ioctlSeek_alone driver arg fPos)]
              cases Driver.ioctlSeek driver.cBuffer arg fPos with
              | error stop => rfl
              | ok reply =>
                  simp only [ok_bind, alone_mutexUnlock_bind]
                  cases driver.mutexUnlock <;> rfl

end Alone

end Routine

end Aesd.Driver
