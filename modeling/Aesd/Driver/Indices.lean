import Aesd.Driver.Ownership
import Aesd.Driver.Seek

/-!
# Indices of the ring

Every access to `c_buffer.entry` but one reduces its index modulo ten or runs
over the ten slots.  The loop of `aesd_ioctl` reduces a signed sum, which is
negative once it has left the range of an `int`.  The check of `write_cmd` keeps
the loop away from there as long as the ring has room, and not any more when it
is full.

An access outside the array ends a call with `Stop.badIndex`.
-/

namespace Aesd.Driver

open Aesd.Transition

/-- The call keeps its indices inside the array: if the ring is full and the loop
of `aesd_ioctl` is reached, `out_offs` and the loop counter add up to an `int`. -/
def DriverCall.StaysInArray (driver : AesdDev) : DriverCall → Prop
  | .ioctl outcomes cmd arg _ =>
      cmd = aesdcharIocseekto → outcomes.uncopied = 0 → outcomes.lock = true →
        driver.bufferLock = false → driver.cBuffer.full = true →
          driver.cBuffer.outOffs + arg.writeCmd.toNat ≤ 2 ^ 31
  | .read .. | .write .. | .llseek .. => True

/-- A read uses the index the offset search has found. -/
theorem aesdRead_avoids_badIndex (outcomes : ReadOutcomes) (bufIsNull : Bool) (count : Nat)
    (fPos : Int) (driver : AesdDev) :
    Avoids .badIndex (aesdRead outcomes bufIsNull count fPos driver) := by
  unfold aesdRead
  split
  · exact Avoids.ok _
  · apply (driver.mutexLockInterruptible_avoids (by simp) outcomes.lock).bind
    intro taken _
    cases taken with
    | none => exact Avoids.ok _
    | some locked =>
        obtain ⟨found, searched, bounded⟩ := find_ok locked.cBuffer (toSizeT fPos)
        simp only [searched]
        cases found with
        | none => exact (locked.mutexUnlock_avoids (by simp)).bind fun _ _ => Avoids.ok _
        | some location =>
            obtain ⟨index, offset⟩ := location
            have slot := locked.cBuffer.entryAt_of_lt index (bounded _ rfl)
            simp only [slot, bind, Except.bind]
            apply ((locked.load_failsAtMost _ _ _).avoids (by simp)).bind
            intro bytes _
            apply (locked.mutexUnlock_avoids (by simp)).bind
            intro unlocked _
            split <;> exact Avoids.ok _

namespace AesdDev.Represents

variable {driver : AesdDev} {log : Log} {held leaked : List (Nat × Bytes)}

/-- The walk leaves the array if the ring is full and the last index is no `int`. -/
theorem ioctlSeek_avoids_iff (rep : driver.Represents log held leaked) (seekCmd : AesdSeekto)
    (fPos : Int) :
    Avoids .badIndex (ioctlSeek driver.cBuffer seekCmd fPos) ↔
      (driver.cBuffer.full = true →
        driver.cBuffer.outOffs + seekCmd.writeCmd.toNat ≤ 2 ^ 31) := by
  have outLt := rep.ring.outOffs_lt
  have lengthEq := rep.length_held
  rw [rep.ioctlSeek_eq]
  by_cases rejected : driver.cBuffer.full = false ∧ driver.held.length ≤ seekCmd.writeCmd.toNat
  · simp [rejected, Avoids]
  · rw [if_neg rejected]
    by_cases fits : driver.cBuffer.outOffs + seekCmd.writeCmd.toNat ≤ 2 ^ 31
    · obtain ⟨sum, summed⟩ := seekSum_ok driver.cBuffer fits
      refine iff_of_true ?_ fun _ => fits
      simp only [ioctlWalk, summed, aesdcharMaxWriteOperationsSupported,
        driver.cBuffer.entryAt_of_lt _ (Nat.mod_lt _ (by decide)), bind, Except.bind]
      split <;> exact Avoids.ok _
    · have full : driver.cBuffer.full = true := by
        by_contra room
        exact rejected ⟨by simpa using room, by omega⟩
      rw [rep.ioctlWalk_of_overflow seekCmd fPos (Nat.not_le.mp fits)]
      exact iff_of_false (fun avoids => avoids rfl) fun stays => fits (stays full)

theorem aesdIoctl_avoids_iff (rep : driver.Represents log held leaked)
    (outcomes : IoctlOutcomes) (cmd : Nat) (arg : AesdSeekto) (fPos : Int) :
    Avoids .badIndex (Driver.aesdIoctl outcomes cmd arg fPos driver) ↔
      (DriverCall.ioctl outcomes cmd arg fPos).StaysInArray driver := by
  constructor
  · rintro avoids rfl copied obtained unlocked
    obtain ⟨lock, uncopied⟩ := outcomes
    obtain rfl : lock = true := obtained
    obtain rfl : uncopied = 0 := copied
    rw [driver.aesdIoctl_eq unlocked] at avoids
    apply (rep.ioctlSeek_avoids_iff arg fPos).mp
    intro leaves
    rw [leaves] at avoids
    exact avoids rfl
  · intro stays
    by_cases reached : cmd = aesdcharIocseekto ∧ outcomes.uncopied = 0 ∧ outcomes.lock = true ∧
        driver.bufferLock = false
    · obtain ⟨isSeek, copied, obtained, unlocked⟩ := reached
      exact aesdIoctl_avoids (by simp) (by simp) outcomes cmd arg fPos driver
        ((rep.ioctlSeek_avoids_iff arg fPos).mpr (stays isSeek copied obtained unlocked))
    · unfold Driver.aesdIoctl
      split
      · exact Avoids.ok _
      · split
        · exact Avoids.ok _
        · rename_i isSeek copied
          -- the wait for the lock is interrupted or does not end
          cases obtained : outcomes.lock with
          | false => exact Avoids.ok _
          | true =>
              have locked : driver.bufferLock = true := by
                by_contra unlocked
                exact reached ⟨by simpa using isSeek, by simpa using copied, obtained,
                  by simpa using unlocked⟩
              simp [mutexLockInterruptible, locked, Avoids, bind, Except.bind]

end AesdDev.Represents

/-- On every device reached by writes, whatever its lock does, a call of any file
operation with any arguments uses indices of the ring only, if and only if
`StaysInArray` holds. -/
theorem perform_staysInArray_iff {driver : AesdDev}
    (reachable : Reachable AesdDev.write aesdInitModule driver) (call : DriverCall) :
    driver.perform call ≠ .error .badIndex ↔ call.StaysInArray driver := by
  obtain ⟨log, held, leaked, rep⟩ := AesdDev.represents_of_reachable reachable
  cases call with
  | read outcomes bufIsNull count fPos =>
      exact iff_of_true ((aesdRead_avoids_badIndex outcomes bufIsNull count fPos driver).map _)
        trivial
  | write outcomes buf fPos =>
      exact iff_of_true
        ((AesdDev.Represents.aesdWrite_avoids (by simp) rep outcomes buf fPos).map _) trivial
  | llseek lock off whence fPos =>
      exact iff_of_true
        ((aesdLlseek_avoids (by simp) (by simp) lock off whence fPos driver).map _) trivial
  | ioctl outcomes cmd arg fPos =>
      rw [← rep.aesdIoctl_avoids_iff]
      constructor
      · intro performed leaves
        rw [AesdDev.perform, leaves] at performed
        exact performed rfl
      · exact fun avoids => avoids.map _

/-- The device that holds ten commands. -/
def tenNewlines : AesdDev :=
  AesdDev.ofWrites (List.replicate 10 [10])

/-- On it the seek to its eleventh command stays inside the array. -/
theorem perform_staysInArray_iff_eleventh :
    tenNewlines.perform (.ioctl ⟨true, 0⟩ aesdcharIocseekto ⟨10, 0⟩ 0) ≠ .error .badIndex ↔
      (DriverCall.ioctl ⟨true, 0⟩ aesdcharIocseekto ⟨10, 0⟩ 0).StaysInArray tenNewlines :=
  perform_staysInArray_iff (AesdDev.reachable_ofWrites _) _

/-- With `write_cmd` above `INT_MAX + 1` the loop reads `entry[-8]`. -/
theorem ioctl_leaves_array :
    Reachable AesdDev.write aesdInitModule tenNewlines ∧
      tenNewlines.cBuffer.walkIndex (2 ^ 31) = -8 ∧
      tenNewlines.perform (.ioctl ⟨true, 0⟩ aesdcharIocseekto ⟨0x80000001, 0⟩ 0) =
        .error .badIndex := by
  have reachable : Reachable AesdDev.write aesdInitModule tenNewlines :=
    AesdDev.reachable_ofWrites _
  have outEq : tenNewlines.cBuffer.outOffs = 0 := by decide +kernel
  have lastIndex : tenNewlines.cBuffer.walkIndex (2 ^ 31) = -8 :=
    tenNewlines.cBuffer.walkIndex_of_overflow (by rw [outEq]; decide) (by rw [outEq]; rfl)
  have full : tenNewlines.cBuffer.full = true := by decide +kernel
  have unlocked : tenNewlines.bufferLock = false := by decide +kernel
  refine ⟨reachable, lastIndex, ?_⟩
  obtain ⟨log, held, leaked, rep⟩ := AesdDev.represents_of_reachable reachable
  have overflows := rep.ioctlWalk_of_overflow (show AesdSeekto from ⟨0x80000001, 0⟩) 0 (by
    rw [outEq]
    decide)
  rw [AesdDev.perform, AesdDev.aesdIoctl_eq _ unlocked, rep.ioctlSeek_eq,
    if_neg (by simp [full]), overflows]
  rfl

end Aesd.Driver
