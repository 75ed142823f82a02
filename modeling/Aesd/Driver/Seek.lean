import Aesd.Driver.Read
import Mathlib.Algebra.Order.Ring.Nat

/-!
# The seek command

`aesd_ioctl` walks the ring with a modular sum of its own.  For a command the
ring holds, the walk finds the position that the offset search of `aesd_read`
leads back to the same byte.  The bounds checks are not tight: the offset just
behind a command is accepted, and a full ring is walked round and round for a
command index behind the last one.
-/

namespace Aesd.Driver

open Aesd.Memory.Heap
open Aesd.Transition
open Aesd.Word

/-! ## Indices of the walk -/

theorem toInt32_of_lt {value : Int} (nonneg : 0 ≤ value) (bound : value < 2 ^ 31) :
    toInt32 value = value := by
  unfold toInt32
  rw [Int.bmod_eq_of_le] <;> omega

namespace CircularBuffer

/-- The array index in iteration `iteration` of the loop of `aesd_ioctl`. -/
def walkIndex (buffer : CircularBuffer) (iteration : Nat) : Int :=
  Int.tmod (toInt32 (buffer.outOffs + toInt32 iteration)) 10

theorem walkIndex_of_lt (buffer : CircularBuffer) {iteration : Nat}
    (bound : buffer.outOffs + iteration < 2 ^ 31) :
    buffer.walkIndex iteration = ((buffer.outOffs + iteration) % 10 : Nat) := by
  have counter : toInt32 (iteration : Int) = iteration :=
    toInt32_of_lt (by omega) (by omega)
  unfold walkIndex
  rw [counter, toInt32_of_lt (by omega) (by omega), Int.tmod_eq_emod_of_nonneg (by omega)]
  omega

/-- The index that does not fit in an `int` any more is negative. -/
theorem walkIndex_of_overflow (buffer : CircularBuffer) (outLt : buffer.outOffs < 10)
    {iteration : Nat} (overflow : buffer.outOffs + iteration = 2 ^ 31) :
    buffer.walkIndex iteration = -8 := by
  have wraps : toInt32 ((buffer.outOffs : Int) + toInt32 iteration) = -2 ^ 31 := by
    by_cases first : buffer.outOffs = 0
    · have iterationEq : iteration = 2 ^ 31 := by omega
      rw [first, iterationEq]
      decide
    · rw [toInt32_of_lt (show (0 : Int) ≤ iteration by omega) (by omega)]
      rw [show (buffer.outOffs : Int) + iteration = 2 ^ 31 by omega]
      decide
  unfold walkIndex
  rw [wraps]
  decide

end CircularBuffer

theorem seekSum_succ (buffer : CircularBuffer) (iterations : Nat) :
    seekSum buffer (iterations + 1) = (do
      let retval ← seekSum buffer iterations
      let entry ← buffer.entryAt (buffer.walkIndex iterations)
      pure (toInt64 (retval + entry.size))) :=
  rfl

/-- As long as the index fits in an `int`, the walk does not leave the array. -/
theorem seekSum_ok (buffer : CircularBuffer) {iterations : Nat}
    (bound : buffer.outOffs + iterations ≤ 2 ^ 31) :
    ∃ retval, seekSum buffer iterations = .ok retval := by
  induction iterations with
  | zero => exact ⟨0, rfl⟩
  | succ iterations ih =>
      obtain ⟨retval, summed⟩ := ih (by omega)
      rw [seekSum_succ, summed, buffer.walkIndex_of_lt (by omega),
        buffer.entryAt_of_lt _ (by omega)]
      exact ⟨_, rfl⟩

/-- A longer walk leaves it. -/
theorem seekSum_badIndex (buffer : CircularBuffer) (outLt : buffer.outOffs < 10)
    {iterations : Nat} (overflow : 2 ^ 31 < buffer.outOffs + iterations) :
    seekSum buffer iterations = .error .badIndex := by
  induction iterations with
  | zero => omega
  | succ iterations ih =>
      rw [seekSum_succ]
      by_cases before : buffer.outOffs + iterations = 2 ^ 31
      · obtain ⟨retval, summed⟩ := seekSum_ok buffer (Nat.le_of_eq before)
        rw [summed, buffer.walkIndex_of_overflow outLt before]
        rfl
      · rw [ih (by omega)]
        rfl

/-! ## What a seek command names -/

namespace AesdDev

/-- The pair names a byte of a held command. -/
def Names (driver : AesdDev) (seekCmd : AesdSeekto) : Prop :=
  ∃ cmd, driver.held[seekCmd.writeCmd.toNat]? = some cmd ∧
    seekCmd.writeCmdOffset.toNat < cmd.length

/-- The position of the offset behind the start of the command. -/
def positionOf (driver : AesdDev) (seekCmd : AesdSeekto) : Nat :=
  (driver.held.take seekCmd.writeCmd.toNat).flatten.length + seekCmd.writeCmdOffset.toNat

/-- The reply the driver promises: it accepts exactly the pairs that name a byte,
and the position it stores leads the read path to that byte. -/
structure SeeksCorrectly (driver : AesdDev) (seekCmd : AesdSeekto) (fPos : Int) : Prop where
  accepts : driver.Names seekCmd →
    aesdIoctl ⟨true, 0⟩ aesdcharIocseekto seekCmd fPos driver =
        .ok ⟨driver.positionOf seekCmd, driver.positionOf seekCmd, driver⟩ ∧
      aesdCircularBufferFindEntryOffsetForFpos driver.cBuffer (driver.positionOf seekCmd) =
        .ok (some ((driver.cBuffer.outOffs + seekCmd.writeCmd.toNat) % 10,
          seekCmd.writeCmdOffset.toNat))
  rejects : ¬ driver.Names seekCmd →
    aesdIoctl ⟨true, 0⟩ aesdcharIocseekto seekCmd fPos driver = .ok ⟨-einval, fPos, driver⟩

/-- The pairs for which it keeps the promise: the offset is not the size of the
named command, and in a full ring a command index behind the last one stays
within the `int` loop counter and comes with an offset behind the command it is
taken for. -/
structure SeekIsSafe (driver : AesdDev) (seekCmd : AesdSeekto) : Prop where
  notAtEnd : ∀ cmd, driver.held[seekCmd.writeCmd.toNat]? = some cmd →
    seekCmd.writeCmdOffset.toNat ≠ cmd.length
  behindLast : driver.cBuffer.full = true → 10 ≤ seekCmd.writeCmd.toNat →
    driver.cBuffer.outOffs + seekCmd.writeCmd.toNat ≤ 2 ^ 31 ∧
      ∀ cmd, driver.held[seekCmd.writeCmd.toNat % 10]? = some cmd →
        cmd.length < seekCmd.writeCmdOffset.toNat

/-- No block of kernel memory has `2 ^ 32` bytes; `kmalloc` and `krealloc` do not
hand out blocks anywhere near that size. -/
def KmallocBounded (driver : AesdDev) : Prop :=
  ∀ contents ∈ driver.heap.live, contents.length < 2 ^ 32

/-- With the lock obtained and the argument copied, `aesd_ioctl` is `ioctlSeek`. -/
theorem aesdIoctl_eq (driver : AesdDev) (unlocked : driver.bufferLock = false)
    (seekCmd : AesdSeekto) (fPos : Int) :
    aesdIoctl ⟨true, 0⟩ aesdcharIocseekto seekCmd fPos driver =
      (ioctlSeek driver.cBuffer seekCmd fPos).map
        fun reply => ⟨reply.1, reply.2, driver⟩ := by
  have unlocks : ({ driver with bufferLock := true } : AesdDev).mutexUnlock = .ok driver := by
    simp only [mutexUnlock, if_true]
    rw [← unlocked]
  simp only [aesdIoctl, ne_eq, not_true_eq_false, if_false, mutexLockInterruptible, if_true,
    unlocked, Bool.false_eq_true, bind, Except.bind]
  cases replied : ioctlSeek driver.cBuffer seekCmd fPos with
  | error stop => rfl
  | ok reply =>
      simp only [unlocks]
      rfl

end AesdDev

/-! ## The walk over a represented ring -/

namespace AesdDev.Represents

variable {driver : AesdDev} {log : Log} {held leaked : List (Nat × Bytes)}

theorem length_held (rep : driver.Represents log held leaked) :
    driver.held.length = min log.committed.length 10 := by
  rw [rep.held_eq_map, List.length_map]
  simpa using rep.ring.length_eq

theorem length_held_lt (rep : driver.Represents log held leaked)
    (allocator : driver.KmallocBounded) {cmd : Bytes} (member : cmd ∈ driver.held) :
    cmd.length < 2 ^ 32 := by
  rw [rep.held_eq_map] at member
  obtain ⟨cell, cellMem, rfl⟩ := List.mem_map.mp member
  obtain ⟨current, _, owns⟩ := rep.memory
  have isLive : driver.heap.block cell.1 = some cell.2 := owns.block_of_mem (by simp [cellMem])
  exact allocator cell.2 (mem_live_iff.mpr ⟨cell.1, isLive⟩)

/-- The allocator keeps the content small. -/
theorem length_content_lt (rep : driver.Represents log held leaked)
    (allocator : driver.KmallocBounded) : driver.content.length < 2 ^ 63 := by
  have each : ∀ size ∈ driver.held.map List.length, size ≤ 2 ^ 32 := by
    intro size member
    obtain ⟨cmd, cmdMem, rfl⟩ := List.mem_map.mp member
    exact Nat.le_of_lt (rep.length_held_lt allocator cmdMem)
  have total := List.sum_le_card_nsmul _ _ each
  have lengthEq := rep.length_held
  rw [AesdDev.content, List.length_flatten]
  rw [List.length_map, nsmul_eq_mul, Nat.cast_id] at total
  omega

/-- The walk up to a held command adds the sizes of the earlier ones. -/
theorem seekSum_eq (rep : driver.Represents log held leaked)
    (small : driver.content.length < 2 ^ 63) {iterations : Nat}
    (bound : iterations ≤ driver.held.length) :
    seekSum driver.cBuffer iterations =
      .ok ((driver.held.take iterations).flatten.length : Nat) := by
  induction iterations with
  | zero => rfl
  | succ iterations ih =>
      have lengthEq := rep.length_held
      have outLt := rep.ring.outOffs_lt
      obtain ⟨cmd, cmdEq⟩ : ∃ cmd, driver.held[iterations]? = some cmd :=
        ⟨_, List.getElem?_eq_getElem (by omega)⟩
      obtain ⟨ptr, _, entryEq⟩ := rep.entry_of_held cmdEq
      have next : (driver.held.take (iterations + 1)).flatten.length =
          (driver.held.take iterations).flatten.length + cmd.length :=
        length_flatten_take_succ cmdEq
      have prefixLength : (driver.held.take (iterations + 1)).flatten.length ≤
          driver.held.flatten.length :=
        (flatten_take_isPrefix driver.held (iterations + 1)).length_le
      have contentLength : driver.held.flatten.length < 2 ^ 63 := small
      rw [seekSum_succ, ih (by omega), driver.cBuffer.walkIndex_of_lt (by omega)]
      simp only [bind, Except.bind, rep.ring.entryAt_held iterations entryEq, pure, Except.pure]
      rw [toInt64_of_lt (by omega) (by omega), next]
      rfl

/-- In a full ring the slots behind the last entry are those of the first ones. -/
theorem entryAt_full (rep : driver.Represents log held leaked)
    (full : driver.cBuffer.full = true) (index : Nat) :
    ∃ cmd ptr, driver.held[index % 10]? = some cmd ∧
      driver.cBuffer.entryAt ((driver.cBuffer.outOffs + index) % 10 : Nat) =
        .ok ⟨some ptr, cmd.length⟩ := by
  have isFull : 10 ≤ log.committed.length := by
    rw [rep.ring.full_eq] at full
    exact of_decide_eq_true full
  have lengthEq := rep.length_held
  obtain ⟨cmd, cmdEq⟩ : ∃ cmd, driver.held[index % 10]? = some cmd :=
    ⟨_, List.getElem?_eq_getElem (by omega)⟩
  obtain ⟨ptr, _, entryEq⟩ := rep.entry_of_held cmdEq
  refine ⟨cmd, ptr, cmdEq, ?_⟩
  rw [← rep.ring.entryAt_held (index % 10) entryEq, Nat.add_mod_mod]

variable (seekCmd : AesdSeekto) (fPos : Int)

/-- The command index is compared with the number of held entries, but only
until the ring is full. -/
theorem ioctlSeek_eq (rep : driver.Represents log held leaked) :
    ioctlSeek driver.cBuffer seekCmd fPos =
      if driver.cBuffer.full = false ∧ driver.held.length ≤ seekCmd.writeCmd.toNat then
        .ok (-einval, fPos)
      else
        ioctlWalk driver.cBuffer seekCmd fPos := by
  have fullEq := rep.ring.full_eq
  cases full : driver.cBuffer.full with
  | true => simp [ioctlSeek, full]
  | false =>
      have few : log.committed.length < 10 := by
        rw [full] at fullEq
        simpa using fullEq.symm
      obtain ⟨outEq, _⟩ := rep.ring.outOffs_of_room few
      have inEq := rep.ring.inOffs_eq
      have lengthEq := rep.length_held
      have numEntries : (((driver.cBuffer.inOffs : Int) - driver.cBuffer.outOffs) % 256).toNat =
          driver.held.length := by
        omega
      simp [ioctlSeek, full, numEntries]

/-- What follows the loop, when the unsigned sum does not wrap. -/
theorem ioctlWalk_of_slot {buffer : CircularBuffer} {sum : Int} {entry : BufferEntry}
    (summed : seekSum buffer seekCmd.writeCmd.toNat = .ok sum)
    (fits : buffer.outOffs + seekCmd.writeCmd.toNat < 2 ^ 32)
    (slot : buffer.entryAt ((buffer.outOffs + seekCmd.writeCmd.toNat) % 10 : Nat) = .ok entry) :
    ioctlWalk buffer seekCmd fPos =
      .ok (if seekCmd.writeCmdOffset.toNat > entry.size then
          (-einval, fPos)
        else
          (toInt64 (sum + seekCmd.writeCmdOffset.toNat),
            toInt64 (sum + seekCmd.writeCmdOffset.toNat))) := by
  simp only [ioctlWalk, summed, bind, Except.bind, aesdcharMaxWriteOperationsSupported,
    Nat.mod_eq_of_lt fits, slot, pure, Except.pure]
  split <;> rfl

/-- For a held command the walk yields the named position, the offset just
behind the command included. -/
theorem ioctlWalk_of_held (rep : driver.Represents log held leaked)
    (allocator : driver.KmallocBounded) {cmd : Bytes}
    (cmdEq : driver.held[seekCmd.writeCmd.toNat]? = some cmd) :
    ioctlWalk driver.cBuffer seekCmd fPos =
      .ok (if cmd.length < seekCmd.writeCmdOffset.toNat then
          (-einval, fPos)
        else
          ((driver.positionOf seekCmd : Int), (driver.positionOf seekCmd : Int))) := by
  have small := rep.length_content_lt allocator
  have outLt := rep.ring.outOffs_lt
  have lengthEq := rep.length_held
  have inside : seekCmd.writeCmd.toNat < driver.held.length :=
    (List.getElem?_eq_some_iff.mp cmdEq).1
  obtain ⟨ptr, _, entryEq⟩ := rep.entry_of_held cmdEq
  have slot := rep.ring.entryAt_held _ entryEq
  rw [ioctlWalk_of_slot seekCmd fPos (rep.seekSum_eq small (Nat.le_of_lt inside)) (by omega) slot]
  by_cases behind : cmd.length < seekCmd.writeCmdOffset.toNat
  · rw [if_pos behind, if_pos behind]
  · have offsetBound := seekCmd.writeCmdOffset.toNat_lt
    have upTo := (flatten_take_isPrefix driver.held (seekCmd.writeCmd.toNat + 1)).length_le
    rw [length_flatten_take_succ cmdEq] at upTo
    have contentLength : driver.held.flatten.length < 2 ^ 63 := small
    have bound : driver.positionOf seekCmd < 2 ^ 63 := by
      unfold positionOf
      omega
    have sought : toInt64 (driver.positionOf seekCmd : Int) = driver.positionOf seekCmd :=
      toInt64_of_lt (Int.natCast_nonneg _) (Int.ofNat_lt.mpr bound)
    rw [if_neg behind, if_neg behind]
    exact congrArg (fun position => Except.ok (position, position)) sought

/-- A command index behind the last one is taken modulo ten. -/
theorem ioctlWalk_of_behind (rep : driver.Represents log held leaked)
    (full : driver.cBuffer.full = true)
    (fits : driver.cBuffer.outOffs + seekCmd.writeCmd.toNat ≤ 2 ^ 31) :
    ∃ cmd retval, driver.held[seekCmd.writeCmd.toNat % 10]? = some cmd ∧
      ioctlWalk driver.cBuffer seekCmd fPos =
        .ok (if cmd.length < seekCmd.writeCmdOffset.toNat then
            (-einval, fPos)
          else
            (retval, retval)) := by
  obtain ⟨cmd, ptr, cmdEq, slot⟩ := rep.entryAt_full full seekCmd.writeCmd.toNat
  obtain ⟨sum, summed⟩ := seekSum_ok driver.cBuffer fits
  refine ⟨cmd, toInt64 (sum + seekCmd.writeCmdOffset.toNat), cmdEq, ?_⟩
  exact ioctlWalk_of_slot seekCmd fPos summed (by omega) slot

theorem ioctlWalk_of_overflow (rep : driver.Represents log held leaked)
    (overflow : 2 ^ 31 < driver.cBuffer.outOffs + seekCmd.writeCmd.toNat) :
    ioctlWalk driver.cBuffer seekCmd fPos = .error .badIndex := by
  simp only [ioctlWalk, seekSum_badIndex driver.cBuffer rep.ring.outOffs_lt overflow, bind,
    Except.bind]

end AesdDev.Represents

/-! ## When the promise is kept -/

namespace AesdDev.Represents

variable {driver : AesdDev} {log : Log} {held leaked : List (Nat × Bytes)}
  {seekCmd : AesdSeekto} {fPos : Int}

theorem locate_of_names (names : driver.Names seekCmd) :
    locate (driver.held.map List.length) (driver.positionOf seekCmd) =
      some (seekCmd.writeCmd.toNat, seekCmd.writeCmdOffset.toNat) := by
  obtain ⟨cmd, cmdEq, inside⟩ := names
  refine locate_eq_some_iff.mpr ⟨cmd.length, ?_, inside, ?_⟩
  · rw [List.getElem?_map, cmdEq]
    rfl
  · rw [positionOf, List.length_flatten, List.map_take]

/-- The offset search leads back to the named byte. -/
theorem find_positionOf (rep : driver.Represents log held leaked)
    (allocator : driver.KmallocBounded) (names : driver.Names seekCmd) :
    aesdCircularBufferFindEntryOffsetForFpos driver.cBuffer (driver.positionOf seekCmd) =
      .ok (some ((driver.cBuffer.outOffs + seekCmd.writeCmd.toNat) % 10,
        seekCmd.writeCmdOffset.toNat)) := by
  have small := rep.length_content_lt allocator
  rw [rep.ring.find_eq (by rw [rep.sum_sizes_eq]; omega), rep.sizes_eq, locate_of_names names]
  rfl

/-- For a held command the promise is kept unless the offset is its size. -/
theorem seeksCorrectly_of_held (rep : driver.Represents log held leaked)
    (unlocked : driver.bufferLock = false) (allocator : driver.KmallocBounded) {cmd : Bytes}
    (cmdEq : driver.held[seekCmd.writeCmd.toNat]? = some cmd) :
    driver.SeeksCorrectly seekCmd fPos ↔ seekCmd.writeCmdOffset.toNat ≠ cmd.length := by
  have namesIff : driver.Names seekCmd ↔ seekCmd.writeCmdOffset.toNat < cmd.length := by
    simp [Names, cmdEq]
  have inside := (List.getElem?_eq_some_iff.mp cmdEq).1
  have replied := aesdIoctl_eq driver unlocked seekCmd fPos
  rw [rep.ioctlSeek_eq, if_neg (by omega), rep.ioctlWalk_of_held seekCmd fPos allocator cmdEq]
    at replied
  constructor
  · intro correct atEnd
    have rejected := correct.rejects (by rw [namesIff]; omega)
    rw [replied, if_neg (by omega)] at rejected
    have negative := congrArg SeekResult.retval (Except.ok.inj rejected)
    simp [einval] at negative
  · intro notAtEnd
    refine ⟨?_, ?_⟩
    · intro names
      refine ⟨?_, rep.find_positionOf allocator names⟩
      rw [namesIff] at names
      rw [replied, if_neg (by omega)]
      rfl
    · intro nameless
      rw [namesIff] at nameless
      rw [replied, if_pos (by omega)]
      rfl

/-- Until the ring is full, an index behind the last command is rejected. -/
theorem seeksCorrectly_of_room (rep : driver.Represents log held leaked)
    (unlocked : driver.bufferLock = false) (room : driver.cBuffer.full = false)
    (behind : driver.held.length ≤ seekCmd.writeCmd.toNat) :
    driver.SeeksCorrectly seekCmd fPos := by
  have nameless : ¬ driver.Names seekCmd := by
    rintro ⟨cmd, cmdEq, _⟩
    exact absurd (List.getElem?_eq_some_iff.mp cmdEq).1 (by omega)
  refine ⟨fun names => absurd names nameless, fun _ => ?_⟩
  rw [aesdIoctl_eq driver unlocked, rep.ioctlSeek_eq, if_pos ⟨room, behind⟩]
  rfl

/-- In a full ring such an index is rejected only together with an offset behind
the command it wraps around to. -/
theorem seeksCorrectly_of_full (rep : driver.Represents log held leaked)
    (unlocked : driver.bufferLock = false) (nonneg : 0 ≤ fPos)
    (full : driver.cBuffer.full = true) (behind : 10 ≤ seekCmd.writeCmd.toNat) :
    driver.SeeksCorrectly seekCmd fPos ↔
      driver.cBuffer.outOffs + seekCmd.writeCmd.toNat ≤ 2 ^ 31 ∧
        ∀ cmd, driver.held[seekCmd.writeCmd.toNat % 10]? = some cmd →
          cmd.length < seekCmd.writeCmdOffset.toNat := by
  have lengthEq := rep.length_held
  have nameless : ¬ driver.Names seekCmd := by
    rintro ⟨cmd, cmdEq, _⟩
    exact absurd (List.getElem?_eq_some_iff.mp cmdEq).1 (by omega)
  have replied := aesdIoctl_eq driver unlocked seekCmd fPos
  rw [rep.ioctlSeek_eq, if_neg (by simp [full])] at replied
  by_cases fits : driver.cBuffer.outOffs + seekCmd.writeCmd.toNat ≤ 2 ^ 31
  · obtain ⟨cmd, retval, cmdEq, walked⟩ := rep.ioctlWalk_of_behind seekCmd fPos full fits
    rw [walked] at replied
    constructor
    · intro correct
      refine ⟨fits, ?_⟩
      intro other otherEq
      obtain rfl : cmd = other := Option.some.inj (cmdEq.symm.trans otherEq)
      by_contra accepted
      have rejected := correct.rejects nameless
      rw [replied, if_neg accepted] at rejected
      have returned := congrArg SeekResult.retval (Except.ok.inj rejected)
      have stored := congrArg SeekResult.fPos (Except.ok.inj rejected)
      simp only [einval] at returned stored
      omega
    · rintro ⟨_, offsets⟩
      refine ⟨fun names => absurd names nameless, fun _ => ?_⟩
      rw [replied, if_pos (offsets cmd cmdEq)]
      rfl
  · rw [rep.ioctlWalk_of_overflow seekCmd fPos (by omega)] at replied
    constructor
    · intro correct
      have rejected := correct.rejects nameless
      rw [replied] at rejected
      contradiction
    · rintro ⟨fits', _⟩
      exact absurd fits' fits

theorem seeksCorrectly_iff (rep : driver.Represents log held leaked)
    (unlocked : driver.bufferLock = false) (allocator : driver.KmallocBounded)
    (nonneg : 0 ≤ fPos) :
    driver.SeeksCorrectly seekCmd fPos ↔ driver.SeekIsSafe seekCmd := by
  have lengthEq := rep.length_held
  have fullEq := rep.ring.full_eq
  cases cmdEq : driver.held[seekCmd.writeCmd.toNat]? with
  | some cmd =>
      have inside := (List.getElem?_eq_some_iff.mp cmdEq).1
      rw [rep.seeksCorrectly_of_held unlocked allocator cmdEq]
      constructor
      · intro notAtEnd
        refine ⟨?_, fun _ behind => absurd behind (by omega)⟩
        intro other otherEq
        obtain rfl : cmd = other := Option.some.inj (cmdEq.symm.trans otherEq)
        exact notAtEnd
      · intro safe
        exact safe.notAtEnd cmd cmdEq
  | none =>
      have behind := List.getElem?_eq_none_iff.mp cmdEq
      have noCmd : ∀ cmd, driver.held[seekCmd.writeCmd.toNat]? = some cmd →
          seekCmd.writeCmdOffset.toNat ≠ cmd.length := by
        simp [cmdEq]
      cases full : driver.cBuffer.full with
      | false =>
          constructor
          · exact fun _ => ⟨noCmd, by simp [full]⟩
          · exact fun _ => rep.seeksCorrectly_of_room unlocked full behind
      | true =>
          have isFull : 10 ≤ log.committed.length := by
            rw [full] at fullEq
            exact of_decide_eq_true fullEq.symm
          rw [rep.seeksCorrectly_of_full unlocked nonneg full (by omega)]
          constructor
          · exact fun wrapped => ⟨noCmd, fun _ _ => wrapped⟩
          · exact fun safe => safe.behindLast full (by omega)

/-- Every readable position is named by exactly one pair. -/
theorem existsUnique_names (rep : driver.Represents log held leaked)
    (allocator : driver.KmallocBounded) {position : Nat}
    (inside : position < driver.content.length) :
    ∃! seekCmd, driver.Names seekCmd ∧ driver.positionOf seekCmd = position := by
  obtain ⟨index, cmd, offset, cmdEq, found, offsetLt, positionEq, _⟩ := slice_of_lt 0 inside
  have lengthEq := rep.length_held
  have indexLt := (List.getElem?_eq_some_iff.mp cmdEq).1
  have sizeLt := rep.length_held_lt allocator (List.mem_of_getElem? cmdEq)
  have indexEq : (UInt32.ofNat index).toNat = index :=
    UInt32.toNat_ofNat_of_lt' (by simp [UInt32.size]; omega)
  have offsetEq : (UInt32.ofNat offset).toNat = offset :=
    UInt32.toNat_ofNat_of_lt' (by simp [UInt32.size]; omega)
  refine ⟨⟨UInt32.ofNat index, UInt32.ofNat offset⟩, ⟨⟨cmd, ?_, ?_⟩, ?_⟩, ?_⟩
  · simp only [indexEq, cmdEq]
  · simp only [offsetEq, offsetLt]
  · simp only [positionOf, indexEq, offsetEq, positionEq]
  · rintro ⟨writeCmd, writeCmdOffset⟩ ⟨names, rfl⟩
    have located := locate_of_names names
    rw [found] at located
    simp only [Option.some.injEq, Prod.mk.injEq] at located
    obtain ⟨rfl, rfl⟩ := located
    simp

end AesdDev.Represents

/-- On every device reached by writes and left idle, the seek command accepts
exactly the pairs that name a byte of a held command, and leads the read path to
that byte, if and only if the pair is safe.  Each readable position is named by
exactly one pair. -/
theorem aesdIoctl_seek_iff {driver : AesdDev}
    (reachable : Reachable AesdDev.write aesdInitModule driver)
    (unlocked : driver.bufferLock = false) (allocator : driver.KmallocBounded) :
    (∀ seekCmd fPos, 0 ≤ fPos →
      (driver.SeeksCorrectly seekCmd fPos ↔ driver.SeekIsSafe seekCmd)) ∧
    ∀ position, position < driver.content.length →
      ∃! seekCmd, driver.Names seekCmd ∧ driver.positionOf seekCmd = position := by
  obtain ⟨log, held, leaked, rep⟩ := AesdDev.represents_of_reachable reachable
  constructor
  · intro seekCmd fPos nonneg
    exact rep.seeksCorrectly_iff unlocked allocator nonneg
  · intro position inside
    exact rep.existsUnique_names allocator inside

/-- Three writes of `a\n` and nine of `bc\n`: the ring is full, and starts at its third
slot. -/
def twelveWrites : List Bytes :=
  List.replicate 3 [97, 10] ++ List.replicate 9 [98, 99, 10]

/-- On this device a seek to the last byte of the last command is correct. -/
theorem aesdIoctl_seek_iff_twelve_writes :
    let driver := AesdDev.ofWrites twelveWrites
    driver.cBuffer.full = true ∧ driver.cBuffer.outOffs = 2 ∧ driver.SeeksCorrectly ⟨9, 2⟩ 0 ∧
      ∃! seekCmd, driver.Names seekCmd ∧ driver.positionOf seekCmd = 28 := by
  intro driver
  have unlocked : driver.bufferLock = false := by decide +kernel
  have allocator : driver.KmallocBounded := by
    unfold AesdDev.KmallocBounded
    decide +kernel
  obtain ⟨correct, named⟩ := aesdIoctl_seek_iff (AesdDev.reachable_ofWrites twelveWrites) unlocked
    allocator
  have last : driver.held[9]? = some [98, 99, 10] := by decide +kernel
  refine ⟨by decide +kernel, by decide +kernel, (correct ⟨9, 2⟩ 0 (Int.le_refl 0)).mpr ⟨?_, ?_⟩,
    named 28 (by decide +kernel)⟩
  · intro cmd named
    obtain rfl := Option.some.inj (last.symm.trans named)
    decide
  · exact fun _ behind => absurd behind (by decide)

/-- The device that holds `a\n` accepts the offset just behind its command,
although no byte is there. -/
theorem aesdIoctl_accepts_size :
    let driver := AesdDev.ofWrites [[97, 10]]
    Reachable AesdDev.write aesdInitModule driver ∧ driver.held = [[97, 10]] ∧
      (aesdIoctl ⟨true, 0⟩ aesdcharIocseekto ⟨0, 2⟩ 0 driver).map SeekResult.retval =
        .ok 2 ∧
      ¬ driver.SeeksCorrectly ⟨0, 2⟩ 0 := by
  refine ⟨AesdDev.reachable_ofWrites _, by decide, by decide +kernel, ?_⟩
  intro correct
  have heldEq : (AesdDev.ofWrites [[97, 10]]).held = [[97, 10]] := by decide
  have rejected := correct.rejects (by simp [AesdDev.Names, heldEq])
  have returned := congrArg (Except.map SeekResult.retval) rejected
  exact absurd returned (by decide +kernel)

end Aesd.Driver
