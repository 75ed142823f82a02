import Aesd.Driver.LockBalance
import Aesd.Driver.Seek

/-!
# Seeking relative to start, position and end

`aesd_llseek` computes in signed 64-bit arithmetic and rejects a negative sum.
A sum that overflows is negative, so that exactly the positions a file can have
are accepted.  The sum of the sizes of all ten slots is the length of what
readers see, whatever the fill state of the ring.

File positions are non-negative in every run: reads stop at the end of the
content, and the walk of `aesd_ioctl` over blocks of the size the kernel hands
out does not overflow.
-/

namespace Aesd.Driver

open Aesd.Memory.Heap
open Aesd.Transition
open Aesd.Word

/-! ## The specification -/

/-- `SEEK_SET`, `SEEK_CUR` and `SEEK_END`. -/
inductive Whence
  | set
  | cur
  | fromEnd

/-- The value the constant has in C. -/
def Whence.number : Whence → Int
  | set => 0
  | cur => 1
  | fromEnd => 2

/-- The position the offset is added to. -/
def Whence.base (driver : AesdDev) (fPos : Int) : Whence → Int
  | set => 0
  | cur => fPos
  | fromEnd => driver.content.length

/-- Sequential reads of the device from a position on return, and deliver the content
from there on. -/
def AesdDev.DeliversFrom (driver : AesdDev) (position : Nat) : Prop :=
  ∀ calls : Nat → ReadCall, (∀ n, 0 < (calls n).count) →
    Nonempty (ReadRun calls ⟨position, driver⟩) ∧
      ∀ run : ReadRun calls ⟨position, driver⟩, run.Delivers position

/-- The reply to a seek by `off` on a file at `fPos`. -/
structure SeeksExactly (driver : AesdDev) (fPos : Int) (off : Int64) (whence : Whence)
    (result : SeekResult) : Prop where
  returned : aesdLlseek true off.toInt whence.number fPos driver = .ok result
  content_eq : result.driver.content = driver.content
  nonneg : 0 ≤ result.fPos
  accepted : ∀ position : Nat, whence.base driver fPos + off.toInt = position →
    position < 2 ^ 63 →
      result.retval = position ∧ result.fPos = position ∧ result.driver.DeliversFrom position
  rejected : whence.base driver fPos + off.toInt < 0 ∨
      2 ^ 63 ≤ whence.base driver fPos + off.toInt →
    result.retval = -einval ∧ result.fPos = fPos

/-! ## One seek -/

namespace AesdDev.Represents

variable {driver : AesdDev} {log : Log} {held leaked : List (Nat × Bytes)}

theorem deliversFrom (rep : driver.Represents log held leaked)
    (unlocked : driver.bufferLock = false) (small : driver.content.length < 2 ^ 63)
    {position : Nat} (positionBound : position < 2 ^ 63) : driver.DeliversFrom position := by
  intro calls positive
  have answers : driver.Replies calls :=
    fun n position bound => rep.aesdRead unlocked small (positive n) bound
  exact answers.delivers small positionBound positive

/-- The position `aesd_llseek` computes is the sum in 64 bits. -/
theorem llseekTarget_of_whence (rep : driver.Represents log held leaked) (fPos : Int)
    (off : Int64) (whence : Whence) :
    llseekTarget driver.cBuffer fPos off.toInt whence.number =
      .ok (some (toInt64 (whence.base driver fPos + off.toInt))) := by
  have lower := off.le_toInt
  have upper := off.toInt_lt
  rw [rep.llseekTarget_eq]
  cases whence with
  | set =>
      have inRange : toInt64 off.toInt = off.toInt := by
        unfold toInt64
        rw [Int.bmod_eq_of_le] <;> omega
      simp [Whence.number, Whence.base, inRange]
  | cur => rfl
  | fromEnd => rfl

theorem aesdLlseek_exact (rep : driver.Represents log held leaked)
    (unlocked : driver.bufferLock = false) (small : driver.content.length < 2 ^ 63) {fPos : Int}
    (nonneg : 0 ≤ fPos) (fPosBound : fPos < 2 ^ 63) (off : Int64) (whence : Whence) :
    ∃ result, SeeksExactly driver fPos off whence result := by
  obtain ⟨locked, lockTaken, unlocks, sameBuffer, _, keeps⟩ := lock_unlock unlocked
  have target := rep.llseekTarget_of_whence fPos off whence
  have lower := off.le_toInt
  have upper := off.toInt_lt
  have baseNonneg : 0 ≤ whence.base driver fPos := by
    cases whence <;> simp only [Whence.base] <;> omega
  have baseBound : whence.base driver fPos < 2 ^ 63 := by
    cases whence <;> simp only [Whence.base] <;> omega
  have sumLower : -2 ^ 63 ≤ whence.base driver fPos + off.toInt := by omega
  have negativeIff := toInt64_neg_iff sumLower (by omega)
  by_cases negative : toInt64 (whence.base driver fPos + off.toInt) < 0
  · refine ⟨⟨-einval, fPos, locked⟩, ?_⟩
    constructor
    case returned =>
      simp only [Driver.aesdLlseek, lockTaken, sameBuffer, target, negative, if_true, bind,
        Except.bind]
      rfl
    case content_eq =>
      rw [AesdDev.content, AesdDev.content, (keeps _ _ _ rep).held_eq_log, rep.held_eq_log]
    case nonneg => exact nonneg
    case accepted =>
      intro position positionEq positionBound
      omega
    case rejected => exact fun _ => ⟨rfl, rfl⟩
  · refine ⟨⟨toInt64 (whence.base driver fPos + off.toInt),
      toInt64 (whence.base driver fPos + off.toInt), driver⟩, ?_⟩
    constructor
    case returned =>
      simp only [Driver.aesdLlseek, lockTaken, sameBuffer, target, negative, if_false, unlocks,
        bind, Except.bind]
      rfl
    case content_eq => rfl
    case nonneg =>
      change 0 ≤ toInt64 _
      omega
    case accepted =>
      intro position positionEq positionBound
      rw [positionEq, toInt64_of_lt (by omega) (by omega)]
      exact ⟨rfl, rfl, rep.deliversFrom unlocked small positionBound⟩
    case rejected =>
      intro outside
      exact absurd (negativeIff.mpr outside) negative

end AesdDev.Represents

/-! ## File positions -/

/-- A file position, as the virtual file system keeps it. -/
def IsPosition (fPos : Int) : Prop :=
  0 ≤ fPos ∧ fPos < 2 ^ 63

/-- No block of kernel memory has `2 ^ 31` bytes: `kmalloc` and `krealloc` refuse
requests of that size. -/
def AesdDev.KmallocLimited (driver : AesdDev) : Prop :=
  ∀ contents ∈ driver.heap.live, contents.length < 2 ^ 31

instance (driver : AesdDev) : Decidable driver.KmallocLimited :=
  inferInstanceAs (Decidable (∀ contents ∈ driver.heap.live, contents.length < 2 ^ 31))

theorem AesdDev.KmallocLimited.bounded {driver : AesdDev} (allocator : driver.KmallocLimited) :
    driver.KmallocBounded := by
  intro contents member
  have limited := allocator contents member
  omega

/-- A seek leaves the file position alone or sets it to a sum in 64 bits that is not
negative. -/
theorem aesdLlseek_isPosition {lock : Bool} {off : Int64} {whence fPos : Int} {driver : AesdDev}
    {result : SeekResult} (before : IsPosition fPos)
    (returned : aesdLlseek lock off.toInt whence fPos driver = .ok result) :
    IsPosition result.fPos := by
  have inRange : ∀ sum, toInt64 sum < 2 ^ 63 := fun sum =>
    Int.bmod_lt (show 0 < 2 ^ 64 by decide)
  obtain ⟨taken, _, returned⟩ := bind_eq_ok_iff.mp returned
  cases taken with
  | none =>
      cases returned
      exact before
  | some locked =>
      obtain ⟨target, computed, returned⟩ := bind_eq_ok_iff.mp returned
      cases target with
      | none =>
          cases returned
          exact before
      | some newpos =>
          have bound : newpos < 2 ^ 63 := by
            unfold llseekTarget at computed
            split at computed
            · cases computed
              exact off.toInt_lt
            · cases computed
              exact inRange _
            · obtain ⟨total, _, computed⟩ := bind_eq_ok_iff.mp computed
              cases computed
              exact inRange _
            · cases computed
          simp only at returned
          split at returned
          · cases returned
            exact before
          · obtain ⟨unlocked, _, returned⟩ := bind_eq_ok_iff.mp returned
            cases returned
            exact ⟨Int.not_lt.mp ‹_›, bound⟩

/-- Reads a slot of the array, whatever it does with the index. -/
theorem CircularBuffer.exists_slot_of_entryAt {buffer : CircularBuffer} {index : Int}
    {entry : BufferEntry} (found : buffer.entryAt index = .ok entry) :
    ∃ slot, buffer.entry slot = entry := by
  unfold entryAt at found
  split at found
  · cases found
    exact ⟨_, rfl⟩
  · contradiction

/-- The walk of `aesd_ioctl` over slots of limited size does not overflow. -/
theorem seekSum_le {buffer : CircularBuffer} (limited : ∀ slot, (buffer.entry slot).size < 2 ^ 31)
    {iterations : Nat} (bound : iterations ≤ 2 ^ 32) {sum : Int}
    (summed : seekSum buffer iterations = .ok sum) :
    0 ≤ sum ∧ sum ≤ (iterations * (2 ^ 31 - 1) : Nat) := by
  induction iterations generalizing sum with
  | zero =>
      cases summed
      simp
  | succ iterations ih =>
      obtain ⟨retval, earlier, summed⟩ := bind_eq_ok_iff.mp summed
      obtain ⟨entry, found, summed⟩ := bind_eq_ok_iff.mp summed
      obtain ⟨slot, rfl⟩ := CircularBuffer.exists_slot_of_entryAt found
      cases summed
      obtain ⟨nonneg, upper⟩ := ih (by omega) earlier
      have small := limited slot
      rw [toInt64_of_lt (by omega) (by omega)]
      omega

namespace AesdDev.Represents

variable {driver : AesdDev} {log : Log} {held leaked : List (Nat × Bytes)}

/-- No slot is as long as a block the kernel refuses. -/
theorem size_slot_lt (rep : driver.Represents log held leaked)
    (allocator : driver.KmallocLimited) (slot : Fin 10) :
    (driver.cBuffer.entry slot).size < 2 ^ 31 := by
  obtain ⟨current, _, owns⟩ := rep.memory
  rcases rep.ring.slot_cases slot with inHeld | unset
  · obtain ⟨cell, member, cellEq⟩ := List.mem_map.mp inHeld
    rw [← cellEq]
    have live : driver.heap.block cell.1 = some cell.2 := owns.block_of_mem (by simp [member])
    exact allocator cell.2 (mem_live_iff.mpr ⟨cell.1, live⟩)
  · rw [unset]
    decide

theorem aesdIoctl_isPosition (rep : driver.Represents log held leaked)
    (allocator : driver.KmallocLimited) {outcomes : IoctlOutcomes} {cmd : Nat} {arg : AesdSeekto}
    {fPos : Int} {result : SeekResult} (before : IsPosition fPos)
    (returned : Driver.aesdIoctl outcomes cmd arg fPos driver = .ok result) :
    IsPosition result.fPos := by
  unfold Driver.aesdIoctl at returned
  split at returned
  · cases returned
    exact before
  · split at returned
    · cases returned
      exact before
    · obtain ⟨taken, lockTaken, returned⟩ := bind_eq_ok_iff.mp returned
      cases taken with
      | none =>
          cases returned
          exact before
      | some locked =>
          have same := SameMemory.of_lock lockTaken
          obtain ⟨⟨retval, fPos'⟩, replied, returned⟩ := bind_eq_ok_iff.mp returned
          obtain ⟨unlocked, _, returned⟩ := bind_eq_ok_iff.mp returned
          cases returned
          rw [(same.represents rep).ioctlSeek_eq] at replied
          split at replied
          · cases replied
            exact before
          · obtain ⟨sum, summed, replied⟩ := bind_eq_ok_iff.mp replied
            obtain ⟨entry, found, replied⟩ := bind_eq_ok_iff.mp replied
            obtain ⟨slot, rfl⟩ := CircularBuffer.exists_slot_of_entryAt found
            have limited := (same.represents rep).size_slot_lt (by rw [same]; exact allocator)
            have iterations := arg.writeCmd.toNat_lt
            obtain ⟨nonneg, upper⟩ := seekSum_le limited (by omega) summed
            have small := limited slot
            split at replied
            · cases replied
              exact before
            · cases replied
              change IsPosition (toInt64 (sum + arg.writeCmdOffset.toNat))
              rw [toInt64_of_lt (by omega) (by omega)]
              exact ⟨by omega, by omega⟩

theorem aesdRead_isPosition (rep : driver.Represents log held leaked)
    (small : driver.content.length < 2 ^ 63) {outcomes : ReadOutcomes} {bufIsNull : Bool}
    {count : Nat} {fPos : Int} {result : ReadResult} (before : IsPosition fPos)
    (returned : Driver.aesdRead outcomes bufIsNull count fPos driver = .ok result) :
    IsPosition result.fPos := by
  obtain ⟨nonneg, bound⟩ := before
  by_cases refused : bufIsNull = true ∨ fPos < 0 ∨ count = 0
  · simp only [Driver.aesdRead, if_pos refused] at returned
    cases returned
    exact ⟨nonneg, bound⟩
  · obtain ⟨position, rfl⟩ := Int.eq_ofNat_of_zero_le nonneg
    obtain rfl : bufIsNull = false := by
      cases bufIsNull with
      | false => rfl
      | true => simp at refused
    have positive : 0 < count := by omega
    have positionBound : position < 2 ^ 63 := by omega
    let call : ReadCall := ⟨outcomes, count⟩
    have positiveCall : 0 < call.count := positive
    by_cases waits : outcomes.lock = true ∧ driver.bufferLock = true
    · simp only [Driver.aesdRead, if_neg refused, mutexLockInterruptible, waits.1, waits.2,
        if_true, bind, Except.bind] at returned
      cases returned
    · have replied : Driver.aesdRead outcomes false count position driver =
          .ok (driver.readReply call position) := by
        cases locked : driver.bufferLock with
        | false => exact rep.aesdRead locked small positiveCall positionBound
        | true =>
            have interrupted : outcomes.lock = false := by simpa [locked] using waits
            simp only [Driver.aesdRead, if_neg refused, mutexLockInterruptible, interrupted,
              readReply, call, if_true]
            rfl
      have replies := driver.readReply_matches positiveCall position
      have lengthEq := congrArg List.length replies.returned_eq
      rw [List.length_take, List.length_drop] at lengthEq
      have fPosEq := replies.fPos_eq
      rw [replied] at returned
      cases returned
      rw [fPosEq]
      exact ⟨by omega, by omega⟩

end AesdDev.Represents

/-! ## Runs -/

/-- The device and the position of each open file; a file that is not open yet is at
zero. -/
structure Files where
  driver : AesdDev
  fPos : Nat → Int

/-- A call on one of the files, with what the kernel decides during it. -/
inductive FileCall
  | read (file : Nat) (outcomes : ReadOutcomes) (bufIsNull : Bool) (count : Nat)
  | write (file : Nat) (outcomes : WriteOutcomes) (buf : Option Bytes)
  | llseek (file : Nat) (lock : Bool) (off : Int64) (whence : Int)
  | ioctl (file : Nat) (outcomes : IoctlOutcomes) (cmd : Nat) (arg : AesdSeekto)

namespace Files

/-- A fresh device. -/
def start : Files :=
  ⟨aesdInitModule, fun _ => 0⟩

/-- The device and the files after a call has moved one of them. -/
def move (files : Files) (file : Nat) (driver : AesdDev) (fPos : Int) : Files :=
  ⟨driver, Function.update files.fPos file fPos⟩

/-- One call, or why it does not return. -/
def perform (files : Files) : FileCall → Except Stop Files
  | .read file outcomes bufIsNull count =>
      (aesdRead outcomes bufIsNull count (files.fPos file) files.driver).map fun result =>
        files.move file result.driver result.fPos
  | .write file outcomes buf =>
      (aesdWrite outcomes buf (files.fPos file) files.driver).map fun returned =>
        files.move file returned.2 (files.fPos file)
  | .llseek file lock off whence =>
      (aesdLlseek lock off.toInt whence (files.fPos file) files.driver).map fun result =>
        files.move file result.driver result.fPos
  | .ioctl file outcomes cmd arg =>
      (aesdIoctl outcomes cmd arg (files.fPos file) files.driver).map fun result =>
        files.move file result.driver result.fPos

/-- One call that returns. -/
def call : Step FileCall Files := fun fileCall files =>
  match files.perform fileCall with
  | .error _ => none
  | .ok files => some files

/-- The kernel hands out no block of `2 ^ 31` bytes during the call. -/
def Allocates (files : Files) (fileCall : FileCall) : Prop :=
  ∀ files', Files.call fileCall files = some files' → files'.driver.KmallocLimited

instance (files : Files) (fileCall : FileCall) : Decidable (files.Allocates fileCall) :=
  inferInstanceAs (Decidable (∀ files' ∈ Files.call fileCall files, files'.driver.KmallocLimited))

/-- What holds between calls. -/
structure Sound (files : Files) : Prop where
  represents : ∃ log held leaked, files.driver.Represents log held leaked
  allocator : files.driver.KmallocLimited
  isPosition : ∀ file, IsPosition (files.fPos file)

theorem Sound.start : Files.start.Sound where
  represents := ⟨Log.empty, [], [], AesdDev.represents_init⟩
  allocator := by
    intro contents member
    obtain ⟨_, live⟩ := mem_live_iff.mp member
    contradiction
  isPosition _ := ⟨Int.le_refl 0, show (0 : Int) < 2 ^ 63 by decide⟩

theorem Sound.move {files : Files} (sound : files.Sound) {file : Nat} {driver : AesdDev}
    {fPos : Int} (represents : ∃ log held leaked, driver.Represents log held leaked)
    (allocator : driver.KmallocLimited) (isPosition : IsPosition fPos) :
    (files.move file driver fPos).Sound where
  represents := represents
  allocator := allocator
  isPosition other := by
    by_cases same : other = file
    · subst other
      simpa [Files.move] using isPosition
    · simpa [Files.move, same] using sound.isPosition other

/-- One call keeps the file positions within bounds. -/
theorem Sound.call {files files' : Files} {fileCall : FileCall} (sound : files.Sound)
    (allocates : files.Allocates fileCall) (called : Files.call fileCall files = some files') :
    files'.Sound := by
  have allocator := allocates files' called
  obtain ⟨log, held, leaked, rep⟩ := sound.represents
  have small := rep.length_content_lt sound.allocator.bounded
  have performed : files.perform fileCall = .ok files' := by
    unfold Files.call at called
    split at called
    · contradiction
    · rename_i performed
      rw [performed, Option.some.inj called]
  cases fileCall with
  | read file outcomes bufIsNull count =>
      obtain ⟨result, returned, rfl⟩ := map_eq_ok_iff.mp performed
      exact sound.move ⟨_, _, _, (aesdRead_sameMemory returned).represents rep⟩ allocator
        (rep.aesdRead_isPosition small (sound.isPosition file) returned)
  | write file outcomes buf =>
      obtain ⟨⟨retval, driver'⟩, returned, rfl⟩ := map_eq_ok_iff.mp performed
      have performs : files.driver.perform (.write outcomes buf (files.fPos file)) =
          .ok driver' := map_eq_ok_iff.mpr ⟨_, returned, rfl⟩
      obtain ⟨log', held', leaked', rep', _⟩ := rep.of_perform performs
      exact sound.move ⟨log', held', leaked', rep'⟩ allocator (sound.isPosition file)
  | llseek file lock off whence =>
      obtain ⟨result, returned, rfl⟩ := map_eq_ok_iff.mp performed
      exact sound.move ⟨_, _, _, (aesdLlseek_sameMemory returned).represents rep⟩ allocator
        (aesdLlseek_isPosition (sound.isPosition file) returned)
  | ioctl file outcomes cmd arg =>
      obtain ⟨result, returned, rfl⟩ := map_eq_ok_iff.mp performed
      exact sound.move ⟨_, _, _, (aesdIoctl_sameMemory returned).represents rep⟩ allocator
        (rep.aesdIoctl_isPosition sound.allocator (sound.isPosition file) returned)

end Files

/-- In every state reached by calls on open files that finds the lock free, the
content is what reads from the start deliver, and a seek on any of the files
moves it by the offset exactly, or rejects a sum that is no file position. -/
theorem aesdLlseek_seeksExactly {calls : List FileCall} {files : Files}
    (run : Run Files.call Files.Allocates Files.start calls files)
    (unlocked : files.driver.bufferLock = false) :
    files.driver.DeliversFrom 0 ∧
      ∀ file off whence, ∃ result,
        SeeksExactly files.driver (files.fPos file) off whence result := by
  have sound : files.Sound := run.invariant (fun _ files => files.Sound) Files.Sound.start
    fun sound allocates called => sound.call allocates called
  obtain ⟨log, held, leaked, rep⟩ := sound.represents
  have small := rep.length_content_lt sound.allocator.bounded
  constructor
  · exact rep.deliversFrom unlocked small (by decide)
  · intro file off whence
    obtain ⟨nonneg, bound⟩ := sound.isPosition file
    exact rep.aesdLlseek_exact unlocked small nonneg bound off whence

/-- `a\n` is written through one file, and one byte of it read through another. -/
def writeAndReadOne : List FileCall :=
  [.write 0 WriteOutcomes.success (some [97, 10]), .read 1 ⟨true, 0⟩ false 1]

theorem aesdLlseek_seeksExactly_after_read :
    ∃ files, exec Files.call writeAndReadOne Files.start = some files ∧ files.fPos 1 = 1 ∧
      files.driver.DeliversFrom 0 ∧
      ∀ file off whence, ∃ result,
        SeeksExactly files.driver (files.fPos file) off whence result := by
  obtain ⟨files, executed⟩ : ∃ files,
      exec (admitted Files.call Files.Allocates) writeAndReadOne Files.start = some files :=
    ⟨_, rfl⟩
  have run : Run Files.call Files.Allocates Files.start writeAndReadOne files :=
    run_iff_exec_admitted.mpr executed
  have unlocked : files.driver.bufferLock = false := by
    cases executed
    rfl
  have moved : files.fPos 1 = 1 := by
    cases executed
    rfl
  exact ⟨files, run.exec_eq_some, moved, aesdLlseek_seeksExactly run unlocked⟩

end Aesd.Driver
