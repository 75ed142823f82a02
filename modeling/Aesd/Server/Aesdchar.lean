import Aesd.Driver.History
import Aesd.Driver.LockBalance
import Aesd.Driver.Read
import Aesd.Server.Handler

/-!
# `/dev/aesdchar` as a device file

The driver, seen through the calls of a handler.  While nothing fails, a write
commits its first line behind the bytes that were pending and keeps the rest, and
reads return slices of the commands held.
-/

namespace Aesd.Server

open Aesd.Driver
open Aesd.Ring
open Aesd.Word

/-- What the kernel decides during a call of the driver, for whichever call it
is. -/
structure DriverOutcomes where
  write : WriteOutcomes
  read : ReadOutcomes
  llseek : Bool
  ioctl : IoctlOutcomes

/-- A seek leaves the position in the file and delivers nothing. -/
def Reply.ofSeek (result : SeekResult) : Reply AesdDev :=
  ⟨result.retval, [], result.fPos, result.driver⟩

/-- The driver as a device. -/
def aesdchar : Device AesdDev DriverOutcomes := fun outcomes request fPos driver =>
  match request with
  | .write bytes =>
      match aesdWrite outcomes.write (some bytes) fPos driver with
      | .error _ => none
      | .ok (retval, driver) => some ⟨retval, [], fPos, driver⟩
  | .read count =>
      match aesdRead outcomes.read false count fPos driver with
      | .error _ => none
      | .ok result => some ⟨result.retval, result.delivered, result.fPos, result.driver⟩
  | .llseek off whence =>
      (aesdLlseek outcomes.llseek off whence fPos driver).toOption.map Reply.ofSeek
  | .ioctl cmd =>
      (aesdIoctl outcomes.ioctl aesdcharIocseekto cmd fPos driver).toOption.map Reply.ofSeek

/-- A call during which nothing fails. -/
structure DriverOutcomes.Succeed (outcomes : DriverOutcomes) : Prop where
  writeLock : outcomes.write.lock = true
  kbuf : outcomes.write.kbuf.isSome = true
  uncopied : outcomes.write.uncopied = 0
  krealloc : outcomes.write.krealloc.isSome = true
  read : outcomes.read = ⟨true, 0⟩
  llseek : outcomes.llseek = true

/-- Nothing fails, and fresh memory is zero. -/
def DriverOutcomes.success : DriverOutcomes :=
  ⟨WriteOutcomes.success, ⟨true, 0⟩, true, ⟨true, 0⟩⟩

theorem DriverOutcomes.succeed_success : DriverOutcomes.success.Succeed :=
  ⟨rfl, rfl, rfl, rfl, rfl, rfl⟩

/-- A step of a handler during which nothing fails, with the bytes `recv` delivers
if it is called. -/
def Outcomes.success (chunk : Bytes) : Outcomes DriverOutcomes where
  ok := true
  chunk := chunk
  fill _ := 0
  clientThreadNode := 0
  count := 4096
  device := DriverOutcomes.success

/-- A seek to the start of an unlocked device. -/
theorem aesdchar_llseek {driver : AesdDev} {outcomes : DriverOutcomes}
    (unlocked : driver.bufferLock = false) (succeed : outcomes.Succeed) (fPos : Int) :
    aesdchar outcomes (.llseek 0 0) fPos driver = some ⟨0, [], 0, driver⟩ := by
  obtain ⟨locked, lockTaken, unlocks, _⟩ := AesdDev.Represents.lock_unlock unlocked
  have target : llseekTarget locked.cBuffer fPos 0 0 = .ok (some 0) := rfl
  have sought : aesdLlseek outcomes.llseek 0 0 fPos driver = .ok ⟨0, 0, driver⟩ := by
    simp only [aesdLlseek, succeed.llseek, lockTaken, target, unlocks, bind, Except.bind]
    rfl
  simp only [aesdchar, sought]
  rfl

/-- No call is in progress, `cmds` have been committed in this order, and `bytes` are
pending. -/
def Holding (cmds : List Bytes) (bytes : Bytes) (driver : AesdDev) : Prop :=
  driver.bufferLock = false ∧ ∃ log held leaked, driver.Represents log held leaked ∧
    log.committed = cmds ∧ log.pending = .held bytes

section Holding

variable {cmds : List Bytes} {bytes : Bytes} {driver : AesdDev} {outcomes : DriverOutcomes}
  {fPos : Int}

theorem Holding.pending_eq (holding : Holding cmds bytes driver) : driver.pending = bytes := by
  obtain ⟨_, log, held, leaked, rep, _, pending⟩ := holding
  exact rep.pending_eq_log pending

/-- A write puts the pending bytes in front of the first line, and keeps the rest. -/
theorem Holding.write (holding : Holding cmds bytes driver) (succeed : outcomes.Succeed)
    {line rest : Bytes} (room : rest = [] ∨ outcomes.write.remainder.isSome = true)
    (isLine : IsLine newline line) (nonneg : 0 ≤ fPos) :
    ∃ driver', aesdchar outcomes (.write (line ++ rest)) fPos driver =
        some ⟨(line ++ rest).length, [], fPos, driver'⟩ ∧
      Holding (cmds ++ [bytes ++ line]) rest driver' ∧
      driver.committedSince driver' = [bytes ++ line] := by
  obtain ⟨unlocked, log, held, leaked, rep, rfl, pending⟩ := holding
  have nonempty : line ++ rest ≠ [] := by simp [isLine.ne_nil]
  obtain ⟨driver', held', leaked', written, rep', locked, _⟩ :=
    rep.aesdWrite unlocked succeed.writeLock nonempty nonneg
  obtain ⟨kbufFill, allocates⟩ := Option.isSome_iff_exists.mp succeed.kbuf
  obtain ⟨fill, granted⟩ := Option.isSome_iff_exists.mp succeed.krealloc
  have logged : log.write outcomes.write (line ++ rest) =
      (((line ++ rest).length : Int), log.commit fill line isLine rest) := by
    have accepted := log.accept_of_isLine fill outcomes.write.remainder.isSome isLine rest
    by_cases nothingLeft : rest = []
    · subst rest
      simpa [Log.write, allocates, succeed.uncopied, granted] using accepted
    · have granted' := room.resolve_left nothingLeft
      simpa [Log.write, allocates, succeed.uncopied, granted, granted', nothingLeft] using accepted
  rw [logged] at written rep'
  have committed : (log.commit fill line isLine rest).committed =
      log.committed ++ [bytes ++ line] := by
    simp [Log.commit, pending]
  refine ⟨driver', by simp only [aesdchar, written], ?_, rep.observe_committed rep' committed⟩
  exact ⟨by simpa [succeed.uncopied] using locked, _, held', leaked', rep', committed, rfl⟩

/-- A read changes nothing. -/
theorem Holding.device_of_read (holding : Holding cmds bytes driver) {count : Nat}
    {reply : Reply AesdDev} (replied : aesdchar outcomes (.read count) fPos driver = some reply) :
    reply.device = driver := by
  obtain ⟨unlocked, log, held, leaked, rep, _⟩ := holding
  simp only [aesdchar] at replied
  split at replied
  · contradiction
  · rename_i result returned
    cases replied
    have performed : driver.perform (.read outcomes.read false count fPos) = .ok result.driver := by
      simp only [AesdDev.perform, returned]
      rfl
    have released : result.driver.bufferLock = false := by
      rcases rep.read_answers unlocked outcomes.read false count fPos with
        ⟨stop, fails, _⟩ | ⟨driver', _, _, _, answered, _, releases⟩
      · rw [performed] at fails
        contradiction
      · rw [performed] at answered
        cases answered
        exact releases.mpr trivial
    have same := aesdRead_sameMemory returned
    rw [AesdDev.SameMemory, released, ← unlocked] at same
    exact same

end Holding

/-- No call is in progress, `cmds` have been committed in this order, and nothing
is pending. -/
def Idle (cmds : List Bytes) (driver : AesdDev) : Prop :=
  driver.bufferLock = false ∧ ∃ log held leaked, driver.Represents log held leaked ∧
    log.committed = cmds ∧ log.pending = .held []

theorem idle_init : Idle [] aesdInitModule :=
  ⟨rfl, Log.empty, [], [], AesdDev.represents_init, rfl, rfl⟩

section Idle

variable {cmds : List Bytes} {driver : AesdDev} {outcomes : DriverOutcomes}

/-- An idle device holds the last ten commands. -/
theorem Idle.held_eq (idle : Idle cmds driver) : driver.held = cmds.rtake 10 := by
  obtain ⟨_, log, held, leaked, rep, rfl, _⟩ := idle
  exact rep.held_eq_log

theorem Idle.pending_eq (idle : Idle cmds driver) : driver.pending = [] :=
  Holding.pending_eq idle

/-- A write of one command commits it. -/
theorem Idle.write (idle : Idle cmds driver) (succeed : outcomes.Succeed) {cmd : Bytes}
    (isLine : IsLine newline cmd) {fPos : Int} (nonneg : 0 ≤ fPos) :
    ∃ driver', aesdchar outcomes (.write cmd) fPos driver =
        some ⟨cmd.length, [], fPos, driver'⟩ ∧ Idle (cmds ++ [cmd]) driver' := by
  obtain ⟨driver', written, holding, _⟩ := Holding.write idle succeed (Or.inl rfl) isLine nonneg
  rw [List.append_nil] at written
  exact ⟨driver', written, holding⟩

/-- A read returns the slice of the held commands at its position. -/
theorem Idle.read (idle : Idle cmds driver) (succeed : outcomes.Succeed)
    (small : driver.content.length < 2 ^ 63) {count : Nat} (positive : 0 < count)
    {position : Nat} (positionBound : position < 2 ^ 63) :
    aesdchar outcomes (.read count) position driver =
      some ⟨(slice driver.held count position).length, slice driver.held count position,
        (position + (slice driver.held count position).length : Nat), driver⟩ := by
  obtain ⟨unlocked, log, held, leaked, rep, _⟩ := idle
  have returned := rep.aesdRead unlocked small
    (show 0 < (⟨outcomes.read, count⟩ : ReadCall).count from positive) positionBound
  have replied : driver.readReply ⟨outcomes.read, count⟩ position =
      ⟨(slice driver.held count position).length, slice driver.held count position,
        (position + (slice driver.held count position).length : Nat), driver⟩ := by
    simp only [AesdDev.readReply, succeed.read]
    by_cases atEnd : driver.content.length ≤ position
    · have nothing : slice driver.held count position = [] := slice_of_end atEnd
      simp [atEnd, nothing]
    · simp [atEnd]
  rw [replied] at returned
  simp only [aesdchar, returned]

end Idle

end Aesd.Server
