import Aesd.Server.SeekExit
import Aesd.Server.SeekText
import Aesd.Server.Serial

/-!
# The service the server offers

A client sends one line of data or one seek command.  A sequential service answers a line
with the last ten lines, and a seek with the rest of them, as it comes out of the buffer of
`handle_ioctl`.  A seek that is rejected is not answered.
-/

namespace Aesd.Server

open Aesd.Driver
open Aesd.Ring
open Aesd.Word

/-! ## The service -/

/-- What a client sends. -/
inductive Packet
  | data (line : Bytes)
  | seek (cmd : AesdSeekto)

namespace Packet

/-- The bytes on the socket. -/
def bytes : Packet → Bytes
  | .data line => line
  | .seek cmd => commandLine cmd

/-- The line that a packet adds to the device. -/
def line? : Packet → Option Bytes
  | .data line => some line
  | .seek _ => none

/-- A line leaves room for a NUL in the buffer, and the index of a seek command does not
lead `aesd_ioctl` out of its array. -/
def Valid : Packet → Prop
  | .data line => DataPacket line ∧ line.length < bufferSize
  | .seek cmd => cmd.writeCmd.toNat + 9 ≤ 2 ^ 31

end Packet

/-- The lines on the device behind some packets. -/
def heldBehind (packets : List Packet) : List Bytes :=
  (packets.filterMap Packet.line?).rtake 10

/-- The position a seek command leads to on a device that holds these lines; a full
device is walked round and round. -/
def seekPosition (held : List Bytes) (cmd : AesdSeekto) : Option Nat :=
  let word (index : Nat) : Bytes := (held[index % 10]?).getD []
  if (held.length < 10 → cmd.writeCmd.toNat < held.length) ∧
      cmd.writeCmdOffset.toNat ≤ (word cmd.writeCmd.toNat).length then
    some (((List.range cmd.writeCmd.toNat).map fun index => (word index).length).sum +
      cmd.writeCmdOffset.toNat)
  else none

/-- What the client is sent whose packet comes behind `earlier`, if it is answered. -/
def answer (earlier : List Packet) : Packet → Option Bytes
  | .data line => some (heldBehind (earlier ++ [.data line])).flatten
  | .seek cmd =>
      (seekPosition (heldBehind earlier) cmd).bind fun position =>
        if toInt32 position < 0 then none
        else (sendWords (List.replicate bufferSize 0)
          (dropWords (heldBehind earlier) position)).toOption

/-- What `recv` delivers without a newline. -/
def Unfinished (chunk : Bytes) : Prop :=
  chunk.take bufferSize ≠ [] ∧ newline ∉ chunk.take bufferSize

/-- What is decided outside during a step of a handler.  The first chunk with a newline is
the packet of the client, and the calls of the driver succeed. -/
structure OutcomesServe (packet : Packet) (outcomes : Outcomes DriverOutcomes) : Prop where
  chunk : outcomes.chunk = packet.bytes ∨ Unfinished outcomes.chunk
  count : 0 < outcomes.count
  succeed : outcomes.device.Succeed
  ioctl : outcomes.device.ioctl = ⟨true, 0⟩

/-- A step in which nothing fails inside the section of a handler, and `main` does not
close the descriptor of one; other calls may fail. -/
def ServesAll (packet : Nat → Packet) (process : Process AesdDev) :
    Label DriverOutcomes → Prop
  | .signal => True
  | .main ok => process.abandoned (.main ok : Label DriverOutcomes) = []
  | .handler index outcomes =>
      ((process.handlers index).pc.inFileSection = true → outcomes.ok = true) ∧
        OutcomesServe (packet index) outcomes

/-! ## Seek commands -/

/-- The lines that the handlers in an order have written. -/
def linesOf (packet : Nat → Packet) (order : List Nat) : List Bytes :=
  (order.map packet).filterMap Packet.line?

/-- Through a buffer that ends with a NUL words are sent that leave it there. -/
theorem sendWords_isOk {words : List Bytes} (shorter : ∀ word ∈ words, word.length < bufferSize)
    (front : Bytes) (size : front.length + 1 = bufferSize) :
    ∃ sent, sendWords (front ++ [0]) words = .ok sent := by
  induction words generalizing front with
  | nil => exact ⟨[], rfl⟩
  | cons word words ih =>
      have wordShorter := shorter word (by simp)
      have kept : overwrite (front ++ [0]) word = (word ++ front.drop word.length) ++ [0] := by
        rw [overwrite, List.drop_append_of_le_length (by omega), List.append_assoc]
      obtain ⟨rest, sends⟩ := ih (fun other member => shorter other (by simp [member]))
        (word ++ front.drop word.length) (by simp; omega)
      have sent : sendString (overwrite (front ++ [0]) word) =
          .ok (cString (overwrite (front ++ [0]) word)) := by
        rw [sendString, if_pos (by simp [kept])]
      refine ⟨cString (overwrite (front ++ [0]) word) ++ rest,
        sendWords_cons_iff.mpr ⟨_, rest, ?_, ?_, rfl⟩⟩
      · rw [List.take_of_length_le (Nat.le_of_lt wordShorter)]
        exact sent
      · rw [List.take_of_length_le (Nat.le_of_lt wordShorter), kept]
        exact sends

/-- What is left of words is not longer than they are. -/
theorem length_le_of_mem_dropWords {words : List Bytes} {position : Nat} {word : Bytes}
    (member : word ∈ dropWords words position) : ∃ whole ∈ words, word.length ≤ whole.length := by
  induction words generalizing position with
  | nil => simp [dropWords] at member
  | cons first words ih =>
      rw [dropWords] at member
      split at member
      · rcases List.mem_cons.mp member with rfl | later
        · exact ⟨first, List.mem_cons_self, by simp⟩
        · exact ⟨word, List.mem_cons_of_mem _ later, Nat.le_refl _⟩
      · obtain ⟨whole, wholeMem, le⟩ := ih member
        exact ⟨whole, List.mem_cons_of_mem _ wholeMem, le⟩

section Seek

variable {driver : AesdDev} {lines : List Bytes} {cmd : AesdSeekto}

/-- A position that a seek leads to stays small while the lines are short. -/
theorem seekPosition_lt {held : List Bytes} {position : Nat}
    (short : ∀ word ∈ held, word.length ≤ bufferSize) (fits : cmd.writeCmd.toNat + 9 ≤ 2 ^ 31)
    (seeks : seekPosition held cmd = some position) : position < 2 ^ 62 := by
  have wordShort (index : Nat) : ((held[index % 10]?).getD []).length ≤ bufferSize := by
    cases found : held[index % 10]? with
    | none => simp
    | some word => exact short word (List.mem_of_getElem? found)
  simp only [seekPosition] at seeks
  split at seeks
  · rename_i accepted
    cases seeks
    have sums := List.sum_le_card_nsmul
      ((List.range cmd.writeCmd.toNat).map fun index => ((held[index % 10]?).getD []).length)
      bufferSize (by
        intro size member
        obtain ⟨index, _, rfl⟩ := List.mem_map.mp member
        exact wordShort index)
    have last := wordShort cmd.writeCmd.toNat
    have offset := accepted.2
    rw [List.length_map, List.length_range, nsmul_eq_mul, Nat.cast_id] at sums
    simp only [bufferSize] at sums last
    omega
  · contradiction

/-- `aesd_ioctl` moves the file to the position the command leads to, and rejects any
other command. -/
theorem Idle.ioctl (idle : Idle lines driver) (fits : cmd.writeCmd.toNat + 9 ≤ 2 ^ 31) :
    aesdIoctl ⟨true, 0⟩ aesdcharIocseekto cmd 0 driver =
      match seekPosition driver.held cmd with
      | none => .ok ⟨-einval, 0, driver⟩
      | some position => .ok ⟨toInt64 position, toInt64 position, driver⟩ := by
  obtain ⟨unlocked, log, held, leaked, rep, _⟩ := idle
  have lengthEq := rep.length_held
  have outLt := rep.ring.outOffs_lt
  have notFull : driver.cBuffer.full = false ↔ driver.held.length < 10 := by
    rw [rep.ring.full_eq, decide_eq_false_iff_not, lengthEq]
    omega
  rw [driver.aesdIoctl_eq unlocked, rep.ioctlSeek_eq]
  by_cases rejected : driver.cBuffer.full = false ∧ driver.held.length ≤ cmd.writeCmd.toNat
  · have nowhere : seekPosition driver.held cmd = none := by
      rw [seekPosition, if_neg]
      exact fun accepted => absurd (accepted.1 (notFull.mp rejected.1)) (by omega)
    rw [if_pos rejected, nowhere]
    rfl
  · rw [if_neg rejected]
    have inside : driver.cBuffer.full = false → cmd.writeCmd.toNat < driver.held.length :=
      fun room => Nat.lt_of_not_le fun behind => rejected ⟨room, behind⟩
    obtain ⟨ptr, slot⟩ := entryAt_wordAt rep inside
    have summed := seekSum_eq_walkLength rep
      (show driver.cBuffer.outOffs + cmd.writeCmd.toNat ≤ 2 ^ 31 by omega)
      fun room => Nat.le_of_lt (inside room)
    rw [AesdDev.Represents.ioctlWalk_of_slot cmd 0 summed (by omega) slot]
    by_cases behind : cmd.writeCmdOffset.toNat > (wordAt driver cmd.writeCmd.toNat).length
    · have nowhere : seekPosition driver.held cmd = none := by
        rw [seekPosition, if_neg]
        exact fun accepted => absurd accepted.2 (Nat.not_le.mpr behind)
      rw [if_pos behind, nowhere]
      rfl
    · have leads : seekPosition driver.held cmd =
          some (walkLength driver cmd.writeCmd.toNat + cmd.writeCmdOffset.toNat) := by
        rw [seekPosition, if_pos ⟨fun short => inside (notFull.mpr short), Nat.not_lt.mp behind⟩]
        rfl
      rw [if_neg behind, leads]
      simp only [toInt64, Except.map, Int.bmod_add_bmod, Int.natCast_add]

end Seek
end Aesd.Server
