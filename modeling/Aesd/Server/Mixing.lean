import Aesd.Server.Serial

/-!
# Commands of one client

A handler writes the chunk with its client's newline as one buffer.  `aesd_write`
commits the first line of the buffer, with whatever was pending in front of it, and
keeps the bytes behind the newline for the next write, whichever client it is for.
The commands are those of single clients exactly as long as each write finds nothing
pending.
-/

namespace Aesd.Server

open Aesd.Driver
open Aesd.Transition
open Aesd.Word

/-! ## Clients -/

/-- A packet with a newline that fits into the buffer and is data. -/
structure ChunkPacket (packet : Bytes) : Prop where
  present : newline ∈ packet
  fits : packet.length ≤ bufferSize
  isData : ¬ seekCommand <+: packet

/-- A step in which nothing fails in a handler, each handler receiving the packet of
its client at once.  `main` may fail and may be told to stop. -/
def Supplies (packet : Nat → Bytes) : Label DriverOutcomes → Prop
  | .signal | .main _ => True
  | .handler index outcomes =>
      outcomes.ok = true ∧ outcomes.chunk = packet index ∧ outcomes.device.Succeed ∧
        outcomes.device.write.remainder.isSome = true

/-! ## A step of a handler -/

/-- The handler is about to write. -/
def Pc.flushes : Pc → Bool
  | .flush _ _ => true
  | _ => false

/-- What a handler has in its buffer once it has received `packet`. -/
def Pc.Carries (packet : Bytes) : Pc → Prop
  | .lockFile bytes | .openFile bytes => bytes = packet
  | .flush bytes fPos => bytes = packet ∧ fPos = 0
  | .handleIoctl _ | .cleanup _ => False
  | _ => True

/-- What a step of a handler does to a device: a write of the whole packet, or
nothing. -/
inductive DeviceStep (packet : Bytes) (cmds : List Bytes) (bytes : Bytes) (driver : AesdDev) :
    Bool → AesdDev → Prop
  | same : DeviceStep packet cmds bytes driver false driver
  | writes {line rest : Bytes} {driver' : AesdDev} : IsLine newline line →
      packet = line ++ rest → Holding (cmds ++ [bytes ++ line]) rest driver' →
      driver.committedSince driver' = [bytes ++ line] →
      DeviceStep packet cmds bytes driver true driver'

theorem Pc.deviceStep {packet : Nat → Bytes} {index : Nat} {returned : Nat → Bool}
    {outcomes : Outcomes DriverOutcomes} {file : DeviceFile AesdDev} {clients : Clients} {pc : Pc}
    {effect : Effect AesdDev} {cmds : List Bytes} {bytes : Bytes}
    (chunk : ChunkPacket (packet index)) (supplies : Supplies packet (.handler index outcomes))
    (carries : pc.Carries (packet index)) (holding : Holding cmds bytes file.device)
    (stepped : pc.step aesdchar index returned outcomes file clients = some effect) :
    DeviceStep (packet index) cmds bytes file.device pc.flushes effect.file.device ∧
      (effect.control.point pc).Carries (packet index) := by
  obtain ⟨ok, received, succeed, room⟩ := supplies
  cases pc with
  | start =>
      simp only [Pc.step, ok, if_true] at stepped
      cases stepped
      exact ⟨DeviceStep.same, trivial⟩
  | recv buffer =>
      have whole : outcomes.chunk.take bufferSize = packet index := by
        rw [received, List.take_of_length_le chunk.fits]
      have nonempty : packet index ≠ [] := List.ne_nil_of_mem chunk.present
      have passedOn := receiveChunk_of_data buffer chunk.present chunk.isData
      simp only [Pc.step, whole, if_neg nonempty, passedOn] at stepped
      cases stepped
      exact ⟨DeviceStep.same, rfl⟩
  | handleIoctl point => exact carries.elim
  | lockFile bytes =>
      obtain ⟨⟨next, file'⟩, called, rfl⟩ := Option.map_eq_some_iff.mp stepped
      rcases DeviceFile.lockThen_cases called with ⟨_, _, rfl, rfl⟩ | ⟨failed, _, _⟩
      · exact ⟨DeviceStep.same, carries⟩
      · rw [ok] at failed
        contradiction
  | openFile bytes =>
      simp only [Pc.step, ok, if_true] at stepped
      cases stepped
      exact ⟨DeviceStep.same, carries, rfl⟩
  | cleanup point => exact carries.elim
  | flush flushed fPos =>
      obtain ⟨rfl, rfl⟩ := carries
      rcases not_mem_or_isLine_append newline (packet index) with
        absent | ⟨line, rest, isLine, packetEq⟩
      · exact absurd chunk.present absent
      · obtain ⟨driver', written, holding', committed⟩ :=
          holding.write succeed (Or.inr room) isLine (Int.le_refl 0)
        rw [← packetEq] at written
        have whole : ¬ (0 ≤ ((packet index).length : Int) ∧
            ((packet index).length : Int) < (packet index).length) := by omega
        simp only [Pc.step, flushStep, written, if_neg whole] at stepped
        cases stepped
        exact ⟨DeviceStep.writes isLine packetEq holding' committed, trivial⟩
  | seek fPos =>
      simp only [Pc.step, aesdchar_llseek holding.1 succeed fPos] at stepped
      cases stepped
      exact ⟨DeviceStep.same, trivial⟩
  | echo line ahead fPos =>
      cases ahead with
      | cons byte ahead =>
          simp only [Pc.step, echoStep] at stepped
          split at stepped <;> cases stepped <;> exact ⟨DeviceStep.same, trivial⟩
      | nil =>
          simp only [Pc.step, echoStep] at stepped
          split at stepped
          · contradiction
          · rename_i reply replied
            have unchanged := holding.device_of_read replied
            have nothing : DeviceStep (packet index) cmds bytes file.device false reply.device := by
              rw [unchanged]
              exact DeviceStep.same
            split at stepped
            · cases stepped
              exact ⟨nothing, trivial⟩
            · split at stepped <;> cases stepped <;> exact ⟨nothing, trivial⟩
  | unlockFile =>
      cases stepped
      exact ⟨DeviceStep.same, trivial⟩
  | setComplete point =>
      obtain ⟨⟨control, clients'⟩, _, rfl⟩ := Option.map_eq_some_iff.mp stepped
      cases control <;> exact ⟨DeviceStep.same, trivial⟩
  | returned => contradiction

/-! ## Recorded runs -/

/-- The handler that is about to write in the step with the given label. -/
def Process.writer {δ χ : Type} (process : Process δ) : Label χ → Option Nat
  | .signal | .main _ => none
  | .handler index _ => if (process.handlers index).pc.flushes then some index else none

/-- The process with the handlers that have written so far, in this order, and the
entries that have been committed. -/
structure Watched where
  process : Process AesdDev
  written : List Nat
  committed : List Bytes

namespace Watched

/-- Nothing has been written when `main` reaches the accept loop. -/
def start : Watched :=
  ⟨Process.start aesdInitModule, [], []⟩

/-- What is recorded of a step of the process. -/
def record (watched : Watched) (label : Label DriverOutcomes) (process : Process AesdDev) :
    Watched where
  process := process
  written := watched.written ++ (watched.process.writer label).toList
  committed := watched.committed ++ watched.process.file.device.committedSince process.file.device

/-- One step of the process. -/
def step : Step (Label DriverOutcomes) Watched := fun label watched =>
  (Process.step aesdchar label watched.process).map (watched.record label)

/-- Each entry is the first line of the packet of the client whose handler committed
it, and nothing else. -/
def OfOneClient (packet : Nat → Bytes) (watched : Watched) : Prop :=
  List.Forall₂ (fun entry client => IsLine newline entry ∧ entry <+: packet client)
    watched.committed watched.written

/-- All bytes of an entry are from the packet of a single client. -/
theorem OfOneClient.exists_client {packet : Nat → Bytes} {watched : Watched}
    (ofOneClient : watched.OfOneClient packet) {entry : Bytes}
    (member : entry ∈ watched.committed) :
    ∃ client ∈ watched.written, entry <:+: packet client := by
  obtain ⟨place, inRange, rfl⟩ := List.mem_iff_getElem.mp member
  obtain ⟨_, starts⟩ := List.Forall₂.get ofOneClient inRange (ofOneClient.length_eq ▸ inRange)
  exact ⟨_, List.getElem_mem _, starts.isInfix⟩

/-- A handler that is about to write finds nothing pending. -/
def WritesToIdle (watched : Watched) (label : Label DriverOutcomes) : Prop :=
  (watched.process.writer label).isSome = true → watched.process.file.device.pending = []

/-- What holds in every state of a run in which nothing fails. -/
structure Supplied (packet : Nat → Bytes) (watched : Watched) : Prop where
  holding : ∃ bytes, Holding watched.committed bytes watched.process.file.device
  carries : ∀ index, (watched.process.handlers index).pc.Carries (packet index)

theorem supplied_start (packet : Nat → Bytes) : start.Supplied packet where
  holding := ⟨[], idle_init⟩
  carries _ := trivial

/-- What a step adds to the record, when `writer` is about to write. -/
inductive Adds (packet : Nat → Bytes) (watched : Watched) : Option Nat → Watched → Prop
  | nothing {target : Watched} : target.written = watched.written →
      target.committed = watched.committed → Adds packet watched none target
  | entry {target : Watched} {index : Nat} {line rest : Bytes} : IsLine newline line →
      packet index = line ++ rest → target.written = watched.written ++ [index] →
      target.committed = watched.committed ++ [watched.process.file.device.pending ++ line] →
      Adds packet watched (some index) target

variable {packet : Nat → Bytes} {watched target : Watched} {label : Label DriverOutcomes}

/-- A step that leaves the device alone adds nothing. -/
theorem Supplied.of_same {process : Process AesdDev} (supplied : watched.Supplied packet)
    (same : process.file.device = watched.process.file.device)
    (noWriter : watched.process.writer label = none)
    (carries : ∀ index, (process.handlers index).pc.Carries (packet index)) :
    (watched.record label process).Supplied packet ∧
      Adds packet watched (watched.process.writer label) (watched.record label process) := by
  have recorded : watched.record label process = ⟨process, watched.written, watched.committed⟩ := by
    simp [record, noWriter, same, AesdDev.committedSince]
  rw [recorded, noWriter]
  refine ⟨⟨?_, carries⟩, Adds.nothing rfl rfl⟩
  rw [same]
  exact supplied.holding

theorem Supplied.next (chunks : ∀ index, ChunkPacket (packet index))
    (supplied : watched.Supplied packet) (supplies : Supplies packet label)
    (stepped : step label watched = some target) :
    target.Supplied packet ∧ Adds packet watched (watched.process.writer label) target := by
  obtain ⟨process, made, rfl⟩ := Option.map_eq_some_iff.mp stepped
  obtain ⟨bytes, holding⟩ := supplied.holding
  rcases Process.step_cases made with
    ⟨rfl, rfl⟩ | ⟨ok, effect, rfl, _, rfl⟩ | ⟨index, outcomes, effect, rfl, _, handlerStep, rfl⟩
  · exact supplied.of_same rfl rfl supplied.carries
  · exact supplied.of_same rfl rfl supplied.carries
  · obtain ⟨deviceStep, carries⟩ :=
      Pc.deviceStep (chunks index) supplies (supplied.carries index) holding handlerStep
    have othersCarry : ∀ other,
        ((watched.process.applyHandler index effect).handlers other).pc.Carries
          (packet other) := by
      intro other
      by_cases same : other = index
      · subst other
        rw [Process.applyHandler_self]
        exact carries
      · rw [watched.process.applyHandler_of_ne index effect same]
        exact supplied.carries other
    cases flushes : (watched.process.handlers index).pc.flushes with
    | false =>
        have noWriter : watched.process.writer (.handler index outcomes) = none := by
          simp [Process.writer, flushes]
        rw [flushes] at deviceStep
        generalize deviceEq : effect.file.device = device at deviceStep
        cases deviceStep
        exact supplied.of_same deviceEq noWriter othersCarry
    | true =>
        have isWriter : watched.process.writer (.handler index outcomes) = some index := by
          simp [Process.writer, flushes]
        rw [flushes] at deviceStep
        cases deviceStep with
        | writes isLine packetEq holding' committed =>
            rename_i line rest
            have committedEq : (watched.record (.handler index outcomes)
                (watched.process.applyHandler index effect)).committed =
                  watched.committed ++ [bytes ++ line] := by
              rw [record, Process.applyHandler_file, committed]
            have writtenEq : (watched.record (.handler index outcomes)
                (watched.process.applyHandler index effect)).written =
                  watched.written ++ [index] := by
              rw [record, isWriter]
              rfl
            constructor
            · refine ⟨⟨rest, ?_⟩, othersCarry⟩
              rw [committedEq]
              exact holding'
            · rw [isWriter]
              apply Adds.entry isLine packetEq writtenEq
              rw [committedEq, holding.pending_eq]

/-- An entry with something in front of the first line of a packet is not that line. -/
theorem firstLine_append_iff {line rest bytes : Bytes} (isLine : IsLine newline line) :
    IsLine newline (bytes ++ line) ∧ bytes ++ line <+: line ++ rest ↔ bytes = [] := by
  constructor
  · rintro ⟨wholeLine, others, equal⟩
    have same := (wholeLine.append_inj isLine equal).1
    exact List.append_left_eq_self.mp same
  · rintro rfl
    exact ⟨isLine, List.prefix_append line rest⟩

theorem forall₂_concat_iff {α β : Type} {R : α → β → Prop} {front : List α} {front' : List β}
    {last : α} {last' : β} :
    List.Forall₂ R (front ++ [last]) (front' ++ [last']) ↔
      List.Forall₂ R front front' ∧ R last last' := by
  rw [← List.forall₂_reverse_iff, List.reverse_concat, List.reverse_concat, List.forall₂_cons,
    List.forall₂_reverse_iff, and_comm]

/-- The entries stay those of single clients when the step writes to an idle device,
and in no other step. -/
theorem Adds.ofOneClient_iff (adds : Adds packet watched (watched.process.writer label) target) :
    target.OfOneClient packet ↔ watched.OfOneClient packet ∧ watched.WritesToIdle label := by
  unfold OfOneClient WritesToIdle
  generalize watched.process.writer label = writer at adds
  cases adds with
  | nothing writtenEq committedEq =>
      rw [writtenEq, committedEq]
      simp
  | entry isLine packetEq writtenEq committedEq =>
      rw [writtenEq, committedEq, forall₂_concat_iff, packetEq, firstLine_append_iff isLine]
      simp

end Watched

/-- In a run in which nothing fails: each entry ever committed is the first line of the
packet of one client exactly when all handlers write to an idle device. -/
theorem entries_ofOneClient_iff {packet : Nat → Bytes}
    (chunks : ∀ index, ChunkPacket (packet index)) {labels : List (Label DriverOutcomes)}
    {watched : Watched}
    (run : Run Watched.step (fun _ => Supplies packet) Watched.start labels watched) :
    watched.OfOneClient packet ↔
      Run Watched.step (fun watched label => Supplies packet label ∧ watched.WritesToIdle label)
        Watched.start labels watched := by
  constructor
  · have both : watched.Supplied packet ∧ (watched.OfOneClient packet →
        Run Watched.step
          (fun watched label => Supplies packet label ∧ watched.WritesToIdle label)
          Watched.start labels watched) := by
      refine run.invariant (fun labels watched => watched.Supplied packet ∧
        (watched.OfOneClient packet → Run Watched.step
          (fun watched label => Supplies packet label ∧ watched.WritesToIdle label)
          Watched.start labels watched)) ⟨Watched.supplied_start packet, fun _ => Run.refl⟩ ?_
      rintro labels middle label target ⟨supplied, earlier⟩ supplies stepped
      obtain ⟨supplied', adds⟩ := supplied.next chunks supplies stepped
      refine ⟨supplied', ?_⟩
      intro ofOneClient
      obtain ⟨before, idle⟩ := adds.ofOneClient_iff.mp ofOneClient
      exact Run.tail (earlier before) ⟨supplies, idle⟩ stepped
    exact both.2
  · intro idleRun
    have both : watched.Supplied packet ∧ watched.OfOneClient packet := by
      refine idleRun.invariant (fun _ watched => watched.Supplied packet ∧
        watched.OfOneClient packet) ⟨Watched.supplied_start packet, List.Forall₂.nil⟩ ?_
      rintro _ middle label target ⟨supplied, before⟩ ⟨supplies, idle⟩ stepped
      obtain ⟨supplied', adds⟩ := supplied.next chunks supplies stepped
      exact ⟨supplied', adds.ofOneClient_iff.mpr ⟨before, idle⟩⟩
    exact both.2

/-- Two packets that end with their newline. -/
theorem entries_ofOneClient_iff_two_clients :
    ∃ watched,
      exec Watched.step twoClients Watched.start = some watched ∧
        watched.committed = [[98, 10], [97, 10]] ∧
        (watched.OfOneClient twoPackets ↔
          Run Watched.step
            (fun watched label => Supplies twoPackets label ∧ watched.WritesToIdle label)
            Watched.start twoClients watched) := by
  have chunks (index : Nat) : ChunkPacket (twoPackets index) := by
    have data := dataPacket_twoPackets index
    exact ⟨data.isLine.mem, data.fits, data.isData⟩
  have supplies : ∀ label ∈ twoClients, Supplies twoPackets label := by
    intro label member
    simp only [twoClients, List.mem_append, List.mem_replicate] at member
    rcases member with ((⟨_, rfl⟩ | ⟨_, rfl⟩) | ⟨_, rfl⟩) | ⟨_, rfl⟩
    · trivial
    · exact ⟨rfl, rfl, DriverOutcomes.succeed_success, rfl⟩
    · exact ⟨rfl, rfl, DriverOutcomes.succeed_success, rfl⟩
    · exact ⟨rfl, rfl, DriverOutcomes.succeed_success, rfl⟩
  have run : Run Watched.step (fun _ => Supplies twoPackets) Watched.start twoClients _ :=
    run_of_forall rfl fun label member _ => supplies label member
  exact ⟨_, run.exec_eq_some, rfl, entries_ofOneClient_iff chunks run⟩

/-- The packet `a\nb` of the first client and the packet `c\n` of the others. -/
def openPackets (index : Nat) : Bytes :=
  if index = 0 then [97, 10, 98] else [99, 10]

/-- The first client is served, then the second one writes. -/
def openClients : List (Label DriverOutcomes) :=
  List.replicate 12 (.main true) ++
    List.replicate 14 (.handler 0 (Outcomes.success (openPackets 0))) ++
    List.replicate 5 (.handler 1 (Outcomes.success (openPackets 1)))

/-- The entry `bc\n` consists of bytes of both. -/
theorem entries_mix_clients :
    (∀ index, ChunkPacket (openPackets index)) ∧
      (∀ label ∈ openClients, Supplies openPackets label) ∧
      ∃ watched,
        exec Watched.step openClients Watched.start = some watched ∧
          [98, 99, 10] ∈ watched.committed ∧
          (∀ index, ¬ ([98, 99, 10] : Bytes) <:+: openPackets index) ∧
          ¬ watched.OfOneClient openPackets := by
  have notInside (index : Nat) : ¬ ([98, 99, 10] : Bytes) <:+: openPackets index := by
    unfold openPackets
    split <;> decide
  refine ⟨?_, ?_, _, rfl, by decide, notInside, ?_⟩
  · intro index
    unfold openPackets
    split <;> exact ⟨by decide, by decide, by decide⟩
  · intro label member
    simp only [openClients, List.mem_append, List.mem_replicate] at member
    rcases member with (⟨_, rfl⟩ | ⟨_, rfl⟩) | ⟨_, rfl⟩
    · trivial
    · exact ⟨rfl, rfl, DriverOutcomes.succeed_success, rfl⟩
    · exact ⟨rfl, rfl, DriverOutcomes.succeed_success, rfl⟩
  · intro ofOneClient
    obtain ⟨client, _, inside⟩ := ofOneClient.exists_client (show [98, 99, 10] ∈ _ by decide)
    exact notInside client inside

end Aesd.Server
