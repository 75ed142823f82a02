import Aesd.Server.SeekTurn

/-!
# Clients that write and clients that seek

The server answers its clients as a sequential service does that takes their packets in the
order in which the handlers obtain `file_mutex`, until a seek is rejected, which ends the
service.
-/

namespace Aesd.Server

open Aesd.Driver
open Aesd.Mutex
open Aesd.Ring
open Aesd.Transition
open Aesd.Word

/-! ## The handlers that write, seen alone -/

section Data

variable {packet : Nat → Packet} {file : DeviceFile AesdDev} {index : Nat}

/-- The line of a client that writes. -/
def lineSent (packet : Nat → Packet) (index : Nat) : Bytes :=
  (packet index).line?.getD [newline]

/-- The client writes. -/
def writes (packet : Nat → Packet) (index : Nat) : Bool :=
  (packet index).line?.isSome

theorem dataPacket_newline : DataPacket [newline] :=
  ⟨⟨[], by decide, rfl⟩, by decide, by decide, by decide⟩

theorem dataPacket_lineSent (valid : ∀ index, (packet index).Valid) (index : Nat) :
    DataPacket (lineSent packet index) := by
  have packetValid := valid index
  rw [lineSent]
  cases kind : packet index with
  | data line =>
      rw [kind] at packetValid
      exact packetValid.1
  | seek cmd => exact dataPacket_newline

theorem linesOf_eq (order : List Nat) :
    linesOf packet order = (order.filter (writes packet)).map (lineSent packet) := by
  induction order with
  | nil => rfl
  | cons index order ih =>
      rw [linesOf] at ih ⊢
      cases kind : packet index with
      | data line =>
          rw [List.map_cons, kind, List.filterMap_cons_some (f := Packet.line?) rfl, ih,
            List.filter_cons_of_pos (by simp [writes, kind, Packet.line?]), List.map_cons,
            lineSent, kind]
          rfl
      | seek cmd =>
          rw [List.map_cons, kind, List.filterMap_cons_none (f := Packet.line?) rfl, ih,
            List.filter_cons_of_neg (by simp [writes, kind, Packet.line?])]

/-- The file with the handlers that write as the record. -/
def dataView (packet : Nat → Packet) (file : DeviceFile AesdDev) : DeviceFile AesdDev :=
  file.withOrder (file.order.filter (writes packet))

/-- A phase does not depend on the owner of the mutex. -/
theorem Phase.congr {lines : Nat → Bytes} {file' : DeviceFile AesdDev} {pc : Pc} {sent : Bytes}
    (phase : Phase lines file index pc sent) (order : file'.order = file.order)
    (device : file'.device = file.device) : Phase lines file' index pc sent := by
  obtain ⟨mutex, driver, handlers⟩ := file
  obtain ⟨mutex', driver', handlers'⟩ := file'
  obtain rfl : handlers' = handlers := order
  obtain rfl : driver' = driver := device
  cases pc <;> exact phase

/-- Only the receive loop looks at what `recv` delivers. -/
theorem Pc.step_withChunk {returned : Nat → Bool} {outcomes : Outcomes DriverOutcomes}
    {clients : Clients} {pc : Pc} (notReceiving : ∀ buffer, pc ≠ .recv buffer) (chunk : Bytes) :
    pc.step aesdchar index returned { outcomes with chunk := chunk } file clients =
      pc.step aesdchar index returned outcomes file clients := by
  cases pc with
  | recv buffer => exact absurd rfl (notReceiving buffer)
  | handleIoctl point => cases point <;> rfl
  | _ => rfl

/-- A step of a handler that writes is a step of a server with such handlers only. -/
theorem Pc.dataStep {returned : Nat → Bool} {outcomes : Outcomes DriverOutcomes}
    {clients : Clients} {pc : Pc} {sent line : Bytes} {effect : Effect AesdDev}
    (isData : packet index = .data line) (valid : ∀ index, (packet index).Valid)
    (ok : outcomes.ok = true) (serves : OutcomesServe (packet index) outcomes)
    (phase : Phase (lineSent packet) (dataView packet file) index pc sent)
    (guarded : pc.inFileSection = true → file.mutex = some (.handler index))
    (free : file.mutex = none → Idle (linesOf packet file.order) file.device)
    (stepped : pc.step aesdchar index returned outcomes file clients = some effect) :
    FileStep (lineSent packet) index pc.inFileSection (dataView packet file)
        (dataView packet effect.file) ∧
      Phase (lineSent packet) (dataView packet effect.file) index (effect.control.point pc)
        (sent ++ effect.sent) := by
  by_cases unfinished : ∃ buffer, pc = .recv buffer ∧ Unfinished outcomes.chunk
  · obtain ⟨buffer, rfl, unfinished⟩ := unfinished
    obtain rfl := Pc.recv_of_unfinished unfinished stepped
    exact ⟨FileStep.same, phase.1, by simpa using phase.2⟩
  -- the packet is received now, or what `recv` delivers is not looked at
  have stepped : pc.step aesdchar index returned
      { outcomes with chunk := lineSent packet index } file clients = some effect := by
    have lineEq : lineSent packet index = (packet index).bytes := by
      rw [lineSent, isData]
      rfl
    by_cases receiving : ∃ buffer, pc = .recv buffer
    · obtain ⟨buffer, rfl⟩ := receiving
      have isPacket := serves.chunk.resolve_right fun is => unfinished ⟨buffer, rfl, is⟩
      rwa [lineEq, ← isPacket]
    · rw [Pc.step_withChunk (fun buffer is => receiving ⟨buffer, is⟩)]
      exact stepped
  obtain ⟨added, orderStep, viewStep⟩ :=
    Pc.orderStep stepped (file.order.filter (writes packet))
  obtain ⟨control, more, file', clients'⟩ := effect
  have orderEq : file.order.filter (writes packet) ++ added =
      file'.order.filter (writes packet) := by
    have isWriter : writes packet index = true := by simp [writes, isData, Packet.line?]
    cases orderStep with
    | works same _ => rw [same, List.append_nil]
    | obtains _ _ => simp [isWriter]
  have serves' : Serves (lineSent packet)
      (.handler index { outcomes with chunk := lineSent packet index }) :=
    ⟨ok, rfl, serves.count, serves.succeed⟩
  rw [orderEq] at viewStep
  refine Pc.serialStep (dataPacket_lineSent valid) serves' phase guarded (fun unlocked => ?_)
    viewStep
  have idle := free unlocked
  rwa [linesOf_eq] at idle

end Data

/-! ## Runs -/

/-- What is true of a handler, whatever its client sends. -/
def ClientPhase (packet : Nat → Packet) (file : DeviceFile AesdDev) (index : Nat) (pc : Pc)
    (sent : Bytes) : Prop :=
  match packet index with
  | .data _ => Phase (lineSent packet) (dataView packet file) index pc sent
  | .seek cmd => SeekPhase packet file index cmd pc sent

/-- A handler that has failed before its turn. -/
def Failed (file : DeviceFile AesdDev) (index : Nat) (pc : Pc) (sent : Bytes) : Prop :=
  pc.hasReleasedFile = true ∧ index ∉ file.order ∧ sent = []

/-- A handler that may have failed before its turn. -/
def Stands (packet : Nat → Packet) (file : DeviceFile AesdDev) (index : Nat) (pc : Pc)
    (sent : Bytes) : Prop :=
  Failed file index pc sent ∨ ClientPhase packet file index pc sent

/-- What holds in every state of a run that serves both kinds of clients. -/
structure Answering (packet : Nat → Packet) (process : Process AesdDev) : Prop where
  nodup : process.file.order.Nodup
  guarded : Guarded process.file.mutex process.InFileSection
  idle : process.file.mutex = none →
    Idle (linesOf packet process.file.order) process.file.device
  stands : ∀ index, Stands packet process.file index (process.handlers index).pc
    (process.handlers index).sent

theorem answering_start (packet : Nat → Packet) :
    Answering packet (Process.start aesdInitModule) where
  nodup := List.nodup_nil
  guarded := (Process.exact_start aesdInitModule).guarded
  idle _ := idle_init
  stands index := by
    right
    unfold ClientPhase
    cases packet index with
    | data line => exact ⟨List.not_mem_nil, rfl⟩
    | seek cmd => exact ⟨List.not_mem_nil, rfl⟩

section Client

variable {packet : Nat → Packet} {file : DeviceFile AesdDev} {index : Nat}

/-- A handler is in the order from its turn on. -/
theorem ClientPhase.mem_order_iff {pc : Pc} {sent : Bytes}
    (phase : ClientPhase packet file index pc sent) :
    index ∈ file.order ↔ pc.inFileSection = true ∨ pc.hasReleasedFile = true := by
  unfold ClientPhase at phase
  cases kind : packet index with
  | data line =>
      rw [kind] at phase
      rw [← phase.mem_order_iff, dataView, DeviceFile.withOrder, List.mem_filter]
      simp [writes, kind, Packet.line?]
  | seek cmd =>
      rw [kind] at phase
      have mem_of_turn {before : List Nat} (turn : SeekTurn packet file index before) :
          index ∈ file.order := by
        simp [turn.1]
      cases pc with
      | start | recv buffer => simp [phase.1, Pc.inFileSection, Pc.hasReleasedFile]
      | handleIoctl point =>
          cases point with
          | parse cmdBuffer | lock parsed =>
              simp [phase.2.1, Pc.inFileSection, HandleIoctl.inSection, Pc.hasReleasedFile]
          | «open» parsed | ioctl parsed =>
              obtain ⟨_, _, before, turn⟩ := phase
              simp [mem_of_turn turn, Pc.inFileSection, HandleIoctl.inSection]
          | read cmdBuffer fPos =>
              obtain ⟨before, turn, _⟩ := phase
              simp [mem_of_turn turn, Pc.inFileSection, HandleIoctl.inSection]
          | unlock =>
              obtain ⟨before, turn, _⟩ := phase
              simp [mem_of_turn turn, Pc.inFileSection, HandleIoctl.inSection]
      | setComplete point =>
          obtain ⟨before, after, split, _⟩ := phase
          simp [split, Pc.hasReleasedFile]
      | returned =>
          obtain ⟨before, after, split, _⟩ := phase
          simp [split, Pc.hasReleasedFile]
      | _ => exact phase.elim

/-- Before its turn a handler has sent nothing. -/
theorem ClientPhase.unsent {pc : Pc} {sent : Bytes}
    (phase : ClientPhase packet file index pc sent) (outside : pc.inFileSection = false)
    (unreleased : pc.hasReleasedFile = false) : sent = [] := by
  unfold ClientPhase at phase
  cases kind : packet index with
  | data line =>
      rw [kind] at phase
      cases pc with
      | start | recv buffer => exact phase.2
      | lockFile bytes => exact phase.2.2
      | handleIoctl point => exact phase.elim
      | _ => contradiction
  | seek cmd =>
      rw [kind] at phase
      cases pc with
      | start | recv buffer => exact phase.2
      | lockFile bytes => exact phase.elim
      | handleIoctl point =>
          cases point with
          | parse cmdBuffer | lock parsed => exact phase.2.2
          | _ => contradiction
      | _ => contradiction

/-- Behind the turn the points do not differ. -/
theorem ClientPhase.of_released {pc pc' : Pc} {sent : Bytes}
    (phase : ClientPhase packet file index pc sent) (released : pc.hasReleasedFile = true)
    (released' : pc'.hasReleasedFile = true) : ClientPhase packet file index pc' sent := by
  unfold ClientPhase at phase ⊢
  cases kind : packet index with
  | data line =>
      rw [kind] at phase
      have phase : Phase (lineSent packet) (dataView packet file) index .returned sent := by
        cases pc with
        | setComplete point | returned => exact phase
        | _ => contradiction
      cases pc' with
      | setComplete point | returned => exact phase
      | _ => contradiction
  | seek cmd =>
      rw [kind] at phase
      have phase : SeekPhase packet file index cmd .returned sent := by
        cases pc with
        | setComplete point | returned => exact phase
        | _ => contradiction
      cases pc' with
      | setComplete point | returned => exact phase
      | _ => contradiction

/-- What the step of a handler preserves: the device between the turns, what is true of
the handler, and what is true of the others. -/
structure Keeps (packet : Nat → Packet) (index : Nat) (file file' : DeviceFile AesdDev)
    (pc' : Pc) (sent' : Bytes) : Prop where
  idle : file'.mutex = none → Idle (linesOf packet file'.order) file'.device
  own : Stands packet file' index pc' sent'
  others : ∀ {other pc sent}, other ≠ index → Stands packet file other pc sent →
    (pc.inFileSection = true → file.mutex = some (.handler other)) →
    Stands packet file' other pc sent

/-- A step that does not touch the file. -/
theorem Keeps.of_same {pc' : Pc} {sent' : Bytes}
    (free : file.mutex = none → Idle (linesOf packet file.order) file.device)
    (own : Stands packet file index pc' sent') : Keeps packet index file file pc' sent' :=
  ⟨free, own, fun _ stands _ => stands⟩

/-- A handler that has failed stays out of the order. -/
theorem Failed.frame {file' : DeviceFile AesdDev} {other : Nat} {pc pc' : Pc} {sent : Bytes}
    {added : List Nat} (failed : Failed file index pc sent) (differs : index ≠ other)
    (stepped : OrderStep other pc' file file' added) : Failed file' index pc sent := by
  obtain ⟨released, notIn, unsent⟩ := failed
  refine ⟨released, ?_, unsent⟩
  cases stepped with
  | works same _ => rwa [same]
  | obtains _ _ => simp [notIn, differs]

/-- A step without a failure. -/
theorem ClientPhase.step {returned : Nat → Bool} {outcomes : Outcomes DriverOutcomes}
    {clients : Clients} {pc : Pc} {sent : Bytes} {effect : Effect AesdDev}
    (valid : ∀ index, (packet index).Valid)
    (ok : outcomes.ok = true) (serves : OutcomesServe (packet index) outcomes)
    (phase : ClientPhase packet file index pc sent)
    (guarded : pc.inFileSection = true → file.mutex = some (.handler index))
    (free : file.mutex = none → Idle (linesOf packet file.order) file.device)
    (stepped : pc.step aesdchar index returned outcomes file clients = some effect) :
    Keeps packet index file effect.file (effect.control.point pc) (sent ++ effect.sent) := by
  obtain ⟨added, orderStep, _⟩ := Pc.orderStep stepped []
  obtain ⟨control, more, file', clients'⟩ := effect
  have orderStep : OrderStep index pc file file' added := orderStep
  -- a handler that seeks looks at the record itself
  have seekFrame : ∀ {other cmd pc' sent'}, other ≠ index →
      SeekPhase packet file other cmd pc' sent' →
      (pc'.inFileSection = true → file.mutex = some (.handler other)) →
      SeekPhase packet file' other cmd pc' sent' :=
    fun differs phase' guarded' => phase'.frame differs guarded' guarded orderStep
  unfold ClientPhase at phase
  cases kind : packet index with
  | data line =>
      rw [kind] at phase
      obtain ⟨fileStep, phase'⟩ := Pc.dataStep kind valid ok serves phase guarded free stepped
      have viewIdle := fileStep.idle fun unlocked => by
        have idle := free unlocked
        rwa [linesOf_eq] at idle
      refine ⟨fun unlocked => ?_, Or.inr ?_, fun {other pc' sent'} differs stands guarded' => ?_⟩
      · have idle := viewIdle unlocked
        rw [linesOf_eq]
        exact idle
      · rw [ClientPhase, kind]
        exact phase'
      · refine stands.imp (fun failed => failed.frame differs orderStep) fun otherPhase => ?_
        unfold ClientPhase at otherPhase ⊢
        cases kind' : packet other with
        | data line' =>
            rw [kind'] at otherPhase
            exact otherPhase.frame differs guarded' guarded fileStep
        | seek cmd =>
            rw [kind'] at otherPhase
            exact seekFrame differs otherPhase guarded'
  | seek cmd =>
      rw [kind] at phase
      obtain ⟨device, phase'⟩ := Pc.seekStep kind valid ok serves phase guarded free stepped
      simp only at device phase'
      refine ⟨fun unlocked => ?_, Or.inr ?_, fun {other pc' sent'} differs stands guarded' => ?_⟩
      · cases orderStep with
        | works same outside =>
            rw [same, device]
            cases inSection : pc.inFileSection with
            | true => exact phase.idle_of_inside kind inSection
            | false =>
                rw [outside inSection] at unlocked
                exact free unlocked
        | obtains _ _ => contradiction
      · rw [ClientPhase, kind]
        exact phase'
      · refine stands.imp (fun failed => failed.frame differs orderStep) fun otherPhase => ?_
        unfold ClientPhase at otherPhase ⊢
        cases kind' : packet other with
        | data line =>
            rw [kind'] at otherPhase
            refine otherPhase.congr ?_ device
            cases orderStep with
            | works same _ => simp [dataView, DeviceFile.withOrder, same]
            | obtains _ _ =>
                simp [dataView, DeviceFile.withOrder, writes, kind, Packet.line?]
        | seek cmd' =>
            rw [kind'] at otherPhase
            exact seekFrame differs otherPhase guarded'

/-- A step behind the turn of a handler. -/
theorem Pc.step_of_released {returned : Nat → Bool} {outcomes : Outcomes DriverOutcomes}
    {clients : Clients} {pc : Pc} {effect : Effect AesdDev}
    (released : pc.hasReleasedFile = true)
    (stepped : pc.step aesdchar index returned outcomes file clients = some effect) :
    effect.file = file ∧ effect.sent = [] ∧
      (effect.control.point pc).hasReleasedFile = true := by
  cases pc with
  | setComplete point =>
      obtain ⟨⟨control, clients'⟩, _, rfl⟩ := Option.map_eq_some_iff.mp stepped
      cases control <;> exact ⟨rfl, rfl, rfl⟩
  | _ => contradiction

/-- A failure before the turn. -/
theorem Pc.step_of_failure {returned : Nat → Bool} {outcomes : Outcomes DriverOutcomes}
    {clients : Clients} {pc : Pc} {effect : Effect AesdDev} (failed : outcomes.ok = false)
    (outside : pc.inFileSection = false) (unreleased : pc.hasReleasedFile = false)
    (notReceiving : ∀ buffer, pc ≠ .recv buffer)
    (stepped : pc.step aesdchar index returned outcomes file clients = some effect) :
    effect = ⟨.goto (.setComplete .lock), [], file, clients⟩ := by
  cases pc with
  | start =>
      simp only [Pc.step, failed, Bool.false_eq_true, if_false] at stepped
      exact (Option.some.inj stepped).symm
  | recv buffer => exact absurd rfl (notReceiving buffer)
  | handleIoctl point =>
      cases point with
      | parse cmdBuffer =>
          simp only [Pc.step, HandleIoctl.step, failed, Bool.false_eq_true, if_false] at stepped
          exact (Option.some.inj stepped).symm
      | lock parsed =>
          obtain ⟨⟨control, more, file'⟩, ioctlStep, rfl⟩ := Option.map_eq_some_iff.mp stepped
          obtain ⟨⟨next, file''⟩, called, equal⟩ := Option.map_eq_some_iff.mp ioctlStep
          cases equal
          rcases DeviceFile.lockThen_cases called with ⟨ok, _⟩ | ⟨_, rfl, rfl⟩
          · simp [failed] at ok
          · rfl
      | _ => contradiction
  | lockFile bytes =>
      obtain ⟨⟨next, file'⟩, called, rfl⟩ := Option.map_eq_some_iff.mp stepped
      rcases DeviceFile.lockThen_cases called with ⟨ok, _⟩ | ⟨_, rfl, rfl⟩
      · simp [failed] at ok
      · rfl
  | _ => contradiction

/-- Up to the end of its turn a handler has not failed. -/
theorem Stands.phase {pc : Pc} {sent : Bytes} (stands : Stands packet file index pc sent)
    (unreleased : pc.hasReleasedFile = false) : ClientPhase packet file index pc sent :=
  stands.resolve_left fun failed => by simp [failed.1] at unreleased

/-- A step with or without a failure. -/
theorem Stands.step {returned : Nat → Bool} {outcomes : Outcomes DriverOutcomes}
    {clients : Clients} {pc : Pc} {sent : Bytes} {effect : Effect AesdDev}
    (valid : ∀ index, (packet index).Valid)
    (ok : pc.inFileSection = true → outcomes.ok = true)
    (serves : OutcomesServe (packet index) outcomes)
    (stands : Stands packet file index pc sent)
    (guarded : pc.inFileSection = true → file.mutex = some (.handler index))
    (free : file.mutex = none → Idle (linesOf packet file.order) file.device)
    (stepped : pc.step aesdchar index returned outcomes file clients = some effect) :
    Keeps packet index file effect.file (effect.control.point pc) (sent ++ effect.sent) := by
  cases released : pc.hasReleasedFile with
  | true =>
      obtain ⟨fileEq, sentEq, released'⟩ := Pc.step_of_released released stepped
      rw [fileEq, sentEq, List.append_nil]
      refine .of_same free (stands.imp ?_ fun phase => phase.of_released released released')
      exact fun failed => ⟨released', failed.2⟩
  | false =>
      have phase := stands.phase released
      cases failed : outcomes.ok with
      | true => exact phase.step valid failed serves guarded free stepped
      | false =>
          have outside : pc.inFileSection = false := by
            by_contra inside
            simp [ok (by simpa using inside)] at failed
          by_cases receiving : ∃ buffer, pc = .recv buffer
          · -- `recv` does not depend on the flag
            obtain ⟨buffer, rfl⟩ := receiving
            have stepped' : (Pc.recv buffer).step aesdchar index returned
                { outcomes with ok := true } file clients = some effect := stepped
            have okay : ({ outcomes with ok := true } : Outcomes DriverOutcomes).ok = true := rfl
            have serves' : OutcomesServe (packet index) { outcomes with ok := true } :=
              ⟨serves.chunk, serves.count, serves.succeed, serves.ioctl⟩
            exact ClientPhase.step valid okay serves' phase
              guarded free stepped'
          · obtain rfl := Pc.step_of_failure failed outside released
              (fun buffer is => receiving ⟨buffer, is⟩) stepped
            refine .of_same free (Or.inl ⟨rfl, ?_, ?_⟩)
            · rw [phase.mem_order_iff]
              simp [outside, released]
            · rw [phase.unsent outside released]
              rfl

/-- A handler that calls `pthread_mutex_lock` has not had its turn. -/
theorem Stands.not_mem_of_locks {pc : Pc} {sent : Bytes}
    (stands : Stands packet file index pc sent) (locks : pc.locksFile = true) :
    index ∉ file.order := by
  rcases stands with failed | phase
  · exact failed.2.1
  · rw [phase.mem_order_iff, Pc.not_inFileSection_of_locksFile locks]
    cases pc with
    | setComplete point | returned => contradiction
    | _ => simp [Pc.hasReleasedFile]

end Client

theorem Answering.step {packet : Nat → Packet} (valid : ∀ index, (packet index).Valid)
    {process target : Process AesdDev} {label : Label DriverOutcomes}
    (answering : Answering packet process) (serves : ServesAll packet process label)
    (stepped : Process.step aesdchar label process = some target) : Answering packet target := by
  have guarded := Process.guarded_step answering.guarded stepped
  rcases Process.step_cases stepped with
    ⟨_, rfl⟩ | ⟨ok, effect, _, _, rfl⟩ | ⟨index, outcomes, effect, rfl, _, made, rfl⟩
  · exact ⟨answering.nodup, guarded, answering.idle, answering.stands⟩
  · exact ⟨answering.nodup, guarded, answering.idle, answering.stands⟩
  · have keeps := (answering.stands index).step valid serves.1 serves.2
      (answering.guarded (.handler index)) answering.idle made
    refine ⟨?_, guarded, keeps.idle, ?_⟩
    · obtain ⟨added, orderStep, _⟩ := Pc.orderStep made []
      rw [Process.applyHandler_file]
      generalize effect.file = file' at orderStep
      cases orderStep with
      | works same _ =>
          rw [same]
          exact answering.nodup
      | obtains _ locks =>
          have notYet := (answering.stands index).not_mem_of_locks locks
          exact List.nodup_append.mpr ⟨answering.nodup, List.nodup_singleton index, by
            rintro first firstMem second secondMem rfl
            rw [List.mem_singleton.mp secondMem] at firstMem
            exact notYet firstMem⟩
    · intro other
      rw [Process.applyHandler_file]
      by_cases same : other = index
      · subst other
        rw [Process.applyHandler_self]
        exact keeps.own
      · rw [process.applyHandler_of_ne index effect same]
        exact keeps.others same (answering.stands other) (answering.guarded (.handler other))

/-- The clients are answered as by a sequential service. -/
structure Answered (packet : Nat → Packet) (process : Process AesdDev) : Prop where
  /-- No handler takes its turn twice. -/
  nodup : process.file.order.Nodup
  /-- A handler in its section has begun its turn. -/
  mem_of_inside : ∀ index, (process.handlers index).pc.inFileSection = true →
    index ∈ process.file.order
  /-- A handler that has begun its turn is in its section, or behind it. -/
  inside_or_released : ∀ index ∈ process.file.order,
    (process.handlers index).pc.inFileSection = true ∨
      (process.handlers index).pc.hasReleasedFile = true
  /-- A handler that has failed before its turn has sent nothing. -/
  failed : ∀ index, (process.handlers index).pc.hasReleasedFile = true →
    index ∉ process.file.order → (process.handlers index).sent = []
  /-- Behind its turn a handler has sent the answer of the service to its packet. -/
  sent_eq : ∀ place index reply, process.file.order[place]? = some index →
    (process.handlers index).pc.hasReleasedFile = true →
    answer ((process.file.order.take place).map packet) (packet index) = some reply →
    (process.handlers index).sent = reply
  /-- A handler whose command is not answered has sent nothing, keeps the mutex, and is the
  last one to have obtained it. -/
  rejected : ∀ place index, process.file.order[place]? = some index →
    (process.handlers index).pc.hasReleasedFile = true →
    answer ((process.file.order.take place).map packet) (packet index) = none →
    (process.handlers index).sent = [] ∧ place + 1 = process.file.order.length ∧
      process.file.mutex = some (.handler index)
  /-- Between the turns the device holds the last ten lines, and nothing is pending. -/
  free : process.file.mutex = none →
    process.file.device.held = heldBehind (process.file.order.map packet) ∧
      process.file.device.pending = []
  /-- What a handler sends goes to its own client: `main` has not closed its descriptor. -/
  reaches : process.closed = []

section Place

variable {packet : Nat → Packet} {file : DeviceFile AesdDev} {index : Nat} {pc : Pc}
  {sent : Bytes}

/-- Where the place of a handler splits an order without repetitions. -/
theorem take_of_split {order before after : List Nat} {place : Nat} (nodup : order.Nodup)
    (atPlace : order[place]? = some index) (split : order = before ++ index :: after) :
    order.take place = before ∧ place = before.length := by
  have inOrder := (List.getElem?_eq_some_iff.mp atPlace).1
  have atBefore : order[before.length]? = some index := by
    rw [split]
    simp
  obtain rfl := (List.getElem?_inj inOrder nodup).mp (atPlace.trans atBefore.symm)
  exact ⟨by rw [split, List.take_left], rfl⟩

/-- Behind its turn a handler has been answered, or has kept the mutex. -/
theorem ClientPhase.answered {place : Nat} (phase : ClientPhase packet file index pc sent)
    (nodup : file.order.Nodup) (atPlace : file.order[place]? = some index)
    (released : pc.hasReleasedFile = true) :
    answer ((file.order.take place).map packet) (packet index) = some sent ∨
      answer ((file.order.take place).map packet) (packet index) = none ∧ sent = [] ∧
        place + 1 = file.order.length ∧ file.mutex = some (.handler index) := by
  unfold ClientPhase at phase
  cases kind : packet index with
  | data line =>
      rw [kind] at phase
      have isWriter : writes packet index = true := by simp [writes, kind, Packet.line?]
      -- among the handlers that write it has the same neighbours
      obtain ⟨before, after, split⟩ :=
        List.append_of_mem (List.mem_of_getElem? atPlace)
      obtain ⟨takeEq, _⟩ := take_of_split nodup atPlace split
      obtain ⟨before', after', split', rfl⟩ := phase.sent_of_released released
      have viewSplit : (dataView packet file).order =
          before.filter (writes packet) ++ index :: after.filter (writes packet) := by
        simp [dataView, DeviceFile.withOrder, split, isWriter]
      have viewNodup : (dataView packet file).order.Nodup := nodup.filter _
      have atBefore : (dataView packet file).order[before'.length]? = some index := by
        rw [split']
        simp
      obtain ⟨takeView, placeEq⟩ := take_of_split viewNodup atBefore viewSplit
      have beforeEq : before' = before.filter (writes packet) := by
        rw [← takeView, split', List.take_left]
      left
      rw [takeEq, answer, heldBehind, replyTo, beforeEq]
      have lines : linesOf packet (before ++ [index]) = _ := linesOf_eq (before ++ [index])
      rw [List.filter_append, List.filter_cons_of_pos isWriter, List.filter_nil, linesOf,
        List.map_append, List.map_singleton, kind] at lines
      rw [lines]
  | seek cmd =>
      rw [kind] at phase
      have phase : SeekPhase packet file index cmd .returned sent := by
        cases pc with
        | setComplete point => exact phase
        | returned => exact phase
        | _ => contradiction
      obtain ⟨before, after, split, replied | ⟨nothing, unsent, rfl, owns⟩⟩ := phase
      · rw [(take_of_split nodup atPlace split).1]
        exact Or.inl replied
      · obtain ⟨takeEq, rfl⟩ := take_of_split nodup atPlace split
        rw [takeEq]
        exact Or.inr ⟨nothing, unsent, by rw [split]; simp, owns⟩

end Place

theorem Pc.not_inFileSection_of_released {pc : Pc} (released : pc.hasReleasedFile = true) :
    pc.inFileSection = false := by
  cases pc with
  | setComplete point | returned => rfl
  | _ => contradiction

/-- A handler in the order has not failed before its turn. -/
theorem Answering.phase_of_place {packet : Nat → Packet} {process : Process AesdDev}
    (answering : Answering packet process) {place index : Nat}
    (atPlace : process.file.order[place]? = some index) :
    ClientPhase packet process.file index (process.handlers index).pc
      (process.handlers index).sent :=
  (answering.stands index).resolve_left fun failed =>
    failed.2.1 (List.mem_of_getElem? atPlace)

theorem Answering.answered {packet : Nat → Packet} {process : Process AesdDev}
    (answering : Answering packet process) (reaches : process.closed = []) :
    Answered packet process where
  nodup := answering.nodup
  mem_of_inside index inside := by
    rcases answering.stands index with failed | phase
    · rw [Pc.not_inFileSection_of_released failed.1] at inside
      contradiction
    · exact phase.mem_order_iff.mpr (Or.inl inside)
  inside_or_released index member := by
    rcases answering.stands index with failed | phase
    · exact absurd member failed.2.1
    · exact phase.mem_order_iff.mp member
  failed index released notIn := by
    rcases answering.stands index with failed | phase
    · exact failed.2.2
    · exact absurd (phase.mem_order_iff.mpr (Or.inr released)) notIn
  sent_eq place index reply atPlace released replies := by
    rcases (answering.phase_of_place atPlace).answered answering.nodup atPlace released with
      sent | ⟨nothing, _⟩
    · rw [sent] at replies
      exact Option.some.inj replies
    · rw [nothing] at replies
      contradiction
  rejected place index atPlace released unanswered := by
    rcases (answering.phase_of_place atPlace).answered answering.nodup atPlace released with
      sent | ⟨_, keeps⟩
    · rw [sent] at unanswered
      contradiction
    · exact keeps
  free unlocked := ⟨(answering.idle unlocked).held_eq, (answering.idle unlocked).pending_eq⟩
  reaches := reaches

theorem closed_of_servesAll {packet : Nat → Packet} {labels : List (Label DriverOutcomes)}
    {process : Process AesdDev}
    (run : Run (Process.step aesdchar) (ServesAll packet) (Process.start aesdInitModule) labels
      process) : process.closed = [] := by
  refine run.invariant (fun _ process => process.closed = []) rfl ?_
  intro labels middle label target closed serves stepped
  have kept : middle.abandoned label = [] := by
    cases label with
    | signal | handler index outcomes => rfl
    | main ok => exact serves
  rw [Process.closed_step stepped, closed, kept, List.append_nil]

/-- For any number of clients, each of which sends one line or one seek command, and every
interleaving in which nothing fails between the lock and the unlock of `file_mutex` nor
behind `pthread_create` in `main`: they are answered as by a sequential service that takes
their packets in the order in which their handlers obtain the mutex, until a command is
rejected. -/
theorem clients_answered {packet : Nat → Packet} (valid : ∀ index, (packet index).Valid)
    {labels : List (Label DriverOutcomes)} {process : Process AesdDev}
    (run : Run (Process.step aesdchar) (ServesAll packet) (Process.start aesdInitModule) labels
      process) : Answered packet process := by
  have answering : Answering packet process :=
    run.invariant (fun _ process => Answering packet process) (answering_start packet)
      fun answering serves stepped => answering.step valid serves stepped
  exact answering.answered (closed_of_servesAll run)

/-- The first client writes `a\n`, the others seek to the start. -/
def writeAndSeek (index : Nat) : Packet :=
  if index = 0 then .data [97, 10] else .seek ⟨0, 0⟩

theorem valid_writeAndSeek (index : Nat) : (writeAndSeek index).Valid := by
  unfold writeAndSeek
  split
  · exact ⟨⟨⟨[97], by decide, rfl⟩, by decide, by decide, by decide⟩, by decide⟩
  · show (0 : UInt32).toNat + 9 ≤ 2 ^ 31
    decide

/-- The bytes of a seek to the start. -/
def startLine : Bytes :=
  seekCommand ++ [58, 48, 44, 48, 10]

theorem commandLine_start : commandLine ⟨0, 0⟩ = startLine := by
  simp [commandLine, decimalText, startLine, newline]

/-- The second client seeks while the first one writes. -/
def seekBehindWrite : List (Label DriverOutcomes) :=
  List.replicate 12 (.main true) ++
    List.replicate 3 (.handler 1 (Outcomes.success startLine)) ++
    List.replicate 14 (.handler 0 (Outcomes.success [97, 10])) ++
    List.replicate 9 (.handler 1 (Outcomes.success startLine))

theorem servesAll_seekBehindWrite :
    ∀ label ∈ seekBehindWrite, ∀ process, ServesAll writeAndSeek process label := by
  intro label member process
  simp only [seekBehindWrite, List.mem_append, List.mem_replicate] at member
  rcases member with ((⟨_, rfl⟩ | ⟨_, rfl⟩) | ⟨_, rfl⟩) | ⟨_, rfl⟩
  · rfl
  · exact ⟨fun _ => rfl, Or.inl commandLine_start.symm, by decide,
      DriverOutcomes.succeed_success, rfl⟩
  · exact ⟨fun _ => rfl, Or.inl rfl, by decide, DriverOutcomes.succeed_success, rfl⟩
  · exact ⟨fun _ => rfl, Or.inl commandLine_start.symm, by decide,
      DriverOutcomes.succeed_success, rfl⟩

/-- The seek is answered with the line of the client that was served first. -/
theorem clients_answered_seek :
    ∃ process,
      exec (Process.step aesdchar) seekBehindWrite (Process.start aesdInitModule) =
          some process ∧
        process.returned 1 = true ∧ (process.handlers 1).sent = [97, 10] := by
  have run : Run (Process.step aesdchar) (ServesAll writeAndSeek)
      (Process.start aesdInitModule) seekBehindWrite _ :=
    run_of_forall rfl servesAll_seekBehindWrite
  have answered := clients_answered valid_writeAndSeek run
  have answerEq : answer [.data [97, 10]] (.seek ⟨0, 0⟩) = some [97, 10] := by decide +kernel
  exact ⟨_, run.exec_eq_some, rfl, answered.sent_eq 1 1 [97, 10] rfl rfl answerEq⟩

end Aesd.Server
