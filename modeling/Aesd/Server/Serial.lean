import Aesd.Server.FileMutex
import Mathlib.Algebra.Order.BigOperators.Group.List
import Mathlib.Algebra.Order.Group.Nat

/-!
# Serial order of the clients

Clients that each send one line of data are served one after the other, in the
order in which their handlers obtain `file_mutex`: between its lock and its
unlock a handler appends its line to the commands of the device and sends its
client what the device then holds.
-/

namespace Aesd.Server

open Aesd.Driver
open Aesd.Mutex
open Aesd.Ring
open Aesd.Transition
open Aesd.Word

/-! ## Clients -/

/-- A packet that is one line of data and fits into the buffer. -/
structure DataPacket (packet : Bytes) : Prop where
  isLine : IsLine newline packet
  nulFree : 0 ∉ packet
  fits : packet.length ≤ bufferSize
  isData : ¬ seekCommand <+: packet

/-- A step in which nothing fails in a handler, each handler receiving the packet of
its client at once.  `main` may fail and may be told to stop. -/
def Serves (packet : Nat → Bytes) : Label DriverOutcomes → Prop
  | .signal | .main _ => True
  | .handler index outcomes =>
      outcomes.ok = true ∧ outcomes.chunk = packet index ∧ 0 < outcomes.count ∧
        outcomes.device.Succeed

/-- The content of a device to which the packets of `clients` were written. -/
def replyTo (packet : Nat → Bytes) (clients : List Nat) : Bytes :=
  ((clients.map packet).rtake 10).flatten

section Reply

variable {packet : Nat → Bytes} {clients : List Nat} {driver : AesdDev}

/-- The content of an idle device is the reply to the last client. -/
theorem content_eq_replyTo (idle : Idle (clients.map packet) driver) :
    driver.content = replyTo packet clients := by
  rw [AesdDev.content, idle.held_eq, replyTo]

theorem nul_not_mem_replyTo (data : ∀ index, DataPacket (packet index)) :
    0 ∉ replyTo packet clients := by
  intro nul
  obtain ⟨line, member, inLine⟩ := List.mem_flatten.mp nul
  obtain ⟨index, _, rfl⟩ := List.mem_map.mp (List.mem_of_mem_drop member)
  exact (data index).nulFree inLine

theorem length_replyTo_lt (data : ∀ index, DataPacket (packet index)) :
    (replyTo packet clients).length < 2 ^ 63 := by
  have each : ∀ size ∈ ((clients.map packet).rtake 10).map List.length, size ≤ bufferSize := by
    intro size member
    obtain ⟨line, lineMem, rfl⟩ := List.mem_map.mp member
    obtain ⟨index, _, rfl⟩ := List.mem_map.mp (List.mem_of_mem_drop lineMem)
    exact (data index).fits
  have total := List.sum_le_card_nsmul _ _ each
  have few := length_rtake (clients.map packet) 10
  rw [List.length_map, nsmul_eq_mul, Nat.cast_id, bufferSize] at total
  rw [replyTo, List.length_flatten]
  omega

end Reply

/-! ## The phases of a handler -/

/-- `index` is the last handler that has obtained the mutex, and the packets of
`clients` are on the device. -/
def InTurn (packet : Nat → Bytes) (file : DeviceFile AesdDev) (index : Nat)
    (clients : List Nat) : Prop :=
  (∃ before, file.order = before ++ [index]) ∧ Idle (clients.map packet) file.device

/-- What is true of a handler at each of its points, when it has sent `sent`. -/
def Phase (packet : Nat → Bytes) (file : DeviceFile AesdDev) (index : Nat) (pc : Pc)
    (sent : Bytes) : Prop :=
  match pc with
  | .start | .recv _ => index ∉ file.order ∧ sent = []
  | .lockFile bytes => bytes = packet index ∧ index ∉ file.order ∧ sent = []
  | .openFile bytes =>
      bytes = packet index ∧ sent = [] ∧ InTurn packet file index file.order.dropLast
  | .flush bytes fPos =>
      bytes = packet index ∧ fPos = 0 ∧ sent = [] ∧ InTurn packet file index file.order.dropLast
  | .seek _ => sent = [] ∧ InTurn packet file index file.order
  | .echo line ahead fPos =>
      InTurn packet file index file.order ∧
        ∃ position : Nat, fPos = position ∧ position ≤ (replyTo packet file.order).length ∧
          sent ++ line ++ ahead = (replyTo packet file.order).take position
  | .unlockFile => InTurn packet file index file.order ∧ sent = replyTo packet file.order
  | .setComplete _ | .returned =>
      ∃ before after, file.order = before ++ index :: after ∧
        sent = replyTo packet (before ++ [index])
  | .handleIoctl _ | .cleanup _ => False

/-- What a step of a handler does to the device file: nothing, or it obtains the
free mutex, or it is inside its section and leaves an idle device when it
unlocks. -/
inductive FileStep (packet : Nat → Bytes) (index : Nat) (inside : Bool)
    (file : DeviceFile AesdDev) : DeviceFile AesdDev → Prop
  | same : FileStep packet index inside file file
  | obtains : file.mutex = none → index ∉ file.order →
      FileStep packet index inside file
        { file with mutex := some (.handler index), order := file.order ++ [index] }
  | works {file' : DeviceFile AesdDev} : inside = true → file'.order = file.order →
      (file'.mutex = none → Idle (file'.order.map packet) file'.device) →
      FileStep packet index inside file file'

section Step

variable {packet : Nat → Bytes} {file : DeviceFile AesdDev} {index : Nat}

theorem FileStep.nodup {file' : DeviceFile AesdDev} {inside : Bool}
    (stepped : FileStep packet index inside file file') (nodup : file.order.Nodup) :
    file'.order.Nodup := by
  cases stepped with
  | same => exact nodup
  | obtains _ notYet =>
      refine List.nodup_append.mpr ⟨nodup, List.nodup_singleton index, ?_⟩
      rintro other member _ (_ | ⟨_, impossible⟩) rfl
      · exact notYet member
      · contradiction
  | works _ same _ => rwa [same]

theorem FileStep.idle {file' : DeviceFile AesdDev} {inside : Bool}
    (stepped : FileStep packet index inside file file')
    (idle : file.mutex = none → Idle (file.order.map packet) file.device) :
    file'.mutex = none → Idle (file'.order.map packet) file'.device := by
  cases stepped with
  | same => exact idle
  | obtains _ _ => exact fun unlocked => by contradiction
  | works _ _ idle' => exact idle'

/-- The steps of the others do not concern a handler. -/
theorem Phase.frame {pc : Pc} {sent : Bytes} {file' : DeviceFile AesdDev} {other : Nat}
    {inside : Bool} (phase : Phase packet file index pc sent) (differs : index ≠ other)
    (guarded : pc.inFileSection = true → file.mutex = some (.handler index))
    (otherGuarded : inside = true → file.mutex = some (.handler other))
    (stepped : FileStep packet other inside file file') : Phase packet file' index pc sent := by
  cases inSection : pc.inFileSection with
  | true =>
      -- the mutex is held, so that the step of the other one does nothing
      have owns := guarded inSection
      cases stepped with
      | same => exact phase
      | obtains mutexFree _ => simp [mutexFree] at owns
      | works otherInside _ _ =>
          rw [otherGuarded otherInside, Option.some.injEq, Thread.handler.injEq] at owns
          exact absurd owns.symm differs
  | false =>
      -- outside of the section only the order matters
      have grows : file'.order = file.order ∨ file'.order = file.order ++ [other] := by
        cases stepped with
        | same => exact Or.inl rfl
        | obtains _ _ => exact Or.inr rfl
        | works _ same _ => exact Or.inl same
      have notYet (absent : index ∉ file.order) : index ∉ file'.order := by
        rcases grows with same | appended
        · rwa [same]
        · rw [appended]
          simp [absent, differs]
      have served {before after : List Nat} (place : file.order = before ++ index :: after) :
          ∃ after', file'.order = before ++ index :: after' := by
        rcases grows with same | appended
        · exact ⟨after, by rw [same, place]⟩
        · exact ⟨after ++ [other], by rw [appended, place]; simp⟩
      cases pc with
      | start => exact ⟨notYet phase.1, phase.2⟩
      | recv buffer => exact ⟨notYet phase.1, phase.2⟩
      | lockFile bytes => exact ⟨phase.1, notYet phase.2.1, phase.2.2⟩
      | setComplete point =>
          obtain ⟨before, after, place, replied⟩ := phase
          obtain ⟨after', place'⟩ := served place
          exact ⟨before, after', place', replied⟩
      | returned =>
          obtain ⟨before, after, place, replied⟩ := phase
          obtain ⟨after', place'⟩ := served place
          exact ⟨before, after', place', replied⟩
      | handleIoctl point => exact phase.elim
      | _ => contradiction

theorem Pc.serialStep {returned : Nat → Bool} {outcomes : Outcomes DriverOutcomes}
    {clients : Clients} {pc : Pc} {sent : Bytes} {effect : Effect AesdDev}
    (data : ∀ index, DataPacket (packet index))
    (serves : Serves packet (.handler index outcomes))
    (phase : Phase packet file index pc sent)
    (guarded : pc.inFileSection = true → file.mutex = some (.handler index))
    (free : file.mutex = none → Idle (file.order.map packet) file.device)
    (stepped : pc.step aesdchar index returned outcomes file clients = some effect) :
    FileStep packet index pc.inFileSection file effect.file ∧
      Phase packet effect.file index (effect.control.point pc) (sent ++ effect.sent) := by
  obtain ⟨ok, chunk, positive, succeed⟩ := serves
  have packetData := data index
  cases pc with
  | start =>
      simp only [Pc.step, ok, if_true] at stepped
      cases stepped
      refine ⟨FileStep.same, ?_⟩
      simp only [List.append_nil]
      exact phase
  | recv buffer =>
      have whole : outcomes.chunk.take bufferSize = packet index := by
        rw [chunk, List.take_of_length_le packetData.fits]
      have present : newline ∈ packet index := packetData.isLine.mem
      have received := receiveChunk_of_data buffer present packetData.isData
      simp only [Pc.step, whole, if_neg packetData.isLine.ne_nil, received] at stepped
      cases stepped
      refine ⟨FileStep.same, rfl, ?_⟩
      simp only [List.append_nil]
      exact phase
  | handleIoctl point => exact phase.elim
  | lockFile bytes =>
      obtain ⟨bytesEq, notYet, nothing⟩ := phase
      obtain ⟨⟨next, file'⟩, called, rfl⟩ := Option.map_eq_some_iff.mp stepped
      rcases DeviceFile.lockThen_cases called with ⟨_, mutexFree, rfl, rfl⟩ | ⟨failed, _, _⟩
      · refine ⟨FileStep.obtains mutexFree notYet, bytesEq, by simpa using nothing,
          ⟨file.order, rfl⟩, ?_⟩
        simpa using free mutexFree
      · simp [ok] at failed
  | openFile bytes =>
      simp only [Pc.step, ok, if_true] at stepped
      cases stepped
      obtain ⟨bytesEq, nothing, inTurn⟩ := phase
      exact ⟨FileStep.same, bytesEq, rfl, by simpa using nothing, inTurn⟩
  | cleanup point => exact phase.elim
  | flush bytes fPos =>
      obtain ⟨rfl, rfl, nothing, ⟨before, orderEq⟩, idle⟩ := phase
      have last : file.order.dropLast ++ [index] = file.order := by
        rw [orderEq, List.dropLast_concat]
      obtain ⟨driver, written, idle'⟩ := idle.write succeed packetData.isLine (Int.le_refl 0)
      have whole : ¬ (0 ≤ ((packet index).length : Int) ∧
          ((packet index).length : Int) < (packet index).length) := by omega
      simp only [Pc.step, flushStep, written, if_neg whole] at stepped
      cases stepped
      have owns := guarded rfl
      refine ⟨FileStep.works rfl rfl fun unlocked => ?_, by simpa using nothing,
        ⟨before, orderEq⟩, ?_⟩
      · simp [owns] at unlocked
      · rw [← last, List.map_append]
        exact idle'
  | seek fPos =>
      obtain ⟨nothing, inTurn, idle⟩ := phase
      have sought := aesdchar_llseek idle.1 succeed fPos
      simp only [Pc.step, sought] at stepped
      cases stepped
      refine ⟨FileStep.same, ⟨inTurn, idle⟩, 0, rfl, Nat.zero_le _, ?_⟩
      simpa using nothing
  | echo line ahead fPos =>
      obtain ⟨⟨turn, idle⟩, position, rfl, bound, whole⟩ := phase
      have content := content_eq_replyTo idle
      have small : (replyTo packet file.order).length < 2 ^ 63 := length_replyTo_lt data
      have nulFree : 0 ∉ replyTo packet file.order := nul_not_mem_replyTo data
      cases ahead with
      | cons byte ahead =>
          have lineNulFree : 0 ∉ line ++ [byte] := by
            intro nul
            refine nulFree (List.mem_of_mem_take (i := position) ?_)
            rw [← whole]
            simp only [List.mem_append, List.mem_cons, List.not_mem_nil, or_false] at nul ⊢
            rcases nul with inLine | isByte
            · exact Or.inl (Or.inr inLine)
            · exact Or.inr (Or.inl isByte)
          have text := cString_of_nulFree lineNulFree
          simp only [Pc.step, echoStep, text] at stepped
          split at stepped
          · cases stepped
            refine ⟨FileStep.same, ⟨turn, idle⟩, position, rfl, bound, ?_⟩
            simpa using whole
          · cases stepped
            refine ⟨FileStep.same, ⟨turn, idle⟩, position, rfl, bound, ?_⟩
            simpa using whole
      | nil =>
          rw [List.append_nil] at whole
          have lineNulFree : 0 ∉ line := by
            intro nul
            refine nulFree (List.mem_of_mem_take (i := position) ?_)
            rw [← whole]
            exact List.mem_append_right _ nul
          have read := idle.read succeed (by rw [content]; exact small) positive
            (show position < 2 ^ 63 by omega)
          have piece := slice_eq_take file.device.held outcomes.count position
          rw [← AesdDev.content, content] at piece
          have pieceLength := congrArg List.length piece
          rw [List.length_take, List.length_drop] at pieceLength
          simp only [Pc.step, echoStep, read] at stepped
          have next : position + (slice file.device.held outcomes.count position).length ≤
              (replyTo packet file.order).length := by omega
          by_cases more : 0 < (slice file.device.held outcomes.count position).length
          · rw [if_pos (by omega)] at stepped
            cases stepped
            refine ⟨FileStep.same, ⟨turn, idle⟩, _, rfl, next, ?_⟩
            rw [List.take_add, ← whole, ← piece, List.append_nil]
          · rw [if_neg (by omega), if_pos (by omega), cString_of_nulFree lineNulFree] at stepped
            cases stepped
            have empty := List.length_eq_zero_iff.mp (Nat.eq_zero_of_not_pos more)
            have atEnd : file.device.content.length ≤ position :=
              (slice_eq_nil_iff positive).mp empty
            rw [content] at atEnd
            refine ⟨FileStep.same, ⟨turn, idle⟩, ?_⟩
            rw [whole, List.take_of_length_le atEnd]
  | unlockFile =>
      cases stepped
      obtain ⟨⟨⟨before, orderEq⟩, idle⟩, replied⟩ := phase
      refine ⟨FileStep.works rfl rfl fun _ => idle, before, [], orderEq, ?_⟩
      rw [List.append_nil, replied, orderEq]
  | setComplete point =>
      obtain ⟨⟨control, clients'⟩, _, rfl⟩ := Option.map_eq_some_iff.mp stepped
      refine ⟨FileStep.same, ?_⟩
      simp only [List.append_nil]
      cases control <;> exact phase
  | returned => contradiction

end Step

/-! ## Runs -/

/-- What holds in every state of a run that serves data clients. -/
structure Serving (packet : Nat → Bytes) (process : Process AesdDev) : Prop where
  nodup : process.file.order.Nodup
  guarded : Guarded process.file.mutex process.InFileSection
  idle : process.file.mutex = none → Idle (process.file.order.map packet) process.file.device
  phases : ∀ index,
    Phase packet process.file index (process.handlers index).pc (process.handlers index).sent

theorem serving_start (packet : Nat → Bytes) : Serving packet (Process.start aesdInitModule) where
  nodup := List.nodup_nil
  guarded := (Process.exact_start aesdInitModule).guarded
  idle _ := idle_init
  phases _ := ⟨List.not_mem_nil, rfl⟩

theorem Serving.step {packet : Nat → Bytes} (data : ∀ index, DataPacket (packet index))
    {process target : Process AesdDev} {label : Label DriverOutcomes}
    (serving : Serving packet process) (serves : Serves packet label)
    (stepped : Process.step aesdchar label process = some target) : Serving packet target := by
  have guarded := Process.guarded_step serving.guarded stepped
  rcases Process.step_cases stepped with
    ⟨_, rfl⟩ | ⟨ok, effect, _, _, rfl⟩ | ⟨index, outcomes, effect, rfl, _, made, rfl⟩
  · exact ⟨serving.nodup, guarded, serving.idle, serving.phases⟩
  · exact ⟨serving.nodup, guarded, serving.idle, serving.phases⟩
  · obtain ⟨fileStep, phase⟩ := Pc.serialStep data serves (serving.phases index)
      (serving.guarded (.handler index)) serving.idle made
    refine ⟨fileStep.nodup serving.nodup, guarded, fileStep.idle serving.idle, ?_⟩
    intro other
    rw [Process.applyHandler_file]
    by_cases same : other = index
    · subst other
      rw [Process.applyHandler_self]
      exact phase
    · rw [process.applyHandler_of_ne index effect same]
      exact (serving.phases other).frame same (serving.guarded (.handler other))
        (serving.guarded (.handler index)) fileStep

/-- The points behind the unlock at the end of the critical section. -/
def Pc.hasReleasedFile : Pc → Bool
  | .setComplete _ | .returned => true
  | _ => false

/-- The clients are served one after the other. -/
structure Serialised (packet : Nat → Bytes) (process : Process AesdDev) : Prop where
  /-- No handler takes its turn twice. -/
  nodup : process.file.order.Nodup
  /-- The handlers in the order are those that have begun their turn. -/
  mem_order_iff : ∀ index, index ∈ process.file.order ↔
    (process.handlers index).pc.inFileSection = true ∨
      (process.handlers index).pc.hasReleasedFile = true
  /-- A handler has sent the last ten packets up to its own. -/
  sent_eq : ∀ place index, process.file.order[place]? = some index →
    (process.handlers index).pc.hasReleasedFile = true →
    (process.handlers index).sent =
      (((process.file.order.take (place + 1)).map packet).rtake 10).flatten
  /-- When it releases the mutex, the device holds these packets as its entries. -/
  held_eq : ∀ place index, process.file.order[place]? = some index →
    (process.handlers index).pc = .unlockFile →
    process.file.device.held =
      ((process.file.order.take (place + 1)).map packet).rtake 10
  /-- Between the turns the device holds the last ten packets, and nothing is
  pending. -/
  free : process.file.mutex = none →
    process.file.device.held = (process.file.order.map packet).rtake 10 ∧
      process.file.device.pending = []

/-- A handler has one place in the order. -/
theorem take_place {order before after : List Nat} {place index : Nat} (nodup : order.Nodup)
    (atPlace : order[place]? = some index) (split : order = before ++ index :: after) :
    order.take (place + 1) = before ++ [index] := by
  have inOrder := (List.getElem?_eq_some_iff.mp atPlace).1
  have atBefore : order[before.length]? = some index := by
    rw [split]
    simp
  obtain rfl := (List.getElem?_inj inOrder nodup).mp (atPlace.trans atBefore.symm)
  rw [split, List.take_append, List.take_of_length_le (Nat.le_succ _)]
  simp

/-- A handler is in the order once it has obtained the mutex. -/
theorem Phase.mem_order_iff {packet : Nat → Bytes} {file : DeviceFile AesdDev} {index : Nat}
    {pc : Pc} {sent : Bytes} (phase : Phase packet file index pc sent) :
    index ∈ file.order ↔ pc.inFileSection = true ∨ pc.hasReleasedFile = true := by
  have mem_of_inTurn {clients : List Nat} (inTurn : InTurn packet file index clients) :
      index ∈ file.order := by
    obtain ⟨⟨before, orderEq⟩, _⟩ := inTurn
    simp [orderEq]
  have mem_of_split {before after : List Nat} (split : file.order = before ++ index :: after) :
      index ∈ file.order := by
    simp [split]
  cases pc with
  | start => simp [phase.1, Pc.inFileSection, Pc.hasReleasedFile]
  | recv buffer => simp [phase.1, Pc.inFileSection, Pc.hasReleasedFile]
  | handleIoctl point => exact phase.elim
  | lockFile bytes => simp [phase.2.1, Pc.inFileSection, Pc.hasReleasedFile]
  | openFile bytes => simp [mem_of_inTurn phase.2.2, Pc.inFileSection]
  | cleanup point => exact phase.elim
  | flush bytes fPos => simp [mem_of_inTurn phase.2.2.2, Pc.inFileSection]
  | seek fPos => simp [mem_of_inTurn phase.2, Pc.inFileSection]
  | echo line ahead fPos => simp [mem_of_inTurn phase.1, Pc.inFileSection]
  | unlockFile => simp [mem_of_inTurn phase.1, Pc.inFileSection]
  | setComplete point =>
      obtain ⟨before, after, split, _⟩ := phase
      simp [mem_of_split split, Pc.hasReleasedFile]
  | returned =>
      obtain ⟨before, after, split, _⟩ := phase
      simp [mem_of_split split, Pc.hasReleasedFile]

/-- A handler that has released the mutex has sent the reply of its turn. -/
theorem Phase.sent_of_released {packet : Nat → Bytes} {file : DeviceFile AesdDev} {index : Nat}
    {pc : Pc} {sent : Bytes} (phase : Phase packet file index pc sent)
    (released : pc.hasReleasedFile = true) :
    ∃ before after, file.order = before ++ index :: after ∧
      sent = replyTo packet (before ++ [index]) := by
  cases pc with
  | setComplete point => exact phase
  | returned => exact phase
  | _ => contradiction

theorem Serving.serialised {packet : Nat → Bytes} {process : Process AesdDev}
    (serving : Serving packet process) : Serialised packet process where
  nodup := serving.nodup
  mem_order_iff index := (serving.phases index).mem_order_iff
  sent_eq place index atPlace released := by
    obtain ⟨before, after, split, sentEq⟩ := (serving.phases index).sent_of_released released
    rw [take_place serving.nodup atPlace split]
    exact sentEq
  held_eq place index atPlace atUnlock := by
    have phase := serving.phases index
    rw [atUnlock] at phase
    obtain ⟨⟨⟨before, orderEq⟩, idle⟩, _⟩ := phase
    rw [take_place serving.nodup atPlace orderEq, ← orderEq]
    exact idle.held_eq
  free unlocked := ⟨(serving.idle unlocked).held_eq, (serving.idle unlocked).pending_eq⟩

/-- For any number of clients that each send one packet of data, and every
interleaving: the clients are served one after the other, in the order in which
their handlers obtain `file_mutex`. -/
theorem clients_serialised {packet : Nat → Bytes} (data : ∀ index, DataPacket (packet index))
    {labels : List (Label DriverOutcomes)} {process : Process AesdDev}
    (run : Run (Process.step aesdchar) (fun _ => Serves packet) (Process.start aesdInitModule)
      labels process) : Serialised packet process := by
  have serving : Serving packet process :=
    run.invariant (fun _ process => Serving packet process) (serving_start packet)
      fun serving serves stepped => serving.step data serves stepped
  exact serving.serialised

/-- The packet `a\n` of the first client and the packet `b\n` of the others. -/
def twoPackets (index : Nat) : Bytes :=
  if index = 0 then [97, 10] else [98, 10]

theorem dataPacket_twoPackets (index : Nat) : DataPacket (twoPackets index) := by
  unfold twoPackets
  split
  · exact ⟨⟨[97], by decide, rfl⟩, by decide, by decide, by decide⟩
  · exact ⟨⟨[98], by decide, rfl⟩, by decide, by decide, by decide⟩

/-- Two clients, of which the second one overtakes the first. -/
def twoClients : List (Label DriverOutcomes) :=
  List.replicate 12 (.main true) ++
    List.replicate 2 (.handler 0 (Outcomes.success (twoPackets 0))) ++
    List.replicate 14 (.handler 1 (Outcomes.success (twoPackets 1))) ++
    List.replicate 15 (.handler 0 (Outcomes.success (twoPackets 0)))

theorem serves_twoClients : ∀ label ∈ twoClients, Serves twoPackets label := by
  intro label member
  simp only [twoClients, List.mem_append, List.mem_replicate] at member
  rcases member with ((⟨_, rfl⟩ | ⟨_, rfl⟩) | ⟨_, rfl⟩) | ⟨_, rfl⟩
  · trivial
  · exact ⟨rfl, rfl, by decide, DriverOutcomes.succeed_success⟩
  · exact ⟨rfl, rfl, by decide, DriverOutcomes.succeed_success⟩
  · exact ⟨rfl, rfl, by decide, DriverOutcomes.succeed_success⟩

/-- The first client is sent both packets, the one of the second client first. -/
theorem clients_serialised_two_clients :
    ∃ process,
      exec (Process.step aesdchar) twoClients (Process.start aesdInitModule) = some process ∧
        process.returned 0 = true ∧ process.returned 1 = true ∧
        (process.handlers 0).sent = [98, 10, 97, 10] ∧ (process.handlers 1).sent = [98, 10] := by
  have run : Run (Process.step aesdchar) (fun _ => Serves twoPackets)
      (Process.start aesdInitModule) twoClients _ :=
    run_of_forall rfl fun label member _ => serves_twoClients label member
  have serialised := clients_serialised dataPacket_twoPackets run
  exact ⟨_, run.exec_eq_some, rfl, rfl, serialised.sent_eq 1 0 rfl rfl,
    serialised.sent_eq 0 1 rfl rfl⟩

end Aesd.Server
