import Aesd.Server.Packets
import Aesd.Server.TurnOrder

/-!
# The turn of a handler that seeks

From the lock of `file_mutex` to its unlock a handler that has received a seek command finds
the device as the handlers before it have left it, and leaves it so.  After a rejected
command it returns with the mutex.
-/

namespace Aesd.Server

open Aesd.Driver
open Aesd.Mutex
open Aesd.Ring
open Aesd.Word

/-! ## The phases of a handler that seeks -/

/-- `index` holds the mutex, and the handlers of `before` have had their turn. -/
def SeekTurn (packet : Nat → Packet) (file : DeviceFile AesdDev) (index : Nat)
    (before : List Nat) : Prop :=
  file.order = before ++ [index] ∧ Idle (linesOf packet before) file.device

/-- What is true of a handler that has received `cmd` at each of its points, when it has
sent `sent`.  After a rejected command it keeps the mutex, and it is the last one in the
order. -/
def SeekPhase (packet : Nat → Packet) (file : DeviceFile AesdDev) (index : Nat)
    (cmd : AesdSeekto) (pc : Pc) (sent : Bytes) : Prop :=
  match pc with
  | .start | .recv _ => index ∉ file.order ∧ sent = []
  | .handleIoctl (.parse cmdBuffer) =>
      getIoctlCommand cmdBuffer = some cmd ∧ index ∉ file.order ∧ sent = []
  | .handleIoctl (.lock parsed) => parsed = cmd ∧ index ∉ file.order ∧ sent = []
  | .handleIoctl (.open parsed) | .handleIoctl (.ioctl parsed) =>
      parsed = cmd ∧ sent = [] ∧ ∃ before, SeekTurn packet file index before
  | .handleIoctl (.read cmdBuffer fPos) =>
      ∃ before, SeekTurn packet file index before ∧
        ∃ (position : Nat) (rest : Bytes), fPos = position ∧ position < 2 ^ 63 ∧
          sendWords cmdBuffer (dropWords (heldBehind (before.map packet)) position) = .ok rest ∧
          answer (before.map packet) (.seek cmd) = some (sent ++ rest)
  | .handleIoctl .unlock =>
      ∃ before, SeekTurn packet file index before ∧
        answer (before.map packet) (.seek cmd) = some sent
  | .setComplete _ | .returned =>
      ∃ before after, file.order = before ++ index :: after ∧
        (answer (before.map packet) (.seek cmd) = some sent ∨
          answer (before.map packet) (.seek cmd) = none ∧ sent = [] ∧ after = [] ∧
            file.mutex = some (.handler index))
  | _ => False

section SeekStep

variable {packet : Nat → Packet} {file : DeviceFile AesdDev} {index : Nat} {cmd : AesdSeekto}

theorem seekCommand_isPrefix (cmd : AesdSeekto) : seekCommand <+: commandLine cmd :=
  List.prefix_append _ _

theorem length_decimalText_le (digits : Nat) {value : Nat} (small : value < 10 ^ (digits + 1)) :
    (decimalText value).length ≤ digits + 1 := by
  induction digits generalizing value with
  | zero =>
      rw [decimalText, if_pos (by omega)]
      simp
  | succ digits ih =>
      rw [decimalText]
      split
      · simp
      · have shorter : (decimalText (value / 10)).length ≤ digits + 1 :=
          ih (Nat.div_lt_of_lt_mul (by rw [Nat.pow_succ] at small; omega))
        simp only [List.length_append, List.length_singleton]
        omega

/-- A command line fits into the buffer. -/
theorem length_commandLine_le (cmd : AesdSeekto) : (commandLine cmd).length ≤ bufferSize := by
  have first := length_decimalText_le 9 (Nat.lt_trans cmd.writeCmd.toNat_lt (by decide))
  have second := length_decimalText_le 9 (Nat.lt_trans cmd.writeCmdOffset.toNat_lt (by decide))
  have literal : seekCommand.length = 18 := rfl
  simp only [commandLine, List.length_append, List.length_cons, List.length_nil, bufferSize,
    literal]
  omega

/-- A chunk that is a seek command goes to `handle_ioctl`. -/
theorem receiveChunk_of_seek (buffer : Bytes) {chunk : Bytes} (present : newline ∈ chunk)
    (isSeek : seekCommand <+: chunk) :
    receiveChunk (overwrite buffer chunk) chunk.length =
      some (.seek (overwrite buffer chunk)) := by
  have taken : (overwrite buffer chunk).take chunk.length = chunk := List.take_left
  rw [receiveChunk, taken, if_pos present, if_pos ((strncmpIsZero_overwrite buffer present).mpr
    isSeek)]

/-- A chunk without a newline is dropped, but for what it leaves in the buffer. -/
theorem Pc.recv_of_unfinished {returned : Nat → Bool} {outcomes : Outcomes DriverOutcomes}
    {clients : Clients} {buffer : Bytes} {effect : Effect AesdDev}
    (unfinished : Unfinished outcomes.chunk)
    (stepped : (Pc.recv buffer).step aesdchar index returned outcomes file clients =
      some effect) :
    effect = ⟨.goto (.recv (overwrite buffer (outcomes.chunk.take bufferSize))), [], file,
      clients⟩ := by
  have taken : (overwrite buffer (outcomes.chunk.take bufferSize)).take
      (outcomes.chunk.take bufferSize).length = outcomes.chunk.take bufferSize :=
    List.take_left
  simp only [Pc.step, if_neg unfinished.1, receiveChunk, taken, if_neg unfinished.2] at stepped
  exact (Option.some.inj stepped).symm

theorem mem_linesOf {order : List Nat} {line : Bytes} (member : line ∈ linesOf packet order) :
    ∃ index, packet index = .data line := by
  obtain ⟨sent, sentMem, isLine⟩ := List.mem_filterMap.mp member
  obtain ⟨index, _, rfl⟩ := List.mem_map.mp sentMem
  cases kind : packet index with
  | data other =>
      rw [kind] at isLine
      cases isLine
      exact ⟨index, kind⟩
  | seek cmd =>
      rw [kind] at isLine
      contradiction

theorem linesOf_append (first second : List Nat) :
    linesOf packet (first ++ second) = linesOf packet first ++ linesOf packet second := by
  simp [linesOf]

/-- A handler that seeks adds no line. -/
theorem linesOf_concat_seek (isSeek : packet index = .seek cmd) (before : List Nat) :
    linesOf packet (before ++ [index]) = linesOf packet before := by
  rw [linesOf_append]
  simp [linesOf, isSeek, Packet.line?]

/-- A line on the device is one that a client has sent. -/
theorem Idle.line_of_held {order : List Nat} {driver : AesdDev}
    (valid : ∀ index, (packet index).Valid) (idle : Idle (linesOf packet order) driver)
    {line : Bytes} (member : line ∈ driver.held) :
    DataPacket line ∧ line.length < bufferSize := by
  rw [idle.held_eq] at member
  obtain ⟨sender, isData⟩ := mem_linesOf (List.mem_of_mem_drop member)
  have senderValid := valid sender
  rw [isData] at senderValid
  exact senderValid

/-- The reply to a seek command that is accepted is made from the words left. -/
theorem answer_seek_of_position {earlier : List Packet} {position : Nat} {sent : Bytes}
    (seeks : seekPosition (heldBehind earlier) cmd = some position)
    (nonneg : ¬ toInt32 position < 0)
    (sends : sendWords (List.replicate bufferSize 0) (dropWords (heldBehind earlier) position) =
      .ok sent) : answer earlier (.seek cmd) = some sent := by
  rw [answer, seeks, Option.bind_some, if_neg nonneg, sends]
  rfl

/-- The content of the device is small. -/
theorem Idle.content_le {order : List Nat} {driver : AesdDev}
    (valid : ∀ index, (packet index).Valid) (idle : Idle (linesOf packet order) driver) :
    driver.content.length ≤ 10 * bufferSize := by
  have each : ∀ size ∈ driver.held.map List.length, size ≤ bufferSize := by
    intro size member
    obtain ⟨line, lineMem, rfl⟩ := List.mem_map.mp member
    exact Nat.le_of_lt (idle.line_of_held valid lineMem).2
  have total := List.sum_le_card_nsmul _ _ each
  have few : driver.held.length ≤ 10 := by
    rw [idle.held_eq, length_rtake]
    omega
  rw [List.length_map, nsmul_eq_mul, Nat.cast_id] at total
  rw [AesdDev.content, List.length_flatten]
  exact total.trans (Nat.mul_le_mul_right _ few)

theorem Idle.content_lt {order : List Nat} {driver : AesdDev}
    (valid : ∀ index, (packet index).Valid) (idle : Idle (linesOf packet order) driver) :
    driver.content.length < 2 ^ 63 :=
  Nat.lt_of_le_of_lt (idle.content_le valid) (by decide)

/-- What the seek of a handler comes to at its turn: it is rejected, or the device is read
back from the position on. -/
theorem SeekTurn.ioctl_cases {outcomes : Outcomes DriverOutcomes} {before : List Nat}
    (isSeek : packet index = .seek cmd) (valid : ∀ index, (packet index).Valid)
    (succeeds : outcomes.device.ioctl = ⟨true, 0⟩) (turn : SeekTurn packet file index before) :
    answer (before.map packet) (.seek cmd) = none ∧
        (HandleIoctl.ioctl cmd).step aesdchar index outcomes file = some (.done, [], file) ∨
      ∃ (position : Nat) (rest : Bytes), position < 2 ^ 63 ∧
        sendWords (List.replicate bufferSize 0)
          (dropWords (heldBehind (before.map packet)) position) = .ok rest ∧
        answer (before.map packet) (.seek cmd) = some rest ∧
        (HandleIoctl.ioctl cmd).step aesdchar index outcomes file =
          some (.goto (.read (List.replicate bufferSize 0) position), [], file) := by
  obtain ⟨_, idle⟩ := turn
  have fits := valid index
  rw [isSeek] at fits
  have heldEq : file.device.held = heldBehind (before.map packet) := idle.held_eq
  have short : ∀ word ∈ file.device.held, word.length ≤ bufferSize :=
    fun word member => Nat.le_of_lt (idle.line_of_held valid member).2
  have called := idle.ioctl fits
  cases seeks : seekPosition file.device.held cmd with
  | none =>
      rw [seeks] at called
      have result : ioctlResult (-einval) = -1 := by decide
      left
      refine ⟨by rw [answer, ← heldEq, seeks]; rfl, ?_⟩
      simp only [HandleIoctl.step, aesdchar, succeeds, called, Except.toOption,
        Option.map_some, Reply.ofSeek, result, if_pos (show (-1 : Int) < 0 by decide)]
  | some position =>
      rw [seeks] at called
      have positionLt := seekPosition_lt short fits seeks
      have result : ioctlResult (toInt64 (position : Int)) = toInt32 position :=
        ioctlResult_position (by omega)
      have exactly : toInt64 (position : Int) = position :=
        toInt64_of_lt (by omega) (by omega)
      simp only [exactly] at called result
      by_cases negative : toInt32 position < 0
      · left
        constructor
        · rw [answer, ← heldEq, seeks, Option.bind_some, if_pos negative]
        · simp only [HandleIoctl.step, aesdchar, succeeds, called, Except.toOption,
            Option.map_some, Reply.ofSeek, result, if_pos negative]
      · have shorter : ∀ word ∈ dropWords file.device.held position, word.length < bufferSize := by
          intro word member
          obtain ⟨whole, wholeMem, le⟩ := length_le_of_mem_dropWords member
          exact Nat.lt_of_le_of_lt le (idle.line_of_held valid wholeMem).2
        obtain ⟨rest, sends⟩ := sendWords_isOk shorter (List.replicate (bufferSize - 1) 0)
          (by rw [List.length_replicate]; rfl)
        have cleared : List.replicate (bufferSize - 1) (0 : UInt8) ++ [0] =
            List.replicate bufferSize 0 := by
          rw [← List.replicate_succ']
          rfl
        rw [cleared, heldEq] at sends
        right
        refine ⟨position, rest, by omega, sends,
          answer_seek_of_position (heldEq ▸ seeks) negative sends, ?_⟩
        simp only [HandleIoctl.step, aesdchar, succeeds, called, Except.toOption,
          Option.map_some, Reply.ofSeek, result, if_neg negative]

/-- One turn of the loop that reads the device back: it ends when no word is left, and
else the next word goes through the buffer. -/
theorem SeekTurn.read_cases {outcomes : Outcomes DriverOutcomes} {before : List Nat}
    {position : Nat} {cmdBuffer rest : Bytes} (valid : ∀ index, (packet index).Valid)
    (succeeds : outcomes.device.read = ⟨true, 0⟩)
    (turn : SeekTurn packet file index before) (positionLt : position < 2 ^ 63)
    (sends : sendWords cmdBuffer (dropWords (heldBehind (before.map packet)) position) =
      .ok rest) :
    rest = [] ∧ (HandleIoctl.read cmdBuffer position).step aesdchar index outcomes file =
        some (.goto .unlock, [], file) ∨
      ∃ (word text later : Bytes), 0 < word.length ∧
        position + word.length ≤ file.device.content.length ∧ rest = text ++ later ∧
        sendWords (overwrite cmdBuffer word)
          (dropWords (heldBehind (before.map packet)) (position + word.length)) = .ok later ∧
        (HandleIoctl.read cmdBuffer position).step aesdchar index outcomes file =
          some (.goto (.read (overwrite cmdBuffer word) (position + word.length : Nat)), text,
            file) := by
  obtain ⟨orderEq, idle⟩ := turn
  have small := idle.content_lt valid
  have heldEq : file.device.held = heldBehind (before.map packet) := idle.held_eq
  obtain ⟨unlocked, log, held, leaked, rep, _⟩ := id idle
  rw [← heldEq] at sends ⊢
  cases left : dropWords file.device.held position with
  | nil =>
      have read := aesdRead_of_end rep unlocked small positionLt left
      rw [left] at sends
      left
      refine ⟨(Except.ok.inj sends).symm, ?_⟩
      simp only [HandleIoctl.step, aesdchar, succeeds, read,
        if_neg (show ¬ (0 : Int) > 0 by decide)]
  | cons word words =>
      have read := aesdRead_of_word rep unlocked small positionLt left
      obtain ⟨nonempty, upTo⟩ := length_of_dropWords left
      have wordShorter : word.length < bufferSize := by
        obtain ⟨longer, longerMem, le⟩ :=
          length_le_of_mem_dropWords (left ▸ List.mem_cons_self : word ∈ dropWords _ _)
        exact Nat.lt_of_le_of_lt le (idle.line_of_held valid longerMem).2
      rw [left] at sends
      obtain ⟨text, later, textSent, laterSends, rfl⟩ := sendWords_cons_iff.mp sends
      rw [List.take_of_length_le (Nat.le_of_lt wordShorter)] at read textSent laterSends
      right
      refine ⟨word, text, later, nonempty, upTo, rfl, ?_, ?_⟩
      · rw [dropWords_add (held_ne_nil rep) left]
        exact laterSends
      · simp only [HandleIoctl.step, aesdchar, succeeds, read,
          if_pos (show (word.length : Int) > 0 by omega), textSent]

/-- A step of a handler that has received a seek command leaves the device alone. -/
theorem Pc.seekStep {returned : Nat → Bool} {outcomes : Outcomes DriverOutcomes}
    {clients : Clients} {pc : Pc} {sent : Bytes} {effect : Effect AesdDev}
    (isSeek : packet index = .seek cmd) (valid : ∀ index, (packet index).Valid)
    (ok : outcomes.ok = true) (serves : OutcomesServe (packet index) outcomes)
    (phase : SeekPhase packet file index cmd pc sent)
    (guarded : pc.inFileSection = true → file.mutex = some (.handler index))
    (free : file.mutex = none → Idle (linesOf packet file.order) file.device)
    (stepped : pc.step aesdchar index returned outcomes file clients = some effect) :
    effect.file.device = file.device ∧
      SeekPhase packet effect.file index cmd (effect.control.point pc) (sent ++ effect.sent) := by
  cases pc with
  | start =>
      simp only [Pc.step, ok, if_true] at stepped
      cases stepped
      exact ⟨rfl, phase.1, by simpa using phase.2⟩
  | recv buffer =>
      rcases serves.chunk with isPacket | unfinished
      · have whole : outcomes.chunk.take bufferSize = commandLine cmd := by
          rw [isPacket, isSeek]
          exact List.take_of_length_le (length_commandLine_le cmd)
        have nonempty : commandLine cmd ≠ [] := by
          simp [commandLine]
        have received := receiveChunk_of_seek buffer
          (show newline ∈ commandLine cmd by simp [commandLine]) (seekCommand_isPrefix cmd)
        simp only [Pc.step, whole, if_neg nonempty, received] at stepped
        cases stepped
        exact ⟨rfl, getIoctlCommand_commandLine cmd _, phase.1, by simpa using phase.2⟩
      · obtain rfl := Pc.recv_of_unfinished unfinished stepped
        exact ⟨rfl, phase.1, by simpa using phase.2⟩
  | handleIoctl point =>
      obtain ⟨⟨control, more, file'⟩, ioctlStep, rfl⟩ := Option.map_eq_some_iff.mp stepped
      cases point with
      | parse cmdBuffer =>
          obtain ⟨parsed, notYet, nothing⟩ := phase
          simp only [HandleIoctl.step, ok, if_true, parsed] at ioctlStep
          cases ioctlStep
          exact ⟨rfl, rfl, notYet, by simpa using nothing⟩
      | lock parsed =>
          obtain ⟨rfl, notYet, nothing⟩ := phase
          obtain ⟨⟨next, file''⟩, called, equal⟩ := Option.map_eq_some_iff.mp ioctlStep
          cases equal
          rcases DeviceFile.lockThen_cases called with ⟨_, mutexFree, rfl, rfl⟩ | ⟨failed, _, _⟩
          · exact ⟨rfl, rfl, by simpa using nothing, file.order, rfl, free mutexFree⟩
          · simp [ok] at failed
      | «open» parsed =>
          simp only [HandleIoctl.step, ok, if_true] at ioctlStep
          cases ioctlStep
          exact ⟨rfl, phase.1, by simpa using phase.2.1, phase.2.2⟩
      | ioctl parsed =>
          obtain ⟨rfl, rfl, before, turn⟩ := phase
          rcases turn.ioctl_cases isSeek valid serves.ioctl with
            ⟨nothing, rejected⟩ | ⟨position, rest, positionLt, sends, whole, goesOn⟩
          · rw [rejected] at ioctlStep
            cases ioctlStep
            exact ⟨rfl, before, [], turn.1, .inr ⟨nothing, rfl, rfl, guarded rfl⟩⟩
          · rw [goesOn] at ioctlStep
            cases ioctlStep
            exact ⟨rfl, before, turn, position, rest, rfl, positionLt, sends, whole⟩
      | read cmdBuffer fPos =>
          obtain ⟨before, turn, position, rest, rfl, positionLt, sends, whole⟩ := phase
          have small := turn.2.content_lt valid
          rcases turn.read_cases valid serves.succeed.read positionLt sends with
            ⟨rfl, atEnd⟩ | ⟨word, text, later, _, upTo, rfl, laterSends, goesOn⟩
          · rw [atEnd] at ioctlStep
            cases ioctlStep
            exact ⟨rfl, before, turn, whole⟩
          · rw [goesOn] at ioctlStep
            cases ioctlStep
            refine ⟨rfl, before, turn, _, later, rfl, by omega, laterSends, ?_⟩
            rw [whole, List.append_assoc]
      | unlock =>
          obtain ⟨before, ⟨orderEq, _⟩, whole⟩ := phase
          cases ioctlStep
          exact ⟨rfl, before, [], orderEq, .inl (by simpa using whole)⟩
  | setComplete point =>
      obtain ⟨⟨control, clients'⟩, _, rfl⟩ := Option.map_eq_some_iff.mp stepped
      refine ⟨rfl, ?_⟩
      simp only [List.append_nil]
      cases control <;> exact phase
  | returned => contradiction
  | _ => exact phase.elim

/-- Inside its section a handler that seeks has an idle device. -/
theorem SeekPhase.idle_of_inside {pc : Pc} {sent : Bytes} (isSeek : packet index = .seek cmd)
    (phase : SeekPhase packet file index cmd pc sent) (inside : pc.inFileSection = true) :
    Idle (linesOf packet file.order) file.device := by
  have idle_of_turn {before : List Nat} (turn : SeekTurn packet file index before) :
      Idle (linesOf packet file.order) file.device := by
    rw [turn.1, linesOf_concat_seek isSeek]
    exact turn.2
  cases pc with
  | handleIoctl point =>
      cases point with
      | «open» parsed | ioctl parsed =>
          obtain ⟨_, _, before, turn⟩ := phase
          exact idle_of_turn turn
      | read cmdBuffer fPos =>
          obtain ⟨before, turn, _⟩ := phase
          exact idle_of_turn turn
      | unlock =>
          obtain ⟨before, turn, _⟩ := phase
          exact idle_of_turn turn
      | _ => contradiction
  | start | recv buffer | lockFile bytes | setComplete point | returned => contradiction
  | _ => exact phase.elim

/-- The steps of the others do not concern a handler that seeks. -/
theorem SeekPhase.frame {pc pc' : Pc} {sent : Bytes} {file' : DeviceFile AesdDev} {other : Nat}
    {added : List Nat} (phase : SeekPhase packet file index cmd pc sent) (differs : index ≠ other)
    (guarded : pc.inFileSection = true → file.mutex = some (.handler index))
    (otherGuarded : pc'.inFileSection = true → file.mutex = some (.handler other))
    (stepped : OrderStep other pc' file file' added) :
    SeekPhase packet file' index cmd pc sent := by
  have same_of_owner (owns : file.mutex = some (.handler index)) : file' = file := by
    cases stepped with
    | works _ outside =>
        apply outside
        by_contra inside
        rw [otherGuarded (by simpa using inside), Option.some.injEq, Thread.handler.injEq] at owns
        exact differs owns.symm
    | obtains free _ => simp [free] at owns
  cases inSection : pc.inFileSection with
  | true => rwa [same_of_owner (guarded inSection)]
  | false =>
      have grows : file'.order = file.order ++ added ∧ index ∉ added := by
        cases stepped with
        | works same _ => exact ⟨by rw [same, List.append_nil], List.not_mem_nil⟩
        | obtains _ _ => exact ⟨rfl, by simpa using differs⟩
      have notYet (absent : index ∉ file.order) : index ∉ file'.order := by
        rw [grows.1, List.mem_append, not_or]
        exact ⟨absent, grows.2⟩
      have served (phase : SeekPhase packet file index cmd .returned sent) :
          SeekPhase packet file' index cmd .returned sent := by
        obtain ⟨before, after, split, answered | ⟨nothing, unsent, rfl, owns⟩⟩ := phase
        · exact ⟨before, after ++ added, by rw [grows.1, split]; simp, .inl answered⟩
        · rw [same_of_owner owns]
          exact ⟨before, [], split, .inr ⟨nothing, unsent, rfl, owns⟩⟩
      cases pc with
      | start | recv buffer => exact ⟨notYet phase.1, phase.2⟩
      | handleIoctl point =>
          cases point with
          | parse cmdBuffer => exact ⟨phase.1, notYet phase.2.1, phase.2.2⟩
          | lock parsed => exact ⟨phase.1, notYet phase.2.1, phase.2.2⟩
          | _ => contradiction
      | setComplete point => exact served phase
      | returned => exact served phase
      | lockFile bytes => exact phase.elim
      | _ => contradiction

end SeekStep
end Aesd.Server
