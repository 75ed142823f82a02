import Aesd.Server.Records

/-!
# Where the records come from

Each text in the data file goes back to one step outside: the `recv` that ended the receive
loop of its handler, or the formatting in the run of `print_timestamp` that wrote it.
-/

namespace Aesd.Server

open Aesd.Driver
open Aesd.Transition

namespace Timed

/-! ## The steps of a run -/

/-- In the run the server comes to `timed`, and `label` is the next step. -/
structure Passes (labels before after : List (TimedLabel (Option Nat))) (timed : Timed Bytes)
    (label : TimedLabel (Option Nat)) : Prop where
  split : labels = before ++ label :: after
  executed : exec (step dataFile) before (start []) = some timed

/-- `recv` has delivered the text to the handler, and it is data: this was its last step. -/
def Delivered (labels : List (TimedLabel (Option Nat))) (index : Nat) (text : Bytes) : Prop :=
  ∃ before outcomes after timed buffer,
    Passes labels before after timed (.process (.handler index outcomes)) ∧
      (timed.process.handlers index).pc = .recv buffer ∧
      outcomes.chunk.take bufferSize = text ∧ newline ∈ text ∧ ¬ seekCommand <+: text ∧
      ∀ later, .process (.handler index later) ∉ after

/-- On top of the thread `print_timestamp` has formatted the line: this was its last
step. -/
def Formatted (labels : List (TimedLabel (Option Nat))) (thread : Thread) (line : Bytes) :
    Prop :=
  ∃ before outcomes after timed, Passes labels before after timed (.timestamp thread outcomes) ∧
    timed.alarms thread = some .format ∧ outcomes.ok = true ∧
    line = timestampLine outcomes.timestampStr ∧ ∀ later, .timestamp thread later ∉ after

/-- The handler has obtained the mutex behind these turns, for the text that `recv` had
delivered to it. -/
def PacketTurn (labels : List (TimedLabel (Option Nat))) (earlier : List Turn) (index : Nat)
    (text : Bytes) : Prop :=
  ∃ before outcomes after timed,
    Passes labels before after timed (.process (.handler index outcomes)) ∧
      timed.turns = earlier ∧ (timed.process.handlers index).pc = .lockFile text ∧
      Delivered before index text

/-- On top of some thread `print_timestamp` has obtained the mutex behind these turns, for
the line it had formatted. -/
def TimestampTurn (labels : List (TimedLabel (Option Nat))) (earlier : List Turn)
    (line : Bytes) : Prop :=
  ∃ before thread outcomes after timed,
    Passes labels before after timed (.timestamp thread outcomes) ∧ timed.turns = earlier ∧
      timed.alarms thread = some (.lock line) ∧ Formatted before thread line

/-- The text of a turn comes from outside. -/
def Begun (labels : List (TimedLabel (Option Nat))) (earlier : List Turn) : Turn → Prop
  | .packet index text => PacketTurn labels earlier index text
  | .timestamp line => TimestampTurn labels earlier line
  | .seek _ => True

/-- The texts that are written or going to be written come from outside. -/
structure Traced (labels : List (TimedLabel (Option Nat))) (timed : Timed Bytes) : Prop where
  executed : exec (step dataFile) labels (start []) = some timed
  lockFile : ∀ index text, (timed.process.handlers index).pc = .lockFile text →
    Delivered labels index text
  lock : ∀ thread line, timed.alarms thread = some (.lock line) → Formatted labels thread line
  turns : ∀ earlier turn later, timed.turns = earlier ++ turn :: later →
    Begun labels earlier turn

theorem traced_start : Traced [] (start []) where
  executed := rfl
  lockFile index text atLock := by contradiction
  lock thread line waits := by contradiction
  turns earlier turn later split := by simp [start] at split

section Traced

variable {timed target : Timed Bytes} {labels before after : List (TimedLabel (Option Nat))}
  {label : TimedLabel (Option Nat)} {earlier : List Turn} {index : Nat} {text : Bytes}

theorem passes_last (executed : exec (step dataFile) labels (start []) = some timed)
    (label : TimedLabel (Option Nat)) : Passes (labels ++ [label]) labels [] timed label :=
  ⟨rfl, executed⟩

theorem Passes.concat (passes : Passes labels before after timed label)
    (next : TimedLabel (Option Nat)) :
    Passes (labels ++ [next]) before (after ++ [next]) timed label :=
  ⟨by rw [passes.split, List.append_assoc, List.cons_append], passes.executed⟩

/-- As long as the handler does not take a step. -/
theorem Delivered.concat (delivered : Delivered labels index text)
    (other : ∀ later, label ≠ .process (.handler index later)) :
    Delivered (labels ++ [label]) index text := by
  obtain ⟨before, outcomes, after, timed, buffer, passes, atRecv, chunk, present, isData, last⟩ :=
    delivered
  refine ⟨before, outcomes, after ++ [label], timed, buffer, passes.concat label, atRecv, chunk,
    present, isData, fun later member => ?_⟩
  rcases List.mem_append.mp member with earlier | now
  · exact last later earlier
  · exact other later (List.mem_singleton.mp now).symm

/-- As long as `print_timestamp` does not take a step on top of the thread. -/
theorem Formatted.concat {thread : Thread} (formatted : Formatted labels thread text)
    (other : ∀ later, label ≠ .timestamp thread later) :
    Formatted (labels ++ [label]) thread text := by
  obtain ⟨before, outcomes, after, timed, passes, atFormat, ok, line, last⟩ := formatted
  refine ⟨before, outcomes, after ++ [label], timed, passes.concat label, atFormat, ok, line,
    fun later member => ?_⟩
  rcases List.mem_append.mp member with earlier | now
  · exact last later earlier
  · exact other later (List.mem_singleton.mp now).symm

theorem Begun.concat {turn : Turn} (begun : Begun labels earlier turn)
    (label : TimedLabel (Option Nat)) : Begun (labels ++ [label]) earlier turn := by
  cases turn with
  | packet index text =>
      obtain ⟨before, outcomes, after, timed, passes, begun⟩ := begun
      exact ⟨before, outcomes, after ++ [label], timed, passes.concat label, begun⟩
  | timestamp line =>
      obtain ⟨before, thread, outcomes, after, timed, passes, begun⟩ := begun
      exact ⟨before, thread, outcomes, after ++ [label], timed, passes.concat label, begun⟩
  | seek index => trivial

/-! ## One step -/

/-- A step that begins one turn at most. -/
theorem Traced.turns_concat (traced : Traced labels timed) {added : List Turn}
    (few : added = [] ∨ ∃ turn, added = [turn] ∧ Begun (labels ++ [label]) timed.turns turn)
    {turn : Turn} {later : List Turn} (split : timed.turns ++ added = earlier ++ turn :: later) :
    Begun (labels ++ [label]) earlier turn := by
  rcases few with rfl | ⟨one, rfl, begun⟩
  · rw [List.append_nil] at split
    exact (traced.turns earlier turn later split).concat label
  · rcases List.eq_nil_or_concat later with rfl | ⟨later', last, rfl⟩
    · obtain ⟨rfl, new⟩ := List.append_inj' split rfl
      rwa [← List.singleton_inj.mp new]
    · rw [List.concat_eq_append, ← List.cons_append, ← List.append_assoc] at split
      obtain ⟨old, _⟩ := List.append_inj' split rfl
      exact (traced.turns earlier turn later' old).concat label

/-- A step of a handler begins its own turn at most. -/
theorem newTurns_applyHandler {process : Process Bytes} {outcomes : Outcomes (Option Nat)}
    {effect : Effect Bytes}
    (made : (process.handlers index).pc.step dataFile index process.returned outcomes
      process.file process.clients = some effect) :
    newTurns process (process.applyHandler index effect) = [] ∨
      newTurns process (process.applyHandler index effect) =
        [(process.handlers index).pc.turn index] := by
  obtain ⟨added, orderStep, _⟩ := Pc.orderStep made []
  unfold newTurns
  rw [Process.applyHandler_file]
  generalize effect.file = file' at orderStep
  cases orderStep with
  | works order _ =>
      left
      rw [order, List.drop_length, List.map_nil]
  | obtains _ _ =>
      right
      rw [List.drop_left]
      rfl

/-- A handler comes to the lock from the receive loop. -/
theorem delivered_of_lockFile {index : Nat} {returned : Nat → Bool}
    {outcomes : Outcomes (Option Nat)} {file : DeviceFile Bytes} {clients : Clients} {pc : Pc}
    {effect : Effect Bytes} {bytes : Bytes}
    (stepped : pc.step dataFile index returned outcomes file clients = some effect)
    (comes : effect.control.point pc = .lockFile bytes) :
    ∃ buffer, pc = .recv buffer ∧ outcomes.chunk.take bufferSize = bytes ∧ newline ∈ bytes ∧
      ¬ seekCommand <+: bytes := by
  cases pc with
  | start | openFile bytes =>
      simp only [Pc.step] at stepped
      split at stepped <;> cases stepped <;> contradiction
  | recv buffer =>
      simp only [Pc.step] at stepped
      split at stepped
      · cases stepped
        contradiction
      · split at stepped <;> cases stepped <;> cases comes
        rename_i received
        simp only [receiveChunk] at received
        split at received
        · rename_i present
          have taken : (overwrite buffer (outcomes.chunk.take bufferSize)).take
              (outcomes.chunk.take bufferSize).length = outcomes.chunk.take bufferSize :=
            List.take_left
          split at received <;> cases received
          rename_i isData
          rw [taken] at present ⊢
          exact ⟨buffer, rfl, rfl, present,
            fun seeks => isData ((strncmpIsZero_overwrite buffer present).mpr seeks)⟩
        · contradiction
  | handleIoctl point =>
      obtain ⟨⟨control, sent, file'⟩, ioctlStep, rfl⟩ := Option.map_eq_some_iff.mp stepped
      cases control <;> contradiction
  | lockFile bytes =>
      obtain ⟨⟨next, file'⟩, called, rfl⟩ := Option.map_eq_some_iff.mp stepped
      rcases DeviceFile.lockThen_cases called with ⟨_, _, rfl, _⟩ | ⟨_, rfl, _⟩ <;> contradiction
  | cleanup point =>
      obtain ⟨⟨control, clients'⟩, _, rfl⟩ := Option.map_eq_some_iff.mp stepped
      cases control <;> contradiction
  | flush bytes fPos =>
      simp only [Pc.step, flushStep] at stepped
      split at stepped
      · contradiction
      · split at stepped <;> cases stepped <;> contradiction
  | seek fPos =>
      cases stepped
      contradiction
  | echo line ahead fPos =>
      have stepped : echoStep dataFile outcomes line ahead fPos file clients = some effect :=
        stepped
      rcases echoStep_cases stepped with
        ⟨_, _, control, _⟩ | ⟨_, reply, _, _, more, ends, _⟩
      · rw [control] at comes
        contradiction
      · by_cases something : 0 < reply.retval
        · rw [(more something).2] at comes
          contradiction
        · rw [ends (by omega)] at comes
          contradiction
  | unlockFile =>
      cases stepped
      contradiction
  | setComplete point =>
      obtain ⟨⟨control, clients'⟩, _, rfl⟩ := Option.map_eq_some_iff.mp stepped
      cases control <;> contradiction
  | returned => contradiction

/-- A step of the process that touches neither the file nor a handler. -/
theorem Traced.of_same {process : Process Bytes} {label : Label (Option Nat)}
    (traced : Traced labels timed)
    (executed : exec (Timed.step dataFile) (labels ++ [.process label]) (start []) =
      some ⟨process, timed.alarms, timed.turns ++ newTurns timed.process process⟩)
    (file : process.file = timed.process.file)
    (handlers : process.handlers = timed.process.handlers)
    (noHandler : ∀ index outcomes, label ≠ .handler index outcomes) :
    Traced (labels ++ [.process label])
      ⟨process, timed.alarms, timed.turns ++ newTurns timed.process process⟩ := by
  have none : timed.turns ++ newTurns timed.process process = timed.turns := by
    rw [newTurns_of_same (by rw [file]), List.append_nil]
  simp only [none] at executed ⊢
  refine ⟨executed, ?_, fun thread line waits => (traced.lock thread line waits).concat nofun,
    fun earlier turn later split => (traced.turns earlier turn later split).concat _⟩
  intro index text atLock
  rw [handlers] at atLock
  refine (traced.lockFile index text atLock).concat fun later isLabel => ?_
  exact noHandler index later (TimedLabel.process.inj isLabel)

/-- A step of a handler. -/
theorem Traced.handler {outcomes : Outcomes (Option Nat)} {effect : Effect Bytes}
    (traced : Traced labels timed)
    (executed : exec (Timed.step dataFile) (labels ++ [.process (.handler index outcomes)])
      (start []) = some ⟨timed.process.applyHandler index effect, timed.alarms,
        timed.turns ++ newTurns timed.process (timed.process.applyHandler index effect)⟩)
    (made : (timed.process.handlers index).pc.step dataFile index timed.process.returned outcomes
      timed.process.file timed.process.clients = some effect) :
    Traced (labels ++ [.process (.handler index outcomes)])
      ⟨timed.process.applyHandler index effect, timed.alarms,
        timed.turns ++ newTurns timed.process (timed.process.applyHandler index effect)⟩ := by
  have passes := passes_last traced.executed (.process (.handler index outcomes))
  have few : newTurns timed.process (timed.process.applyHandler index effect) = [] ∨
      ∃ turn, newTurns timed.process (timed.process.applyHandler index effect) = [turn] ∧
        Begun (labels ++ [.process (.handler index outcomes)]) timed.turns turn := by
    refine (newTurns_applyHandler made).imp_right fun one => ⟨_, one, ?_⟩
    cases kind : (timed.process.handlers index).pc.turn index with
    | packet other text =>
        obtain ⟨rfl, atLock⟩ := Pc.turn_eq_packet kind
        exact ⟨labels, outcomes, [], timed, passes, rfl, atLock, traced.lockFile _ text atLock⟩
    | timestamp line =>
        have client := congrArg Turn.client kind
        rw [Pc.client_turn] at client
        contradiction
    | seek other => trivial
  refine ⟨executed, ?_, ?_, fun earlier turn later split => traced.turns_concat few split⟩
  · intro other text atLock
    by_cases same : other = index
    · subst other
      rw [Process.applyHandler_self] at atLock
      obtain ⟨buffer, atRecv, chunk, present, isData⟩ := delivered_of_lockFile made atLock
      exact ⟨labels, outcomes, [], timed, buffer, passes, atRecv, chunk, present, isData,
        fun _ => List.not_mem_nil⟩
    · rw [timed.process.applyHandler_of_ne index effect same] at atLock
      refine (traced.lockFile other text atLock).concat fun later isLabel => ?_
      cases isLabel
      exact same rfl
  · intro thread line waits
    exact (traced.lock thread line waits).concat nofun

/-- A step of `print_timestamp`. -/
theorem Traced.timestamp_step {thread : Thread} {outcomes : TimestampOutcomes (Option Nat)}
    {point : PrintTimestamp} {effect : TimestampEffect Bytes} (traced : Traced labels timed)
    (running : timed.alarms thread = some point)
    (executed : exec (Timed.step dataFile) (labels ++ [.timestamp thread outcomes]) (start []) =
      some (timed.applyTimestamp thread point effect))
    (timestampMove : TimestampMove dataFile thread timed.process.returned outcomes
      timed.process.file timed.process.clients point effect) :
    Traced (labels ++ [.timestamp thread outcomes])
      (timed.applyTimestamp thread point effect) := by
  have passes := passes_last traced.executed (.timestamp thread outcomes)
  have few : newTimestamp point effect.control = [] ∨
      ∃ turn, newTimestamp point effect.control = [turn] ∧
        Begun (labels ++ [.timestamp thread outcomes]) timed.turns turn := by
    cases timestampMove with
    | obtain line _ =>
        exact Or.inr ⟨.timestamp line, rfl, labels, thread, outcomes, [], timed, passes, rfl,
          running, traced.lock thread line running⟩
    | giveUp _ _ | unlock => exact Or.inl (newTimestamp_done _)
    | _ => exact Or.inl rfl
  refine ⟨executed, ?_, ?_, fun earlier turn later split => traced.turns_concat few split⟩
  · exact fun index text atLock => (traced.lockFile index text atLock).concat nofun
  · intro other line waits
    by_cases same : other = thread
    · subst other
      cases timestampMove with
      | format ok =>
          rw [timed.applyTimestamp_goto thread _ rfl] at waits
          cases waits
          exact ⟨labels, outcomes, [], timed, passes, running, ok, rfl, fun _ => List.not_mem_nil⟩
      | giveUp _ _ | unlock =>
          rw [timed.applyTimestamp_done thread _ rfl] at waits
          contradiction
      | cleanup _ =>
          rename_i control _ _
          cases control <;> simp [applyTimestamp] at waits
      | _ =>
          rw [timed.applyTimestamp_goto thread _ rfl] at waits
          cases waits
    · rw [timed.applyTimestamp_alarms_of_ne thread point effect same] at waits
      refine (traced.lock other line waits).concat fun later isLabel => ?_
      cases isLabel
      exact same rfl

theorem Traced.step (traced : Traced labels timed)
    (stepped : Timed.step dataFile label timed = some target) :
    Traced (labels ++ [label]) target := by
  have executed : exec (Timed.step dataFile) (labels ++ [label]) (start []) = some target :=
    (exec_concat_eq_some_iff _ _ _ _ _).mpr ⟨timed, traced.executed, stepped⟩
  rcases step_cases stepped with ⟨label', process, rfl, undisturbed, made, rfl⟩ |
    ⟨thread, rfl, _, idle, rfl⟩ | ⟨thread, outcomes, point, effect, rfl, running, made, rfl⟩
  · rcases Process.step_cases made with
      ⟨rfl, rfl⟩ | ⟨ok, effect, rfl, _, rfl⟩ | ⟨index, outcomes, effect, rfl, _, moved, rfl⟩
    · exact traced.of_same executed rfl rfl nofun
    · exact traced.of_same executed rfl rfl nofun
    · exact traced.handler executed moved
  · refine ⟨executed, fun index text atLock => (traced.lockFile index text atLock).concat nofun, ?_,
      fun earlier turn later split => (traced.turns earlier turn later split).concat _⟩
    intro other line waits
    have waits : Function.update timed.alarms thread (some PrintTimestamp.format) other =
      some (.lock line) := waits
    by_cases same : other = thread
    · subst other
      rw [Function.update_self] at waits
      cases waits
    · rw [Function.update_of_ne same] at waits
      exact (traced.lock other line waits).concat nofun
  · exact traced.timestamp_step running executed (PrintTimestamp.move made)

end Traced

/-! ## The records -/

/-- The data file and what the clients are sent. -/
structure Recorded (labels : List (TimedLabel (Option Nat))) (timed : Timed Bytes) : Prop where
  /-- Between the turns the file consists of their texts. -/
  free : timed.process.file.mutex = none → timed.process.file.device = textOf timed.turns
  /-- During a turn it ends with a part of the last one. -/
  within : textOf timed.turns.dropLast <+: timed.process.file.device ∧
    timed.process.file.device <+: textOf timed.turns
  /-- A client has one turn at most. -/
  once : (timed.turns.filterMap Turn.client).Nodup
  /-- The texts are a packet that `recv` had delivered to the handler, and a line with the
  time that `print_timestamp` had formatted. -/
  packet : ∀ earlier index text later, timed.turns = earlier ++ .packet index text :: later →
    PacketTurn labels earlier index text
  timestamp : ∀ earlier text later, timed.turns = earlier ++ .timestamp text :: later →
    TimestampTurn labels earlier text
  /-- Behind its turn a client has been sent the file up to its own packet, as it comes out
  of the loop around `fgets`. -/
  sent_eq : ∀ before index text after, timed.turns = before ++ .packet index text :: after →
    (timed.process.handlers index).pc.hasReleasedFile = true →
    (timed.process.handlers index).sent = echoFrom [] (textOf (before ++ [.packet index text]))
  /-- A client that has not had a turn is sent nothing. -/
  unturned : ∀ index, Unturned timed.turns index → (timed.process.handlers index).sent = []
  /-- A seek is the last turn: it is not answered, and the mutex is kept. -/
  seek : ∀ index, .seek index ∈ timed.turns →
    timed.turns.getLast? = some (.seek index) ∧ (timed.process.handlers index).sent = [] ∧
      timed.process.file.mutex = some (.handler index)
  /-- What a handler sends goes to its own client: `main` has not closed its descriptor. -/
  reaches : timed.process.closed = []

theorem Recording.recorded {timed : Timed Bytes} {labels : List (TimedLabel (Option Nat))}
    (recording : Recording timed) (traced : Traced labels timed)
    (reaches : timed.process.closed = []) : Recorded labels timed where
  free := recording.free
  within := by
    cases owned : timed.process.file.mutex with
    | none => exact within_of_eq (recording.free owned)
    | some thread =>
        rcases recording.owner thread owned with
          inside | ⟨point, running, inside⟩ | ⟨index, _, seeks⟩
        · cases thread with
          | main => exact inside.elim
          | handler index =>
              exact (recording.phases index).within inside fun seeks =>
                (recording.seeks index seeks).2.2
        · exact (recording.alarms thread point running).within inside
        · exact within_of_eq (recording.seeks index seeks).2.2
  once := recording.once
  packet earlier index text later split := traced.turns earlier (.packet index text) later split
  timestamp earlier text later split := traced.turns earlier (.timestamp text) later split
  sent_eq before index text after split released := by
    have phase := recording.phases index
    rw [filePhase_iff_of_outside (Pc.not_inFileSection_of_released released),
      if_pos released] at phase
    rcases phase with ⟨before', text', after', split', sent⟩ | ⟨unturned | seeks, _⟩
    · obtain ⟨rfl, isPacket⟩ := unique_turn recording.once split split' rfl rfl
      rw [isPacket]
      exact sent
    · exact absurd rfl (unturned (.packet index text) (by simp [split]))
    · obtain ⟨before', _, split'⟩ := List.append_of_mem seeks
      have same := (unique_turn recording.once split split' rfl rfl).2
      contradiction
  unturned index unturned := by
    refine (recording.phases index).unsent fun text member => ?_
    exact unturned _ member rfl
  seek index seeks := by
    obtain ⟨⟨before, last⟩, owns, _⟩ := recording.seeks index seeks
    refine ⟨by simp [last], (recording.phases index).unsent fun text member => ?_, owns⟩
    obtain ⟨_, _, split⟩ := List.append_of_mem member
    have same := (unique_turn recording.once split last rfl rfl).2
    contradiction
  reaches := reaches

/-- A step in which nothing fails between a lock of `file_mutex` and its unlock, and `main`
does not close the descriptor of a handler. -/
def ServesClients (timed : Timed Bytes) (label : TimedLabel (Option Nat)) : Prop :=
  timed.ServesFile label ∧ ∀ label', label = .process label' → timed.process.abandoned label' = []

theorem closed_of_servesClients {labels : List (TimedLabel (Option Nat))} {timed : Timed Bytes}
    (run : Run (step dataFile) ServesClients (start []) labels timed) :
    timed.process.closed = [] := by
  refine run.invariant (fun _ timed => timed.process.closed = []) rfl ?_
  intro labels middle label target closed serves stepped
  rcases step_cases stepped with ⟨label', process, rfl, _, made, rfl⟩ |
    ⟨thread, rfl, _, _, rfl⟩ | ⟨thread, outcomes, point, effect, rfl, _, _, rfl⟩
  · rw [Process.closed_step made, closed, serves.2 label' rfl, List.append_nil]
  · exact closed
  · exact closed

/-- Built with `USE_AESD_CHAR_DEVICE` zero, on an empty file: for any clients and any signals
of the timer, and every interleaving in which nothing fails between a lock of `file_mutex`
and its unlock nor behind `pthread_create` in `main`, packets and timestamps stand in the
data file whole and one behind the other, in the order in which the mutex was obtained for
them, and a client is sent the file up to its own packet. -/
theorem dataFile_recorded {labels : List (TimedLabel (Option Nat))} {timed : Timed Bytes}
    (run : Run (step dataFile) ServesClients (start []) labels timed) :
    Recorded labels timed := by
  have both : Recording timed ∧ Traced labels timed := by
    refine run.invariant (fun labels timed => Recording timed ∧ Traced labels timed)
      ⟨recording_start, traced_start⟩ ?_
    rintro labels middle label target ⟨recording, traced⟩ serves stepped
    exact ⟨recording.step serves.1 stepped, traced.step stepped⟩
  exact both.1.recorded both.2 (closed_of_servesClients run)

end Timed

/-- The signal comes to `main` before the only client has its turn. -/
def timestampThenPacket : List (TimedLabel (Option Nat)) :=
  List.replicate 2 (.process (.main true)) ++
    List.replicate 2 (.process (.handler 0 (onDataFile [97, 10]))) ++
    [.alarm .main] ++ List.replicate 5 (.timestamp .main ⟨true, [48], some 4096⟩) ++
    List.replicate 22 (.process (.handler 0 (onDataFile [97, 10])))

theorem servesClients_timestampThenPacket :
    ∀ label ∈ timestampThenPacket, ∀ timed, Timed.ServesClients timed label := by
  intro label member timed
  simp only [timestampThenPacket, List.mem_append, List.mem_replicate, List.mem_singleton] at member
  rcases member with (((⟨_, rfl⟩ | ⟨_, rfl⟩) | rfl) | ⟨_, rfl⟩) | ⟨_, rfl⟩
  · refine ⟨trivial, fun label' isLabel => ?_⟩
    cases isLabel
    rfl
  · refine ⟨⟨fun _ => rfl, rfl, by decide⟩, fun label' isLabel => ?_⟩
    cases isLabel
    rfl
  · exact ⟨trivial, nofun⟩
  · exact ⟨⟨fun _ => rfl, rfl⟩, nofun⟩
  · refine ⟨⟨fun _ => rfl, rfl, by decide⟩, fun label' isLabel => ?_⟩
    cases isLabel
    rfl

/-- The client is sent the timestamp and its own packet. -/
theorem dataFile_recorded_timestamp :
    ∃ timed, exec (Timed.step dataFile) timestampThenPacket (Timed.start []) = some timed ∧
      (timed.process.handlers 0).sent = timestampLine [48] ++ [97, 10] := by
  have run : Run (Timed.step dataFile) Timed.ServesClients (Timed.start []) timestampThenPacket _ :=
    run_of_forall rfl servesClients_timestampThenPacket
  have recorded := Timed.dataFile_recorded run
  refine ⟨_, run.exec_eq_some, ?_⟩
  rw [recorded.sent_eq [.timestamp (timestampLine [48])] 0 [97, 10] [] rfl rfl]
  decide

end Aesd.Server
