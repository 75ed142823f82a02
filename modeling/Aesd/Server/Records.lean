import Aesd.Server.Answers
import Aesd.Server.Echo
import Aesd.Server.Timestamps

/-!
# Records in the data file

Packets and timestamps stand in the data file one behind the other, each of them whole, in
the order in which `file_mutex` was obtained for them.  A client is sent the file up to its
own packet.
-/

namespace Aesd.Server

open Aesd.Driver
open Aesd.Mutex
open Aesd.Transition

/-! ## The file -/

/-- What a turn adds to the file. -/
def Turn.text : Turn → Bytes
  | .packet _ text => text
  | .seek _ => []
  | .timestamp text => text

/-- The client whose turn it is. -/
def Turn.client : Turn → Option Nat
  | .packet index _ => some index
  | .seek index => some index
  | .timestamp _ => none

theorem Pc.client_turn (index : Nat) (pc : Pc) : (pc.turn index).client = some index := by
  cases pc <;> rfl

theorem Pc.turn_eq_packet {index other : Nat} {pc : Pc} {text : Bytes}
    (isPacket : pc.turn index = .packet other text) : index = other ∧ pc = .lockFile text := by
  cases pc <;> cases isPacket
  exact ⟨rfl, rfl⟩

/-- The file behind some turns. -/
def textOf (turns : List Turn) : Bytes :=
  (turns.map Turn.text).flatten

theorem textOf_concat (turns : List Turn) (turn : Turn) :
    textOf (turns ++ [turn]) = textOf turns ++ turn.text := by
  simp [textOf]

/-- What is taken from the front, and the rest. -/
theorem take_append_drop_length (count : Nat) (bytes : Bytes) :
    bytes.take count ++ bytes.drop (bytes.take count).length = bytes := by
  rcases Nat.le_total count bytes.length with less | more
  · rw [List.length_take, Nat.min_eq_left less, List.take_append_drop]
  · rw [List.take_of_length_le more, List.drop_length, List.append_nil]

/-- A write that does not fail puts the first bytes at the end of the file. -/
theorem dataFile_write {room : Nat} {fPos : Int} {bytes content : Bytes} {reply : Reply Bytes}
    (replied : dataFile (some room) (.write bytes) fPos content = some reply) :
    ∃ taken, taken ++ bytes.drop reply.retval.toNat = bytes ∧ reply.retval = taken.length ∧
      reply.device = content ++ taken := by
  cases replied
  exact ⟨bytes.take room, take_append_drop_length room bytes, rfl, rfl⟩

theorem textOf_of_isPrefix {turns turns' : List Turn} (front : turns <+: turns') :
    textOf turns <+: textOf turns' := by
  obtain ⟨rest, rfl⟩ := front
  exact ⟨textOf rest, by simp [textOf]⟩

/-- A client with one turn has one place. -/
theorem unique_turn {turns before after before' after' : List Turn} {turn turn' : Turn}
    {index : Nat} (once : (turns.filterMap Turn.client).Nodup)
    (split : turns = before ++ turn :: after) (split' : turns = before' ++ turn' :: after')
    (client : turn.client = some index) (client' : turn'.client = some index) :
    before = before' ∧ turn = turn' := by
  have apart {first second : List Turn} (all : turns = first ++ second)
      (inFirst : index ∈ first.filterMap Turn.client)
      (inSecond : index ∈ second.filterMap Turn.client) : False := by
    rw [all, List.filterMap_append, List.nodup_append] at once
    exact once.2.2 index inFirst index inSecond rfl
  have present {turn : Turn} {part : List Turn} (member : turn ∈ part)
      (client : turn.client = some index) : index ∈ part.filterMap Turn.client :=
    List.mem_filterMap.mpr ⟨turn, member, client⟩
  rcases List.append_eq_append_iff.mp (split.symm.trans split') with
    ⟨between, front, back⟩ | ⟨between, front, back⟩
  · cases between with
    | nil =>
        rw [List.append_nil] at front
        exact ⟨front.symm, (List.cons.inj back).1⟩
    | cons first rest =>
        obtain ⟨rfl, _⟩ := List.cons.inj back
        refine (apart split' ?_ (present List.mem_cons_self client')).elim
        rw [front]
        exact present (by simp) client
  · cases between with
    | nil =>
        rw [List.append_nil] at front
        exact ⟨front, (List.cons.inj back).1.symm⟩
    | cons first rest =>
        obtain ⟨rfl, _⟩ := List.cons.inj back
        refine (apart split ?_ (present List.mem_cons_self client)).elim
        rw [front]
        exact present (by simp) client'

/-! ## Phases -/

/-- The client has not had its turn. -/
def Unturned (turns : List Turn) (index : Nat) : Prop :=
  ∀ turn ∈ turns, turn.client ≠ some index

/-- The packet of the client is the last turn, and the file is behind it. -/
def Written (turns : List Turn) (content : Bytes) (index : Nat) : Prop :=
  (∃ before text, turns = before ++ [.packet index text]) ∧ content = textOf turns

/-- Of the text of the last turn `bytes` are still missing. -/
def Writing (turns : List Turn) (content bytes : Bytes) (turn : Bytes → Turn) : Prop :=
  ∃ before written, turns = before ++ [turn (written ++ bytes)] ∧ content = textOf before ++ written

/-- Behind its turn a client has been sent the file as it was then; without a turn, and
after a seek, nothing. -/
def Finished (turns : List Turn) (index : Nat) (sent : Bytes) : Prop :=
  (∃ before text after, turns = before ++ .packet index text :: after ∧
      sent = echoFrom [] (textOf (before ++ [.packet index text]))) ∨
    (Unturned turns index ∨ .seek index ∈ turns) ∧ sent = []

/-- What is true of a handler at each of its points, when it has sent `sent`. -/
def FilePhase (turns : List Turn) (content : Bytes) (index : Nat) (pc : Pc) (sent : Bytes) :
    Prop :=
  match pc with
  | .start | .recv _ | .lockFile _ => Unturned turns index ∧ sent = []
  | .handleIoctl point =>
      match point with
      | .parse _ | .lock _ => Unturned turns index ∧ sent = []
      | .open _ | .ioctl _ => .seek index ∈ turns ∧ sent = []
      | .read .. | .unlock => False
  | .openFile bytes => Writing turns content bytes (.packet index) ∧ sent = []
  | .cleanup _ => False
  | .flush bytes _ => Writing turns content bytes (.packet index) ∧ sent = []
  | .seek _ => Written turns content index ∧ sent = []
  | .echo line ahead fPos =>
      Written turns content index ∧ ∃ position : Nat, fPos = position ∧
        sent ++ echoFrom line (ahead ++ content.drop position) = echoFrom [] content
  | .unlockFile => Written turns content index ∧ sent = echoFrom [] content
  | .setComplete _ | .returned => Finished turns index sent

/-- What is true of `print_timestamp` at each of its points. -/
def TimestampPhase (turns : List Turn) (content : Bytes) : PrintTimestamp → Prop
  | .format | .lock _ => True
  | .openFile bytes | .flush bytes _ => Writing turns content bytes .timestamp
  | .cleanup _ => False
  | .unlock => (∃ before text, turns = before ++ [.timestamp text]) ∧ content = textOf turns

/-! ## One step -/

/-- What is decided outside during a step of a handler in which nothing fails inside its
section. -/
structure FileServes (pc : Pc) (outcomes : Outcomes (Option Nat)) : Prop where
  ok : pc.inFileSection = true → outcomes.ok = true
  write : outcomes.device.isSome = true
  count : 0 < outcomes.count

/-- The turns that begin with a step of `thread`, and what the step does to the file: it
works on the last turn, or it obtains the mutex for a new one. -/
inductive TurnMove (inside : Bool) (thread : Thread) (turn : Turn)
    (file file' : DeviceFile Bytes) : List Turn → Prop
  | work : (inside = false → file'.device = file.device) →
      TurnMove inside thread turn file file' []
  | obtain : file.mutex = none → file'.mutex = some thread → file'.device = file.device →
      TurnMove inside thread turn file file' [turn]

section Step

variable {turns : List Turn} {file : DeviceFile Bytes} {index : Nat} {pc : Pc} {sent : Bytes}

theorem Writing.start {before : List Turn} {bytes : Bytes} {turn : Bytes → Turn} :
    Writing (before ++ [turn bytes]) (textOf before) bytes turn :=
  ⟨before, [], rfl, (List.append_nil _).symm⟩

/-- A write brings the last turn on. -/
theorem Writing.write {content bytes : Bytes} {turn : Bytes → Turn} {room : Nat}
    {fPos : Int} {reply : Reply Bytes} (writing : Writing turns content bytes turn)
    (isText : ∀ text, (turn text).text = text)
    (replied : dataFile (some room) (.write bytes) fPos content = some reply) :
    if 0 ≤ reply.retval ∧ reply.retval < bytes.length then
      Writing turns reply.device (bytes.drop reply.retval.toNat) turn
    else
      (∃ before text, turns = before ++ [turn text]) ∧ reply.device = textOf turns := by
  obtain ⟨before, written, rfl, rfl⟩ := writing
  obtain ⟨taken, split, retval, device⟩ := dataFile_write replied
  split
  · refine ⟨before, written ++ taken, ?_, by rw [device, List.append_assoc]⟩
    rw [List.append_assoc, split]
  · rename_i whole
    have all : taken.length = bytes.length := by
      have shorter := congrArg List.length split
      rw [List.length_append] at shorter
      omega
    have nothingLeft : taken = bytes := by
      rw [retval, Int.toNat_natCast, all, List.drop_length, List.append_nil] at split
      exact split
    refine ⟨⟨before, written ++ bytes, rfl⟩, ?_⟩
    rw [device, textOf_concat, isText, nothingLeft, List.append_assoc]

/-- Outside of its section a handler does not look at the file. -/
theorem filePhase_iff_of_outside {content : Bytes} (outside : pc.inFileSection = false) :
    FilePhase turns content index pc sent ↔
      if pc.hasReleasedFile then Finished turns index sent
      else Unturned turns index ∧ sent = [] := by
  cases pc with
  | handleIoctl point => cases point <;> first | contradiction | exact Iff.rfl
  | start | recv _ | lockFile _ | setComplete _ | returned => exact Iff.rfl
  | _ => contradiction

/-- The steps of a handler outside of its section. -/
theorem FilePhase.outside {effect : Effect Bytes}
    (phase : FilePhase turns file.device index pc sent) (outside : pc.inFileSection = false)
    (free : file.mutex = none → file.device = textOf turns)
    (moves : OutsideMove index file pc effect) :
    ∃ added, TurnMove pc.inFileSection (.handler index) (pc.turn index) file effect.file added ∧
      effect.file.order = file.order ++ added.filterMap Turn.client ∧
      (added ≠ [] → Unturned turns index) ∧
      (effect.file.mutex = none → effect.file.device = textOf (turns ++ added)) ∧
      FilePhase (turns ++ added) effect.file.device index (effect.control.point pc)
        (sent ++ effect.sent) := by
  cases moves with
  | stay outside' released =>
      refine ⟨[], .work fun _ => rfl, (List.append_nil _).symm, nofun, by simpa using free, ?_⟩
      rw [filePhase_iff_of_outside outside] at phase
      rw [filePhase_iff_of_outside outside', List.append_nil, List.append_nil]
      cases before : pc.hasReleasedFile with
      | true =>
          rw [before, if_pos rfl] at phase
          rwa [released before, if_pos rfl]
      | false =>
          rw [before, if_neg (by decide)] at phase
          split
          · exact Or.inr ⟨Or.inl phase.1, phase.2⟩
          · exact phase
  | packet bytes unlocked =>
      refine ⟨[.packet index bytes], .obtain unlocked rfl rfl, rfl, fun _ => phase.1, nofun, ?_,
        by simpa using phase.2⟩
      rw [free unlocked]
      exact Writing.start
  | seek cmd unlocked =>
      exact ⟨[.seek index], .obtain unlocked rfl rfl, rfl, fun _ => phase.1, nofun, by simp,
        by simpa using phase.2⟩

/-- The steps of a handler inside its section. -/
theorem FilePhase.inside {returned : Nat → Bool} {outcomes : Outcomes (Option Nat)}
    {clients : Clients} {effect : Effect Bytes}
    (phase : FilePhase turns file.device index pc sent) (inside : pc.inFileSection = true)
    (serves : FileServes pc outcomes)
    (stepped : pc.step dataFile index returned outcomes file clients = some effect) :
    effect.file.order = file.order ∧
      (effect.file.mutex = none → file.mutex = none ∨ effect.file.device = textOf turns) ∧
      FilePhase turns effect.file.device index (effect.control.point pc)
        (sent ++ effect.sent) := by
  obtain ⟨room, written⟩ := Option.isSome_iff_exists.mp serves.write
  have ok := serves.ok inside
  cases pc with
  | handleIoctl point =>
      obtain ⟨⟨control, more, file'⟩, ioctlStep, rfl⟩ := Option.map_eq_some_iff.mp stepped
      cases point with
      | «open» cmd =>
          simp only [HandleIoctl.step, ok, if_true] at ioctlStep
          cases ioctlStep
          exact ⟨rfl, Or.inl, phase.1, by simpa using phase.2⟩
      | ioctl cmd =>
          -- the plain file does not know the command
          have rejects : ioctlResult (-enotty) < 0 := by decide
          simp only [HandleIoctl.step, dataFile, if_pos rejects] at ioctlStep
          cases ioctlStep
          exact ⟨rfl, Or.inl, Or.inr ⟨Or.inr phase.1, by simpa using phase.2⟩⟩
      | read cmdBuffer fPos | unlock => exact phase.elim
      | _ => contradiction
  | openFile bytes =>
      simp only [Pc.step, ok, if_true] at stepped
      cases stepped
      exact ⟨rfl, Or.inl, phase.1, by simpa using phase.2⟩
  | cleanup point => exact phase.elim
  | flush bytes fPos =>
      obtain ⟨reply, replied⟩ : ∃ reply,
          dataFile (some room) (.write bytes) fPos file.device = some reply := ⟨_, rfl⟩
      have writes := phase.1.write (fun _ => rfl) replied
      simp only [Pc.step, flushStep, written, replied] at stepped
      split at stepped
      · rename_i short
        rw [if_pos short] at writes
        cases stepped
        exact ⟨rfl, Or.inl, writes, by simpa using phase.2⟩
      · rename_i whole
        rw [if_neg whole] at writes
        cases stepped
        exact ⟨rfl, Or.inl, writes, by simpa using phase.2⟩
  | seek fPos =>
      cases stepped
      refine ⟨rfl, Or.inl, phase.1, 0, rfl, ?_⟩
      simp [phase.2]
  | echo line ahead fPos =>
      obtain ⟨place, position, rfl, whole⟩ := phase
      have stepped : echoStep dataFile outcomes line ahead position file clients = some effect :=
        stepped
      rcases echoStep_cases stepped with
        ⟨line', ahead', control, _, sameFile, later⟩ | ⟨rfl, reply, replied, sameFile, ends⟩
      · rw [control, sameFile]
        exact ⟨rfl, Or.inl, place, position, rfl, by rw [List.append_assoc, later, whole]⟩
      · obtain ⟨more, atEnd, last⟩ := ends
        cases replied
        rw [sameFile]
        simp only [Int.toNat_natCast] at more atEnd last
        rcases Nat.eq_zero_or_pos ((file.device.drop position).take outcomes.count).length with
          nothing | something
        · -- the end of the file
          have empty : file.device.drop position = [] := by
            rw [List.length_take] at nothing
            exact List.length_eq_zero_iff.mp (by have := serves.count; omega)
          rw [empty] at whole
          rw [atEnd (by omega), last (by omega)]
          exact ⟨rfl, Or.inl, place, whole⟩
        · obtain ⟨silent, control⟩ := more (by omega)
          rw [control, silent, List.append_nil]
          refine ⟨rfl, Or.inl, place,
            position + ((file.device.drop position).take outcomes.count).length,
            by push_cast; rfl, ?_⟩
          have split := take_append_drop_length outcomes.count (file.device.drop position)
          rw [List.drop_drop] at split
          rw [split]
          exact whole
  | unlockFile =>
      obtain ⟨⟨⟨before, text, rfl⟩, content⟩, whole⟩ := phase
      cases stepped
      refine ⟨rfl, fun _ => Or.inr content, Or.inl ⟨before, text, [], rfl, ?_⟩⟩
      rw [List.append_nil, whole, content]
  | _ => contradiction

/-- A step of a handler. -/
theorem FilePhase.step {returned : Nat → Bool} {outcomes : Outcomes (Option Nat)}
    {clients : Clients} {effect : Effect Bytes}
    (phase : FilePhase turns file.device index pc sent) (serves : FileServes pc outcomes)
    (guarded : pc.inFileSection = true → file.mutex = some (.handler index))
    (free : file.mutex = none → file.device = textOf turns)
    (stepped : pc.step dataFile index returned outcomes file clients = some effect) :
    ∃ added, TurnMove pc.inFileSection (.handler index) (pc.turn index) file effect.file added ∧
      effect.file.order = file.order ++ added.filterMap Turn.client ∧
      (added ≠ [] → Unturned turns index) ∧
      (effect.file.mutex = none → effect.file.device = textOf (turns ++ added)) ∧
      FilePhase (turns ++ added) effect.file.device index (effect.control.point pc)
        (sent ++ effect.sent) := by
  cases inside : pc.inFileSection with
  | false => exact inside ▸ phase.outside inside free (Pc.outsideMove inside stepped)
  | true =>
      obtain ⟨order, unlocks, phase'⟩ := phase.inside inside serves stepped
      refine ⟨[], .work nofun, by simpa using order, by simp, fun unlocked => ?_, ?_⟩
      · rw [List.append_nil]
        exact (unlocks unlocked).resolve_left (by simp [guarded inside])
      · rwa [List.append_nil]

/-- A step of `print_timestamp`. -/
theorem TimestampPhase.step {thread : Thread} {returned : Nat → Bool}
    {outcomes : TimestampOutcomes (Option Nat)} {clients : Clients}
    {effect : TimestampEffect Bytes} {point : PrintTimestamp}
    (phase : TimestampPhase turns file.device point)
    (ok : point.inSection = true → outcomes.ok = true) (write : outcomes.device.isSome = true)
    (free : file.mutex = none → file.device = textOf turns)
    (moves : TimestampMove dataFile thread returned outcomes file clients point effect) :
    (∃ line, TurnMove point.inSection thread (.timestamp line) file effect.file
        (Timed.newTimestamp point effect.control)) ∧
      effect.control ≠ .crash ∧ ∀ next, effect.control = .goto next →
        TimestampPhase (turns ++ Timed.newTimestamp point effect.control) effect.file.device
          next := by
  cases moves with
  | format _ =>
      refine ⟨⟨[], .work fun _ => rfl⟩, nofun, ?_⟩
      rintro _ ⟨⟩
      trivial
  | giveUp _ which =>
      rw [Timed.newTimestamp_done]
      exact ⟨⟨[], .work fun _ => rfl⟩, nofun, nofun⟩
  | obtain line unlocked =>
      refine ⟨⟨line, .obtain unlocked rfl rfl⟩, nofun, ?_⟩
      rintro _ ⟨⟩
      simp only [TimestampPhase, free unlocked]
      exact Writing.start
  | opened line _ =>
      refine ⟨⟨[], .work fun _ => rfl⟩, nofun, ?_⟩
      rintro _ ⟨⟩
      rw [Timed.newTimestamp_of_inSection rfl, List.append_nil]
      exact phase
  | openFails line failed => simp [ok rfl] at failed
  | cleanup _ => exact phase.elim
  | flush replied short =>
      obtain ⟨room, written⟩ := Option.isSome_iff_exists.mp write
      rw [written] at replied
      have writes := Writing.write phase (fun _ => rfl) replied
      rw [if_pos short] at writes
      refine ⟨⟨[], .work nofun⟩, nofun, ?_⟩
      rintro _ ⟨⟩
      rw [Timed.newTimestamp_of_inSection rfl, List.append_nil]
      exact writes
  | flushed replied whole =>
      obtain ⟨room, written⟩ := Option.isSome_iff_exists.mp write
      rw [written] at replied
      have writes := Writing.write phase (fun _ => rfl) replied
      rw [if_neg whole] at writes
      refine ⟨⟨[], .work nofun⟩, nofun, ?_⟩
      rintro _ ⟨⟩
      rw [Timed.newTimestamp_of_inSection rfl, List.append_nil]
      exact writes
  | unlock => exact ⟨⟨[], .work fun _ => rfl⟩, nofun, nofun⟩

/-- A seek keeps the file as it is. -/
theorem FilePhase.file_of_seek {returned : Nat → Bool} {outcomes : Outcomes (Option Nat)}
    {clients : Clients} {effect : Effect Bytes} {before : List Turn}
    (phase : FilePhase turns file.device index pc sent) (inside : pc.inFileSection = true)
    (serves : FileServes pc outcomes) (last : turns = before ++ [.seek index])
    (stepped : pc.step dataFile index returned outcomes file clients = some effect) :
    effect.file = file := by
  have otherTurn {before' : List Turn} {text : Bytes}
      (last' : turns = before' ++ [.packet index text]) : False := by
    rw [last] at last'
    have same := congrArg List.getLast? last'
    simp at same
  cases pc with
  | handleIoctl point =>
      obtain ⟨⟨control, more, file'⟩, ioctlStep, rfl⟩ := Option.map_eq_some_iff.mp stepped
      cases point with
      | «open» cmd =>
          simp only [HandleIoctl.step, serves.ok rfl, if_true] at ioctlStep
          cases ioctlStep
          rfl
      | ioctl cmd =>
          have rejects : ioctlResult (-enotty) < 0 := by decide
          simp only [HandleIoctl.step, dataFile, if_pos rejects] at ioctlStep
          cases ioctlStep
          rfl
      | read cmdBuffer fPos | unlock => exact phase.elim
      | _ => contradiction
  | cleanup point => exact phase.elim
  | openFile bytes | flush bytes fPos =>
      obtain ⟨⟨before', written, last', _⟩, _⟩ := phase
      exact (otherTurn last').elim
  | seek fPos =>
      obtain ⟨⟨⟨before', text, last'⟩, _⟩, _⟩ := phase
      exact (otherTurn last').elim
  | echo line ahead fPos =>
      obtain ⟨⟨⟨before', text, last'⟩, _⟩, _⟩ := phase
      exact (otherTurn last').elim
  | unlockFile =>
      obtain ⟨⟨⟨before', text, last'⟩, _⟩, _⟩ := phase
      exact (otherTurn last').elim
  | _ => contradiction

/-- A handler keeps the mutex for a seek only. -/
theorem FilePhase.seek_of_leaks {content : Bytes} {outcomes : Outcomes (Option Nat)}
    (phase : FilePhase turns content index pc sent) (serves : FileServes pc outcomes)
    (leaks : pc.leaks dataFile outcomes file = true) : .seek index ∈ turns := by
  cases pc with
  | handleIoctl point =>
      cases point with
      | «open» cmd => exact phase.1
      | ioctl cmd => exact phase.1
      | unlock => exact phase.elim
      | _ => contradiction
  | cleanup point => exact phase.elim
  | unlockFile => simp [Pc.leaks, serves.ok rfl] at leaks
  | _ => contradiction

/-- While a timestamp is written the last turn is not a seek. -/
theorem TimestampPhase.not_seek {content : Bytes} {point : PrintTimestamp} {before : List Turn}
    (phase : TimestampPhase turns content point) (inside : point.inSection = true) :
    turns ≠ before ++ [.seek index] := by
  intro last
  have otherTurn {before' : List Turn} {text : Bytes}
      (last' : turns = before' ++ [.timestamp text]) : False := by
    rw [last] at last'
    have same := congrArg List.getLast? last'
    simp at same
  cases point with
  | openFile bytes | flush bytes fPos =>
      obtain ⟨before', written, last', _⟩ := phase
      exact otherTurn last'
  | unlock =>
      obtain ⟨⟨before', text, last'⟩, _⟩ := phase
      exact otherTurn last'
  | cleanup point => exact phase
  | format | lock line => contradiction

/-- Without a packet in the file a client has been sent nothing. -/
theorem FilePhase.unsent {content : Bytes} (phase : FilePhase turns content index pc sent)
    (noPacket : ∀ text, .packet index text ∉ turns) : sent = [] := by
  have written (written : Written turns content index) : False := by
    obtain ⟨⟨before, text, rfl⟩, _⟩ := written
    exact noPacket text (by simp)
  cases pc with
  | start | recv buffer | lockFile bytes => exact phase.2
  | handleIoctl point =>
      cases point with
      | read cmdBuffer fPos | unlock => exact phase.elim
      | _ => exact phase.2
  | cleanup point => exact phase.elim
  | openFile bytes | flush bytes fPos | seek fPos => exact phase.2
  | echo line ahead fPos => exact (written phase.1).elim
  | unlockFile => exact (written phase.1).elim
  | setComplete point | returned =>
      rcases phase with ⟨before, text, after, rfl, _⟩ | ⟨_, nothing⟩
      · exact absurd (by simp) (noPacket text)
      · exact nothing

/-- The file lacks a part of the last turn at most. -/
theorem Writing.within {content bytes : Bytes} {turn : Bytes → Turn}
    (writing : Writing turns content bytes turn) (isText : ∀ text, (turn text).text = text) :
    textOf turns.dropLast <+: content ∧ content <+: textOf turns := by
  obtain ⟨before, written, rfl, rfl⟩ := writing
  rw [List.dropLast_concat, textOf_concat, isText]
  exact ⟨⟨written, rfl⟩, ⟨bytes, List.append_assoc ..⟩⟩

theorem within_of_eq {content : Bytes} (whole : content = textOf turns) :
    textOf turns.dropLast <+: content ∧ content <+: textOf turns := by
  rw [whole]
  exact ⟨textOf_of_isPrefix (List.dropLast_prefix turns), List.prefix_refl _⟩

/-- The file during the turn of a handler. -/
theorem FilePhase.within {content : Bytes} (phase : FilePhase turns content index pc sent)
    (inside : pc.inFileSection = true) (seeks : .seek index ∈ turns → content = textOf turns) :
    textOf turns.dropLast <+: content ∧ content <+: textOf turns := by
  cases pc with
  | handleIoctl point =>
      cases point with
      | «open» cmd | ioctl cmd => exact within_of_eq (seeks phase.1)
      | read cmdBuffer fPos | unlock => exact phase.elim
      | _ => contradiction
  | cleanup point => exact phase.elim
  | openFile bytes | flush bytes fPos => exact phase.1.within fun _ => rfl
  | seek fPos | echo line ahead fPos | unlockFile => exact within_of_eq phase.1.2
  | _ => contradiction

/-- The file during a timestamp. -/
theorem TimestampPhase.within {content : Bytes} {point : PrintTimestamp}
    (phase : TimestampPhase turns content point) (inside : point.inSection = true) :
    textOf turns.dropLast <+: content ∧ content <+: textOf turns := by
  cases point with
  | openFile bytes | flush bytes fPos => exact Writing.within phase fun _ => rfl
  | unlock => exact within_of_eq phase.2
  | cleanup point => exact phase.elim
  | format | lock line => contradiction

/-! ## The others -/

theorem TurnMove.apart {inside : Bool} {thread : Thread} {turn : Turn} {file' : DeviceFile Bytes}
    {added : List Turn} (moves : TurnMove inside thread turn file file' added)
    (outside : inside = false) (owned : file.mutex ≠ none) :
    added = [] ∧ file'.device = file.device := by
  cases moves with
  | work same => exact ⟨rfl, same outside⟩
  | obtain free _ _ => exact absurd free owned

theorem TurnMove.added_eq {inside : Bool} {thread : Thread} {turn : Turn} {file' : DeviceFile Bytes}
    {added : List Turn} (moves : TurnMove inside thread turn file file' added) :
    added = [] ∨ added = [turn] ∧ file.mutex = none ∧ file'.mutex = some thread ∧
      file'.device = file.device := by
  cases moves with
  | work _ => exact Or.inl rfl
  | obtain free owns same => exact Or.inr ⟨rfl, free, owns, same⟩

/-- A handler stays where it is while another one takes a step. -/
theorem FilePhase.frame {content content' : Bytes} {added : List Turn}
    (phase : FilePhase turns content index pc sent)
    (apart : pc.inFileSection = true → added = [] ∧ content' = content)
    (others : ∀ turn ∈ added, turn.client ≠ some index) :
    FilePhase (turns ++ added) content' index pc sent := by
  cases inside : pc.inFileSection with
  | true =>
      obtain ⟨rfl, rfl⟩ := apart inside
      rwa [List.append_nil]
  | false =>
      rw [filePhase_iff_of_outside inside] at phase ⊢
      have later (unturned : Unturned turns index) : Unturned (turns ++ added) index :=
        fun turn member => (List.mem_append.mp member).elim (unturned turn) (others turn)
      split at phase
      · rename_i released
        rw [if_pos released]
        rcases phase with ⟨before, text, after, rfl, replied⟩ | ⟨unturned | seeks, nothing⟩
        · exact Or.inl ⟨before, text, after ++ added, by simp, replied⟩
        · exact Or.inr ⟨Or.inl (later unturned), nothing⟩
        · exact Or.inr ⟨Or.inr (List.mem_append_left _ seeks), nothing⟩
      · rename_i unreleased
        rw [if_neg unreleased]
        exact ⟨later phase.1, phase.2⟩

/-- So does `print_timestamp`. -/
theorem TimestampPhase.frame {content content' : Bytes} {added : List Turn}
    {point : PrintTimestamp} (phase : TimestampPhase turns content point)
    (apart : point.inSection = true → added = [] ∧ content' = content) :
    TimestampPhase (turns ++ added) content' point := by
  cases inside : point.inSection with
  | true =>
      obtain ⟨rfl, rfl⟩ := apart inside
      rwa [List.append_nil]
  | false =>
      cases point with
      | format | lock line => trivial
      | _ => contradiction

end Step

/-! ## Runs -/

namespace Timed

/-- A step in which nothing fails between a lock of `file_mutex` and its unlock. -/
def ServesFile (timed : Timed Bytes) : TimedLabel (Option Nat) → Prop
  | .process (.handler index outcomes) => FileServes (timed.process.handlers index).pc outcomes
  | .process .signal | .process (.main _) | .alarm _ => True
  | .timestamp thread outcomes =>
      (timed.InTimestamp thread → outcomes.ok = true) ∧ outcomes.device.isSome = true

/-- What holds in every state. -/
structure Recording (timed : Timed Bytes) : Prop where
  sound : timed.Sound
  free : timed.process.file.mutex = none → timed.process.file.device = textOf timed.turns
  seeks : ∀ index, .seek index ∈ timed.turns →
    (∃ before, timed.turns = before ++ [.seek index]) ∧
      timed.process.file.mutex = some (.handler index) ∧
      timed.process.file.device = textOf timed.turns
  phases : ∀ index, FilePhase timed.turns timed.process.file.device index
    (timed.process.handlers index).pc (timed.process.handlers index).sent
  alarms : ∀ thread point, timed.alarms thread = some point →
    TimestampPhase timed.turns timed.process.file.device point
  once : (timed.turns.filterMap Turn.client).Nodup
  owner : ∀ thread, timed.process.file.mutex = some thread →
    timed.process.InFileSection thread ∨ timed.InTimestamp thread ∨
      ∃ index, thread = .handler index ∧ .seek index ∈ timed.turns

theorem recording_start : Recording (start []) where
  sound := sound_start []
  free _ := rfl
  seeks _ member := by contradiction
  phases _ := ⟨fun _ member => by contradiction, rfl⟩
  alarms _ _ running := by contradiction
  once := List.nodup_nil
  owner _ owns := by contradiction

section Recording

variable {timed : Timed Bytes}

/-- A handler inside its section and a run of `print_timestamp` between its lock and its
unlock exclude each other. -/
theorem Sound.apart {thread : Thread} {point : PrintTimestamp} {index : Nat}
    (sound : timed.Sound) (running : timed.alarms thread = some point)
    (inside : point.inSection = true)
    (insideFile : (timed.process.handlers index).pc.inFileSection = true) : False := by
  have inTimestamp : timed.InTimestamp thread := ⟨point, running, inside⟩
  have owns := sound.guarded thread (Or.inr inTimestamp)
  have owns' := sound.guarded (.handler index) (Or.inl insideFile)
  obtain rfl : thread = .handler index := Option.some.inj (owns.symm.trans owns')
  exact sound.exclusive (.handler index) insideFile inTimestamp

theorem newTurns_of_order {process process' : Process Bytes} {index : Nat} {added : List Turn}
    (order : process'.file.order = process.file.order ++ added.filterMap Turn.client)
    (only : added = [] ∨ added = [(process.handlers index).pc.turn index]) :
    newTurns process process' = added := by
  rcases only with rfl | rfl
  · exact newTurns_of_same (by simpa using order)
  · rw [newTurns, order, List.drop_left, List.filterMap_cons_some (Pc.client_turn index _)]
    rfl

/-- The mutex stays with the client of a seek, whose turn is the last one. -/
theorem Recording.handler_seeks {index : Nat} {outcomes : Outcomes (Option Nat)}
    {effect : Effect Bytes} {added : List Turn} (recording : Recording timed)
    (serves : FileServes (timed.process.handlers index).pc outcomes)
    (made : (timed.process.handlers index).pc.step dataFile index timed.process.returned outcomes
      timed.process.file timed.process.clients = some effect)
    (moves : TurnMove (timed.process.handlers index).pc.inFileSection (.handler index)
      ((timed.process.handlers index).pc.turn index) timed.process.file effect.file added) :
    ∀ other, .seek other ∈ timed.turns ++ added →
      (∃ before, timed.turns ++ added = before ++ [.seek other]) ∧
        effect.file.mutex = some (.handler other) ∧
        effect.file.device = textOf (timed.turns ++ added) := by
  have phase := recording.phases index
  have guarded (inside : (timed.process.handlers index).pc.inFileSection = true) :
      timed.process.file.mutex = some (.handler index) :=
    recording.sound.guarded (.handler index) (Or.inl inside)
  intro other member
  rcases List.mem_append.mp member with earlier | now
  · -- the mutex is held for the seek
    obtain ⟨⟨before, last⟩, owns, content⟩ := recording.seeks other earlier
    have same : effect.file = timed.process.file := by
      cases inside : (timed.process.handlers index).pc.inFileSection with
      | true =>
          have owner := guarded inside
          rw [owns, Option.some.injEq, Thread.handler.injEq] at owner
          subst other
          exact phase.file_of_seek inside serves last made
      | false =>
          have outsideMove := Pc.outsideMove inside made
          generalize (timed.process.handlers index).pc = pc at outsideMove
          cases outsideMove with
          | stay _ _ => rfl
          | packet _ unlocked | seek _ unlocked => simp [owns] at unlocked
    rcases moves.added_eq with rfl | ⟨_, unlocked, _⟩
    · rw [List.append_nil, same]
      exact ⟨⟨before, last⟩, owns, content⟩
    · simp [owns] at unlocked
  · obtain rfl | ⟨rfl, unlocked, owns, same⟩ := moves.added_eq
    · contradiction
    · have isSeek := List.mem_singleton.mp now
      have client := congrArg Turn.client isSeek
      rw [Pc.client_turn] at client
      obtain rfl : other = index := Option.some.inj client
      refine ⟨⟨_, congrArg (fun turn => timed.turns ++ [turn]) isSeek.symm⟩, owns, ?_⟩
      rw [same, recording.free unlocked, textOf_concat, ← isSeek]
      exact (List.append_nil _).symm

/-- Behind a step of a handler it is still known where the owner is. -/
theorem Recording.handler_owner {index : Nat} {outcomes : Outcomes (Option Nat)}
    {effect : Effect Bytes} (recording : Recording timed)
    (serves : FileServes (timed.process.handlers index).pc outcomes)
    (made : (timed.process.handlers index).pc.step dataFile index timed.process.returned outcomes
      timed.process.file timed.process.clients = some effect)
    (added : List Turn) :
    ∀ thread, effect.file.mutex = some thread →
      (timed.process.applyHandler index effect).InFileSection thread ∨ timed.InTimestamp thread ∨
        ∃ owner, thread = .handler owner ∧ .seek owner ∈ timed.turns ++ added := by
  have phase := recording.phases index
  intro thread owns
  -- as long as the owner stays the same
  have kept (same : effect.file.mutex = timed.process.file.mutex)
      (own : timed.process.InFileSection (.handler index) →
        (timed.process.applyHandler index effect).InFileSection (.handler index) ∨
          .seek index ∈ timed.turns) :
      (timed.process.applyHandler index effect).InFileSection thread ∨
        timed.InTimestamp thread ∨
          ∃ owner, thread = .handler owner ∧ .seek owner ∈ timed.turns ++ added := by
    rw [same] at owns
    rcases recording.owner thread owns with inside | inTimestamp | ⟨owner, rfl, seeks⟩
    · by_cases isIndex : thread = .handler index
      · subst thread
        exact (own inside).imp_right fun seeks =>
          Or.inr ⟨index, rfl, List.mem_append_left _ seeks⟩
      · exact Or.inl ((Process.inFileSection_applyHandler isIndex).mpr inside)
    · exact Or.inr (Or.inl inTimestamp)
    · exact Or.inr (Or.inr ⟨owner, rfl, List.mem_append_left _ seeks⟩)
  have moved := Pc.step_fileMutex made
  simp only [Process.InFileSection, Process.applyHandler_self] at kept
  generalize effect.file.mutex = owner' at moved owns kept
  generalize timed.process.file.mutex = owner at moved kept
  rcases moved with exactly | ⟨leaks, _, _, same⟩
  · cases exactly with
    | stay same => exact kept rfl fun inside => Or.inl (same.mpr inside)
    | acquire inside =>
        cases owns
        left
        simpa only [Process.InFileSection, Process.applyHandler_self] using inside
    | release _ _ => contradiction
  · exact kept same fun _ => Or.inr (phase.seek_of_leaks serves leaks)

/-- A step of a handler. -/
theorem Recording.handler {index : Nat} {outcomes : Outcomes (Option Nat)}
    {effect : Effect Bytes} (recording : Recording timed)
    (serves : FileServes (timed.process.handlers index).pc outcomes)
    (made : (timed.process.handlers index).pc.step dataFile index timed.process.returned outcomes
      timed.process.file timed.process.clients = some effect)
    (sound : Sound ⟨timed.process.applyHandler index effect, timed.alarms,
      timed.turns ++ newTurns timed.process (timed.process.applyHandler index effect)⟩) :
    Recording ⟨timed.process.applyHandler index effect, timed.alarms,
      timed.turns ++ newTurns timed.process (timed.process.applyHandler index effect)⟩ := by
  have guarded : (timed.process.handlers index).pc.inFileSection = true →
      timed.process.file.mutex = some (.handler index) :=
    fun inside => recording.sound.guarded (.handler index) (Or.inl inside)
  have phase := recording.phases index
  obtain ⟨added, moves, order, fresh, free, phase'⟩ :=
    phase.step serves guarded recording.free made
  have new : newTurns timed.process (timed.process.applyHandler index effect) = added :=
    newTurns_of_order order (moves.added_eq.imp_right And.left)
  rw [new] at sound ⊢
  refine ⟨sound, free, ?_, ?_, ?_, ?_, ?_⟩
  · exact recording.handler_seeks serves made moves
  · intro other
    rw [Process.applyHandler_file]
    by_cases same : other = index
    · subst other
      rw [Process.applyHandler_self]
      exact phase'
    · rw [timed.process.applyHandler_of_ne index effect same]
      refine (recording.phases other).frame (fun inside => ?_) fun turn member client => ?_
      · have owns := recording.sound.guarded (.handler other) (Or.inl inside)
        refine moves.apart ?_ (by simp [owns])
        by_contra inside'
        have owns' := guarded (eq_true_of_ne_false inside')
        rw [owns, Option.some.injEq, Thread.handler.injEq] at owns'
        exact same owns'
      · rcases moves.added_eq with rfl | ⟨rfl, _⟩
        · contradiction
        · rw [List.mem_singleton.mp member, Pc.client_turn, Option.some.injEq] at client
          exact same client.symm
  · intro thread point running
    refine (recording.alarms thread point running).frame fun inside => ?_
    have owns := recording.sound.guarded thread (Or.inr ⟨point, running, inside⟩)
    refine moves.apart ?_ (by simp [owns])
    by_contra inside'
    exact recording.sound.apart running inside (eq_true_of_ne_false inside')
  · rcases moves.added_eq with rfl | ⟨rfl, _⟩
    · simpa using recording.once
    · have unturned := fresh (by simp)
      rw [List.filterMap_append, List.filterMap_cons_some (Pc.client_turn index _),
        List.nodup_append]
      refine ⟨recording.once, List.nodup_singleton index, ?_⟩
      rintro client member _ isIndex rfl
      obtain ⟨turn, turnMem, isClient⟩ := List.mem_filterMap.mp member
      rw [List.mem_singleton.mp isIndex] at isClient
      exact unturned turn turnMem isClient
  · exact recording.handler_owner serves made added

/-- While a client with a seek has the mutex, `print_timestamp` does not come behind its
lock. -/
theorem Recording.timestamp_seeks {thread : Thread} {outcomes : TimestampOutcomes (Option Nat)}
    {point : PrintTimestamp} {effect : TimestampEffect Bytes} {line : Bytes}
    (recording : Recording timed) (running : timed.alarms thread = some point)
    (timestampMove : TimestampMove dataFile thread timed.process.returned outcomes
      timed.process.file timed.process.clients point effect)
    (moves : TurnMove point.inSection thread (.timestamp line) timed.process.file effect.file
      (newTimestamp point effect.control)) :
    ∀ index, .seek index ∈ timed.turns ++ newTimestamp point effect.control →
      (∃ before, timed.turns ++ newTimestamp point effect.control = before ++ [.seek index]) ∧
        effect.file.mutex = some (.handler index) ∧
        effect.file.device = textOf (timed.turns ++ newTimestamp point effect.control) := by
  have phase := recording.alarms thread point running
  intro index member
  have earlier : .seek index ∈ timed.turns := by
    rcases List.mem_append.mp member with earlier | now
    · exact earlier
    · rcases moves.added_eq with none | ⟨one, _⟩
      · simp [none] at now
      · simp [one] at now
  obtain ⟨⟨before, last⟩, owns, content⟩ := recording.seeks index earlier
  have same : effect.file = timed.process.file ∧ newTimestamp point effect.control = [] := by
    cases timestampMove with
    | format _ => exact ⟨rfl, rfl⟩
    | giveUp _ _ => exact ⟨rfl, newTimestamp_done point⟩
    | obtain line unlocked => simp [owns] at unlocked
    | _ => exact absurd last (phase.not_seek rfl)
  rw [same.1, same.2, List.append_nil]
  exact ⟨⟨before, last⟩, owns, content⟩

/-- Behind a step of `print_timestamp` it is still known where the owner is. -/
theorem Recording.timestamp_owner {thread : Thread} {outcomes : TimestampOutcomes (Option Nat)}
    {point : PrintTimestamp} {effect : TimestampEffect Bytes}
    (recording : Recording timed) (running : timed.alarms thread = some point)
    (ok : point.inSection = true → outcomes.ok = true)
    (timestampMove : TimestampMove dataFile thread timed.process.returned outcomes
      timed.process.file timed.process.clients point effect) :
    ∀ other, effect.file.mutex = some other →
      timed.process.InFileSection other ∨
        (timed.applyTimestamp thread point effect).InTimestamp other ∨
          ∃ index, other = .handler index ∧
            .seek index ∈ timed.turns ++ newTimestamp point effect.control := by
  have phase := recording.alarms thread point running
  intro other owns
  have kept (same : effect.file.mutex = timed.process.file.mutex)
      (own : timed.InTimestamp thread →
        (timed.applyTimestamp thread point effect).InTimestamp thread) :
      timed.process.InFileSection other ∨
        (timed.applyTimestamp thread point effect).InTimestamp other ∨
          ∃ index, other = .handler index ∧
            .seek index ∈ timed.turns ++ newTimestamp point effect.control := by
    rw [same] at owns
    refine (recording.owner other owns).imp_right (Or.imp (fun inTimestamp => ?_) ?_)
    · by_cases isThread : other = thread
      · subst other
        exact own inTimestamp
      · exact (inTimestamp_applyTimestamp_of_ne isThread).mpr inTimestamp
    · rintro ⟨index, isHandler, seeks⟩
      exact ⟨index, isHandler, List.mem_append_left _ seeks⟩
  have outside (not : point.inSection = false) (inTimestamp : timed.InTimestamp thread) :
      False := by
    rw [inTimestamp_iff running, not] at inTimestamp
    contradiction
  cases timestampMove with
  | format _ => exact kept rfl fun inTimestamp => (outside rfl inTimestamp).elim
  | giveUp _ which =>
      refine kept rfl fun inTimestamp => (outside ?_ inTimestamp).elim
      rcases which with rfl | ⟨line, rfl⟩ <;> rfl
  | obtain line _ =>
      cases owns
      exact Or.inr (Or.inl ⟨_, Function.update_self .., rfl⟩)
  | opened line _ | flush _ _ | flushed _ _ =>
      exact kept rfl fun _ => ⟨_, Function.update_self .., rfl⟩
  | openFails line failed => simp [ok rfl] at failed
  | cleanup _ => exact phase.elim
  | unlock =>
      have unlocked := ok rfl
      simp [DeviceFile.unlock, Mutex.unlock, unlocked] at owns

/-- A step of `print_timestamp`. -/
theorem Recording.timestamp {thread : Thread} {outcomes : TimestampOutcomes (Option Nat)}
    {point : PrintTimestamp} {effect : TimestampEffect Bytes} (recording : Recording timed)
    (running : timed.alarms thread = some point)
    (ok : timed.InTimestamp thread → outcomes.ok = true)
    (write : outcomes.device.isSome = true)
    (made : point.step dataFile thread timed.process.returned outcomes timed.process.file
      timed.process.clients = some effect)
    (sound : (timed.applyTimestamp thread point effect).Sound) :
    Recording (timed.applyTimestamp thread point effect) := by
  have phase := recording.alarms thread point running
  have timestampMove := PrintTimestamp.move made
  have guarded : point.inSection = true → timed.process.file.mutex = some thread :=
    fun inside => recording.sound.guarded thread (Or.inr ⟨point, running, inside⟩)
  have ok' : point.inSection = true → outcomes.ok = true :=
    fun inside => ok ⟨point, running, inside⟩
  obtain ⟨⟨line, moves⟩, noCrash, next⟩ :=
    phase.step ok' write recording.free timestampMove
  refine ⟨sound, ?_, ?_, ?_, ?_, ?_, ?_⟩
  · intro unlocked
    rw [applyTimestamp_file] at unlocked
    rw [applyTimestamp_file, applyTimestamp_turns]
    cases timestampMove with
    | format _ => exact (recording.free unlocked).trans (congrArg textOf (List.append_nil _).symm)
    | giveUp _ _ =>
        rw [newTimestamp_done, List.append_nil]
        exact recording.free unlocked
    | obtain line _ => contradiction
    | cleanup _ => exact phase.elim
    | unlock => exact phase.2.trans (congrArg textOf (List.append_nil _).symm)
    | _ => simp [guarded rfl] at unlocked
  · exact recording.timestamp_seeks running timestampMove moves
  · intro index
    refine (recording.phases index).frame (fun insideFile => ?_) fun turn member => ?_
    · have owns := recording.sound.guarded (.handler index) (Or.inl insideFile)
      refine moves.apart ?_ (by simp [owns])
      by_contra inside
      exact recording.sound.apart running (eq_true_of_ne_false inside) insideFile
    · rcases moves.added_eq with none | ⟨one, _⟩
      · simp [none] at member
      · rw [one, List.mem_singleton] at member
        simp [member, Turn.client]
  · intro other point' running'
    by_cases same : other = thread
    · subst other
      cases control : effect.control with
      | goto point'' =>
          rw [timed.applyTimestamp_goto thread point control] at running'
          cases running'
          exact next point' control
      | done =>
          rw [timed.applyTimestamp_done thread point control] at running'
          contradiction
      | crash => exact absurd control noCrash
    · rw [timed.applyTimestamp_alarms_of_ne thread point effect same] at running'
      refine (recording.alarms other point' running').frame fun inside' => ?_
      have owns := recording.sound.guarded other (Or.inr ⟨point', running', inside'⟩)
      refine moves.apart ?_ (by simp [owns])
      by_contra inside
      have owns' := guarded (eq_true_of_ne_false inside)
      exact same (Option.some.inj (owns.symm.trans owns'))
  · have nobody : (newTimestamp point effect.control).filterMap Turn.client = [] := by
      rcases moves.added_eq with none | ⟨one, _⟩
      · rw [none]
        rfl
      · rw [one]
        rfl
    rw [applyTimestamp_turns, List.filterMap_append, nobody, List.append_nil]
    exact recording.once
  · exact recording.timestamp_owner running ok' timestampMove

/-- A step of the process that touches neither the file nor a handler. -/
theorem Recording.of_same {process : Process Bytes} (recording : Recording timed)
    (file : process.file = timed.process.file)
    (handlers : process.handlers = timed.process.handlers)
    (sound : Sound ⟨process, timed.alarms, timed.turns ++ newTurns timed.process process⟩) :
    Recording ⟨process, timed.alarms, timed.turns ++ newTurns timed.process process⟩ := by
  have none : timed.turns ++ newTurns timed.process process = timed.turns := by
    rw [newTurns_of_same (by rw [file]), List.append_nil]
  simp only [none] at sound ⊢
  refine ⟨sound, ?_, ?_, ?_, ?_, recording.once, ?_⟩
  · simpa only [file] using recording.free
  · simpa only [file] using recording.seeks
  · simpa only [file, handlers] using recording.phases
  · simpa only [file] using recording.alarms
  · intro thread owns
    rw [file] at owns
    refine (recording.owner thread owns).imp_left fun inside => ?_
    cases thread with
    | main => exact inside
    | handler index => simpa only [Process.InFileSection, handlers] using inside

theorem Recording.step {label : TimedLabel (Option Nat)} {target : Timed Bytes}
    (recording : Recording timed) (serves : timed.ServesFile label)
    (stepped : Timed.step dataFile label timed = some target) : Recording target := by
  have sound := recording.sound.step stepped
  rcases step_cases stepped with ⟨label', process, rfl, undisturbed, made, rfl⟩ |
    ⟨thread, rfl, _, idle, rfl⟩ | ⟨thread, outcomes, point, effect, rfl, running, made, rfl⟩
  · rcases Process.step_cases made with
      ⟨rfl, rfl⟩ | ⟨ok, effect, rfl, _, rfl⟩ | ⟨index, outcomes, effect, rfl, _, moved, rfl⟩
    · exact recording.of_same rfl rfl sound
    · exact recording.of_same rfl rfl sound
    · exact recording.handler serves moved sound
  · refine { recording with sound := sound, alarms := ?_, owner := ?_ }
    · intro other point running
      have running : Function.update timed.alarms thread (some PrintTimestamp.format) other =
        some point := running
      by_cases same : other = thread
      · subst other
        rw [Function.update_self] at running
        cases running
        trivial
      · rw [Function.update_of_ne same] at running
        exact recording.alarms other point running
    · intro other owns
      refine (recording.owner other owns).imp_right (Or.imp_left ?_)
      rintro ⟨point, running, inside⟩
      have differs : other ≠ thread := by
        rintro rfl
        simp [idle] at running
      exact ⟨point, (Function.update_of_ne differs ..).trans running, inside⟩
  · exact recording.timestamp running serves.1 serves.2 made sound

end Recording

end Timed

end Aesd.Server
