import Aesd.Server.Serial
import Aesd.Server.TurnOrder

/-!
# Timestamps

Built with `USE_AESD_CHAR_DEVICE` zero the server keeps its data in a plain file, and a
timer makes `print_timestamp` run every ten seconds.  It is the handler of a signal: it
runs on top of whichever thread the signal is delivered to, which does nothing else until
the handler has returned.  The mutex it locks may be the one this thread holds.
-/

namespace Aesd.Server

open Aesd.Driver
open Aesd.Mutex
open Aesd.Transition

variable {δ χ : Type}

/-! ## The data file -/

/-- The plain file that `tmp_file` names, opened for appending; the choice is how many bytes
`write` takes, or that it fails. -/
def dataFile : Device Bytes (Option Nat) := fun room request fPos content =>
  match request with
  | .write bytes =>
      match room with
      | none => some ⟨-1, [], fPos, content⟩
      | some room =>
          let taken := bytes.take room
          some ⟨taken.length, [], (content ++ taken).length, content ++ taken⟩
  | .read count =>
      let delivered := (content.drop fPos.toNat).take count
      some ⟨delivered.length, delivered, fPos + delivered.length, content⟩
  | .llseek off whence =>
      let newpos :=
        match whence with
        | 0 => off
        | 1 => fPos + off
        | 2 => content.length + off
        | _ => -1
      if newpos < 0 then some ⟨-einval, [], fPos, content⟩ else some ⟨newpos, [], newpos, content⟩
  | .ioctl _ => some ⟨-enotty, [], fPos, content⟩

/-! ## Steps outside of the section -/

/-- What a step of a handler from outside of its section does: it stays outside, or it
obtains the mutex. -/
inductive OutsideMove (index : Nat) (file : DeviceFile δ) : Pc → Effect δ → Prop
  | stay {pc : Pc} {control : Control Pc} {clients : Clients} :
      (control.point pc).inFileSection = false →
      (pc.hasReleasedFile = true → (control.point pc).hasReleasedFile = true) →
      OutsideMove index file pc ⟨control, [], file, clients⟩
  | packet (bytes : Bytes) {clients : Clients} : file.mutex = none →
      OutsideMove index file (.lockFile bytes) ⟨.goto (.openFile bytes), [],
        { file with mutex := some (.handler index), order := file.order ++ [index] }, clients⟩
  | seek (cmd : AesdSeekto) {clients : Clients} : file.mutex = none →
      OutsideMove index file (.handleIoctl (.lock cmd)) ⟨.goto (.handleIoctl (.open cmd)), [],
        { file with mutex := some (.handler index), order := file.order ++ [index] }, clients⟩

theorem Pc.outsideMove {device : Device δ χ} {index : Nat} {returned : Nat → Bool}
    {outcomes : Outcomes χ} {file : DeviceFile δ} {clients : Clients} {pc : Pc}
    {effect : Effect δ} (outside : pc.inFileSection = false)
    (stepped : pc.step device index returned outcomes file clients = some effect) :
    OutsideMove index file pc effect := by
  cases pc with
  | start =>
      simp only [step] at stepped
      split at stepped <;> cases stepped <;> exact .stay rfl (by simp [hasReleasedFile])
  | recv buffer =>
      simp only [step] at stepped
      split at stepped
      · cases stepped
        exact .stay rfl (by simp [hasReleasedFile])
      · split at stepped <;> cases stepped <;> exact .stay rfl (by simp [hasReleasedFile])
  | handleIoctl point =>
      obtain ⟨⟨control, sent, file'⟩, ioctlStep, rfl⟩ := Option.map_eq_some_iff.mp stepped
      cases point with
      | parse cmdBuffer =>
          simp only [HandleIoctl.step] at ioctlStep
          split at ioctlStep <;> cases ioctlStep <;> exact .stay rfl (by simp [hasReleasedFile])
      | lock cmd =>
          obtain ⟨⟨next, file''⟩, called, equal⟩ := Option.map_eq_some_iff.mp ioctlStep
          cases equal
          rcases DeviceFile.lockThen_cases called with ⟨_, free, rfl, rfl⟩ | ⟨_, rfl, rfl⟩
          · exact .seek cmd free
          · exact .stay rfl (by simp [hasReleasedFile])
      | _ => contradiction
  | lockFile bytes =>
      obtain ⟨⟨next, file'⟩, called, rfl⟩ := Option.map_eq_some_iff.mp stepped
      rcases DeviceFile.lockThen_cases called with ⟨_, free, rfl, rfl⟩ | ⟨_, rfl, rfl⟩
      · exact .packet bytes free
      · exact .stay rfl (by simp [hasReleasedFile])
  | setComplete point =>
      obtain ⟨⟨control, clients'⟩, _, rfl⟩ := Option.map_eq_some_iff.mp stepped
      cases control <;> exact .stay rfl fun _ => rfl
  | returned => contradiction
  | _ => contradiction

/-! ## `print_timestamp` -/

/-- `timestamp:%s \n`, with the string that `strftime` stores in a buffer of fifty
bytes. -/
def timestampLine (timestampStr : Bytes) : Bytes :=
  [116, 105, 109, 101, 115, 116, 97, 109, 112, 58] ++ cString (timestampStr.take 49) ++
    [32, newline]

/-- What is decided outside during one step of `print_timestamp`: whether the library call
succeeds, what `strftime` stores, and what the file system decides. -/
structure TimestampOutcomes (χ : Type) where
  ok : Bool
  timestampStr : Bytes
  device : χ

/-- The program points of `print_timestamp`. -/
inductive PrintTimestamp
  | format
  | lock (timestampLine : Bytes)
  | openFile (timestampLine : Bytes)
  | cleanup (point : Cleanup)
  | flush (bytes : Bytes) (fPos : Int)
  | unlock

/-- What one step of `print_timestamp` changes: the control, the file and the list. -/
structure TimestampEffect (δ : Type) where
  control : Control PrintTimestamp
  file : DeviceFile δ
  clients : Clients

/-- One step of `print_timestamp` on top of `thread`. -/
def PrintTimestamp.step (device : Device δ χ) (thread : Thread) (returned : Nat → Bool)
    (outcomes : TimestampOutcomes χ) (file : DeviceFile δ) (clients : Clients) :
    PrintTimestamp → Option (TimestampEffect δ)
  | .format =>
      -- with `ok` false the time is not obtained, not converted or not formatted
      if outcomes.ok then
        some ⟨.goto (.lock (timestampLine outcomes.timestampStr)), file, clients⟩
      else
        some ⟨.done, file, clients⟩
  | .lock line =>
      match Mutex.lock file.mutex thread outcomes.ok with
      | none => none
      | some (true, owner) => some ⟨.goto (.openFile line), { file with mutex := owner }, clients⟩
      | some (false, owner) => some ⟨.done, { file with mutex := owner }, clients⟩
  | .openFile line =>
      if outcomes.ok then
        some ⟨.goto (.flush line 0), file, clients⟩
      else
        some ⟨.goto (.cleanup .start), file, clients⟩
  | .cleanup point =>
      -- behind the cleanup `fwrite` gets the null pointer
      (point.step thread returned outcomes.ok clients).map fun (control, clients) =>
        ⟨control.embed .cleanup .crash, file, clients⟩
  | .flush bytes fPos =>
      match device outcomes.device (.write bytes) fPos file.device with
      | none => none
      | some reply =>
          let file := { file with device := reply.device }
          if 0 ≤ reply.retval ∧ reply.retval < bytes.length then
            some ⟨.goto (.flush (bytes.drop reply.retval.toNat) reply.fPos), file, clients⟩
          else
            some ⟨.goto .unlock, file, clients⟩
  | .unlock => some ⟨.done, file.unlock outcomes.ok, clients⟩

/-- The points between the lock of `file_mutex` and its unlock. -/
def PrintTimestamp.inSection : PrintTimestamp → Bool
  | .format | .lock _ => false
  | .openFile _ | .cleanup _ | .flush .. | .unlock => true

/-- The steps of `print_timestamp`, one by one. -/
inductive TimestampMove (device : Device δ χ) (thread : Thread) (returned : Nat → Bool)
    (outcomes : TimestampOutcomes χ) (file : DeviceFile δ) (clients : Clients) :
    PrintTimestamp → TimestampEffect δ → Prop
  | format : outcomes.ok = true → TimestampMove device thread returned outcomes file clients
      .format ⟨.goto (.lock (timestampLine outcomes.timestampStr)), file, clients⟩
  | giveUp {point : PrintTimestamp} : outcomes.ok = false →
      (point = .format ∨ ∃ line, point = .lock line) →
      TimestampMove device thread returned outcomes file clients point ⟨.done, file, clients⟩
  | obtain (line : Bytes) : file.mutex = none →
      TimestampMove device thread returned outcomes file clients (.lock line)
        ⟨.goto (.openFile line), { file with mutex := some thread }, clients⟩
  | opened (line : Bytes) : outcomes.ok = true →
      TimestampMove device thread returned outcomes file clients (.openFile line)
        ⟨.goto (.flush line 0), file, clients⟩
  | openFails (line : Bytes) : outcomes.ok = false →
      TimestampMove device thread returned outcomes file clients (.openFile line)
        ⟨.goto (.cleanup .start), file, clients⟩
  | cleanup {point : Cleanup} {control : Control Cleanup} {clients' : Clients} :
      point.step thread returned outcomes.ok clients = some (control, clients') →
      TimestampMove device thread returned outcomes file clients (.cleanup point)
        ⟨control.embed .cleanup .crash, file, clients'⟩
  | flush {bytes : Bytes} {fPos : Int} {reply : Reply δ} :
      device outcomes.device (.write bytes) fPos file.device = some reply →
      0 ≤ reply.retval ∧ reply.retval < bytes.length →
      TimestampMove device thread returned outcomes file clients (.flush bytes fPos)
        ⟨.goto (.flush (bytes.drop reply.retval.toNat) reply.fPos),
          { file with device := reply.device }, clients⟩
  | flushed {bytes : Bytes} {fPos : Int} {reply : Reply δ} :
      device outcomes.device (.write bytes) fPos file.device = some reply →
      ¬ (0 ≤ reply.retval ∧ reply.retval < bytes.length) →
      TimestampMove device thread returned outcomes file clients (.flush bytes fPos)
        ⟨.goto .unlock, { file with device := reply.device }, clients⟩
  | unlock : TimestampMove device thread returned outcomes file clients .unlock
      ⟨.done, file.unlock outcomes.ok, clients⟩

/-- There are no other steps. -/
theorem PrintTimestamp.move {device : Device δ χ} {thread : Thread} {returned : Nat → Bool}
    {outcomes : TimestampOutcomes χ} {file : DeviceFile δ} {clients : Clients}
    {point : PrintTimestamp} {effect : TimestampEffect δ}
    (stepped : point.step device thread returned outcomes file clients = some effect) :
    TimestampMove device thread returned outcomes file clients point effect := by
  cases point with
  | format =>
      simp only [step] at stepped
      split at stepped <;> cases stepped
      · exact .format ‹_›
      · exact .giveUp (by simpa using ‹¬ outcomes.ok = true›) (Or.inl rfl)
  | lock line =>
      simp only [step] at stepped
      split at stepped
      · contradiction
      · rename_i obtained
        obtain ⟨_, free, rfl⟩ := lock_obtains_iff.mp obtained
        cases stepped
        exact .obtain line free
      · rename_i failed
        obtain ⟨fails, rfl⟩ := lock_fails_iff.mp failed
        cases stepped
        exact .giveUp fails (Or.inr ⟨line, rfl⟩)
  | openFile line =>
      simp only [step] at stepped
      split at stepped <;> cases stepped
      · exact .opened line ‹_›
      · exact .openFails line (by simpa using ‹¬ outcomes.ok = true›)
  | cleanup point =>
      obtain ⟨⟨control, clients'⟩, cleanupStep, rfl⟩ := Option.map_eq_some_iff.mp stepped
      exact .cleanup cleanupStep
  | flush bytes fPos =>
      simp only [step] at stepped
      split at stepped
      · contradiction
      · split at stepped <;> cases stepped
        · exact .flush ‹_› ‹_›
        · exact .flushed ‹_› ‹_›
  | unlock =>
      cases stepped
      exact .unlock

/-! ## The server with its timer -/

/-- A turn at the file: a packet that is written, a seek command, or a timestamp. -/
inductive Turn
  | packet (index : Nat) (text : Bytes)
  | seek (index : Nat)
  | timestamp (text : Bytes)

/-- The turn that a handler takes when it obtains the mutex. -/
def Pc.turn (index : Nat) : Pc → Turn
  | .lockFile bytes => .packet index bytes
  | _ => .seek index

/-- The process with the runs of `print_timestamp` that are under way.  `turns` records who
has obtained `file_mutex`, in this order. -/
structure Timed (δ : Type) where
  process : Process δ
  alarms : Thread → Option PrintTimestamp
  turns : List Turn

/-- What happens: a step of the process, the signal of the timer, or a step of
`print_timestamp`. -/
inductive TimedLabel (χ : Type)
  | process (label : Label χ)
  | alarm (thread : Thread)
  | timestamp (thread : Thread) (outcomes : TimestampOutcomes χ)

/-- The threads there are. -/
def Process.Runs (process : Process δ) : Thread → Prop
  | .main => True
  | .handler index => index < process.created ∧ process.returned index = false

instance (process : Process δ) (thread : Thread) : Decidable (process.Runs thread) :=
  match thread with
  | .main => inferInstanceAs (Decidable True)
  | .handler index =>
      inferInstanceAs (Decidable (index < process.created ∧ process.returned index = false))

namespace Timed

/-- `main` has reached the accept loop, and the timer is set. -/
def start (device : δ) : Timed δ :=
  ⟨Process.start device, fun _ => none, []⟩

/-- The turns that begin with a step of the process. -/
def newTurns (process process' : Process δ) : List Turn :=
  (process'.file.order.drop process.file.order.length).map fun index =>
    (process.handlers index).pc.turn index

/-- The turn that begins with a step of `print_timestamp`. -/
def newTimestamp : PrintTimestamp → Control PrintTimestamp → List Turn
  | .lock line, .goto _ => [.timestamp line]
  | _, _ => []

@[simp]
theorem newTimestamp_done (point : PrintTimestamp) : newTimestamp point .done = [] := by
  cases point <;> rfl

theorem newTimestamp_of_inSection {point : PrintTimestamp} (inside : point.inSection = true)
    (control : Control PrintTimestamp) : newTimestamp point control = [] := by
  cases point <;> first | contradiction | rfl

/-- The server after a step of `print_timestamp`; a crash ends the process. -/
def applyTimestamp (timed : Timed δ) (thread : Thread) (point : PrintTimestamp)
    (effect : TimestampEffect δ) : Timed δ where
  process := { timed.process with
    file := effect.file
    clients := effect.clients
    alive := match effect.control with
      | .crash => false
      | .goto _ | .done => true }
  alarms := Function.update timed.alarms thread
    (match effect.control with
      | .goto next => some next
      | .done => none
      | .crash => some point)
  turns := timed.turns ++ newTimestamp point effect.control

section Apply

variable (timed : Timed δ) (thread : Thread) (point : PrintTimestamp) (effect : TimestampEffect δ)

@[simp]
theorem applyTimestamp_file :
    (timed.applyTimestamp thread point effect).process.file = effect.file :=
  rfl

@[simp]
theorem applyTimestamp_handlers :
    (timed.applyTimestamp thread point effect).process.handlers = timed.process.handlers :=
  rfl

@[simp]
theorem applyTimestamp_turns :
    (timed.applyTimestamp thread point effect).turns =
      timed.turns ++ newTimestamp point effect.control :=
  rfl

theorem applyTimestamp_alarms_of_ne {other : Thread} (differs : other ≠ thread) :
    (timed.applyTimestamp thread point effect).alarms other = timed.alarms other :=
  Function.update_of_ne differs ..

variable {effect}

theorem applyTimestamp_goto {next : PrintTimestamp} (control : effect.control = .goto next) :
    (timed.applyTimestamp thread point effect).alarms thread = some next := by
  rw [applyTimestamp, control]
  exact Function.update_self ..

theorem applyTimestamp_done (control : effect.control = .done) :
    (timed.applyTimestamp thread point effect).alarms thread = none := by
  rw [applyTimestamp, control]
  exact Function.update_self ..

end Apply

/-- One step of the server.  The signal comes at any time, to any thread that does not
handle it already. -/
def step (device : Device δ χ) : Step (TimedLabel χ) (Timed δ) := fun label timed =>
  match label with
  | .process label =>
      if label.thread.any fun thread => (timed.alarms thread).isSome then
        none
      else
        (Process.step device label timed.process).map fun process =>
          { timed with process := process, turns := timed.turns ++ newTurns timed.process process }
  | .alarm thread =>
      if timed.process.alive = true ∧ timed.process.Runs thread ∧ timed.alarms thread = none then
        some { timed with alarms := Function.update timed.alarms thread (some .format) }
      else
        none
  | .timestamp thread outcomes =>
      if timed.process.alive = false then
        none
      else
        match timed.alarms thread with
        | none => none
        | some point =>
            (point.step device thread timed.process.returned outcomes timed.process.file
              timed.process.clients).map (timed.applyTimestamp thread point)

/-- What a step is. -/
theorem step_cases {device : Device δ χ} {label : TimedLabel χ} {timed target : Timed δ}
    (stepped : step device label timed = some target) :
    (∃ label' process, label = .process label' ∧
        (∀ thread, label'.thread = some thread → timed.alarms thread = none) ∧
        Process.step device label' timed.process = some process ∧
        target = ⟨process, timed.alarms, timed.turns ++ newTurns timed.process process⟩) ∨
      (∃ thread, label = .alarm thread ∧ timed.process.Runs thread ∧
        timed.alarms thread = none ∧
        target = { timed with alarms := Function.update timed.alarms thread (some .format) }) ∨
      ∃ thread outcomes point effect, label = .timestamp thread outcomes ∧
        timed.alarms thread = some point ∧
        point.step device thread timed.process.returned outcomes timed.process.file
          timed.process.clients = some effect ∧
        target = timed.applyTimestamp thread point effect := by
  cases label with
  | process label =>
      simp only [step] at stepped
      split at stepped
      · contradiction
      · rename_i undisturbed
        obtain ⟨process, made, rfl⟩ := Option.map_eq_some_iff.mp stepped
        refine Or.inl ⟨label, process, rfl, fun thread isThread => ?_, made, rfl⟩
        simpa [isThread] using undisturbed
  | alarm thread =>
      simp only [step] at stepped
      split at stepped
      · rename_i possible
        cases stepped
        exact Or.inr (Or.inl ⟨thread, rfl, possible.2.1, possible.2.2, rfl⟩)
      · contradiction
  | timestamp thread outcomes =>
      simp only [step] at stepped
      split at stepped
      · contradiction
      · split at stepped
        · contradiction
        · rename_i point running
          obtain ⟨effect, made, rfl⟩ := Option.map_eq_some_iff.mp stepped
          exact Or.inr (Or.inr ⟨thread, outcomes, point, effect, rfl, running, made, rfl⟩)

end Timed

/-! ## The mutex -/

/-- What a step of the process does to the mutex and the sections. -/
theorem Process.file_move {device : Device δ χ} {label : Label χ} {process target : Process δ}
    (stepped : Process.step device label process = some target) :
    target.file = process.file ∧
        (∀ thread, target.InFileSection thread ↔ process.InFileSection thread) ∨
      ∃ index outcomes, label = .handler index outcomes ∧
        Move (.handler index) (process.InFileSection (.handler index))
          (target.InFileSection (.handler index)) process.file.mutex target.file.mutex ∧
        ∀ other, other ≠ .handler index →
          (target.InFileSection other ↔ process.InFileSection other) := by
  rcases Process.step_cases stepped with
    ⟨_, rfl⟩ | ⟨ok, effect, _, _, rfl⟩ | ⟨index, outcomes, effect, rfl, _, made, rfl⟩
  · exact Or.inl ⟨rfl, fun _ => Iff.rfl⟩
  · exact Or.inl ⟨rfl, fun _ => Iff.rfl⟩
  · refine Or.inr ⟨index, outcomes, rfl, ?_, fun other =>
      Process.inFileSection_applyHandler⟩
    simp only [Process.InFileSection, Process.applyHandler_self, Process.applyHandler_file]
    rcases Pc.step_fileMutex made with exactly | ⟨_, inside, _, same⟩
    · exact exactly.move
    · rw [same]
      exact Move.stay fun _ => inside

namespace Timed

variable {device : Device δ χ} {timed target : Timed δ} {label : TimedLabel χ}
  {thread : Thread} {point : PrintTimestamp}

/-- The thread runs `print_timestamp` between its lock and its unlock. -/
def InTimestamp (timed : Timed δ) (thread : Thread) : Prop :=
  ∃ point, timed.alarms thread = some point ∧ point.inSection = true

/-- A thread inside a section owns the mutex, and it is inside one section only. -/
structure Sound (timed : Timed δ) : Prop where
  guarded : Guarded timed.process.file.mutex fun thread =>
    timed.process.InFileSection thread ∨ timed.InTimestamp thread
  exclusive : ∀ thread, timed.process.InFileSection thread → ¬ timed.InTimestamp thread

theorem sound_start (initial : δ) : Sound (start initial) where
  guarded thread inside := by
    rcases inside with inside | ⟨_, running, _⟩
    · exact (Process.exact_start initial).guarded thread inside
    · contradiction
  exclusive thread _ := fun ⟨_, running, _⟩ => by contradiction

/-- The owner of the mutex is in a section of the process or of `print_timestamp`. -/
theorem inTimestamp_iff (running : timed.alarms thread = some point) :
    timed.InTimestamp thread ↔ point.inSection = true := by
  constructor
  · rintro ⟨_, running', inside⟩
    rw [running] at running'
    cases running'
    exact inside
  · exact fun inside => ⟨point, running, inside⟩

theorem inTimestamp_applyTimestamp_of_ne {effect : TimestampEffect δ} {other : Thread}
    (differs : other ≠ thread) :
    (timed.applyTimestamp thread point effect).InTimestamp other ↔ timed.InTimestamp other := by
  simp only [InTimestamp, applyTimestamp, Function.update_of_ne differs]

/-- What a step of `print_timestamp` does to the mutex. -/
theorem timestamp_move {returned : Nat → Bool} {outcomes : TimestampOutcomes χ}
    {clients : Clients} {effect : TimestampEffect δ}
    (running : timed.alarms thread = some point)
    (made : point.step device thread returned outcomes timed.process.file clients =
      some effect) :
    Move thread (timed.InTimestamp thread)
      ((timed.applyTimestamp thread point effect).InTimestamp thread)
      timed.process.file.mutex effect.file.mutex := by
  rw [inTimestamp_iff running]
  have goto_iff {next : PrintTimestamp} {file : DeviceFile δ} {clients' : Clients} :
      (timed.applyTimestamp thread point ⟨.goto next, file, clients'⟩).InTimestamp thread ↔
        next.inSection = true :=
    inTimestamp_iff (Function.update_self ..)
  have not_of_done {file : DeviceFile δ} {clients' : Clients} :
      ¬ (timed.applyTimestamp thread point ⟨.done, file, clients'⟩).InTimestamp thread := by
    rintro ⟨_, running', _⟩
    simp [applyTimestamp] at running'
  cases PrintTimestamp.move made with
  | format _ => exact Move.stay fun inside => by simp [goto_iff, PrintTimestamp.inSection] at inside
  | giveUp _ _ => exact Move.stay fun inside => absurd inside not_of_done
  | obtain line free =>
      rw [free]
      exact Move.acquire
  | opened line _ | openFails line _ | flush _ _ | flushed _ _ => exact Move.stay fun _ => rfl
  | cleanup _ => exact Move.stay fun _ => rfl
  | unlock => exact Move.of_unlock rfl not_of_done

theorem Sound.step (sound : Sound timed) (stepped : step device label timed = some target) :
    Sound target := by
  rcases step_cases stepped with ⟨label', process, rfl, undisturbed, made, rfl⟩ |
    ⟨thread, rfl, _, idle, rfl⟩ | ⟨thread, outcomes, point, effect, rfl, running, made, rfl⟩
  · rcases Process.file_move made with ⟨same, sections⟩ | ⟨index, outcomes, rfl, moves, others⟩
    · refine ⟨?_, fun thread inside => sound.exclusive thread ((sections thread).mp inside)⟩
      intro thread inside
      rw [same]
      exact sound.guarded thread (inside.imp_left (sections thread).mp)
    · -- the handler is not in `print_timestamp`
      have outside : ¬ timed.InTimestamp (.handler index) := by
        rintro ⟨_, running, _⟩
        simp [undisturbed _ rfl] at running
      constructor
      · refine sound.guarded.move (.handler index) ?_ fun other differs inside =>
          inside.imp_left (others other differs).mp
        show Move _ (_ ∨ timed.InTimestamp (.handler index))
          (_ ∨ timed.InTimestamp (.handler index)) _ _
        rwa [or_iff_left outside, or_iff_left outside]
      · intro thread inside
        by_cases same : thread = .handler index
        · rw [same]
          exact outside
        · exact sound.exclusive thread ((others thread same).mp inside)
  · have same (other : Thread) :
        InTimestamp { timed with alarms := Function.update timed.alarms thread (some .format) }
          other ↔ timed.InTimestamp other := by
      by_cases this : other = thread
      · subst other
        rw [inTimestamp_iff (Function.update_self ..)]
        simp [InTimestamp, idle, PrintTimestamp.inSection]
      · simp only [InTimestamp, Function.update_of_ne this]
    refine ⟨fun other inside => sound.guarded other (inside.imp_right (same other).mp), ?_⟩
    exact fun other inside timestamp => sound.exclusive other inside ((same other).mp timestamp)
  · have moves := timestamp_move running made
    have others {other : Thread} (differs : other ≠ thread) :
        (timed.applyTimestamp thread point effect).InTimestamp other ↔ timed.InTimestamp other :=
      inTimestamp_applyTimestamp_of_ne differs
    constructor
    · refine sound.guarded.move thread ?_ fun other differs inside =>
        inside.imp_right (others differs).mp
      exact moves.or_left (sound.exclusive thread)
    · intro other inside inTimestamp
      by_cases same : other = thread
      · subst other
        rcases moves.before_or_free inTimestamp with before | free
        · exact sound.exclusive thread inside before
        · simp [sound.guarded thread (Or.inl inside)] at free
      · exact sound.exclusive other inside ((others same).mp inTimestamp)

/-! ## A mutex that is held below the signal -/

/-- `print_timestamp` waits for the mutex that the thread below it holds. -/
def Frozen (timed : Timed δ) (thread : Thread) : Prop :=
  timed.process.file.mutex = some thread ∧ ∃ line, timed.alarms thread = some (.lock line)

/-- The step is not a failure of the lock in the run of `print_timestamp` on top of
`thread`. -/
def LockWorks (thread : Thread) (timed : Timed δ) (label : TimedLabel χ) : Prop :=
  ∀ outcomes, label = .timestamp thread outcomes →
    (∃ line, timed.alarms thread = some (.lock line)) → outcomes.ok = true

/-- Nobody has come to the file, and no client has been sent anything. -/
structure Stopped (timed target : Timed δ) : Prop where
  file : target.process.file = timed.process.file
  turns : target.turns = timed.turns
  sent : ∀ index, (target.process.handlers index).sent = (timed.process.handlers index).sent

theorem newTurns_of_same {process process' : Process δ}
    (same : process'.file.order = process.file.order) : newTurns process process' = [] := by
  rw [newTurns, same, List.drop_length, List.map_nil]

theorem Sound.stopped_step (sound : Sound timed) (frozen : timed.Frozen thread)
    (works : LockWorks thread timed label) (stepped : Timed.step device label timed = some target) :
    target.Frozen thread ∧ Stopped timed target := by
  obtain ⟨owns, line, waits⟩ := frozen
  rcases step_cases stepped with ⟨label', process, rfl, undisturbed, made, rfl⟩ |
    ⟨other, rfl, _, idle, rfl⟩ | ⟨other, outcomes, point, effect, rfl, running, made, rfl⟩
  · -- a step of the process that leaves the file and the clients alone
    have stops (file : process.file = timed.process.file)
        (sent : ∀ index, (process.handlers index).sent = (timed.process.handlers index).sent) :
        Frozen ⟨process, timed.alarms, timed.turns ++ newTurns timed.process process⟩ thread ∧
          Stopped timed ⟨process, timed.alarms, timed.turns ++ newTurns timed.process process⟩ := by
      refine ⟨⟨by rw [file]; exact owns, line, waits⟩, file, ?_, sent⟩
      rw [newTurns_of_same (by rw [file]), List.append_nil]
    rcases Process.step_cases made with
      ⟨_, rfl⟩ | ⟨ok, effect, _, _, rfl⟩ | ⟨index, outcomes, effect, rfl, _, moved, rfl⟩
    · exact stops rfl fun _ => rfl
    · exact stops rfl fun _ => rfl
    · have differs : thread ≠ .handler index := by
        rintro rfl
        simp [undisturbed _ rfl] at waits
      have outside : (timed.process.handlers index).pc.inFileSection = false := by
        by_contra inside
        have owns' := sound.guarded (.handler index) (Or.inl (eq_true_of_ne_false inside))
        exact differs (Option.some.inj (owns.symm.trans owns'))
      have quiet : effect.file = timed.process.file ∧ effect.sent = [] := by
        have moves := Pc.outsideMove outside moved
        generalize (timed.process.handlers index).pc = pc at moves
        cases moves with
        | stay _ _ => exact ⟨rfl, rfl⟩
        | packet _ free | seek _ free => simp [owns] at free
      refine stops quiet.1 fun other => ?_
      by_cases same : other = index
      · subst other
        rw [Process.applyHandler_self, quiet.2, List.append_nil]
      · rw [timed.process.applyHandler_of_ne index _ same]
  · have differs : thread ≠ other := by
      rintro rfl
      simp [idle] at waits
    have waits' : Function.update timed.alarms other (some PrintTimestamp.format) thread =
        some (.lock line) := by
      rw [Function.update_of_ne differs, waits]
    exact ⟨⟨owns, line, waits'⟩, rfl, rfl, fun _ => rfl⟩
  · by_cases same : other = thread
    · -- the lock neither fails nor is obtained
      subst other
      rw [waits, Option.some.injEq] at running
      subst point
      cases PrintTimestamp.move made with
      | giveUp failed _ => simp [works outcomes rfl ⟨line, waits⟩] at failed
      | obtain _ free => simp [owns] at free
    · -- another one is not inside
      have outside : point.inSection = false := by
        by_contra inside
        have owns' := sound.guarded other (Or.inr ⟨point, running, by simpa using inside⟩)
        exact same (Option.some.inj (owns'.symm.trans owns))
      have waits' :
          (timed.applyTimestamp other point effect).alarms thread = some (.lock line) := by
        rw [timed.applyTimestamp_alarms_of_ne other point effect (Ne.symm same), waits]
      cases PrintTimestamp.move made with
      | format _ =>
          exact ⟨⟨owns, line, waits'⟩, rfl, List.append_nil _, fun _ => rfl⟩
      | giveUp _ _ =>
          refine ⟨⟨owns, line, waits'⟩, rfl, ?_, fun _ => rfl⟩
          rw [applyTimestamp_turns, newTimestamp_done, List.append_nil]
      | obtain _ free => simp [owns] at free
      | _ => contradiction

/-- Once it waits, it waits for good. -/
theorem Sound.stopped_run (sound : Sound timed) (frozen : timed.Frozen thread)
    {labels : List (TimedLabel χ)}
    (run : Run (Timed.step device) (LockWorks thread) timed labels target) :
    target.Frozen thread ∧ Stopped timed target := by
  have stopped : Sound target ∧ target.Frozen thread ∧ Stopped timed target := by
    refine run.invariant (fun _ target => Sound target ∧ target.Frozen thread ∧
      Stopped timed target) ⟨sound, frozen, rfl, rfl, fun _ => rfl⟩ ?_
    rintro labels middle label target ⟨sound, frozen, before⟩ works stepped
    obtain ⟨frozen', after⟩ := sound.stopped_step frozen works stepped
    exact ⟨sound.step stepped, frozen', after.file.trans before.file,
      after.turns.trans before.turns, fun index => (after.sent index).trans (before.sent index)⟩
  exact stopped.2

end Timed

/-- A step of a handler on the data file during which nothing fails. -/
def onDataFile (chunk : Bytes) : Outcomes (Option Nat) :=
  ⟨true, chunk, fun _ => 0, 0, 4096, some 4096⟩

/-- The signal comes to the handler of the first client when it has obtained the mutex. -/
def interruptedTurn : List (TimedLabel (Option Nat)) :=
  List.replicate 2 (.process (.main true)) ++
    List.replicate 3 (.process (.handler 0 (onDataFile [97, 10]))) ++
    [.alarm (.handler 0), .timestamp (.handler 0) ⟨true, [48], some 4096⟩]

end Aesd.Server
