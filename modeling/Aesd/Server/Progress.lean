import Aesd.Server.Answers
import Mathlib.Algebra.Order.BigOperators.Group.Finset

/-!
# No client waits for good

While nothing fails inside the sections, each handler can go on unless it waits for
`file_mutex`, and the owner of the mutex does not wait.  All clients that have been accepted
can therefore be served, unless a seek is rejected.
-/

namespace Aesd.Server

open Aesd.Driver
open Aesd.Mutex
open Aesd.Ring
open Aesd.Transition
open Aesd.Word

/-! ## One handler -/

/-- An upper bound for what the device holds. -/
def deviceRoom : Nat :=
  10 * bufferSize

/-- An upper bound for the steps that are left up to the end of the turn. -/
def Pc.stepsLeft : Pc → Nat
  | .start => 2 * deviceRoom + 10
  | .recv _ => 2 * deviceRoom + 9
  | .handleIoctl point =>
      match point with
      | .parse _ => 2 * deviceRoom + 8
      | .lock _ => 2 * deviceRoom + 7
      | .open _ => 2 * deviceRoom + 6
      | .ioctl _ => 2 * deviceRoom + 5
      | .read _ fPos => (deviceRoom - fPos.toNat) + 2
      | .unlock => 1
  | .lockFile _ => 2 * deviceRoom + 7
  | .openFile _ => 2 * deviceRoom + 6
  | .cleanup _ => 0
  | .flush .. => 2 * deviceRoom + 5
  | .seek _ => 2 * deviceRoom + 4
  | .echo _ ahead fPos => 2 * (deviceRoom - fPos.toNat) + ahead.length + 2
  | .unlockFile => 1
  | .setComplete _ | .returned => 0

/-- The step of a handler when nothing fails. -/
def serving (packet : Nat → Packet) (index : Nat) : Outcomes DriverOutcomes :=
  Outcomes.success (packet index).bytes

theorem servesAll_serving (packet : Nat → Packet) (index : Nat) :
    ∀ process, ServesAll packet process (.handler index (serving packet index)) :=
  fun _ => ⟨fun _ => rfl, Or.inl rfl, show 0 < 4096 by decide, DriverOutcomes.succeed_success,
    rfl⟩

/-- The handler can take a step that does not end the process and comes closer to the end
of its turn. -/
def Advances (packet : Nat → Packet) (file : DeviceFile AesdDev) (index : Nat) (pc : Pc) :
    Prop :=
  ∀ returned clients, ∃ effect,
    pc.step aesdchar index returned (serving packet index) file clients = some effect ∧
      effect.control.goesOn = true ∧ (effect.control.point pc).stepsLeft < pc.stepsLeft

section Advance

variable {packet : Nat → Packet} {file : DeviceFile AesdDev} {index : Nat} {pc : Pc}
  {sent line : Bytes} {cmd : AesdSeekto}

/-- A step that goes to a point closer to the end. -/
theorem Advances.of_goto (next : Pc) (more : Bytes) (file' : DeviceFile AesdDev)
    (step : ∀ returned clients, pc.step aesdchar index returned (serving packet index) file
      clients = some ⟨.goto next, more, file', clients⟩)
    (closer : next.stepsLeft < pc.stepsLeft) : Advances packet file index pc :=
  fun returned clients => ⟨_, step returned clients, rfl, closer⟩

/-- The file when a handler has obtained the mutex. -/
def DeviceFile.obtainedBy {δ : Type} (file : DeviceFile δ) (index : Nat) : DeviceFile δ :=
  { file with mutex := some (.handler index), order := file.order ++ [index] }

theorem lockThen_of_free {γ : Type} {success failure : Control γ} (free : file.mutex = none) :
    file.lockThen index true success failure = some (success, file.obtainedBy index) := by
  simp [DeviceFile.lockThen, DeviceFile.obtainedBy, lock, free]

/-- A handler that writes goes on, unless it waits for the mutex. -/
theorem advances_of_data (isData : packet index = .data line)
    (valid : ∀ index, (packet index).Valid)
    (phase : Phase (lineSent packet) (dataView packet file) index pc sent)
    (unreleased : pc.hasReleasedFile = false)
    (waits : pc.locksFile = true → file.mutex = none) : Advances packet file index pc := by
  have lineEq : lineSent packet index = line := by
    rw [lineSent, isData]
    rfl
  have lineData := dataPacket_lineSent valid index
  rw [lineEq] at lineData
  have chunkEq : (serving packet index).chunk = line := by
    rw [serving, isData]
    rfl
  have succeed : (serving packet index).device.Succeed := DriverOutcomes.succeed_success
  -- the device behind the handlers that write
  have lines {order : List Nat}
      (idle : Idle (((order.filter (writes packet)).map (lineSent packet))) file.device) :
      Idle (linesOf packet order) file.device := by
    rwa [linesOf_eq]
  cases pc with
  | start => exact .of_goto _ _ _ (fun _ _ => rfl) (by simp [Pc.stepsLeft])
  | recv buffer =>
      have whole : (serving packet index).chunk.take bufferSize = line := by
        rw [chunkEq]
        exact List.take_of_length_le lineData.fits
      have received := receiveChunk_of_data buffer lineData.isLine.mem lineData.isData
      refine .of_goto (.lockFile line) [] file (fun _ _ => ?_) (by simp [Pc.stepsLeft])
      simp only [Pc.step, whole, if_neg lineData.isLine.ne_nil, received]
  | handleIoctl point => exact phase.elim
  | lockFile bytes =>
      refine .of_goto (.openFile bytes) [] (file.obtainedBy index) (fun _ _ => ?_)
        (by simp [Pc.stepsLeft])
      have ok : (serving packet index).ok = true := rfl
      simp only [Pc.step, ok, lockThen_of_free (waits rfl), Option.map_some]
  | openFile bytes => exact .of_goto _ _ _ (fun _ _ => rfl) (by simp [Pc.stepsLeft])
  | cleanup point => exact phase.elim
  | flush bytes fPos =>
      obtain ⟨rfl, rfl, _, _, idle⟩ := phase
      obtain ⟨driver, written, _⟩ := idle.write succeed (lineEq ▸ lineData.isLine)
        (Int.le_refl 0)
      have whole : ¬ (0 ≤ ((lineSent packet index).length : Int) ∧
          ((lineSent packet index).length : Int) < (lineSent packet index).length) := by omega
      refine .of_goto (.seek 0) [] { file with device := driver } (fun _ _ => ?_)
        (by simp [Pc.stepsLeft])
      have written' : aesdchar (serving packet index).device
          (.write (lineSent packet index)) 0 file.device = some _ := written
      simp only [Pc.step, flushStep, written', if_neg whole]
  | seek fPos =>
      obtain ⟨_, _, idle⟩ := phase
      have sought := aesdchar_llseek idle.1 succeed fPos
      have sought' : aesdchar (serving packet index).device (.llseek 0 0) fPos file.device =
        some _ := sought
      refine .of_goto (.echo [] [] 0) [] file (fun _ _ => ?_) (by simp [Pc.stepsLeft])
      simp only [Pc.step, sought']
      rfl
  | echo line ahead fPos =>
      obtain ⟨⟨_, idle⟩, position, rfl, bound, _⟩ := phase
      cases ahead with
      | cons byte ahead =>
          intro returned clients
          simp only [Pc.step, echoStep]
          split
          · exact ⟨_, rfl, rfl, by simp [Pc.stepsLeft]⟩
          · exact ⟨_, rfl, rfl, by simp [Pc.stepsLeft]⟩
      | nil =>
          rw [← content_eq_replyTo idle] at bound
          have idle : Idle (linesOf packet file.order) file.device := lines idle
          have inside : position ≤ file.device.content.length := bound
          have small : file.device.content.length ≤ 10240 := idle.content_le valid
          have count : (serving packet index).count = 4096 := rfl
          have read := idle.read succeed (show file.device.content.length < 2 ^ 63 by omega)
            (show 0 < 4096 by decide) (show position < 2 ^ 63 by omega)
          have piece := congrArg List.length (slice_eq_take file.device.held 4096 position)
          rw [← AesdDev.content, List.length_take, List.length_drop] at piece
          have upTo := Nat.min_le_right (slice file.device.held 4096 position).length
            (file.device.content.length - position)
          intro returned clients
          simp only [Pc.step, echoStep, count, read]
          split
          · refine ⟨_, rfl, rfl, ?_⟩
            simp only [Control.point_goto, Pc.stepsLeft, List.length_nil, Int.toNat_natCast,
              show deviceRoom = 10240 from rfl]
            omega
          · split
            · exact ⟨_, rfl, rfl, by simp [Pc.stepsLeft]⟩
            · exact ⟨_, rfl, rfl, by simp [Pc.stepsLeft]⟩
  | unlockFile => exact .of_goto _ _ _ (fun _ _ => rfl) (by simp [Pc.stepsLeft])
  | setComplete point => contradiction
  | returned => contradiction

/-- A handler that seeks goes on, unless it waits for the mutex. -/
theorem advances_of_seek (isSeek : packet index = .seek cmd)
    (valid : ∀ index, (packet index).Valid)
    (phase : SeekPhase packet file index cmd pc sent)
    (unreleased : pc.hasReleasedFile = false)
    (waits : pc.locksFile = true → file.mutex = none) : Advances packet file index pc := by
  have roomEq : deviceRoom = 10240 := rfl
  have ok : (serving packet index).ok = true := rfl
  cases pc with
  | start => exact .of_goto _ _ _ (fun _ _ => rfl) (by simp [Pc.stepsLeft])
  | recv buffer =>
      have whole : (serving packet index).chunk.take bufferSize = commandLine cmd := by
        rw [serving, isSeek]
        exact List.take_of_length_le (length_commandLine_le cmd)
      have nonempty : commandLine cmd ≠ [] := by
        simp [commandLine]
      have received := receiveChunk_of_seek buffer
        (show newline ∈ commandLine cmd by simp [commandLine]) (seekCommand_isPrefix cmd)
      refine .of_goto (.handleIoctl (.parse (overwrite buffer (commandLine cmd)))) [] file
        (fun _ _ => ?_) (by simp [Pc.stepsLeft])
      simp only [Pc.step, whole, if_neg nonempty, received]
  | handleIoctl point =>
      cases point with
      | parse cmdBuffer =>
          refine .of_goto (.handleIoctl (.lock cmd)) [] file (fun _ _ => ?_)
            (by simp [Pc.stepsLeft])
          simp only [Pc.step, HandleIoctl.step, ok, if_true, phase.1]
          rfl
      | lock parsed =>
          refine .of_goto (.handleIoctl (.open parsed)) [] (file.obtainedBy index)
            (fun _ _ => ?_) (by simp [Pc.stepsLeft])
          simp only [Pc.step, HandleIoctl.step, ok, lockThen_of_free (waits rfl),
            Option.map_some]
          rfl
      | «open» parsed => exact .of_goto _ _ _ (fun _ _ => rfl) (by simp [Pc.stepsLeft])
      | ioctl parsed =>
          obtain ⟨rfl, _, before, turn⟩ := phase
          have succeeds : (serving packet index).device.ioctl = ⟨true, 0⟩ := rfl
          rcases turn.ioctl_cases isSeek valid succeeds with
            ⟨_, rejected⟩ | ⟨position, _, _, _, _, goesOn⟩
          · refine .of_goto (.setComplete .lock) [] file (fun _ _ => ?_)
              (by simp [Pc.stepsLeft])
            simp only [Pc.step, rejected]
            rfl
          · refine .of_goto (.handleIoctl (.read (List.replicate bufferSize 0) position)) [] file
              (fun _ _ => ?_) (by simp [Pc.stepsLeft]; omega)
            simp only [Pc.step, goesOn]
            rfl
      | read cmdBuffer fPos =>
          obtain ⟨before, turn, position, rest, rfl, positionLt, sends, _⟩ := phase
          have small : file.device.content.length ≤ 10240 := turn.2.content_le valid
          have succeeds : (serving packet index).device.read = ⟨true, 0⟩ := rfl
          rcases turn.read_cases valid succeeds positionLt sends with
            ⟨_, atEnd⟩ | ⟨word, text, _, nonempty, upTo, _, _, goesOn⟩
          · refine .of_goto (.handleIoctl .unlock) [] file (fun _ _ => ?_)
              (by simp [Pc.stepsLeft])
            simp only [Pc.step, atEnd]
            rfl
          · refine .of_goto (.handleIoctl (.read (overwrite cmdBuffer word)
              (position + word.length : Nat))) text file (fun _ _ => ?_) ?_
            · simp only [Pc.step, goesOn]
              rfl
            · simp only [Pc.stepsLeft, Int.toNat_natCast]
              omega
      | unlock => exact .of_goto _ _ _ (fun _ _ => rfl) (by simp [Pc.stepsLeft])
  | setComplete point => contradiction
  | returned => contradiction
  | _ => exact phase.elim

end Advance

theorem Stands.advances {packet : Nat → Packet} {file : DeviceFile AesdDev} {index : Nat}
    {pc : Pc} {sent : Bytes} (valid : ∀ index, (packet index).Valid)
    (stands : Stands packet file index pc sent) (unreleased : pc.hasReleasedFile = false)
    (waits : pc.locksFile = true → file.mutex = none) : Advances packet file index pc := by
  have phase := stands.phase unreleased
  unfold ClientPhase at phase
  cases kind : packet index with
  | data line =>
      rw [kind] at phase
      exact advances_of_data kind valid phase unreleased waits
  | seek cmd =>
      rw [kind] at phase
      exact advances_of_seek kind valid phase unreleased waits

/-! ## All handlers -/

/-- The last handler in the order has received a command that is not answered. -/
def Unanswered (packet : Nat → Packet) (file : DeviceFile AesdDev) (index : Nat) : Prop :=
  ∃ before, file.order = before ++ [index] ∧
    answer (before.map packet) (packet index) = none

/-- What holds in every state of a run that serves both kinds of clients, with the owner of
the mutex and the handlers that have not been created. -/
structure Working (packet : Nat → Packet) (process : Process AesdDev) : Prop where
  answering : Answering packet process
  owner : ∀ thread, process.file.mutex = some thread → ∃ index, thread = .handler index ∧
    ((process.handlers index).pc.inFileSection = true ∨ Unanswered packet process.file index)
  fresh : ∀ index, process.created ≤ index → (process.handlers index).pc = .start

section Working

variable {packet : Nat → Packet} {process target : Process AesdDev}
  {label : Label DriverOutcomes}

theorem working_start (packet : Nat → Packet) :
    Working packet (Process.start aesdInitModule) where
  answering := answering_start packet
  owner thread owns := by contradiction
  fresh _ _ := rfl

/-- A handler keeps the mutex for a command that is not answered only. -/
theorem unanswered_of_leaks {file : DeviceFile AesdDev} {index : Nat} {returned : Nat → Bool}
    {outcomes : Outcomes DriverOutcomes} {clients : Clients} {pc : Pc} {sent : Bytes}
    {effect : Effect AesdDev} (valid : ∀ index, (packet index).Valid)
    (ok : pc.inFileSection = true → outcomes.ok = true)
    (serves : OutcomesServe (packet index) outcomes)
    (stands : Stands packet file index pc sent)
    (stepped : pc.step aesdchar index returned outcomes file clients = some effect)
    (leaks : pc.leaks aesdchar outcomes file = true)
    (leaves : (effect.control.point pc).inFileSection = false) :
    Unanswered packet file index := by
  cases pc with
  | cleanup point =>
      have phase := stands.phase rfl
      unfold ClientPhase at phase
      cases kind : packet index <;> rw [kind] at phase <;> exact phase.elim
  | unlockFile => simp [Pc.leaks, ok rfl] at leaks
  | handleIoctl point =>
      have phase := stands.phase rfl
      unfold ClientPhase at phase
      cases kind : packet index with
      | data line =>
          rw [kind] at phase
          exact phase.elim
      | seek cmd =>
          rw [kind] at phase
          cases point with
          | ioctl parsed =>
              obtain ⟨rfl, _, before, turn⟩ := phase
              rcases turn.ioctl_cases kind valid serves.ioctl with
                ⟨nothing, _⟩ | ⟨_, _, _, _, _, goesOn⟩
              · exact ⟨before, turn.1, kind ▸ nothing⟩
              · simp only [Pc.step, goesOn, Option.map_some] at stepped
                cases stepped
                contradiction
          | «open» parsed | unlock => simp [Pc.leaks, ok rfl] at leaks
          | _ => contradiction
  | _ => contradiction

/-- The owner of the mutex is inside its section, or keeps the mutex for a command that is
not answered. -/
theorem Working.owner_step {index : Nat} {outcomes : Outcomes DriverOutcomes}
    {effect : Effect AesdDev} (valid : ∀ index, (packet index).Valid)
    (working : Working packet process)
    (serves : ServesAll packet process (.handler index outcomes))
    (made : (process.handlers index).pc.step aesdchar index process.returned outcomes
      process.file process.clients = some effect) (thread : Thread)
    (owns : effect.file.mutex = some thread) :
    ∃ owner, thread = .handler owner ∧
      (((process.applyHandler index effect).handlers owner).pc.inFileSection = true ∨
        Unanswered packet effect.file owner) := by
  -- as long as the owner stays the same nobody else obtains the mutex
  have kept (same : effect.file.mutex = process.file.mutex)
      (own : process.file.mutex = some (.handler index) →
        (process.handlers index).pc.inFileSection = true →
        (effect.control.point (process.handlers index).pc).inFileSection = true ∨
          Unanswered packet process.file index) :
      ∃ owner, thread = .handler owner ∧
        (((process.applyHandler index effect).handlers owner).pc.inFileSection = true ∨
          Unanswered packet effect.file owner) := by
    rw [same] at owns
    obtain ⟨owner, rfl, inside⟩ := working.owner thread owns
    have order : effect.file.order = process.file.order := by
      obtain ⟨added, orderStep, _⟩ := Pc.orderStep made []
      generalize effect.file = file' at orderStep
      cases orderStep with
      | works order _ => exact order
      | obtains free _ => simp [free] at owns
    have unanswered (before : Unanswered packet process.file owner) :
        Unanswered packet effect.file owner := by
      rwa [Unanswered, order]
    refine ⟨owner, rfl, ?_⟩
    by_cases isIndex : owner = index
    · subst owner
      rw [Process.applyHandler_self]
      rcases inside with inside | before
      · exact (own owns inside).imp_right unanswered
      · exact Or.inr (unanswered before)
    · rw [process.applyHandler_of_ne index effect isIndex]
      exact inside.imp_right unanswered
  have moved := Pc.step_fileMutex made
  generalize effect.file.mutex = owner' at moved owns kept
  generalize process.file.mutex = owner at moved kept
  rcases moved with exactly | ⟨leaks, _, leaves, same⟩
  · cases exactly with
    | stay same => exact kept rfl fun _ inside => Or.inl (same.mpr inside)
    | acquire inside =>
        cases owns
        refine ⟨index, rfl, Or.inl ?_⟩
        rw [Process.applyHandler_self]
        exact inside
    | release _ _ => contradiction
  · exact kept same fun _ _ => Or.inr
      (unanswered_of_leaks valid serves.1 serves.2 (working.answering.stands index) made leaks
        leaves)

theorem Working.step (valid : ∀ index, (packet index).Valid) (working : Working packet process)
    (serves : ServesAll packet process label)
    (stepped : Process.step aesdchar label process = some target) : Working packet target := by
  have answering := working.answering.step valid serves stepped
  refine ⟨answering, ?_, ?_⟩
  · rcases Process.step_cases stepped with
      ⟨_, rfl⟩ | ⟨ok, effect, _, _, rfl⟩ | ⟨index, outcomes, effect, rfl, _, made, rfl⟩
    · exact working.owner
    · exact working.owner
    · exact working.owner_step valid serves made
  · rcases Process.step_cases stepped with
      ⟨_, rfl⟩ | ⟨ok, effect, _, made, rfl⟩ | ⟨index, outcomes, effect, rfl, created, made, rfl⟩
    · exact working.fresh
    · exact fun index above => working.fresh index ((Process.created_le made).trans above)
    · intro other above
      have above : process.created ≤ other := above
      rw [process.applyHandler_of_ne index effect (by omega)]
      exact working.fresh other above

/-- Every accepted client has been served, or the mutex is kept for a command that is not
answered. -/
def Process.AllServed (packet : Nat → Packet) (process : Process AesdDev) : Prop :=
  (∀ index < process.created, (process.handlers index).pc.hasReleasedFile = true) ∨
    ∃ index, Unanswered packet process.file index ∧
      process.file.mutex = some (.handler index)

/-- The steps that are left of all handlers. -/
def Process.stepsLeft (process : Process AesdDev) : Nat :=
  ∑ index ∈ Finset.range process.created, (process.handlers index).pc.stepsLeft

/-- Some handler can go on. -/
theorem Working.exists_step (valid : ∀ index, (packet index).Valid)
    (working : Working packet process) (alive : process.alive = true)
    (notDone : ¬ process.AllServed packet) :
    ∃ index target, index < process.created ∧
      Process.step aesdchar (.handler index (serving packet index)) process = some target ∧
      target.alive = true ∧ target.created = process.created ∧
      target.stepsLeft < process.stepsLeft := by
  have goesOn {index : Nat} (created : index < process.created)
      (unreleased : (process.handlers index).pc.hasReleasedFile = false)
      (waits : (process.handlers index).pc.locksFile = true → process.file.mutex = none) :
      ∃ index target, index < process.created ∧
        Process.step aesdchar (.handler index (serving packet index)) process = some target ∧
        target.alive = true ∧ target.created = process.created ∧
        target.stepsLeft < process.stepsLeft := by
    obtain ⟨effect, stepped, continues, closer⟩ :=
      (working.answering.stands index).advances valid unreleased waits process.returned
        process.clients
    refine ⟨index, process.applyHandler index effect, created, ?_, continues, rfl, ?_⟩
    · rw [Process.step, if_neg (by simp [alive])]
      simp only [if_pos created, stepped, Option.map_some]
    · refine Finset.sum_lt_sum ?_ ⟨index, Finset.mem_range.mpr created, ?_⟩
      · intro other _
        by_cases same : other = index
        · subst other
          rw [Process.applyHandler_self]
          exact Nat.le_of_lt closer
        · rw [process.applyHandler_of_ne index effect same]
      · rw [Process.applyHandler_self]
        exact closer
  rw [Process.AllServed, not_or] at notDone
  obtain ⟨notAll, noneKept⟩ := notDone
  cases owned : process.file.mutex with
  | none =>
      push Not at notAll
      obtain ⟨index, created, unreleased⟩ := notAll
      exact goesOn created (by simpa using unreleased) fun _ => owned
  | some thread =>
      -- the owner is inside its section, where it does not wait
      obtain ⟨index, rfl, inside | unanswered⟩ := working.owner thread owned
      swap
      · exact absurd ⟨index, unanswered, owned⟩ noneKept
      have created : index < process.created := by
        by_contra above
        rw [working.fresh index (Nat.not_lt.mp above)] at inside
        contradiction
      refine goesOn created ?_ fun locks => ?_
      · by_contra released
        rw [Pc.not_inFileSection_of_released (by simpa using released)] at inside
        contradiction
      · rw [Pc.not_inFileSection_of_locksFile locks] at inside
        contradiction

end Working

/-- From every state that is reached while data clients and seek clients are served, and
as long as the process has not ended: the handlers alone can bring all clients that have
been accepted to the end of their turns, unless a rejected command keeps the mutex. -/
theorem clients_all_served {packet : Nat → Packet} (valid : ∀ index, (packet index).Valid)
    {labels : List (Label DriverOutcomes)} {process : Process AesdDev}
    (run : Run (Process.step aesdchar) (ServesAll packet) (Process.start aesdInitModule) labels
      process) (alive : process.alive = true) :
    ∃ later target, exec (Process.step aesdchar) later process = some target ∧
      (∀ label ∈ later, ∃ index < process.created,
        label = .handler index (serving packet index)) ∧
      target.alive = true ∧ target.created = process.created ∧ target.AllServed packet := by
  have working : Working packet process :=
    run.invariant (fun _ process => Working packet process) (working_start packet)
      fun working serves stepped => working.step valid serves stepped
  obtain ⟨later, target, run', ⟨_, alive', created⟩, served⟩ :
      ∃ later target, Run (Process.step aesdchar)
        (fun _ label => ∃ index < process.created, label = .handler index (serving packet index))
        process later target ∧
        (Working packet target ∧ target.alive = true ∧ target.created = process.created) ∧
        target.AllServed packet := by
    refine exists_run_of_decreasing Process.stepsLeft (fun {state} inv notDone => ?_)
      ⟨working, alive, rfl⟩
    obtain ⟨working, alive, created⟩ := inv
    obtain ⟨index, next, isCreated, stepped, alive', created', fewer⟩ :=
      working.exists_step valid alive notDone
    exact ⟨_, next, ⟨index, created ▸ isCreated, rfl⟩, stepped,
      ⟨working.step valid (servesAll_serving packet index state) stepped, alive',
        created'.trans created⟩, fewer⟩
  exact ⟨later, target, run'.exec_eq_some, run'.admits_of_mem, alive', created, served⟩

/-- The first client is being served, and the second one waits for the mutex. -/
def seekWaits : List (Label DriverOutcomes) :=
  seekBehindWrite.take 20

theorem clients_all_served_waiting :
    ∃ process,
      exec (Process.step aesdchar) seekWaits (Process.start aesdInitModule) = some process ∧
        process.file.mutex = some (.handler 0) ∧ process.created = 2 ∧
        ∃ later target, exec (Process.step aesdchar) later process = some target ∧
          (∀ label ∈ later, ∃ index < process.created,
            label = .handler index (serving writeAndSeek index)) ∧
          target.alive = true ∧ target.created = process.created ∧
          target.AllServed writeAndSeek := by
  have run : Run (Process.step aesdchar) (ServesAll writeAndSeek)
      (Process.start aesdInitModule) seekWaits _ :=
    run_of_forall rfl fun label member =>
      servesAll_seekBehindWrite label (List.mem_of_mem_take member)
  exact ⟨_, run.exec_eq_some, rfl, rfl, clients_all_served valid_writeAndSeek run rfl⟩

end Aesd.Server
