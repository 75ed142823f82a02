import Aesd.Driver.Simulation

/-!
# Sequential reads

A call of `aesd_read` returns the slice of the held commands at the file
position.  A sequence of calls on one file therefore delivers the content of the
device piece by piece, whatever the counts are, and ends with zeros only.
-/

namespace Aesd.Driver

open Aesd.Memory.Heap
open Aesd.Transition
open Aesd.Word

/-! ## One call -/

/-- A call on an open file and what the kernel decides during it. -/
structure ReadCall where
  outcomes : ReadOutcomes
  count : Nat

/-- The reply of an idle device to a read. -/
def AesdDev.readReply (driver : AesdDev) (call : ReadCall) (position : Nat) : ReadResult :=
  let read := slice driver.held call.count position
  if call.outcomes.lock = false then
    ⟨-erestartsys, [], position, driver⟩
  else if driver.content.length ≤ position then
    ⟨0, [], position, driver⟩
  else if call.outcomes.uncopied ≠ 0 then
    ⟨-efault, read.take (read.length - call.outcomes.uncopied), position, driver⟩
  else
    ⟨read.length, read, (position + read.length : Nat), driver⟩

/-- A read that is interrupted before it obtains the lock does nothing. -/
theorem aesdRead_of_interrupted (driver : AesdDev) {call : ReadCall}
    (interrupted : call.outcomes.lock = false) (positive : 0 < call.count) (position : Nat) :
    aesdRead call.outcomes false call.count position driver =
      .ok (driver.readReply call position) := by
  have valid : ¬ ((position : Int) < 0 ∨ call.count = 0) := by omega
  simp [aesdRead, AesdDev.readReply, valid, AesdDev.mutexLockInterruptible, interrupted, bind,
    Except.bind, pure, Except.pure]

/-- A read that waits for a lock nobody gives back does not return. -/
theorem aesdRead_of_locked {driver : AesdDev} (locked : driver.bufferLock = true)
    {call : ReadCall} (waits : call.outcomes.lock = true) (positive : 0 < call.count)
    (position : Nat) :
    aesdRead call.outcomes false call.count position driver = .error .blocked := by
  have valid : ¬ ((position : Int) < 0 ∨ call.count = 0) := by omega
  simp [aesdRead, valid, AesdDev.mutexLockInterruptible, waits, locked, bind, Except.bind]

namespace AesdDev.Represents

variable {driver : AesdDev} {log : Log} {held leaked : List (Nat × Bytes)}

theorem held_eq_map (rep : driver.Represents log held leaked) :
    driver.held = held.map Prod.snd := by
  rw [rep.held_eq_log, rep.held_eq]

/-- The sizes in the ring are the lengths of the held commands. -/
theorem sizes_eq (rep : driver.Represents log held leaked) :
    (held.map entryOfCell).map BufferEntry.size = driver.held.map List.length := by
  rw [rep.held_eq_map, List.map_map, List.map_map]
  rfl

theorem sum_sizes_eq (rep : driver.Represents log held leaked) :
    ((held.map entryOfCell).map BufferEntry.size).sum = driver.content.length := by
  rw [rep.sizes_eq, AesdDev.content, List.length_flatten]

/-- The held entry with a given index, its command and its block. -/
theorem entry_of_held (rep : driver.Represents log held leaked) {index : Nat} {cmd : Bytes}
    (cmdEq : driver.held[index]? = some cmd) :
    ∃ ptr, (ptr, cmd) ∈ held ∧ (held.map entryOfCell)[index]? = some ⟨some ptr, cmd.length⟩ := by
  rw [rep.held_eq_map, List.getElem?_map, Option.map_eq_some_iff] at cmdEq
  obtain ⟨⟨ptr, bytes⟩, cellEq, rfl⟩ := cmdEq
  refine ⟨ptr, List.mem_of_getElem? cellEq, ?_⟩
  rw [List.getElem?_map, cellEq]
  rfl

/-- Once it has obtained the lock, `aesd_read` replies with the slice at the file
position. -/
theorem aesdRead_of_obtained (rep : driver.Represents log held leaked)
    (unlocked : driver.bufferLock = false) (small : driver.content.length < 2 ^ 63)
    {call : ReadCall} (obtained : call.outcomes.lock = true) (positive : 0 < call.count)
    {position : Nat} (positionBound : position < 2 ^ 63) :
    Driver.aesdRead call.outcomes false call.count position driver =
      .ok (driver.readReply call position) := by
  obtain ⟨outcomes, count⟩ := call
  change 0 < count at positive
  change outcomes.lock = true at obtained
  have valid : ¬ (false = true ∨ (position : Int) < 0 ∨ count = 0) := by
    simp
    omega
  let locked : AesdDev := { driver with bufferLock := true }
  have lockTaken : driver.mutexLockInterruptible true = .ok (some locked) := by
    simp [mutexLockInterruptible, unlocked, locked]
  have unlocks : locked.mutexUnlock = .ok driver := by
    simp only [mutexUnlock, locked, if_true]
    rw [← unlocked]
  have found := rep.ring.find_eq (by rw [rep.sum_sizes_eq]; omega) position
  rw [rep.sizes_eq] at found
  simp only [Driver.aesdRead, readReply, if_neg valid, obtained, lockTaken, bind, Except.bind,
    Bool.true_eq_false, if_false, toSizeT_of_lt (show position < 2 ^ 64 by omega)]
  by_cases atEnd : driver.content.length ≤ position
  · have nothing : locate (driver.held.map List.length) position = none := by
      rw [locate_eq_none_iff, ← List.length_flatten]
      exact atEnd
    simp only [locked, found, nothing, Option.map_none, if_pos atEnd]
    rw [unlocks]
    rfl
  · obtain ⟨index, cmd, offset, cmdEq, location, offsetLt, positionEq, sliceEq⟩ :=
      slice_of_lt count (show position < driver.held.flatten.length by
        exact Nat.lt_of_not_le atEnd)
    obtain ⟨ptr, member, entryEq⟩ := rep.entry_of_held cmdEq
    have slotEq := rep.ring.entryAt_held index entryEq
    have rest := drop_flatten_of_locate location cmdEq
    have restLength := congrArg List.length rest
    simp only [List.length_drop, List.length_append] at restLength
    have contentLength : driver.held.flatten.length < 2 ^ 63 := small
    have sliceLength : (slice driver.held count position).length =
        min count (cmd.length - offset) := by
      rw [sliceEq, List.length_take, List.length_drop]
    have available : toSizeT ((cmd.length : Int) - offset) = cmd.length - offset := by
      rw [show (cmd.length : Int) - offset = ((cmd.length - offset : Nat) : Int) by omega]
      exact toSizeT_of_lt (by omega)
    have copied : (if cmd.length - offset > count then count else cmd.length - offset) =
        (slice driver.held count position).length := by
      rw [sliceLength]
      split <;> omega
    have loaded : locked.load (some ptr) offset (slice driver.held count position).length =
        .ok (slice driver.held count position) := by
      obtain ⟨current, _, owns⟩ := rep.memory
      have ownsLocked : Owns locked.heap (held ++ current ++ leaked) := owns
      have isLive : (ptr, cmd) ∈ held ++ current ++ leaked := by simp [member]
      rw [load_of_owns ownsLocked isLive offset
        (slice driver.held count position).length (by omega), sliceLength, sliceEq]
      congr 1
      rw [List.take_eq_take_iff, List.length_drop]
      omega
    have advanced : toInt64 ((position : Int) + (slice driver.held count position).length) =
        (position + (slice driver.held count position).length : Nat) := by
      rw [toInt64_of_lt (by omega) (by omega)]
      rfl
    simp only [locked, found, location, Option.map_some, if_neg atEnd, slotEq, available, copied]
    rw [loaded]
    simp only
    rw [unlocks]
    by_cases whole : outcomes.uncopied = 0
    · simp only [whole, ne_eq, not_true_eq_false, if_false, advanced]
      rfl
    · simp only [ne_eq, whole, not_false_eq_true, if_true]
      rfl

/-- A read of an idle device replies as expected and leaves the device as it
was. -/
theorem aesdRead (rep : driver.Represents log held leaked) (unlocked : driver.bufferLock = false)
    (small : driver.content.length < 2 ^ 63) {call : ReadCall} (positive : 0 < call.count)
    {position : Nat} (positionBound : position < 2 ^ 63) :
    Driver.aesdRead call.outcomes false call.count position driver =
      .ok (driver.readReply call position) := by
  cases obtained : call.outcomes.lock with
  | true => exact rep.aesdRead_of_obtained unlocked small obtained positive positionBound
  | false => exact aesdRead_of_interrupted driver obtained positive position

end AesdDev.Represents

/-! ## A sequence of calls -/

/-- A file position and the device behind the file. -/
structure OpenFile where
  fPos : Int
  driver : AesdDev

/-- What an infinite sequence of reads of one file returns, with the file before
each of them. -/
structure ReadRun (calls : Nat → ReadCall) (start : OpenFile) where
  file : Nat → OpenFile
  reply : Nat → ReadResult
  first : file 0 = start
  call : ∀ n, aesdRead (calls n).outcomes false (calls n).count (file n).fPos (file n).driver =
    .ok (reply n)
  next : ∀ n, file (n + 1) = ⟨(reply n).fPos, (reply n).driver⟩

/-- The bytes a call returns: as many as its return value says, none when it
fails. -/
def ReadResult.returned (result : ReadResult) : Bytes :=
  result.delivered.take result.retval.toNat

/-- The bytes the first `n` calls return. -/
def ReadRun.returned {calls : Nat → ReadCall} {start : OpenFile} (run : ReadRun calls start)
    (n : Nat) : Bytes :=
  ((List.range n).map fun index => (run.reply index).returned).flatten

/-- What one read of an unchanged device returns. -/
structure ReadResult.Matches (result : ReadResult) (call : ReadCall) (position : Nat)
    (driver : AesdDev) : Prop where
  driver_eq : result.driver = driver
  fPos_eq : result.fPos = (position + result.returned.length : Nat)
  /-- The call fails and returns nothing, or returns a slice of the promised
  length. -/
  retval : result.returned = [] ∧ (result.retval = -efault ∨ result.retval = -erestartsys) ∨
    result.retval = result.returned.length
  length_le : result.returned.length ≤ call.count
  returned_eq : result.returned =
    (driver.content.drop position).take result.returned.length
  /-- The slice is part of one held entry. -/
  in_entry : result.returned = [] ∨ ∃ index, index < driver.held.length ∧
    (driver.held.take index).flatten.length ≤ position ∧
    position + result.returned.length ≤ (driver.held.take (index + 1)).flatten.length
  eof_iff : result.retval = 0 ↔
    call.outcomes.lock = true ∧ driver.content.length ≤ position
  efault_iff : result.retval = -efault ↔
    call.outcomes.lock = true ∧ position < driver.content.length ∧ call.outcomes.uncopied ≠ 0
  erestartsys_iff : result.retval = -erestartsys ↔ call.outcomes.lock = false

theorem AesdDev.readReply_matches (driver : AesdDev) {call : ReadCall}
    (positive : 0 < call.count) (position : Nat) :
    (driver.readReply call position).Matches call position driver := by
  simp only [AesdDev.readReply]
  cases obtained : call.outcomes.lock with
  | false => constructor <;> simp [ReadResult.returned, obtained, efault, erestartsys]
  | true =>
      simp only [Bool.true_eq_false, if_false]
      by_cases atEnd : driver.content.length ≤ position
      · rw [if_pos atEnd]
        constructor <;> simp [ReadResult.returned, atEnd, obtained, efault, erestartsys]
      · rw [if_neg atEnd]
        have inside : position < driver.content.length := Nat.lt_of_not_le atEnd
        by_cases whole : call.outcomes.uncopied = 0
        · rw [if_neg (by simp [whole])]
          have sliceNe : slice driver.held call.count position ≠ [] := fun empty =>
            atEnd ((slice_eq_nil_iff positive).mp empty)
          have sliceLe := length_slice_le driver.held call.count position
          have sliceEq := slice_eq_take driver.held call.count position
          have inWord := slice_in_word call.count inside
          generalize slice driver.held call.count position = read at *
          have returned : ReadResult.returned
              ⟨read.length, read, (position + read.length : Nat), driver⟩ = read := by
            simp [ReadResult.returned]
          constructor <;> simp only [returned]
          case retval => exact Or.inr trivial
          case length_le => exact sliceLe
          case returned_eq => exact sliceEq
          case in_entry => exact Or.inr inWord
          case eof_iff => simp [sliceNe, atEnd]
          case efault_iff => simp [whole, efault]
          case erestartsys_iff => simp [obtained, erestartsys]
        · rw [if_pos whole]
          constructor <;> simp [ReadResult.returned, whole, atEnd, obtained, efault, erestartsys]
          exact inside

/-- Successive reads of a file, the device being left alone, deliver its content
from the start position on. -/
structure ReadRun.Delivers {calls : Nat → ReadCall} {start : OpenFile}
    (run : ReadRun calls start) (position : Nat) : Prop where
  /-- No call changes the device. -/
  driver_eq : ∀ n, (run.file n).driver = start.driver
  /-- The file position counts the bytes returned. -/
  fPos_eq : ∀ n, (run.file n).fPos = (position + (run.returned n).length : Nat)
  returns : ∀ n, (run.reply n).Matches (calls n) (position + (run.returned n).length) start.driver
  /-- Until the end the bytes returned are the next piece of the content. -/
  prefix_content : ∀ n, run.returned n =
    (start.driver.content.drop position).take (run.returned n).length
  /-- At the first zero nothing is missing. -/
  complete : ∀ n, (run.reply n).retval = 0 → run.returned n = start.driver.content.drop position
  /-- Zeros are followed by zeros, apart from interrupted calls. -/
  stays_zero : ∀ n m, n ≤ m → (run.reply n).retval = 0 → (calls m).outcomes.lock = true →
    (run.reply m).retval = 0
  /-- Unless all calls from some point on fail, a zero is returned eventually. -/
  ends : (∀ n, ∃ m, n ≤ m ∧ (calls m).outcomes = ⟨true, 0⟩) → ∃ n, (run.reply n).retval = 0

/-- The file positions before the calls of a sequence of reads. -/
def AesdDev.readPosition (driver : AesdDev) (calls : Nat → ReadCall) (start : Nat) : Nat → Nat
  | 0 => start
  | n + 1 =>
      driver.readPosition calls start n +
        (driver.readReply (calls n) (driver.readPosition calls start n)).returned.length

section Sequence

variable {driver : AesdDev} {calls : Nat → ReadCall} {start : Nat}

/-- Reading does not move behind the end of the content. -/
theorem AesdDev.readPosition_le (driver : AesdDev) (start : Nat)
    (positive : ∀ n, 0 < (calls n).count) (n : Nat) :
    driver.readPosition calls start n ≤ max start driver.content.length := by
  induction n with
  | zero => exact Nat.le_max_left _ _
  | succ n ih =>
      have replies := driver.readReply_matches (positive n) (driver.readPosition calls start n)
      have lengthEq := congrArg List.length replies.returned_eq
      rw [List.length_take, List.length_drop] at lengthEq
      rw [AesdDev.readPosition]
      omega

/-- The device replies to each of the reads, whatever the position is. -/
def AesdDev.Replies (driver : AesdDev) (calls : Nat → ReadCall) : Prop :=
  ∀ n (position : Nat), position < 2 ^ 63 →
    aesdRead (calls n).outcomes false (calls n).count position driver =
      .ok (driver.readReply (calls n) position)

/-- The sequence of reads itself. -/
def AesdDev.readRun (replies : driver.Replies calls) (small : driver.content.length < 2 ^ 63)
    (startBound : start < 2 ^ 63) (positive : ∀ n, 0 < (calls n).count) :
    ReadRun calls ⟨start, driver⟩ where
  file n := ⟨driver.readPosition calls start n, driver⟩
  reply n := driver.readReply (calls n) (driver.readPosition calls start n)
  first := rfl
  call n := by
    have bound := driver.readPosition_le start positive n
    exact replies n _ (by omega)
  next n := by
    have matched := driver.readReply_matches (positive n) (driver.readPosition calls start n)
    rw [matched.driver_eq, matched.fPos_eq]
    rfl

end Sequence

namespace ReadRun

variable {driver : AesdDev} {calls : Nat → ReadCall} {position : Nat}

theorem returned_succ {start : OpenFile} (run : ReadRun calls start) (n : Nat) :
    run.returned (n + 1) = run.returned n ++ (run.reply n).returned := by
  simp [returned, List.range_succ]

/-- The file before each call of a run, and the reply to the call. -/
theorem file_eq (answers : driver.Replies calls) (small : driver.content.length < 2 ^ 63)
    (positionBound : position < 2 ^ 63) (positive : ∀ n, 0 < (calls n).count)
    (run : ReadRun calls ⟨position, driver⟩) (n : Nat) :
    run.file n = ⟨(position + (run.returned n).length : Nat), driver⟩ ∧
      position + (run.returned n).length ≤ max position driver.content.length ∧
      (run.reply n).Matches (calls n) (position + (run.returned n).length) driver := by
  have replies : ∀ n, run.file n = ⟨(position + (run.returned n).length : Nat), driver⟩ →
      position + (run.returned n).length ≤ max position driver.content.length →
      (run.reply n).Matches (calls n) (position + (run.returned n).length) driver := by
    intro n fileEq bound
    have called := run.call n
    rw [fileEq, answers n _ (by omega)] at called
    rw [← Except.ok.inj called]
    exact driver.readReply_matches (positive n) _
  induction n with
  | zero =>
      have fileEq : run.file 0 = ⟨(position + (run.returned 0).length : Nat), driver⟩ :=
        run.first
      have bound : position + (run.returned 0).length ≤ max position driver.content.length :=
        Nat.le_max_left _ _
      exact ⟨fileEq, bound, replies 0 fileEq bound⟩
  | succ n ih =>
      obtain ⟨_, bound, matched⟩ := ih
      have lengthEq : (run.returned (n + 1)).length =
          (run.returned n).length + (run.reply n).returned.length := by
        rw [run.returned_succ, List.length_append]
      have fileEq : run.file (n + 1) =
          ⟨(position + (run.returned (n + 1)).length : Nat), driver⟩ := by
        rw [run.next, matched.driver_eq, matched.fPos_eq, lengthEq, Nat.add_assoc]
      have stays := congrArg List.length matched.returned_eq
      rw [List.length_take, List.length_drop] at stays
      have bound' : position + (run.returned (n + 1)).length ≤
          max position driver.content.length := by omega
      exact ⟨fileEq, bound', replies (n + 1) fileEq bound'⟩

theorem length_returned_mono {start : OpenFile} (run : ReadRun calls start) {n m : Nat}
    (le : n ≤ m) : (run.returned n).length ≤ (run.returned m).length := by
  induction le with
  | refl => exact Nat.le_refl _
  | step _ ih =>
      rw [run.returned_succ, List.length_append]
      omega

section Delivery

variable {run : ReadRun calls ⟨position, driver⟩}
  (replies : ∀ n, (run.reply n).Matches (calls n) (position + (run.returned n).length) driver)

include replies

theorem prefix_content (n : Nat) :
    run.returned n = (driver.content.drop position).take (run.returned n).length := by
  induction n with
  | zero => rfl
  | succ n ih =>
      have piece := (replies n).returned_eq
      rw [← List.drop_drop] at piece
      rw [run.returned_succ, List.length_append, List.take_add, ← ih, ← piece]

/-- A call that succeeds before the end makes progress. -/
theorem progress {n : Nat} (succeeds : (calls n).outcomes = ⟨true, 0⟩)
    (inside : position + (run.returned n).length < driver.content.length) :
    (run.returned n).length < (run.returned (n + 1)).length := by
  have notEof := (replies n).eof_iff
  have notEfault := (replies n).efault_iff
  have notInterrupted := (replies n).erestartsys_iff
  rw [succeeds] at notEof notEfault notInterrupted
  rw [run.returned_succ, List.length_append]
  rcases (replies n).retval with ⟨_, efault | erestartsys⟩ | returned
  · simp [efault] at notEfault
  · simp [erestartsys] at notInterrupted
  · by_contra none
    have zero : (run.reply n).retval = 0 := by omega
    exact absurd (notEof.mp zero).2 (by omega)

/-- Each call that succeeds brings the end closer. -/
theorem ends_of_remaining (recurs : ∀ n, ∃ m, n ≤ m ∧ (calls m).outcomes = ⟨true, 0⟩)
    (remaining : Nat) : ∀ n,
      driver.content.length ≤ position + (run.returned n).length + remaining →
      ∃ m, (run.reply m).retval = 0 := by
  induction remaining with
  | zero =>
      intro n close
      obtain ⟨m, le, succeeds⟩ := recurs n
      have mono := run.length_returned_mono le
      exact ⟨m, (replies m).eof_iff.mpr ⟨by rw [succeeds], by omega⟩⟩
  | succ remaining ih =>
      intro n close
      obtain ⟨m, le, succeeds⟩ := recurs n
      have mono := run.length_returned_mono le
      by_cases atEnd : driver.content.length ≤ position + (run.returned m).length
      · exact ⟨m, (replies m).eof_iff.mpr ⟨by rw [succeeds], atEnd⟩⟩
      · have advanced := progress replies succeeds (Nat.lt_of_not_le atEnd)
        exact ih (m + 1) (by omega)

/-- A run all of whose replies are right delivers the content. -/
theorem delivers
    (fileEq : ∀ n, run.file n = ⟨(position + (run.returned n).length : Nat), driver⟩) :
    run.Delivers position where
  driver_eq n := by rw [fileEq]
  fPos_eq n := by rw [fileEq]
  returns := replies
  prefix_content := prefix_content replies
  complete n zero := by
    have atEnd := ((replies n).eof_iff.mp zero).2
    rw [prefix_content replies n, List.take_of_length_le]
    rw [List.length_drop]
    omega
  stays_zero n m le zero obtained := by
    have atEnd := ((replies n).eof_iff.mp zero).2
    have mono := run.length_returned_mono le
    exact (replies m).eof_iff.mpr ⟨obtained, by omega⟩
  ends recurs :=
    ends_of_remaining replies recurs driver.content.length 0 (by omega)

end Delivery

end ReadRun

/-- A device that replies to each of the reads delivers its content. -/
theorem AesdDev.Replies.delivers {driver : AesdDev} {calls : Nat → ReadCall}
    (answers : driver.Replies calls) (small : driver.content.length < 2 ^ 63) {position : Nat}
    (positionBound : position < 2 ^ 63) (positive : ∀ n, 0 < (calls n).count) :
    Nonempty (ReadRun calls ⟨position, driver⟩) ∧
      ∀ run : ReadRun calls ⟨position, driver⟩, run.Delivers position := by
  refine ⟨⟨AesdDev.readRun answers small positionBound positive⟩, fun run => ?_⟩
  have states := run.file_eq answers small positionBound positive
  exact ReadRun.delivers (fun n => (states n).2.2) (fun n => (states n).1)

/-- For every device reached by writes, every start position and every sequence of
counts: the successive reads return and deliver the content from the start position on,
if and only if `buffer_lock` is free or each of them is interrupted. -/
theorem aesdRead_delivers_iff {driver : AesdDev}
    (reachable : Reachable AesdDev.write aesdInitModule driver)
    (small : driver.content.length < 2 ^ 63) {position : Nat}
    (positionBound : position < 2 ^ 63) (calls : Nat → ReadCall)
    (positive : ∀ n, 0 < (calls n).count) :
    (Nonempty (ReadRun calls ⟨position, driver⟩) ∧
        ∀ run : ReadRun calls ⟨position, driver⟩, run.Delivers position) ↔
      driver.bufferLock = false ∨ ∀ n, (calls n).outcomes.lock = false := by
  constructor
  · rintro ⟨⟨run⟩, delivers⟩
    by_contra neither
    rw [not_or, not_forall] at neither
    obtain ⟨locked, n, waits⟩ := neither
    -- no call before the one that waits has changed the device
    have called := run.call n
    rw [(delivers run).driver_eq n, (delivers run).fPos_eq n,
      aesdRead_of_locked (eq_true_of_ne_false locked) (eq_true_of_ne_false waits)
        (positive n)] at called
    contradiction
  · rintro (unlocked | interrupted)
    · obtain ⟨log, held, leaked, rep⟩ := AesdDev.represents_of_reachable reachable
      have answers : driver.Replies calls :=
        fun n position bound => rep.aesdRead unlocked small (positive n) bound
      exact answers.delivers small positionBound positive
    · have answers : driver.Replies calls :=
        fun n position _ => aesdRead_of_interrupted driver (interrupted n) (positive n) position
      exact answers.delivers small positionBound positive

/-- Reading a device that holds `a\n` and `bc\n`, one byte at a time from the second byte
on, the first call being interrupted. -/
theorem aesdRead_delivers_iff_from_middle :
    let calls : Nat → ReadCall := fun n => ⟨⟨n ≠ 0, 0⟩, 1⟩
    let start : OpenFile := ⟨(1 : Nat), AesdDev.ofWrites [[97, 10], [98, 99, 10]]⟩
    (Nonempty (ReadRun calls start) ∧ ∀ run : ReadRun calls start, run.Delivers 1) ∧
      start.driver.bufferLock = false := by
  have unlocked : (AesdDev.ofWrites [[97, 10], [98, 99, 10]]).bufferLock = false := rfl
  refine ⟨?_, unlocked⟩
  exact (aesdRead_delivers_iff (AesdDev.reachable_ofWrites _) (by decide) (by decide) _
    fun _ => Nat.one_pos).mpr (Or.inl unlocked)

/-- A write of `a\n`, and one of `b\n` of which `copy_from_user` leaves the last byte. -/
def writeThenFault : List WriteCall :=
  [⟨WriteOutcomes.success, [97, 10], 0⟩,
    ⟨{ WriteOutcomes.success with uncopied := 1 }, [98, 10], 0⟩]

/-- The second write returns with the lock, and no read after it returns. -/
theorem aesdRead_waits_behind_fault :
    ∃ driver, exec AesdDev.write writeThenFault aesdInitModule = some driver ∧
      driver.content = [97, 10] ∧
      aesdRead ⟨true, 0⟩ false 1 0 driver = .error .blocked ∧
      ¬ (Nonempty (ReadRun (fun _ => ⟨⟨true, 0⟩, 1⟩) ⟨(0 : Nat), driver⟩) ∧
        ∀ run : ReadRun (fun _ => ⟨⟨true, 0⟩, 1⟩) ⟨(0 : Nat), driver⟩, run.Delivers 0) := by
  obtain ⟨driver, reached, content, waits⟩ :
      ∃ driver, exec AesdDev.write writeThenFault aesdInitModule = some driver ∧
        driver.content = [97, 10] ∧ aesdRead ⟨true, 0⟩ false 1 0 driver = .error .blocked :=
    ⟨_, rfl, by decide, rfl⟩
  refine ⟨driver, reached, content, waits, ?_⟩
  rintro ⟨⟨run⟩, _⟩
  have called := run.call 0
  rw [run.first] at called
  exact absurd (waits.symm.trans called) (by simp)

end Aesd.Driver
