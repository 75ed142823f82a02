import Aesd.Driver.History
import Aesd.Driver.Llseek
import Aesd.Word.Pieces

/-!
# A reader that follows the writers

Any number of open files are read, written and sought, and one file, whose position
only its own reads move, is watched.  What its reads return are pieces of the stream of
commands, none of them twice; what is missing between two of them is what the ring has
evicted in the meantime.
-/

namespace Aesd.Driver

open Aesd.Transition
open Aesd.Word

/-! ## Watching a file -/

/-- The device and its files, and what has been observed: the entries committed and
evicted so far, and the pieces one file has returned. -/
structure Follower where
  files : Files
  committed : List Bytes
  evicted : List Bytes
  pieces : List (Piece UInt8)

/-- The call seeks on the file. -/
def FileCall.Seeks (reader : Nat) : FileCall → Prop
  | .llseek file .. | .ioctl file .. => file = reader
  | .read .. | .write .. => False

instance (reader : Nat) (fileCall : FileCall) : Decidable (fileCall.Seeks reader) :=
  match fileCall with
  | .llseek file .. | .ioctl file .. => inferInstanceAs (Decidable (file = reader))
  | .read .. | .write .. => inferInstanceAs (Decidable False)

namespace Follower

/-- A fresh device. -/
def start : Follower :=
  ⟨Files.start, [], [], []⟩

/-- What a call returns to the file. -/
def piecesOf (reader : Nat) (follower : Follower) : FileCall → List (Piece UInt8)
  | .read file outcomes bufIsNull count =>
      if file = reader then
        match aesdRead outcomes bufIsNull count (follower.files.fPos reader)
            follower.files.driver with
        | .error _ => []
        | .ok result =>
            [⟨follower.evicted.flatten.length, (follower.files.fPos reader).toNat,
              result.returned⟩]
      else
        []
  | .write .. | .llseek .. | .ioctl .. => []

/-- One call that returns. -/
def call (reader : Nat) : Step FileCall Follower := fun fileCall follower =>
  (Files.call fileCall follower.files).map fun files => {
    files := files
    committed := follower.committed ++ follower.files.driver.committedSince files.driver
    evicted := follower.evicted ++ follower.files.driver.evictedSince files.driver
    pieces := follower.pieces ++ follower.piecesOf reader fileCall }

/-- The call does not seek on the file, and the kernel hands out no block of `2 ^ 31`
bytes during it. -/
def Admits (reader : Nat) (follower : Follower) (fileCall : FileCall) : Prop :=
  follower.files.Allocates fileCall ∧ ¬ fileCall.Seeks reader

instance (reader : Nat) (follower : Follower) (fileCall : FileCall) :
    Decidable (follower.Admits reader fileCall) :=
  inferInstanceAs (Decidable (_ ∧ _))

/-- What the reader of the file can rely on. -/
structure Follows (reader : Nat) (follower : Follower) : Prop where
  /-- It is given pieces of the stream of commands, in order and without overlap. -/
  account : Account follower.committed.flatten follower.pieces
    follower.evicted.flatten.length (follower.files.fPos reader).toNat
  noOverlap : follower.pieces.Pairwise fun first second => first.stop ≤ second.start
  /-- Every committed command is evicted or held. -/
  conserved : follower.evicted ++ follower.files.driver.held = follower.committed
  /-- Until the first eviction, nothing is missing. -/
  complete : follower.evicted = [] → Piece.letters follower.pieces =
    follower.committed.flatten.take (follower.files.fPos reader).toNat
  /-- A read returns zero only when no committed byte is left behind the position. -/
  atEnd : ∀ outcomes count result, 0 < count →
    aesdRead outcomes false count (follower.files.fPos reader) follower.files.driver =
      .ok result → result.retval = 0 →
    follower.committed.flatten.length ≤
      follower.evicted.flatten.length + (follower.files.fPos reader).toNat

end Follower

/-! ## One call -/

namespace AesdDev.Represents

variable {driver driver' : AesdDev} {log : Log} {held leaked : List (Nat × Bytes)}

/-- A read that returns refuses its arguments or replies like an idle device. -/
theorem aesdRead_cases (rep : driver.Represents log held leaked)
    (small : driver.content.length < 2 ^ 63) {outcomes : ReadOutcomes} {bufIsNull : Bool}
    {count : Nat} {fPos : Int} {result : ReadResult} (before : IsPosition fPos)
    (returned : Driver.aesdRead outcomes bufIsNull count fPos driver = .ok result) :
    result = ⟨-einval, [], fPos, driver⟩ ∨
      0 < count ∧ result = driver.readReply ⟨outcomes, count⟩ fPos.toNat := by
  obtain ⟨nonneg, bound⟩ := before
  by_cases refused : bufIsNull = true ∨ fPos < 0 ∨ count = 0
  · simp only [Driver.aesdRead, if_pos refused] at returned
    exact Or.inl (Except.ok.inj returned).symm
  · obtain ⟨position, rfl⟩ := Int.eq_ofNat_of_zero_le nonneg
    obtain rfl : bufIsNull = false := by simpa using fun isNull => refused (Or.inl isNull)
    let call : ReadCall := ⟨outcomes, count⟩
    have positive : 0 < call.count := show 0 < count by omega
    refine Or.inr ⟨positive, ?_⟩
    by_cases waits : outcomes.lock = true ∧ driver.bufferLock = true
    · simp only [Driver.aesdRead, if_neg refused, mutexLockInterruptible, waits.1, waits.2,
        if_true, bind, Except.bind] at returned
      cases returned
    · cases locked : driver.bufferLock with
      | false =>
          have replied := rep.aesdRead locked small positive (show position < 2 ^ 63 by omega)
          rw [replied] at returned
          exact (Except.ok.inj returned).symm
      | true =>
          have interrupted : outcomes.lock = false := by simpa [locked] using waits
          simp only [Driver.aesdRead, if_neg refused, mutexLockInterruptible, interrupted]
            at returned
          simp only [readReply, interrupted, if_true]
          exact (Except.ok.inj returned).symm

/-- Such a read hands out the next bytes of the content. -/
theorem aesdRead_returned (rep : driver.Represents log held leaked)
    (small : driver.content.length < 2 ^ 63) {outcomes : ReadOutcomes} {bufIsNull : Bool}
    {count : Nat} {fPos : Int} {result : ReadResult} (before : IsPosition fPos)
    (returned : Driver.aesdRead outcomes bufIsNull count fPos driver = .ok result) :
    result.returned = (driver.content.drop fPos.toNat).take result.returned.length ∧
      result.fPos.toNat = fPos.toNat + result.returned.length ∧
      (result.retval = 0 → driver.content.length ≤ fPos.toNat) := by
  rcases rep.aesdRead_cases small before returned with rfl | ⟨positive, rfl⟩
  · simp [ReadResult.returned, einval]
  · let call : ReadCall := ⟨outcomes, count⟩
    have replies := driver.readReply_matches (show 0 < call.count from positive) fPos.toNat
    refine ⟨replies.returned_eq, ?_, fun isZero => (replies.eof_iff.mp isZero).2⟩
    rw [replies.fPos_eq, Int.toNat_natCast]

/-- A write commits at most one command. -/
theorem aesdWrite_committed (rep : driver.Represents log held leaked) {outcomes : WriteOutcomes}
    {buf : Option Bytes} {fPos retval : Int}
    (written : Driver.aesdWrite outcomes buf fPos driver = .ok (retval, driver')) :
    ∃ log' held' leaked', driver'.Represents log' held' leaked' ∧
      (log'.committed = log.committed ∨ ∃ entry, log'.committed = log.committed ++ [entry]) := by
  have unchanged (same : driver' = driver) :
      ∃ log' held' leaked', driver'.Represents log' held' leaked' ∧
        (log'.committed = log.committed ∨
          ∃ entry, log'.committed = log.committed ++ [entry]) := by
    rw [same]
    exact ⟨log, held, leaked, rep, Or.inl rfl⟩
  cases buf with
  | none =>
      cases written
      exact unchanged rfl
  | some user =>
      by_cases refused : fPos < 0 ∨ user.length = 0
      · simp only [Driver.aesdWrite, if_pos refused] at written
        cases written
        exact unchanged rfl
      · have nonempty : user ≠ [] := fun empty => refused (Or.inr (by rw [empty]; rfl))
        cases locked : driver.bufferLock with
        | true =>
            have performed : driver.perform (.write outcomes (some user) fPos) = .ok driver' :=
              map_eq_ok_iff.mpr ⟨_, written, rfl⟩
            rcases perform_of_locked locked (.write outcomes (some user) fPos) with
              blocked | returns
            · rw [blocked] at performed
              contradiction
            · rw [returns] at performed
              exact unchanged (Except.ok.inj performed).symm
        | false =>
            cases obtained : outcomes.lock with
            | false =>
                simp only [Driver.aesdWrite, if_neg refused, obtained,
                  mutexLockInterruptible] at written
                cases written
                exact unchanged rfl
            | true =>
                obtain ⟨driver'', held', leaked', returned, rep', _⟩ :=
                  rep.aesdWrite locked obtained nonempty (show 0 ≤ fPos by omega)
                rw [returned] at written
                cases written
                exact ⟨_, held', leaked', rep', log.write_committed outcomes user⟩

end AesdDev.Represents

/-- A call commits at most one command. -/
theorem Files.call_committed {files files' : Files} {fileCall : FileCall} {log : Log}
    {held leaked : List (Nat × Bytes)} (rep : files.driver.Represents log held leaked)
    (called : Files.call fileCall files = some files') :
    ∃ log' held' leaked', files'.driver.Represents log' held' leaked' ∧
      (log'.committed = log.committed ∨ ∃ entry, log'.committed = log.committed ++ [entry]) := by
  have performed : files.perform fileCall = .ok files' := by
    unfold Files.call at called
    split at called
    · contradiction
    · next performed => rw [performed, Option.some.inj called]
  cases fileCall with
  | read file outcomes bufIsNull count =>
      obtain ⟨result, returned, rfl⟩ := map_eq_ok_iff.mp performed
      exact ⟨log, held, leaked, (aesdRead_sameMemory returned).represents rep, Or.inl rfl⟩
  | write file outcomes buf =>
      obtain ⟨⟨retval, driver'⟩, written, rfl⟩ := map_eq_ok_iff.mp performed
      exact rep.aesdWrite_committed written
  | llseek file lock off whence =>
      obtain ⟨result, returned, rfl⟩ := map_eq_ok_iff.mp performed
      exact ⟨log, held, leaked, (aesdLlseek_sameMemory returned).represents rep, Or.inl rfl⟩
  | ioctl file outcomes cmd arg =>
      obtain ⟨result, returned, rfl⟩ := map_eq_ok_iff.mp performed
      exact ⟨log, held, leaked, (aesdIoctl_sameMemory returned).represents rep, Or.inl rfl⟩

/-! ## Runs -/

namespace Follower

/-- What holds between calls. -/
structure Sound (reader : Nat) (follower : Follower) : Prop where
  files : follower.files.Sound
  log : ∃ log held leaked, follower.files.driver.Represents log held leaked ∧
    follower.committed = log.committed ∧ follower.evicted ++ log.held = log.committed
  account : Account follower.committed.flatten follower.pieces
    follower.evicted.flatten.length (follower.files.fPos reader).toNat

theorem sound_start (reader : Nat) : start.Sound reader where
  files := Files.Sound.start
  log := ⟨Log.empty, [], [], AesdDev.represents_init, rfl, rfl⟩
  account := Account.nil []

variable {reader : Nat} {follower follower' : Follower}

/-- The observations of one call. -/
theorem Sound.observe (sound : follower.Sound reader) {files' : Files} {fileCall : FileCall}
    (called : Files.call fileCall follower.files = some files') :
    ∃ log held leaked more, files'.driver.Represents log held leaked ∧
      follower.committed ++ follower.files.driver.committedSince files'.driver = log.committed ∧
      follower.evicted ++ follower.files.driver.evictedSince files'.driver ++ log.held =
        log.committed ∧ log.committed = follower.committed ++ more := by
  obtain ⟨log, held, leaked, rep, committedEq, evictedEq⟩ := sound.log
  obtain ⟨log', held', leaked', rep', same | ⟨entry, committed⟩⟩ :=
    Files.call_committed rep called
  · obtain ⟨nothing, none⟩ := rep.observe_unchanged rep' same
    refine ⟨log', held', leaked', [], rep', ?_, ?_, ?_⟩
    · rw [nothing, same, List.append_nil, committedEq]
    · rw [none, List.append_nil, same, Log.held, same]
      exact evictedEq
    · rw [same, committedEq, List.append_nil]
  · refine ⟨log', held', leaked', [entry], rep', ?_, ?_, ?_⟩
    · rw [rep.observe_committed rep' committed, committed, committedEq]
    · rw [List.append_assoc, rep.observe_evicted rep' committed, ← List.append_assoc, evictedEq,
        committed]
    · rw [committed, committedEq]

/-- What is left of the stream is the content. -/
theorem Sound.drop_committed (sound : follower.Sound reader) :
    follower.committed.flatten.drop follower.evicted.flatten.length =
      follower.files.driver.content := by
  obtain ⟨log, held, leaked, rep, committedEq, evictedEq⟩ := sound.log
  rw [committedEq, ← evictedEq, List.flatten_append, List.drop_left, AesdDev.content,
    rep.held_eq_log]

/-- A call that does not move the file returns nothing to it. -/
theorem Sound.account_other (sound : follower.Sound reader) {files' : Files}
    {fileCall : FileCall} (nothing : follower.piecesOf reader fileCall = [])
    (stays : files'.fPos reader = follower.files.fPos reader) :
    Account follower.committed.flatten (follower.pieces ++ follower.piecesOf reader fileCall)
      follower.evicted.flatten.length (files'.fPos reader).toNat := by
  rw [nothing, List.append_nil, stays]
  exact sound.account

/-- The pieces after one call, before what has been committed meanwhile. -/
theorem Sound.account_call (sound : follower.Sound reader) {files' : Files} {fileCall : FileCall}
    (admits : follower.Admits reader fileCall)
    (called : Files.call fileCall follower.files = some files') :
    Account follower.committed.flatten (follower.pieces ++ follower.piecesOf reader fileCall)
      follower.evicted.flatten.length (files'.fPos reader).toNat := by
  have performed : follower.files.perform fileCall = .ok files' := by
    unfold Files.call at called
    split at called
    · contradiction
    · next performed => rw [performed, Option.some.inj called]
  cases fileCall with
  | write file outcomes buf =>
      obtain ⟨⟨retval, driver'⟩, _, rfl⟩ := map_eq_ok_iff.mp performed
      refine sound.account_other rfl ?_
      by_cases same : reader = file <;> simp [Files.move, same]
  | llseek file lock off whence =>
      have other : reader ≠ file := fun same => admits.2 same.symm
      obtain ⟨result, _, rfl⟩ := map_eq_ok_iff.mp performed
      exact sound.account_other rfl (Function.update_of_ne other _ _)
  | ioctl file outcomes cmd arg =>
      have other : reader ≠ file := fun same => admits.2 same.symm
      obtain ⟨result, _, rfl⟩ := map_eq_ok_iff.mp performed
      exact sound.account_other rfl (Function.update_of_ne other _ _)
  | read file outcomes bufIsNull count =>
      obtain ⟨result, returned, rfl⟩ := map_eq_ok_iff.mp performed
      by_cases same : file = reader
      · subst file
        obtain ⟨log, held, leaked, rep⟩ := sound.files.represents
        obtain ⟨word, moved, _⟩ := rep.aesdRead_returned
          (rep.length_content_lt sound.files.allocator.bounded) (sound.files.isPosition reader)
          returned
        rw [← sound.drop_committed, List.drop_drop] at word
        have taken := sound.account.take word
        rw [← moved] at taken
        simpa [piecesOf, returned, Files.move] using taken
      · refine sound.account_other ?_ (Function.update_of_ne (Ne.symm same) _ _)
        simp [piecesOf, same]

/-- One call. -/
theorem Sound.call (sound : follower.Sound reader) {fileCall : FileCall}
    (admits : follower.Admits reader fileCall)
    (called : Follower.call reader fileCall follower = some follower') :
    follower'.Sound reader := by
  obtain ⟨files', performed, rfl⟩ := Option.map_eq_some_iff.mp called
  obtain ⟨log, held, leaked, more, rep, committedEq, evictedEq, moreEq⟩ := sound.observe performed
  refine ⟨sound.files.call admits.1 performed, ⟨log, held, leaked, rep, committedEq,
    evictedEq⟩, ?_⟩
  have grown := (sound.account_call admits performed).grow more.flatten
    (show follower.evicted.flatten.length ≤
      (follower.evicted ++ follower.files.driver.evictedSince files'.driver).flatten.length by
        simp)
  rw [← List.flatten_append, ← moreEq, ← committedEq] at grown
  exact grown

/-- Between calls the reader has what it can rely on. -/
theorem Sound.follows (sound : follower.Sound reader) : follower.Follows reader := by
  have content := sound.drop_committed
  obtain ⟨log, held, leaked, rep, committedEq, evictedEq⟩ := sound.log
  refine ⟨sound.account, sound.account.pairwise_stop_le, ?_, ?_, ?_⟩
  · rw [rep.held_eq_log, evictedEq, committedEq]
  · intro nothing
    have account := sound.account
    rw [nothing] at account
    exact account.letters_eq_take
  · intro outcomes count result _ returned isZero
    obtain ⟨_, _, atEnd⟩ := rep.aesdRead_returned
      (rep.length_content_lt sound.files.allocator.bounded) (sound.files.isPosition reader)
      returned
    have lengthEq := congrArg List.length content
    rw [List.length_drop] at lengthEq
    have bound := atEnd isZero
    omega

end Follower

/-- In every run of calls on any open files, of which only the reads move the watched
one, its reads return pieces of the stream of commands, in order and without overlap;
what they leave out between two pieces has been evicted, and a zero is returned only
when nothing committed is left. -/
theorem reader_follows {reader : Nat} {calls : List FileCall} {follower : Follower}
    (run : Run (Follower.call reader) (Follower.Admits reader) Follower.start calls follower) :
    follower.Follows reader :=
  (run.invariant (fun _ follower => Follower.Sound reader follower)
    (Follower.sound_start reader)
    fun sound admits called => Follower.Sound.call sound admits called).follows

/-- One file is written to, and another one reads behind it: one byte, and ten writes
later another one. -/
def readBehind : List FileCall :=
  [.write 0 WriteOutcomes.success (some [97, newline]), .read 1 ⟨true, 0⟩ false 1] ++
    List.replicate 10 (.write 0 WriteOutcomes.success (some [98, 99, newline])) ++
    [.read 1 ⟨true, 0⟩ false 1]

/-- The second read returns the second letter of the second command: the two bytes of
the evicted command lie between it and what the reader expects. -/
theorem reader_follows_behind : ∃ follower,
    exec (Follower.call 1) readBehind Follower.start = some follower ∧
      follower.evicted = [[97, newline]] ∧ follower.pieces = [⟨0, 0, [97]⟩, ⟨2, 1, [99]⟩] ∧
      follower.Follows 1 := by
  obtain ⟨follower, executed⟩ : ∃ follower,
      exec (admitted (Follower.call 1) (Follower.Admits 1)) readBehind Follower.start =
        some follower := by
    refine Option.isSome_iff_exists.mp ?_
    decide +kernel
  have run : Run (Follower.call 1) (Follower.Admits 1) Follower.start readBehind follower :=
    run_iff_exec_admitted.mpr executed
  refine ⟨follower, run.exec_eq_some, ?_, ?_, reader_follows run⟩
  · have observed : (exec (admitted (Follower.call 1) (Follower.Admits 1)) readBehind
        Follower.start).map Follower.evicted = some [[97, newline]] := by
      decide +kernel
    rw [executed] at observed
    exact Option.some.inj observed
  · have observed : (exec (admitted (Follower.call 1) (Follower.Admits 1)) readBehind
        Follower.start).map Follower.pieces = some [⟨0, 0, [97]⟩, ⟨2, 1, [99]⟩] := by
      decide +kernel
    rw [executed] at observed
    exact Option.some.inj observed

end Aesd.Driver
