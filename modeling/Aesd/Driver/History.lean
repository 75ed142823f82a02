import Aesd.Driver.Simulation

/-!
# No byte is lost or duplicated

A history watches a device from outside while it is written to.  It records
every call with its return value and reads off the raw buffer which entry a call
has committed and which one it has evicted.  As long as the lock is obtained,
the user buffer can be read and `krealloc` succeeds, the bytes the calls have
accepted are the evicted entries, the held ones and the pending one, in this
order.
-/

namespace Aesd.Driver

open Aesd.Ring
open Aesd.Transition
open Aesd.Word

/-! ## Watching a device -/

/-- A write during which only the two `kmalloc` calls may fail. -/
structure WriteCall.Admissible (call : WriteCall) : Prop where
  lock : call.outcomes.lock = true
  uncopied : call.outcomes.uncopied = 0
  krealloc : call.outcomes.krealloc.isSome = true
  nonempty : call.user ≠ []

/-- A write that has returned. -/
structure WriteRecord where
  user : Bytes
  retval : Int

/-- The part of the user buffer a write has accepted. -/
def WriteRecord.accepted (record : WriteRecord) : Bytes :=
  if 0 < record.retval then
    record.user.take record.retval.toNat
  else
    []

theorem WriteRecord.accepted_of_append (first second : Bytes) :
    WriteRecord.accepted ⟨first ++ second, first.length⟩ = first := by
  cases first with
  | nil => rfl
  | cons letter first => simp [accepted, show 0 < (first.length : Int) + 1 by omega]

theorem WriteRecord.accepted_of_length (user : Bytes) :
    WriteRecord.accepted ⟨user, user.length⟩ = user := by
  simpa using WriteRecord.accepted_of_append user []

namespace AesdDev

/-- The slot the next entry goes to. -/
def inSlot (driver : AesdDev) : Fin aesdcharMaxWriteOperationsSupported :=
  Fin.ofNat _ driver.cBuffer.inOffs

/-- The entry committed between two observations: `in_offs` has moved on from
the slot that holds it. -/
def committedSince (before after : AesdDev) : List Bytes :=
  if after.cBuffer.inOffs = before.cBuffer.inOffs then
    []
  else
    [after.bytesOf (after.cBuffer.entry before.inSlot)]

/-- The entry evicted between two observations: the one in the slot `in_offs`
has moved on from, if the buffer was full. -/
def evictedSince (before after : AesdDev) : List Bytes :=
  if after.cBuffer.inOffs = before.cBuffer.inOffs ∨ before.cBuffer.full = false then
    []
  else
    [before.bytesOf (before.cBuffer.entry before.inSlot)]

end AesdDev

/-- A device and what has been observed of it. -/
structure History where
  driver : AesdDev
  calls : List WriteRecord
  committed : List Bytes
  evicted : List Bytes

namespace History

/-- A freshly initialised device. -/
def initial : History :=
  ⟨aesdInitModule, [], [], []⟩

/-- Record a write that has returned. -/
def record (history : History) (user : Bytes) (retval : Int) (driver : AesdDev) : History where
  driver := driver
  calls := history.calls ++ [⟨user, retval⟩]
  committed := history.committed ++ history.driver.committedSince driver
  evicted := history.evicted ++ history.driver.evictedSince driver

/-- One write; undefined when the call does not return. -/
def write : Step WriteCall History := fun call history =>
  match aesdWrite call.outcomes (some call.user) call.fPos history.driver with
  | .error _ => none
  | .ok (retval, driver) => some (history.record call.user retval driver)

/-- The bytes all calls have accepted, in order. -/
def accepted (history : History) : Bytes :=
  (history.calls.map WriteRecord.accepted).flatten

/-- What holds of every history of admissible writes. -/
structure Conserved (history : History) : Prop where
  /-- A call that succeeds accepts at least one byte and at most its buffer. -/
  returns : ∀ record ∈ history.calls, 0 ≤ record.retval →
    0 < record.retval ∧ record.retval ≤ record.user.length
  /-- Every accepted byte is in exactly one place. -/
  bytes : history.evicted.flatten ++ history.driver.held.flatten ++ history.driver.pending =
    history.accepted
  /-- Every committed entry is evicted or held. -/
  entries : history.evicted ++ history.driver.held = history.committed
  /-- The buffer holds the last committed entries, oldest first. -/
  held_eq : history.driver.held = history.committed.rtake 10
  count_eq : history.driver.cBuffer.count = min history.committed.length 10
  terminated : ∀ entry ∈ history.driver.held,
    entry ≠ [] ∧ entry.getLast? = some newline
  full_iff : history.driver.cBuffer.full = true ↔ 10 ≤ history.committed.length
  inOffs_eq : history.driver.cBuffer.inOffs = history.committed.length % 10
  /-- `out_offs` is the slot that the oldest held entry went to. -/
  outOffs_eq : history.driver.cBuffer.outOffs =
    (history.committed.length - min history.committed.length 10) % 10
  /-- A slot without a held entry is unset. -/
  unset : ∀ slot, (∀ index, index < history.driver.cBuffer.count →
      Fin.ofNat _ (history.driver.cBuffer.outOffs + index) ≠ slot) →
    history.driver.cBuffer.entry slot = BufferEntry.zero

end History

/-! ## What the log does -/

/-- One write conserves bytes: what it adds to the committed commands and the
pending one is what it returns to have accepted. -/
theorem Log.write_conserves (log : Log) {outcomes : WriteOutcomes}
    (copied : outcomes.uncopied = 0) (granted : outcomes.krealloc.isSome = true)
    {user : Bytes} (nonempty : user ≠ []) {bytes : Bytes} (pending : log.pending = .held bytes) :
    ∃ bytes',
      (log.write outcomes user).2.pending = .held bytes' ∧
      (log.write outcomes user).2.committed.flatten ++ bytes' =
        log.committed.flatten ++ bytes ++
          WriteRecord.accepted ⟨user, (log.write outcomes user).1⟩ ∧
      (0 ≤ (log.write outcomes user).1 →
        0 < (log.write outcomes user).1 ∧ (log.write outcomes user).1 ≤ user.length) := by
  obtain ⟨fill, granted⟩ := Option.isSome_iff_exists.mp granted
  have userPositive : 0 < user.length := List.length_pos_iff.mpr nonempty
  have recovered : log.pending.recover fill = bytes := by
    rw [pending]
    rfl
  cases allocates : outcomes.kbuf with
  | none =>
      have writes : log.write outcomes user = (-enomem, log) := by
        simp [Log.write, allocates]
      rw [writes]
      exact ⟨bytes, pending, by simp [WriteRecord.accepted, enomem], by simp [enomem]⟩
  | some kbufFill =>
      have writes : log.write outcomes user =
          log.accept fill outcomes.remainder.isSome user := by
        simp [Log.write, allocates, copied, granted]
      rw [writes]
      rcases not_mem_or_isLine_append newline user with absent | ⟨cmd, rest, isLine, rfl⟩
      · rw [Log.accept_of_not_mem log fill _ absent]
        refine ⟨bytes ++ user, ?_, ?_, by simp; omega⟩
        · simp [Log.append, Log.withPending, recovered]
        · rw [WriteRecord.accepted_of_length]
          simp [Log.append, Log.withPending]
      · have cmdPositive : 0 < cmd.length := List.length_pos_iff.mpr isLine.ne_nil
        rw [Log.accept_of_isLine log fill _ isLine rest]
        split
        · refine ⟨[], rfl, ?_, by simp; omega⟩
          rw [WriteRecord.accepted_of_append]
          simp [Log.commit, recovered]
        · refine ⟨rest, rfl, ?_, by simp; omega⟩
          rw [WriteRecord.accepted_of_length]
          simp [Log.commit, recovered]

/-- One write commits at most one command. -/
theorem Log.write_committed (log : Log) (outcomes : WriteOutcomes) (user : Bytes) :
    (log.write outcomes user).2.committed = log.committed ∨
      ∃ entry, (log.write outcomes user).2.committed = log.committed ++ [entry] := by
  unfold Log.write
  split
  · exact Or.inl rfl
  · split
    · exact Or.inl rfl
    · split
      · exact Or.inl rfl
      · rename_i fill _
        rcases not_mem_or_isLine_append newline user with absent | ⟨cmd, rest, isLine, rfl⟩
        · rw [Log.accept_of_not_mem log fill _ absent]
          exact Or.inl rfl
        · rw [Log.accept_of_isLine log fill _ isLine rest]
          split <;> exact Or.inr ⟨_, rfl⟩

/-! ## What is observed -/

namespace AesdDev.Represents

variable {before after : AesdDev} {log log' : Log}
  {held leaked held' leaked' : List (Nat × Bytes)}

theorem observe_unchanged (rep : before.Represents log held leaked)
    (rep' : after.Represents log' held' leaked') (same : log'.committed = log.committed) :
    before.committedSince after = [] ∧ before.evictedSince after = [] := by
  have inEq : after.cBuffer.inOffs = before.cBuffer.inOffs := by
    rw [rep'.ring.inOffs_eq, rep.ring.inOffs_eq, same]
  simp [committedSince, evictedSince, inEq]

theorem inOffs_ne_of_commit (rep : before.Represents log held leaked)
    (rep' : after.Represents log' held' leaked') {entry : Bytes}
    (committed : log'.committed = log.committed ++ [entry]) :
    after.cBuffer.inOffs ≠ before.cBuffer.inOffs := by
  rw [rep'.ring.inOffs_eq, rep.ring.inOffs_eq, committed]
  simp
  omega

/-- The slot `in_offs` has moved on from holds the entry committed last. -/
theorem observe_committed (rep : before.Represents log held leaked)
    (rep' : after.Represents log' held' leaked') {entry : Bytes}
    (committed : log'.committed = log.committed ++ [entry]) :
    before.committedSince after = [entry] := by
  have heldEq := rep'.held_eq
  rw [Log.held, committed, List.rtake_concat_succ] at heldEq
  rcases List.eq_nil_or_concat held' with rfl | ⟨front, cell, rfl⟩
  · simp at heldEq
  · rw [List.concat_eq_append, List.map_append, List.map_singleton] at heldEq
    have bytesEq : cell.2 = entry := by
      simpa using congrArg List.getLast? heldEq
    have lengthEq := rep'.ring.length_eq
    have outEq := rep'.ring.outOffs_eq
    rw [committed] at lengthEq outEq
    simp only [List.concat_eq_append, List.map_append, List.map_singleton, List.length_append,
      List.length_map, List.length_singleton] at lengthEq outEq
    have slotEq : before.inSlot =
        Fin.ofNat _ (after.cBuffer.outOffs + (front.map entryOfCell).length) := by
      unfold inSlot
      rw [ofNat_eq_ofNat_iff, rep.ring.inOffs_eq, outEq, List.length_map]
      simp only [Nat.ModEq, aesdcharMaxWriteOperationsSupported]
      omega
    have cellEq : after.cBuffer.entry before.inSlot = entryOfCell cell := by
      rw [slotEq]
      exact rep'.ring.window.cell_eq _ _ (by simp)
    unfold committedSince
    rw [if_neg (rep.inOffs_ne_of_commit rep' committed), cellEq,
      rep'.bytesOf_cell (by simp), bytesEq]

/-- A commit drops what it evicts from the front of the held entries. -/
theorem observe_evicted (rep : before.Represents log held leaked)
    (rep' : after.Represents log' held' leaked') {entry : Bytes}
    (committed : log'.committed = log.committed ++ [entry]) :
    before.evictedSince after ++ log'.held = log.held ++ [entry] := by
  have moved := rep.inOffs_ne_of_commit rep' committed
  have heldEq' : log'.held = push 10 log.held entry := by
    rw [Log.held, committed, ← push_rtake]
    rfl
  have heldLength : held.length = min log.committed.length 10 := by
    simpa using rep.ring.length_eq
  have logLength : log.held.length = held.length := by
    rw [← rep.held_eq, List.length_map]
  by_cases room : log.committed.length < 10
  · have notFull : before.cBuffer.full = false := by
      rw [rep.ring.full_eq]
      exact decide_eq_false (by omega)
    rw [heldEq', push_of_room (by omega)]
    simp [evictedSince, notFull]
  · have isFull : before.cBuffer.full = true := by
      rw [rep.ring.full_eq]
      exact decide_eq_true (by omega)
    obtain ⟨outEq, _⟩ := rep.ring.outOffs_of_full (by omega)
    rw [heldEq', push_of_full (by omega)]
    cases held with
    | nil => simp at heldLength; omega
    | cons oldest others =>
        have slotEq : before.inSlot = Fin.ofNat _ (before.cBuffer.outOffs + 0) := by
          unfold inSlot
          rw [rep.ring.inOffs_eq, outEq, Nat.add_zero]
        have cellEq : before.cBuffer.entry before.inSlot = entryOfCell oldest := by
          rw [slotEq]
          exact rep.ring.window.cell_eq 0 _ (by simp)
        have evicted : before.evictedSince after = [oldest.2] := by
          unfold evictedSince
          rw [if_neg (by simp [moved, isFull]), cellEq, rep.bytesOf_cell (by simp)]
        rw [evicted, ← rep.held_eq]
        simp

end AesdDev.Represents

/-! ## The invariant of a history -/

namespace History

variable {history : History} {log : Log} {held : List (Nat × Bytes)}

/-- The log a history has followed so far. -/
structure Tracks (history : History) (log : Log) (held : List (Nat × Bytes)) : Prop where
  rep : history.driver.Represents log held []
  unlocked : history.driver.bufferLock = false
  committed_eq : history.committed = log.committed
  evicted_eq : history.evicted ++ log.held = log.committed
  pending : ∃ bytes, log.pending = .held bytes ∧
    log.committed.flatten ++ bytes = history.accepted
  returns : ∀ record ∈ history.calls, 0 ≤ record.retval →
    0 < record.retval ∧ record.retval ≤ record.user.length

theorem tracks_initial : initial.Tracks Log.empty [] where
  rep := AesdDev.represents_init
  unlocked := rfl
  committed_eq := rfl
  evicted_eq := rfl
  pending := ⟨[], rfl, rfl⟩
  returns := by simp [initial]

/-- A write with a negative file position is refused. -/
theorem Tracks.write_refused (tracks : history.Tracks log held) {call : WriteCall}
    (negative : call.fPos < 0) :
    ∃ history', write call history = some history' ∧ history'.Tracks log held := by
  have refused : aesdWrite call.outcomes (some call.user) call.fPos history.driver =
      .ok (-einval, history.driver) := by
    simp [aesdWrite, negative]
  obtain ⟨bytes, pending, conserved⟩ := tracks.pending
  refine ⟨history.record call.user (-einval) history.driver, by simp only [History.write, refused],
    tracks.rep, tracks.unlocked, ?_, ?_, ?_, ?_⟩
  · simpa [record, AesdDev.committedSince] using tracks.committed_eq
  · simpa [record, AesdDev.evictedSince] using tracks.evicted_eq
  · refine ⟨bytes, pending, ?_⟩
    simp [conserved, accepted, record, WriteRecord.accepted, einval]
  · intro record member
    rcases List.mem_append.mp member with old | new
    · exact tracks.returns record old
    · rw [List.mem_singleton.mp new]
      simp [einval]

/-- One admissible write returns and extends the log. -/
theorem Tracks.write (tracks : history.Tracks log held) {call : WriteCall}
    (admissible : call.Admissible) (nonneg : 0 ≤ call.fPos) :
    ∃ history' log' held', History.write call history = some history' ∧
      history'.Tracks log' held' := by
  obtain ⟨driver', held', leaked', written, rep', locked, noLeak⟩ :=
    tracks.rep.aesdWrite tracks.unlocked admissible.lock admissible.nonempty nonneg
  rw [noLeak admissible.krealloc] at rep'
  obtain ⟨bytes, pending, conserved⟩ := tracks.pending
  obtain ⟨bytes', pending', conserved', returns⟩ :=
    log.write_conserves admissible.uncopied admissible.krealloc admissible.nonempty pending
  refine ⟨history.record call.user (log.write call.outcomes call.user).1 driver',
    (log.write call.outcomes call.user).2, held', by simp only [History.write, written],
    rep', ?_, ?_, ?_, ⟨bytes', pending', ?_⟩, ?_⟩
  · simpa [record, admissible.uncopied] using locked
  · rcases log.write_committed call.outcomes call.user with same | ⟨entry, committed⟩
    · simp [record, (tracks.rep.observe_unchanged rep' same).1, same, tracks.committed_eq]
    · simp [record, tracks.rep.observe_committed rep' committed, committed, tracks.committed_eq]
  · rcases log.write_committed call.outcomes call.user with same | ⟨entry, committed⟩
    · simpa [record, (tracks.rep.observe_unchanged rep' same).2, Log.held, same] using
        tracks.evicted_eq
    · have dropped := tracks.rep.observe_evicted rep' committed
      rw [committed, ← tracks.evicted_eq, List.append_assoc, ← dropped]
      exact List.append_assoc _ _ _
  · rw [conserved', conserved]
    simp [accepted, record]
  · intro record member
    rcases List.mem_append.mp member with old | new
    · exact tracks.returns record old
    · rw [List.mem_singleton.mp new]
      exact returns

/-- Every sequence of admissible writes returns and follows a log. -/
theorem tracks_of_admissible (calls : List WriteCall)
    (admissible : ∀ call ∈ calls, call.Admissible) :
    ∃ history log held, exec History.write calls initial = some history ∧
      history.Tracks log held := by
  induction calls using List.reverseRecOn with
  | nil => exact ⟨initial, Log.empty, [], rfl, tracks_initial⟩
  | append_singleton calls call ih =>
      obtain ⟨history, log, held, executed, tracks⟩ :=
        ih fun call member => admissible call (by simp [member])
      by_cases nonneg : 0 ≤ call.fPos
      · obtain ⟨history', log', held', written, tracks'⟩ :=
          tracks.write (admissible call (by simp)) nonneg
        exact ⟨history', log', held',
          (exec_concat_eq_some_iff _ _ _ _ _).mpr ⟨history, executed, written⟩, tracks'⟩
      · obtain ⟨history', written, tracks'⟩ := tracks.write_refused (Int.not_le.mp nonneg)
        exact ⟨history', log, held,
          (exec_concat_eq_some_iff _ _ _ _ _).mpr ⟨history, executed, written⟩, tracks'⟩

theorem Tracks.conserved (tracks : history.Tracks log held) : history.Conserved := by
  have ring := tracks.rep.ring
  have lengthEq := ring.length_eq
  have committedEq := tracks.committed_eq
  obtain ⟨bytes, pending, conserved⟩ := tracks.pending
  constructor
  case returns => exact tracks.returns
  case bytes =>
    rw [tracks.rep.held_eq_log, tracks.rep.pending_eq_log pending, ← conserved,
      ← tracks.evicted_eq, List.flatten_append]
  case entries => rw [tracks.rep.held_eq_log, tracks.evicted_eq, committedEq]
  case held_eq => rw [tracks.rep.held_eq_log, committedEq, Log.held]
  case count_eq => rw [ring.count_eq, lengthEq, committedEq]
  case terminated =>
    intro entry member
    rw [tracks.rep.held_eq_log] at member
    have terminated := log.terminated entry (List.mem_of_mem_drop member)
    refine ⟨?_, terminated⟩
    rintro rfl
    simp at terminated
  case full_iff => rw [ring.full_eq, committedEq, decide_eq_true_eq]
  case inOffs_eq => rw [ring.inOffs_eq, committedEq]
  case outOffs_eq => rw [ring.outOffs_eq, lengthEq, committedEq]
  case unset =>
    intro slot notHeld
    rw [ring.count_eq] at notHeld
    exact ring.unset_of_not_held notHeld

/-- A history lists the buffers written, in order. -/
theorem calls_of_exec {calls : List WriteCall} {start : History}
    (executed : exec History.write calls start = some history) :
    history.calls.map WriteRecord.user =
      start.calls.map WriteRecord.user ++ calls.map WriteCall.user := by
  induction calls using List.reverseRecOn generalizing history with
  | nil =>
      cases executed
      simp
  | append_singleton calls call ih =>
      obtain ⟨middle, first, last⟩ := (exec_concat_eq_some_iff _ _ _ _ _).mp executed
      unfold History.write at last
      split at last
      · contradiction
      · cases last
        simp [record, ih first]

end History

/-! ## Conservation -/

/-- Every sequence of writes during which only `kmalloc` may fail returns from
all its calls, and leaves every accepted byte in exactly one place. -/
theorem aesdWrite_conserves (calls : List WriteCall)
    (admissible : ∀ call ∈ calls, call.Admissible) :
    ∃ history, exec History.write calls History.initial = some history ∧
      history.calls.map WriteRecord.user = calls.map WriteCall.user ∧
      history.Conserved := by
  obtain ⟨history, log, held, executed, tracks⟩ := History.tracks_of_admissible calls admissible
  exact ⟨history, executed, by simpa [History.initial] using History.calls_of_exec executed,
    tracks.conserved⟩

/-- A write of `a\nb` whose remainder finds no memory, then one of `c\n`. -/
theorem aesdWrite_conserves_partial :
    let calls : List WriteCall :=
      [⟨⟨true, some fun _ => 0, 0, some fun _ => 0, none⟩, [97, 10, 98], 0⟩,
        ⟨⟨true, some fun _ => 0, 0, some fun _ => 0, none⟩, [99, 10], 2⟩]
    ∃ history, exec History.write calls History.initial = some history ∧
      history.calls.map WriteRecord.user = calls.map WriteCall.user ∧
      history.Conserved := by
  refine aesdWrite_conserves _ ?_
  intro call member
  simp only [List.mem_cons, List.not_mem_nil, or_false] at member
  rcases member with rfl | rfl <;> exact ⟨rfl, rfl, rfl, by simp⟩

end Aesd.Driver
