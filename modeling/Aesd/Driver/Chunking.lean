import Aesd.Driver.Simulation
import Aesd.Word.Chunks

/-!
# How a stream is cut into writes

When all allocations and copies succeed, `aesd_write` reads each buffer like
`Lines.feedOnce`: it looks for one newline and keeps the rest, newlines included,
for the next command.  The device therefore holds the commands of the stream
exactly when a buffer with two newlines is followed by enough later commands to
push the entry it spoils out of the ring.
-/

namespace Aesd.Driver

open Aesd.Ring
open Aesd.Transition
open Aesd.Word

/-- A write of a non-empty buffer during which nothing fails. -/
structure WriteCall.Succeeds (call : WriteCall) : Prop where
  lock : call.outcomes.lock = true
  kbuf : call.outcomes.kbuf.isSome = true
  uncopied : call.outcomes.uncopied = 0
  krealloc : call.outcomes.krealloc.isSome = true
  remainder : call.outcomes.remainder.isSome = true
  nonempty : call.user ≠ []
  nonneg : 0 ≤ call.fPos

theorem WriteCall.succeeds_success {user : Bytes} (nonempty : user ≠ []) :
    WriteCall.Succeeds ⟨WriteOutcomes.success, user, 0⟩ :=
  ⟨rfl, rfl, rfl, rfl, rfl, nonempty, Int.le_refl 0⟩

/-- The newline-terminated commands of a stream and the bytes behind the last
newline. -/
def commandsOf (stream : Bytes) : Lines UInt8 :=
  Lines.feed newline Lines.empty stream

/-- The device holds the last ten commands of the stream, each with a single
newline, and the bytes behind the last newline are pending. -/
structure AesdDev.HoldsCommandsOf (driver : AesdDev) (stream : Bytes) : Prop where
  held_eq : driver.held = (commandsOf stream).complete.rtake 10
  isLine : ∀ entry ∈ driver.held, IsLine newline entry
  pending_eq : driver.pending = (commandsOf stream).pending
  noNewline : newline ∉ driver.pending

/-- The lines a log without a lost command has read. -/
def Log.lines (log : Log) : Lines UInt8 :=
  ⟨log.committed, log.pending.recover fun _ => 0⟩

/-- A successful write cuts its buffer at the first newline only. -/
theorem Log.write_lines (log : Log) {bytes : Bytes} (pending : log.pending = .held bytes)
    {call : WriteCall} (succeeds : call.Succeeds) :
    (log.write call.outcomes call.user).2.lines =
        Lines.feedOnce newline log.lines call.user ∧
      ∃ bytes', (log.write call.outcomes call.user).2.pending = .held bytes' := by
  obtain ⟨kbufFill, allocates⟩ := Option.isSome_iff_exists.mp succeeds.kbuf
  obtain ⟨fill, granted⟩ := Option.isSome_iff_exists.mp succeeds.krealloc
  have writes : log.write call.outcomes call.user = log.accept fill true call.user := by
    simp [Log.write, allocates, succeeds.uncopied, granted, succeeds.remainder]
  have recovered : ∀ fill, log.pending.recover fill = bytes := by simp [pending]
  rw [writes]
  rcases not_mem_or_isLine_append newline call.user with absent | ⟨cmd, rest, isLine, userEq⟩
  · rw [Log.accept_of_not_mem log fill _ absent, Lines.feedOnce_of_not_mem _ absent]
    refine ⟨?_, _, rfl⟩
    simp [Log.lines, Log.append, Log.withPending, recovered]
  · rw [userEq, Log.accept_of_isLine log fill _ isLine rest, Lines.feedOnce_of_isLine _ isLine]
    by_cases nothingLeft : rest = []
    · rw [if_pos (Or.inl nothingLeft)]
      exact ⟨by simp [Log.lines, Log.commit, recovered, nothingLeft], _, rfl⟩
    · rw [if_neg (by simp [nothingLeft])]
      exact ⟨by simp [Log.lines, Log.commit, recovered], _, rfl⟩

/-- A sequence of successful writes returns and reads its buffers in order. -/
theorem AesdDev.represents_of_succeeds (calls : List WriteCall)
    (succeed : ∀ call ∈ calls, call.Succeeds) :
    ∃ driver log held bytes, exec AesdDev.write calls aesdInitModule = some driver ∧
      driver.Represents log held [] ∧ driver.bufferLock = false ∧
      log.pending = .held bytes ∧
      log.lines = Lines.feedChunks newline Lines.empty (calls.map WriteCall.user) := by
  induction calls using List.reverseRecOn with
  | nil => exact ⟨aesdInitModule, Log.empty, [], [], rfl, represents_init, rfl, rfl, rfl⟩
  | append_singleton calls call ih =>
      obtain ⟨driver, log, held, bytes, executed, rep, unlocked, pending, linesEq⟩ :=
        ih fun call member => succeed call (by simp [member])
      have succeeds := succeed call (by simp)
      obtain ⟨driver', held', leaked', written, rep', locked, noLeak⟩ :=
        rep.aesdWrite unlocked succeeds.lock succeeds.nonempty succeeds.nonneg
      rw [noLeak succeeds.krealloc] at rep'
      obtain ⟨linesEq', bytes', pending'⟩ := log.write_lines pending succeeds
      refine ⟨driver', _, held', bytes', ?_, rep', ?_, pending', ?_⟩
      · refine (exec_concat_eq_some_iff _ _ _ _ _).mpr ⟨driver, executed, ?_⟩
        simp only [AesdDev.write, written]
      · simpa [succeeds.uncopied] using locked
      · rw [linesEq', linesEq, List.map_append, Lines.feedChunks_append]
        rfl

/-- When every write succeeds, the device holds the commands of the stream if
and only if no buffer has two newlines, or eleven buffers with a newline come
behind the last one that has two. -/
theorem aesdWrite_chunking_iff (calls : List WriteCall)
    (succeed : ∀ call ∈ calls, call.Succeeds) :
    ∃ driver, exec AesdDev.write calls aesdInitModule = some driver ∧
      (driver.HoldsCommandsOf (calls.map WriteCall.user).flatten ↔
        CutsInTime newline 10 (calls.map WriteCall.user)) := by
  obtain ⟨driver, log, held, bytes, executed, rep, _, pending, linesEq⟩ :=
    AesdDev.represents_of_succeeds calls succeed
  refine ⟨driver, executed, ?_⟩
  have heldEq : driver.held =
      (Lines.feedChunks newline Lines.empty (calls.map WriteCall.user)).complete.rtake 10 := by
    rw [rep.held_eq_log, ← linesEq]
    rfl
  have pendingEq : driver.pending =
      (Lines.feedChunks newline Lines.empty (calls.map WriteCall.user)).pending := by
    rw [rep.pending_eq_log pending, ← linesEq, Log.lines, pending]
    rfl
  have split : Lines.Split newline (commandsOf (calls.map WriteCall.user).flatten) :=
    Lines.split_empty.feed _
  rw [← feedChunks_kept_iff]
  constructor
  · intro holds
    rw [← heldEq, ← pendingEq]
    exact ⟨holds.held_eq, holds.pending_eq⟩
  · rintro ⟨keptEq, restEq⟩
    rw [← heldEq] at keptEq
    rw [← pendingEq] at restEq
    refine ⟨keptEq, ?_, restEq, ?_⟩
    · intro entry member
      rw [keptEq] at member
      exact split.isLine entry (List.mem_of_mem_drop member)
    · rw [restEq]
      exact split.pending

/-- The chunks `a` and `b\n` are cut in time. -/
theorem aesdWrite_chunking_iff_split :
    ∃ driver,
      exec AesdDev.write
          [⟨WriteOutcomes.success, [97], 0⟩, ⟨WriteOutcomes.success, [98, 10], 0⟩]
          aesdInitModule = some driver ∧
        (driver.HoldsCommandsOf [97, 98, 10] ↔ CutsInTime newline 10 [[97], [98, 10]]) := by
  refine aesdWrite_chunking_iff
    [⟨WriteOutcomes.success, [97], 0⟩, ⟨WriteOutcomes.success, [98, 10], 0⟩] ?_
  intro call member
  simp only [List.mem_cons, List.not_mem_nil, or_false] at member
  rcases member with rfl | rfl <;> exact WriteCall.succeeds_success (by simp)

/-- Written at once, `a\nb\n` leaves its second command pending; written in two
pieces it does not. -/
theorem aesdWrite_chunking_matters :
    (∃ driver,
      exec AesdDev.write [⟨WriteOutcomes.success, [97, 10, 98, 10], 0⟩] aesdInitModule =
          some driver ∧
        driver.held = [[97, 10]] ∧ driver.pending = [98, 10] ∧
        ¬ driver.HoldsCommandsOf [97, 10, 98, 10]) ∧
      ∃ driver,
        exec AesdDev.write
            [⟨WriteOutcomes.success, [97, 10], 0⟩, ⟨WriteOutcomes.success, [98, 10], 0⟩]
            aesdInitModule = some driver ∧
          driver.held = [[97, 10], [98, 10]] ∧ driver.pending = [] := by
  constructor
  · refine ⟨_, rfl, by decide, by decide, ?_⟩
    intro holds
    exact holds.noNewline (by decide)
  · exact ⟨_, rfl, by decide, by decide⟩

end Aesd.Driver
