import Aesd.Driver.Device
import Aesd.Word.Lines

/-!
# The command log

What the device is for, without slots, offsets and pointers: a log of committed
commands, each of which ends in a newline, and one command under construction.
The device keeps the last ten committed commands.

When enlarging the pending entry fails, the driver forgets its block but keeps
its size, and the next successful write fills the gap with whatever fresh memory
contains.  The log records this as a lost pending command.
-/

namespace Aesd.Driver

open Aesd.Ring
open Aesd.Word

/-- The command under construction. -/
inductive Pending
  | held (bytes : Bytes)
  | lost (size : Nat)

/-- The value of `current_entry.size`. -/
def Pending.size : Pending → Nat
  | held bytes => bytes.length
  | lost size => size

/-- The bytes in front of the next command text once the entry has a block
again. -/
def Pending.recover (fill : Nat → UInt8) : Pending → Bytes
  | held bytes => bytes
  | lost size => uninitialised size fill

@[simp]
theorem Pending.recover_held (bytes : Bytes) (fill : Nat → UInt8) :
    (Pending.held bytes).recover fill = bytes :=
  rfl

@[simp]
theorem Pending.length_recover (pending : Pending) (fill : Nat → UInt8) :
    (pending.recover fill).length = pending.size := by
  cases pending <;> simp [recover, size]

/-- All commands committed so far, oldest first, and the pending one. -/
structure Log where
  committed : List Bytes
  pending : Pending
  terminated : ∀ entry ∈ committed, entry.getLast? = some newline

namespace Log

/-- The log of a freshly initialised device. -/
def empty : Log :=
  ⟨[], .held [], by simp⟩

/-- The commands the device holds. -/
def held (log : Log) : List Bytes :=
  log.committed.rtake 10

/-- Replace the pending command. -/
def withPending (log : Log) (pending : Pending) : Log where
  committed := log.committed
  pending := pending
  terminated := log.terminated

/-- Extend the pending command. -/
def append (log : Log) (fill : Nat → UInt8) (bytes : Bytes) : Log :=
  log.withPending (.held (log.pending.recover fill ++ bytes))

/-- Finish the pending command with `cmd` and start the next one with `rest`. -/
def commit (log : Log) (fill : Nat → UInt8) (cmd : Bytes) (isLine : IsLine newline cmd)
    (rest : Bytes) : Log where
  committed := log.committed ++ [log.pending.recover fill ++ cmd]
  pending := .held rest
  terminated entry member := by
    rcases List.mem_append.mp member with old | new
    · exact log.terminated entry old
    · rw [List.mem_singleton.mp new, List.getLast?_append_of_ne_nil _ isLine.ne_nil]
      exact isLine.getLast?

/-- Lose the block of the pending command. -/
def lose (log : Log) : Log :=
  log.withPending (.lost log.pending.size)

/-- The return value and the log after `user` was copied in and the pending
entry enlarged.  The first newline ends the pending command; the bytes behind it
start the next one, or are not accepted when `roomForRest` is false. -/
def accept (log : Log) (fill : Nat → UInt8) (roomForRest : Bool) (user : Bytes) :
    Int × Log :=
  match found : cut newline user with
  | none => (user.length, log.append fill user)
  | some (cmd, rest) =>
      if rest = [] ∨ roomForRest = false then
        (cmd.length, log.commit fill cmd (cut_eq_some_iff.mp found).1 [])
      else
        (user.length, log.commit fill cmd (cut_eq_some_iff.mp found).1 rest)

/-- The return value and the log after one write that obtained the lock. -/
def write (log : Log) (outcomes : WriteOutcomes) (user : Bytes) : Int × Log :=
  match outcomes.kbuf with
  | none => (-enomem, log)
  | some _ =>
      if outcomes.uncopied ≠ 0 then
        (-efault, log)
      else
        match outcomes.krealloc with
        | none => (-enomem, log.lose)
        | some fill => log.accept fill outcomes.remainder.isSome user

theorem accept_of_not_mem (log : Log) (fill : Nat → UInt8) (roomForRest : Bool)
    {user : Bytes} (absent : newline ∉ user) :
    log.accept fill roomForRest user = ((user.length : Int), log.append fill user) := by
  unfold accept
  split
  · rfl
  · rename_i found
    rw [cut_eq_none_iff.mpr absent] at found
    contradiction

theorem accept_of_isLine (log : Log) (fill : Nat → UInt8) (roomForRest : Bool)
    {cmd : Bytes} (isLine : IsLine newline cmd) (rest : Bytes) :
    log.accept fill roomForRest (cmd ++ rest) =
      if rest = [] ∨ roomForRest = false then
        ((cmd.length : Int), log.commit fill cmd isLine [])
      else
        (((cmd ++ rest).length : Int), log.commit fill cmd isLine rest) := by
  unfold accept
  split
  · rename_i found
    rw [isLine.cut_append] at found
    contradiction
  · rename_i found
    rw [isLine.cut_append] at found
    cases found
    rfl

end Log

end Aesd.Driver
