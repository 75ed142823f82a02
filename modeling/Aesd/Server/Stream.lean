import Aesd.Server.Aesdchar
import Aesd.Server.Core

/-!
# The stream of a handler

`transfered_data_file` is null until the receive loop has found a newline and
`fopen` has succeeded.  The loop is also left when `recv` returns zero or fails,
and all three exits lead to the code that reads the file back.  Behind the last
two, `fseek` is called with a null pointer.
-/

namespace Aesd.Server

open Aesd.Driver
open Aesd.Transition

/-! ## The calls of a handler -/

/-- The pointer `transfered_data_file`. -/
inductive Stream
  | null
  | opened
  deriving DecidableEq

/-- The calls `message_handler_thread` makes behind the receive loop, in their order;
`complete` is the assignment of `thread_complete_success` before it returns. -/
inductive HandlerCall
  | handleIoctl (cmdBuffer : Bytes)
  | lockFile (ok : Bool)
  | fopen (ok : Bool)
  | cleanup
  | fwrite (bytes : Bytes)
  | fflush (stream : Stream)
  | fseek (stream : Stream)
  | fgets (stream : Stream)
  | send (line : Bytes)
  | fclose (stream : Stream)
  | unlockFile (ok : Bool)
  | complete (success : Bool)
  deriving DecidableEq

/-- What these calls return: the result of `handle_ioctl`, whether the other calls
succeed, and the lines `fgets` finds. -/
structure CallOutcomes where
  handleIoctl : Int
  lockFile : Bool
  fopen : Bool
  unlockFile : Bool
  lines : List Bytes

/-- The code behind the receive loop.  `fflush(NULL)` flushes other streams;
`fseek(NULL, ...)` ends the process. -/
def readBackPhase (outcomes : CallOutcomes) (stream : Stream) : List HandlerCall :=
  .fflush stream :: .fseek stream ::
    match stream with
    | .null => []
    | .opened =>
        (outcomes.lines.flatMap fun line => [.fgets stream, .send line]) ++
          [.fgets stream, .fclose stream, .unlockFile outcomes.unlockFile,
            .complete outcomes.unlockFile]

/-- `message_handler_thread`: its calls when `malloc` returns `buffer` and `recv`
delivers `chunks` and then returns zero or fails, unless the loop is left
before. -/
def messageHandlerThread (outcomes : CallOutcomes) (buffer : Option Bytes)
    (chunks : List Bytes) : List HandlerCall :=
  match buffer with
  | none => [.complete false]
  | some buffer =>
      match receiveLoop buffer chunks with
      | .nothing => readBackPhase outcomes .null
      | .seek cmdBuffer => [.handleIoctl cmdBuffer, .complete (outcomes.handleIoctl = 0)]
      | .data bytes =>
          if outcomes.lockFile = false then
            [.lockFile false, .complete false]
          else if outcomes.fopen = false then
            [.lockFile true, .fopen false, .cleanup, .complete false]
          else
            [.lockFile true, .fopen true, .fwrite bytes] ++ readBackPhase outcomes .opened

/-! ## Safety -/

namespace HandlerCall

/-- The calls that do not accept a null stream. -/
def needsStream : HandlerCall → Option Stream
  | .fseek stream | .fgets stream | .fclose stream => some stream
  | _ => none

/-- The calls of the read-back phase. -/
def readsBack : HandlerCall → Bool
  | .fflush _ | .fseek _ | .fgets _ | .fclose _ => true
  | _ => false

/-- The calls that reach the device. -/
def touchesDevice : HandlerCall → Bool
  | .handleIoctl _ | .fopen _ | .cleanup | .fwrite _ => true
  | .fflush stream | .fseek stream | .fgets stream | .fclose stream => stream = .opened
  | .lockFile _ | .send _ | .unlockFile _ | .complete _ => false

end HandlerCall

/-- What is expected of a handler. -/
structure Safe (chunks : List Bytes) (calls : List HandlerCall) : Prop where
  /-- No call gets a null stream that does not accept one. -/
  notNull : ∀ call ∈ calls, call.needsStream ≠ some .null
  /-- The read-back phase comes behind the lock and a successful `fopen`, and in front
  of the unlock. -/
  guarded : ∀ before call after, calls = before ++ call :: after → call.readsBack = true →
    .lockFile true ∈ before ∧ .fopen true ∈ before ∧ ∀ ok, .unlockFile ok ∉ before
  /-- A client that disconnects in front of its newline does no harm: the handler returns
  and has left the device alone. -/
  disconnected : (∀ chunk ∈ chunks, newline ∉ chunk) →
    (∃ success, calls.getLast? = some (.complete success)) ∧
      ∀ call ∈ calls, call.touchesDevice = false

/-- A chunk without a newline keeps the loop going. -/
theorem receiveChunk_of_absent {chunk : Bytes} (absent : newline ∉ chunk) (buffer : Bytes) :
    receiveChunk (overwrite buffer chunk) chunk.length = none := by
  have taken : (overwrite buffer chunk).take chunk.length = chunk := List.take_left
  rw [receiveChunk, taken, if_neg absent]

/-- Without a newline the loop finds nothing. -/
theorem receiveLoop_of_absent {chunks : List Bytes} (absent : ∀ chunk ∈ chunks, newline ∉ chunk)
    (buffer : Bytes) : receiveLoop buffer chunks = .nothing := by
  induction chunks generalizing buffer with
  | nil => rfl
  | cons chunk chunks ih =>
      have continues := receiveChunk_of_absent (absent chunk List.mem_cons_self) buffer
      rw [receiveLoop, continues]
      exact ih (fun other member => absent other (List.mem_cons_of_mem _ member)) _

/-- With one it finds something. -/
theorem receiveLoop_of_present {chunks : List Bytes} {chunk : Bytes} (member : chunk ∈ chunks)
    (present : newline ∈ chunk) (buffer : Bytes) : receiveLoop buffer chunks ≠ .nothing := by
  obtain ⟨before, first, later, rfl, inFirst, absent, _⟩ :=
    first_chunk (List.mem_flatten.mpr ⟨chunk, member, present⟩)
  obtain ⟨seeks, passes⟩ := receiveLoop_eq before later inFirst absent buffer
  by_cases starts : seekCommand <+: first
  · obtain ⟨buffer', sought⟩ := seeks starts
    rw [sought]
    exact Received.noConfusion
  · rw [passes starts]
    exact Received.noConfusion

/-! ## Which receive sequences are safe -/

/-- A call that does not occur in the first part comes behind it. -/
theorem split_behind {first rest before after : List HandlerCall} {call : HandlerCall}
    (absent : call ∉ first) (split : first ++ rest = before ++ call :: after) :
    ∃ inner, before = first ++ inner ∧ rest = inner ++ call :: after := by
  induction first generalizing before with
  | nil => exact ⟨before, rfl, split⟩
  | cons other first ih =>
      cases before with
      | nil =>
          obtain ⟨rfl, _⟩ := List.cons.inj split
          exact absurd List.mem_cons_self absent
      | cons other' before =>
          obtain ⟨rfl, split'⟩ := List.cons.inj split
          obtain ⟨inner, rfl, restEq⟩ :=
            ih (fun member => absent (List.mem_cons_of_mem _ member)) split'
          exact ⟨inner, rfl, restEq⟩

/-- A call that does not occur in the last part comes in front of it. -/
theorem split_before {middle last inner after : List HandlerCall} {call : HandlerCall}
    (absent : call ∉ last) (split : middle ++ last = inner ++ call :: after) :
    inner <+: middle := by
  rcases List.append_eq_append_iff.mp split with ⟨later, _, lastEq⟩ | ⟨later, middleEq, _⟩
  · exact absurd (by simp [lastEq]) absent
  · exact ⟨later, middleEq.symm⟩

/-- A handler whose trace has no call of the read-back phase. -/
theorem safe_of_quiet {chunks : List Bytes} {calls : List HandlerCall}
    (quiet : ∀ call ∈ calls, call.readsBack = false)
    (disconnected : (∀ chunk ∈ chunks, newline ∉ chunk) →
      (∃ success, calls.getLast? = some (.complete success)) ∧
        ∀ call ∈ calls, call.touchesDevice = false) : Safe chunks calls where
  notNull call member := by
    have outside := quiet call member
    cases call <;> simp_all [HandlerCall.needsStream, HandlerCall.readsBack]
  guarded before call after split readsBack := by
    have outside := quiet call (by simp [split])
    rw [readsBack] at outside
    contradiction
  disconnected := disconnected

/-- A handler with a stream reads the file back under the mutex. -/
theorem safe_opened (outcomes : CallOutcomes) (bytes : Bytes) {chunks : List Bytes} {chunk : Bytes}
    (member : chunk ∈ chunks) (present : newline ∈ chunk) :
    Safe chunks ([.lockFile true, .fopen true, .fwrite bytes] ++
      readBackPhase outcomes .opened) := by
  constructor
  case notNull =>
    intro call occurs
    simp only [readBackPhase, List.mem_append, List.mem_cons, List.mem_flatMap,
      List.not_mem_nil, or_false] at occurs
    rcases occurs with (rfl | rfl | rfl) | rfl | rfl | ⟨line, _, rfl | rfl⟩ | rfl | rfl | rfl | rfl
    all_goals simp [HandlerCall.needsStream]
  case guarded =>
    intro before call after split readsBack
    have absent : call ∉ [HandlerCall.lockFile true, .fopen true, .fwrite bytes] := by
      intro occurs
      simp only [List.mem_cons, List.not_mem_nil, or_false] at occurs
      rcases occurs with rfl | rfl | rfl <;> contradiction
    obtain ⟨inner, rfl, phaseEq⟩ := split_behind absent split
    refine ⟨by simp, by simp, ?_⟩
    have absent' : call ∉ [HandlerCall.unlockFile outcomes.unlockFile,
        .complete outcomes.unlockFile] := by
      intro occurs
      simp only [List.mem_cons, List.not_mem_nil, or_false] at occurs
      rcases occurs with rfl | rfl <;> contradiction
    have phase : readBackPhase outcomes .opened =
        (.fflush .opened :: .fseek .opened ::
          ((outcomes.lines.flatMap fun line => [.fgets .opened, .send line]) ++
            [.fgets .opened, .fclose .opened])) ++
          [.unlockFile outcomes.unlockFile, .complete outcomes.unlockFile] := by
      simp [readBackPhase]
    rw [phase] at phaseEq
    intro ok unlocks
    rcases List.mem_append.mp unlocks with early | late
    · simp at early
    · have inPhase := (split_before absent' phaseEq).subset late
      simp at inPhase
  case disconnected =>
    intro noNewline
    exact absurd present (noNewline chunk member)

/-- Without a newline the loop ends without a stream. -/
theorem messageHandlerThread_of_absent {chunks : List Bytes}
    (absent : ∀ chunk ∈ chunks, newline ∉ chunk) (outcomes : CallOutcomes) (buffer : Bytes) :
    messageHandlerThread outcomes (some buffer) chunks = [.fflush .null, .fseek .null] := by
  rw [messageHandlerThread, receiveLoop_of_absent absent]
  rfl

/-- With a newline, and when there is no memory for the buffer, the handler is safe. -/
theorem safe_of_present {buffer : Option Bytes} {chunks : List Bytes}
    (present : buffer = none ∨ ∃ chunk ∈ chunks, newline ∈ chunk) (outcomes : CallOutcomes) :
    Safe chunks (messageHandlerThread outcomes buffer chunks) := by
  cases buffer with
  | none =>
      refine safe_of_quiet ?_ fun _ => ⟨⟨false, rfl⟩, ?_⟩
      · simp [messageHandlerThread, HandlerCall.readsBack]
      · simp [messageHandlerThread, HandlerCall.touchesDevice]
  | some buffer =>
      obtain ⟨chunk, member, present⟩ := present.resolve_left nofun
      have harmless : (∀ chunk ∈ chunks, newline ∉ chunk) → False :=
        fun absent => absent chunk member present
      unfold messageHandlerThread
      simp only
      split
      · rename_i nothing
        exact absurd nothing (receiveLoop_of_present member present buffer)
      · exact safe_of_quiet (by simp [HandlerCall.readsBack]) fun absent =>
          (harmless absent).elim
      · split
        · exact safe_of_quiet (by simp [HandlerCall.readsBack]) fun absent =>
            (harmless absent).elim
        · split
          · exact safe_of_quiet (by simp [HandlerCall.readsBack]) fun absent =>
              (harmless absent).elim
          · exact safe_opened outcomes _ member present

/-- For every sequence of chunks, whatever is in the buffer and whatever the calls
return: the handler is safe if and only if `malloc` fails or a newline arrives. -/
theorem messageHandlerThread_safe_iff (outcomes : CallOutcomes) (buffer : Option Bytes)
    (chunks : List Bytes) :
    Safe chunks (messageHandlerThread outcomes buffer chunks) ↔
      buffer = none ∨ ∃ chunk ∈ chunks, newline ∈ chunk := by
  refine ⟨fun safe => ?_, fun present => safe_of_present present outcomes⟩
  cases buffer with
  | none => exact Or.inl rfl
  | some buffer =>
      by_contra none
      have absent : ∀ chunk ∈ chunks, newline ∉ chunk :=
        fun chunk member present => none (Or.inr ⟨chunk, member, present⟩)
      rw [messageHandlerThread_of_absent absent] at safe
      exact safe.notNull (.fseek .null) (by simp) rfl

/-! ## In the process -/

section Process

variable {δ χ : Type} (device : Device δ χ) (outcomes : Outcomes χ) (index : Nat)

/-- The steps of the receive loop for the results of `recv`. -/
def recvSteps (results : List Bytes) : List (Label χ) :=
  results.map fun chunk => .handler index { outcomes with chunk := chunk }

/-- Whichever process it happens in: a client that disconnects in front of its newline
ends the process, with the device as it was. -/
theorem exec_disconnect {process : Process δ} (alive : process.alive = true)
    (created : index < process.created) {buffer : Bytes}
    (receives : (process.handlers index).pc = .recv buffer) {chunks : List Bytes}
    (sizes : ∀ chunk ∈ chunks, 0 < chunk.length ∧ chunk.length ≤ bufferSize)
    (absent : ∀ chunk ∈ chunks, newline ∉ chunk) :
    ∃ target, exec (Process.step device) (recvSteps outcomes index (chunks ++ [[]])) process =
        some target ∧ target.alive = false ∧ target.file = process.file := by
  induction chunks generalizing process buffer with
  | nil =>
      refine ⟨process.applyHandler index ⟨.crash, [], process.file, process.clients⟩, ?_, rfl, rfl⟩
      simp [recvSteps, exec_cons, Process.step, alive, created, receives, Pc.step]
  | cons chunk chunks ih =>
      obtain ⟨positive, fits⟩ := sizes chunk List.mem_cons_self
      have continues := receiveChunk_of_absent (absent chunk List.mem_cons_self) buffer
      let effect : Effect δ :=
        ⟨.goto (.recv (overwrite buffer chunk)), [], process.file, process.clients⟩
      have stepped : Process.step device (.handler index { outcomes with chunk := chunk })
          process = some (process.applyHandler index effect) := by
        have nonempty := List.ne_nil_of_length_pos positive
        simp [Process.step, alive, created, receives, Pc.step, List.take_of_length_le fits,
          nonempty, continues, effect]
      have stillAlive : (process.applyHandler index effect).alive = true := rfl
      have stillCreated : index < (process.applyHandler index effect).created := created
      have stillReceives : ((process.applyHandler index effect).handlers index).pc =
          .recv (overwrite buffer chunk) := by
        rw [process.applyHandler_self]
        rfl
      obtain ⟨target, executed, dead, same⟩ := ih stillAlive stillCreated stillReceives
        (fun other member => sizes other (List.mem_cons_of_mem _ member))
        (fun other member => absent other (List.mem_cons_of_mem _ member))
      refine ⟨target, ?_, dead, same⟩
      rw [List.cons_append, recvSteps, List.map_cons, exec_cons, stepped]
      exact executed

end Process

/-- A client that connects and disconnects: its handler passes a null stream to
`fseek`, and the server is gone. -/
theorem messageHandlerThread_null_stream :
    (∀ outcomes, ¬ Safe [] (messageHandlerThread outcomes (some (List.replicate bufferSize 0)) []) ∧
      .fseek .null ∈ messageHandlerThread outcomes (some (List.replicate bufferSize 0)) []) ∧
      ∃ process, exec (Process.step aesdchar) [.main true, .main true,
          .handler 0 (Outcomes.success []), .handler 0 (Outcomes.success [])]
          (Process.start aesdInitModule) = some process ∧ process.alive = false := by
  refine ⟨fun outcomes => ?_, _, rfl, rfl⟩
  have passes : .fseek .null ∈
      messageHandlerThread outcomes (some (List.replicate bufferSize 0)) [] := by
    simp [messageHandlerThread, receiveLoop, readBackPhase]
  exact ⟨fun safe => safe.notNull _ passes rfl, passes⟩

end Aesd.Server
