import Aesd.Server.Handler

/-!
# The read-back loop

`message_handler_thread` sends the file line by line: `fgets` stores a line or as
many bytes as fit into the buffer, and `strlen` decides how much of the buffer is
sent.  The lines add up to the file.  A NUL ends the string in the middle of a
line, and what follows it on the line is not sent.
-/

namespace Aesd.Server

open Aesd.Driver

/-! ## The loop -/

/-- What `fgets` reads from a stream when the buffer has `room` for bytes in front of
the terminating NUL: everything up to and including the first newline, as far as
it fits. -/
def fgetsLine : Nat → Bytes → Bytes
  | 0, _ => []
  | _ + 1, [] => []
  | room + 1, byte :: stream =>
      if byte = newline then [byte] else byte :: fgetsLine room stream

/-- `fgets(buffer, size, stream)`: the buffer and the stream behind the call;
undefined when it returns null at the end of the file. -/
def fgets (buffer : Bytes) (size : Nat) (stream : Bytes) : Option (Bytes × Bytes) :=
  if stream = [] then
    none
  else
    let line := fgetsLine (size - 1) stream
    some (overwrite buffer (line ++ [0]), stream.drop line.length)

theorem fgetsLine_ne_nil {room : Nat} (positive : 0 < room) {stream : Bytes}
    (nonempty : stream ≠ []) : fgetsLine room stream ≠ [] := by
  obtain ⟨room, rfl⟩ := Nat.exists_eq_succ_of_ne_zero (Nat.ne_of_gt positive)
  cases stream with
  | nil => contradiction
  | cons byte stream =>
      rw [fgetsLine]
      split <;> simp

/-- Every call moves on. -/
theorem length_lt_of_fgets {buffer buffer' stream stream' : Bytes}
    (reads : fgets buffer bufferSize stream = some (buffer', stream')) :
    stream'.length < stream.length := by
  unfold fgets at reads
  split at reads
  · contradiction
  · rename_i nonempty
    simp only [Option.some.injEq, Prod.mk.injEq] at reads
    have positive := List.length_pos_of_ne_nil
      (fgetsLine_ne_nil (show 0 < bufferSize - 1 by decide) nonempty)
    have streamPositive := List.length_pos_of_ne_nil nonempty
    rw [← reads.2, List.length_drop]
    omega

/-- The loop `while (fgets(...) != NULL) send(...)`: the bytes sent. -/
def echoLoop (buffer stream : Bytes) : Except Stop Bytes :=
  match _ : fgets buffer bufferSize stream with
  | none => .ok []
  | some (buffer, stream) => do
      let text ← sendString buffer
      let rest ← echoLoop buffer stream
      pure (text ++ rest)
termination_by stream.length
decreasing_by exact length_lt_of_fgets ‹_›

/-! ## What is sent -/

/-- The bytes sent for a stream when `line` is already in the buffer. -/
def echoFrom (line : Bytes) : Bytes → Bytes
  | [] => cString line
  | byte :: stream =>
      if byte = newline ∨ line.length + 1 = bufferSize - 1 then
        cString (line ++ [byte]) ++ echoFrom [] stream
      else
        echoFrom (line ++ [byte]) stream

/-- The first line is sent as a whole, up to its first NUL. -/
theorem echoFrom_eq_append {stream line : Bytes} {room : Nat}
    (fits : line.length + room = bufferSize - 1) (positive : 0 < room) :
    echoFrom line stream =
      cString (line ++ fgetsLine room stream) ++
        echoFrom [] (stream.drop (fgetsLine room stream).length) := by
  induction stream generalizing line room with
  | nil =>
      obtain ⟨room, rfl⟩ := Nat.exists_eq_succ_of_ne_zero (Nat.ne_of_gt positive)
      simp [fgetsLine, echoFrom, cString]
  | cons byte stream ih =>
      obtain ⟨room, rfl⟩ := Nat.exists_eq_succ_of_ne_zero (Nat.ne_of_gt positive)
      rw [fgetsLine, echoFrom]
      by_cases ends : byte = newline
      · simp [ends]
      · rw [if_neg ends]
        cases room with
        | zero =>
            rw [if_pos (Or.inr (by omega))]
            simp [fgetsLine]
        | succ room =>
            rw [if_neg (not_or.mpr ⟨ends, by omega⟩), ih (by simp; omega) (Nat.succ_pos room)]
            simp [List.append_assoc]

/-- The loop does not depend on what was in the buffer. -/
theorem echoLoop_eq (buffer stream : Bytes) :
    echoLoop buffer stream = .ok (echoFrom [] stream) := by
  induction length : stream.length using Nat.strong_induction_on generalizing buffer stream with
  | _ size ih =>
      rw [echoLoop]
      split
      · rename_i reads
        unfold fgets at reads
        split at reads
        · rename_i atEnd
          rw [atEnd]
          rfl
        · contradiction
      · rename_i buffer' stream' reads
        have shorter := length_lt_of_fgets reads
        rw [ih _ (by omega) buffer' stream' rfl]
        unfold fgets at reads
        split at reads
        · contradiction
        · simp only [Option.some.injEq, Prod.mk.injEq] at reads
          obtain ⟨rfl, rfl⟩ := reads
          have nul : 0 ∈ overwrite buffer (fgetsLine (bufferSize - 1) stream ++ [0]) := by
            simp [overwrite]
          have text : cString (overwrite buffer (fgetsLine (bufferSize - 1) stream ++ [0])) =
              cString (fgetsLine (bufferSize - 1) stream) := by
            rw [overwrite, List.append_assoc, List.singleton_append, cString_append_nul]
          have first : echoFrom [] stream = cString (fgetsLine (bufferSize - 1) stream) ++
              echoFrom [] (stream.drop (fgetsLine (bufferSize - 1) stream).length) :=
            echoFrom_eq_append (Nat.zero_add _) (by decide)
          rw [sendString, if_pos nul, text, first]
          rfl

/-- Nothing is missing from a text without a NUL. -/
theorem echoFrom_of_nulFree {line stream : Bytes} (lineNulFree : 0 ∉ line)
    (nulFree : 0 ∉ stream) : echoFrom line stream = line ++ stream := by
  induction stream generalizing line with
  | nil => rw [echoFrom, cString_of_nulFree lineNulFree, List.append_nil]
  | cons byte stream ih =>
      obtain ⟨byteNonzero, laterNulFree⟩ := List.ne_and_not_mem_of_not_mem_cons nulFree
      have longerNulFree : 0 ∉ line ++ [byte] := by
        simp [lineNulFree, byteNonzero]
      rw [echoFrom]
      split
      · rw [cString_of_nulFree longerNulFree, ih List.not_mem_nil laterNulFree]
        simp
      · rw [ih longerNulFree laterNulFree]
        simp

theorem nul_not_mem_echoFrom (line stream : Bytes) : 0 ∉ echoFrom line stream := by
  induction stream generalizing line with
  | nil => exact nul_not_mem_cString line
  | cons byte stream ih =>
      rw [echoFrom]
      split
      · exact List.not_mem_append (nul_not_mem_cString _) (ih [])
      · exact ih _

/-- For every content of the file and of the buffer, lines of any length and all byte
values included: the bytes sent are the content if and only if it contains no
NUL. -/
theorem echoLoop_eq_content_iff (buffer content : Bytes) :
    echoLoop buffer content = .ok content ↔ 0 ∉ content := by
  rw [echoLoop_eq, Except.ok.injEq]
  constructor
  · intro whole nul
    rw [← whole] at nul
    exact nul_not_mem_echoFrom [] content nul
  · intro nulFree
    exact echoFrom_of_nulFree List.not_mem_nil nulFree

/-- Of the line `a`, NUL, `b` only the first byte is sent, and the newline is not. -/
theorem echoLoop_truncates :
    echoLoop (List.replicate bufferSize 0) [97, 0, 98, 10, 99, 10] = .ok [97, 99, 10] ∧
      echoLoop (List.replicate bufferSize 0) [97, 0, 98, 10, 99, 10] ≠
        .ok [97, 0, 98, 10, 99, 10] := by
  rw [echoLoop_eq]
  exact ⟨by decide, by decide⟩

/-! ## The handler -/

section Handler

variable {δ χ : Type} {device : Device δ χ} {outcomes : Outcomes χ} {line ahead : Bytes}
  {fPos : Int} {file : DeviceFile δ} {clients : Clients} {effect : Effect δ}

/-- One step of the loop inside a handler.  With the bytes still to come, what it has
sent and what it is going to send stays the same; at the end of the file nothing is
left to send. -/
theorem echoStep_cases
    (stepped : echoStep device outcomes line ahead fPos file clients = some effect) :
    (∃ line' ahead', effect.control = .goto (.echo line' ahead' fPos) ∧ ahead ≠ [] ∧
        effect.file = file ∧
        ∀ later, effect.sent ++ echoFrom line' (ahead' ++ later) =
          echoFrom line (ahead ++ later)) ∨
      ahead = [] ∧ ∃ reply, device outcomes.device (.read outcomes.count) fPos file.device =
          some reply ∧
        effect.file = { file with device := reply.device } ∧
        (0 < reply.retval → effect.sent = [] ∧
          effect.control = .goto (.echo line reply.delivered reply.fPos)) ∧
        (reply.retval ≤ 0 → effect.control = .goto .unlockFile) ∧
        (reply.retval = 0 → effect.sent = echoFrom line []) := by
  cases ahead with
  | cons byte ahead =>
      refine Or.inl ?_
      simp only [echoStep] at stepped
      by_cases ends : byte = newline ∨ line.length + 1 = bufferSize - 1
      · rw [if_pos ends] at stepped
        cases stepped
        refine ⟨[], ahead, rfl, by simp, rfl, ?_⟩
        intro later
        rw [List.cons_append, echoFrom, if_pos ends]
      · rw [if_neg ends] at stepped
        cases stepped
        refine ⟨line ++ [byte], ahead, rfl, by simp, rfl, ?_⟩
        intro later
        rw [List.cons_append, echoFrom, if_neg ends]
        rfl
  | nil =>
      refine Or.inr ⟨rfl, ?_⟩
      cases replied : device outcomes.device (.read outcomes.count) fPos file.device with
      | none => simp [echoStep, replied] at stepped
      | some reply =>
          refine ⟨reply, rfl, ?_⟩
          simp only [echoStep, replied] at stepped
          by_cases more : reply.retval > 0
          · rw [if_pos more] at stepped
            cases stepped
            exact ⟨rfl, fun _ => ⟨rfl, rfl⟩, fun atEnd => by omega, fun atEnd => by omega⟩
          · rw [if_neg more] at stepped
            by_cases atEnd : reply.retval = 0
            · rw [if_pos atEnd] at stepped
              cases stepped
              exact ⟨rfl, fun _ => by omega, fun _ => rfl, fun _ => rfl⟩
            · rw [if_neg atEnd] at stepped
              cases stepped
              exact ⟨rfl, fun _ => by omega, fun _ => rfl, fun _ => by omega⟩

end Handler

end Aesd.Server
