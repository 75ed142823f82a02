import Aesd.Server.Text
import Aesd.Word.Lines
import Mathlib.Data.List.Infix

/-!
# The receive loop

`message_handler_thread` looks at one chunk at a time.  The first chunk that
contains a newline decides the branch by its own first bytes and is passed on as
it is, whatever came before it and whatever follows its newline.  A packet is
therefore treated as a whole only if the chunks happen to be cut at its ends.
-/

namespace Aesd.Server

open Aesd.Driver
open Aesd.Word

/-- What the receive loop ends with: nothing when `recv` returns zero or fails
before a newline has arrived, otherwise the branch taken and its input. -/
inductive Received
  | nothing
  | seek (buffer : Bytes)
  | data (bytes : Bytes)

/-- The body of the loop; undefined when the loop continues. -/
def receiveChunk (buffer : Bytes) (bytesReceived : Nat) : Option Received :=
  if newline ∈ buffer.take bytesReceived then
    if strncmpIsZero buffer seekCommand 18 then
      some (.seek buffer)
    else
      some (.data (buffer.take bytesReceived))
  else
    none

/-- The receive loop over the chunks `recv` delivers. -/
def receiveLoop (buffer : Bytes) : List Bytes → Received
  | [] => .nothing
  | chunk :: chunks =>
      match receiveChunk (overwrite buffer chunk) chunk.length with
      | some received => received
      | none => receiveLoop (overwrite buffer chunk) chunks

/-! ## What one chunk decides -/

theorem cString_seekCommand_append (rest : Bytes) :
    cString (seekCommand ++ rest) = seekCommand ++ cString rest :=
  cString_append (by decide)

/-- With a newline among the bytes received, the comparison depends on these
bytes only. -/
theorem strncmpIsZero_overwrite (buffer : Bytes) {chunk : Bytes} (present : newline ∈ chunk) :
    strncmpIsZero (overwrite buffer chunk) seekCommand 18 = true ↔ seekCommand <+: chunk := by
  have whole : (cString seekCommand).take 18 = seekCommand := by decide
  rw [strncmpIsZero, whole, beq_iff_eq]
  constructor
  · intro equal
    have startsBuffer : seekCommand <+: overwrite buffer chunk := by
      rw [← equal]
      exact (List.take_prefix _ _).trans (List.takeWhile_prefix _)
    have chunkPrefix : chunk <+: overwrite buffer chunk := List.prefix_append _ _
    by_cases long : seekCommand.length ≤ chunk.length
    · exact List.prefix_of_prefix_length_le startsBuffer chunkPrefix long
    · -- a short chunk would put its newline into the command
      have inside := List.prefix_of_prefix_length_le chunkPrefix startsBuffer (by omega)
      exact absurd (inside.subset present) (by decide)
  · rintro ⟨rest, rfl⟩
    rw [overwrite, List.append_assoc, cString_seekCommand_append]
    exact List.take_left' rfl

/-- A chunk with a newline that is no seek command is passed on as it is. -/
theorem receiveChunk_of_data (buffer : Bytes) {chunk : Bytes} (present : newline ∈ chunk)
    (isData : ¬ seekCommand <+: chunk) :
    receiveChunk (overwrite buffer chunk) chunk.length = some (.data chunk) := by
  have taken : (overwrite buffer chunk).take chunk.length = chunk := List.take_left
  have other : strncmpIsZero (overwrite buffer chunk) seekCommand 18 = false :=
    Bool.eq_false_iff.mpr fun zero => isData ((strncmpIsZero_overwrite buffer present).mp zero)
  rw [receiveChunk, taken, if_pos present, other]
  rfl

/-- The first chunk with a newline decides alone. -/
theorem receiveLoop_eq (chunks later : List Bytes) {chunk : Bytes} (present : newline ∈ chunk)
    (absent : ∀ early ∈ chunks, newline ∉ early) (buffer : Bytes) :
    (seekCommand <+: chunk →
      ∃ buffer', receiveLoop buffer (chunks ++ chunk :: later) = .seek buffer') ∧
    (¬ seekCommand <+: chunk →
      receiveLoop buffer (chunks ++ chunk :: later) = .data chunk) := by
  have taken : ∀ buffer chunk, (overwrite buffer chunk).take chunk.length = chunk :=
    fun _ _ => List.take_left
  induction chunks generalizing buffer with
  | nil =>
      have decides := strncmpIsZero_overwrite buffer present
      constructor
      · intro starts
        refine ⟨overwrite buffer chunk, ?_⟩
        simp [receiveLoop, receiveChunk, taken, present, decides.mpr starts]
      · intro other
        have notZero : strncmpIsZero (overwrite buffer chunk) seekCommand 18 = false :=
          Bool.eq_false_iff.mpr fun zero => other (decides.mp zero)
        simp [receiveLoop, receiveChunk, taken, present, notZero]
  | cons early chunks ih =>
      have skipped : receiveLoop buffer (early :: chunks ++ chunk :: later) =
          receiveLoop (overwrite buffer early) (chunks ++ chunk :: later) := by
        simp [receiveLoop, receiveChunk, taken, absent early List.mem_cons_self]
      rw [skipped]
      exact ih (fun other member => absent other (List.mem_cons_of_mem _ member)) _

/-! ## Packets -/

/-- The treatment the stream as a whole asks for: the seek branch if it starts
with the command, otherwise its first line is data. -/
def Received.TreatsAsWhole (received : Received) (stream : Bytes) : Prop :=
  ∃ line rest, IsLine newline line ∧ stream = line ++ rest ∧
    (seekCommand <+: stream → ∃ buffer, received = .seek buffer) ∧
    (¬ seekCommand <+: stream → received = .data line)

/-- The chunks are cut where the loop needs it: the first one with a newline
starts with the command if the stream does, and otherwise the first chunk is the
first line. -/
def CutAtPacket (chunks : List Bytes) : Prop :=
  (seekCommand <+: chunks.flatten →
    ∃ chunk, chunks.find? (newline ∈ ·) = some chunk ∧ seekCommand <+: chunk) ∧
  (¬ seekCommand <+: chunks.flatten →
    ∃ line later, chunks = line :: later ∧ IsLine newline line)

/-- A stream with a newline has a first chunk with one. -/
theorem first_chunk {chunks : List Bytes} (present : newline ∈ chunks.flatten) :
    ∃ before chunk later, chunks = before ++ chunk :: later ∧ newline ∈ chunk ∧
      (∀ early ∈ before, newline ∉ early) ∧ chunks.find? (newline ∈ ·) = some chunk := by
  cases found : chunks.find? (newline ∈ ·) with
  | none =>
      obtain ⟨chunk, member, inChunk⟩ := List.mem_flatten.mp present
      have none := List.find?_eq_none.mp found chunk member
      simp [inChunk] at none
  | some chunk =>
      obtain ⟨inChunk, before, later, rfl, absent⟩ := List.find?_eq_some_iff_append.mp found
      refine ⟨before, chunk, later, rfl, by simpa using inChunk, ?_, rfl⟩
      intro early member
      simpa using absent early member

/-- For every stream with a newline and every way to deliver it in chunks: the
handler treats the packet as the whole stream asks if and only if the chunks
are cut where it needs it. -/
theorem receiveLoop_treatsAsWhole_iff (buffer : Bytes) (chunks : List Bytes)
    (sizes : ∀ chunk ∈ chunks, 0 < chunk.length ∧ chunk.length ≤ bufferSize)
    (present : newline ∈ chunks.flatten) :
    (receiveLoop buffer chunks).TreatsAsWhole chunks.flatten ↔ CutAtPacket chunks := by
  obtain ⟨before, chunk, later, chunksEq, inChunk, absent, found⟩ := first_chunk present
  obtain ⟨seeks, passes⟩ := receiveLoop_eq before later inChunk absent buffer
  rw [← chunksEq] at seeks passes
  constructor
  · rintro ⟨line, rest, isLine, streamEq, isSeek, isData⟩
    refine ⟨?_, ?_⟩
    · intro starts
      refine ⟨chunk, found, ?_⟩
      by_contra other
      obtain ⟨seekBuffer, seekEq⟩ := isSeek starts
      rw [passes other] at seekEq
      contradiction
    · intro other
      have chunkEq : chunk = line := by
        by_cases starts : seekCommand <+: chunk
        · obtain ⟨seekBuffer, seekEq⟩ := seeks starts
          rw [isData other] at seekEq
          contradiction
        · have dataEq := isData other
          rw [passes starts] at dataEq
          exact Received.data.inj dataEq
      subst chunk
      -- the chunk is the first line, so nothing can stand in front of it
      have earlyAbsent : newline ∉ before.flatten := fun member =>
        let ⟨early, earlyMem, inEarly⟩ := List.mem_flatten.mp member
        absent early earlyMem inEarly
      have lineEq : (before.flatten ++ line) ++ later.flatten = line ++ rest := by
        rw [← streamEq, chunksEq]
        simp
      have nothing := ((isLine.append_of_not_mem earlyAbsent).append_inj isLine lineEq).1
      cases before with
      | nil => exact ⟨line, later, chunksEq, isLine⟩
      | cons early before =>
          have positive := (sizes early (by simp [chunksEq])).1
          have lengthEq := congrArg List.length nothing
          simp only [List.flatten_cons, List.length_append] at lengthEq
          omega
  · rintro ⟨seekCut, dataCut⟩
    rcases not_mem_or_isLine_append newline chunks.flatten with
      none | ⟨line, rest, isLine, streamEq⟩
    · exact absurd present none
    · refine ⟨line, rest, isLine, streamEq, ?_, ?_⟩
      · intro starts
        obtain ⟨other, otherFound, otherStarts⟩ := seekCut starts
        rw [found] at otherFound
        cases otherFound
        exact seeks otherStarts
      · intro other
        obtain ⟨first, others, firstEq, firstIsLine⟩ := dataCut other
        have chunkEq : chunk = first := by
          rw [firstEq, List.find?_cons_of_pos (by simpa using firstIsLine.mem)] at found
          exact (Option.some.inj found).symm
        subst chunk
        have lineEq : first ++ others.flatten = line ++ rest := by
          rw [← streamEq, firstEq, List.flatten_cons]
        have notSeek : ¬ seekCommand <+: first := fun starts =>
          other (starts.trans (by rw [firstEq, List.flatten_cons]; exact List.prefix_append _ _))
        rw [passes notSeek, (firstIsLine.append_inj isLine lineEq).1]

/-- The stream `a\nbc\n` in three chunks, the first one being the line `a\n`. -/
theorem receiveLoop_treatsAsWhole_iff_three_chunks :
    (receiveLoop (List.replicate 1024 0) [[97, 10], [98], [99, 10]]).TreatsAsWhole
      [97, 10, 98, 99, 10] := by
  refine (receiveLoop_treatsAsWhole_iff (List.replicate 1024 0) [[97, 10], [98], [99, 10]]
    (by decide) (by decide)).mpr ⟨fun starts => absurd starts (by decide), fun _ => ?_⟩
  exact ⟨[97, 10], [[98], [99, 10]], rfl, [97], by decide, rfl⟩

/-- Cut in two, the stream `ab\n` loses its first byte; in one chunk with `c`
behind it, `c` is passed on as well. -/
theorem receiveLoop_cut_matters :
    receiveLoop (List.replicate 1024 0) [[97], [98, 10]] = .data [98, 10] ∧
      ¬ (receiveLoop (List.replicate 1024 0) [[97], [98, 10]]).TreatsAsWhole [97, 98, 10] ∧
      receiveLoop (List.replicate 1024 0) [[97, 98, 10, 99]] = .data [97, 98, 10, 99] ∧
      ¬ (receiveLoop (List.replicate 1024 0) [[97, 98, 10, 99]]).TreatsAsWhole
        [97, 98, 10, 99] := by
  have data (bytes stream : Bytes) (other : ¬ seekCommand <+: stream)
      (differs : cut newline stream ≠ some (bytes, stream.drop bytes.length)) :
      ¬ (Received.data bytes).TreatsAsWhole stream := by
    rintro ⟨line, rest, isLine, streamEq, _, isData⟩
    obtain rfl := Received.data.inj (isData other)
    refine differs ?_
    rw [streamEq, isLine.cut_append, List.drop_left]
  have first : receiveLoop (List.replicate 1024 0) [[97], [98, 10]] = .data [98, 10] := by
    rfl
  have second : receiveLoop (List.replicate 1024 0) [[97, 98, 10, 99]] =
      .data [97, 98, 10, 99] := by
    rfl
  rw [first, second]
  exact ⟨rfl, data _ _ (by decide) (by decide), rfl, data _ _ (by decide) (by decide)⟩

end Aesd.Server
