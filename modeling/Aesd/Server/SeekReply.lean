import Aesd.Driver.Seek
import Aesd.Server.Text

/-!
# The reply to a seek command

After an accepted seek `handle_ioctl` reads the device to its end through one
buffer and sends the buffer up to its first NUL after each read.  The device
returns one entry per read, so that a shorter entry leaves the tail of a longer
one behind it in the buffer, and an entry that fills the buffer leaves no NUL.
-/

namespace Aesd.Server

open Aesd.Driver
open Aesd.Transition
open Aesd.Word

/-- At most `fuel` turns of the read-back loop, all reads succeeding: the bytes
sent, or nothing when the loop has not ended. -/
def readBack : Nat → Bytes → OpenFile → Except Stop (Option Bytes)
  | 0, _, _ => .ok none
  | fuel + 1, cmdBuffer, file => do
      let result ← aesdRead ⟨true, 0⟩ false bufferSize file.fPos file.driver
      if result.retval > 0 then do
        let cmdBuffer := overwrite cmdBuffer result.delivered
        let text ← sendString cmdBuffer
        let rest ← readBack fuel cmdBuffer ⟨result.fPos, result.driver⟩
        pure (rest.map fun sent => text ++ sent)
      else
        pure (some [])

/-- `handle_ioctl` with every lock, `open`, read and `send` succeeding: its
return value and the bytes sent. -/
def handleIoctl (fuel : Nat) (cmdBuffer : Bytes) (driver : AesdDev) :
    Except Stop (Option (Int × Bytes)) :=
  match getIoctlCommand cmdBuffer with
  | none => .ok (some (-1, []))
  | some cmd => do
      let seek ← aesdIoctl ⟨true, 0⟩ aesdcharIocseekto cmd 0 driver
      let retval := ioctlResult seek.retval
      if retval < 0 then
        pure (some (-retval, []))
      else do
        let sent ← readBack fuel (List.replicate bufferSize 0) ⟨seek.fPos, seek.driver⟩
        pure (sent.map fun sent => (retval, sent))

/-- The condition under which the reply to a seek command is the content from the
sought position: as an `int` the position is not negative, no NUL follows it, and
the rest of the named entry and the entries behind it leave room for a NUL in the
buffer, none of them shorter than the one before it. -/
structure ReadsBackWhole (driver : AesdDev) (cmd : AesdSeekto) : Prop where
  nonneg : 0 ≤ toInt32 (driver.positionOf cmd)
  nulFree : 0 ∉ driver.content.drop (driver.positionOf cmd)
  shorter : ∀ word ∈ dropWords driver.held (driver.positionOf cmd), word.length < bufferSize
  grows : (dropWords driver.held (driver.positionOf cmd)).IsChain
    fun word next => word.length ≤ next.length

/-! ## Sending words through one buffer -/

/-- The loop without the device: each word is stored at the start of the buffer
and the string the buffer then contains is sent. -/
def sendWords : Bytes → List Bytes → Except Stop Bytes
  | _, [] => .ok []
  | cmdBuffer, word :: words => do
      let cmdBuffer := overwrite cmdBuffer (word.take bufferSize)
      let text ← sendString cmdBuffer
      let rest ← sendWords cmdBuffer words
      pure (text ++ rest)

theorem length_overwrite {cmdBuffer bytes : Bytes} (room : bytes.length ≤ cmdBuffer.length) :
    (overwrite cmdBuffer bytes).length = cmdBuffer.length := by
  rw [overwrite, List.length_append, List.length_drop]
  omega

/-- What is sent after a turn begins with the word of the turn. -/
theorem sendString_overwrite {cmdBuffer word text : Bytes} (nulFree : 0 ∉ word)
    (sent : sendString (overwrite cmdBuffer word) = .ok text) :
    text = word ++ cString (cmdBuffer.drop word.length) := by
  unfold sendString at sent
  split at sent
  · rw [← Except.ok.inj sent, overwrite, cString_append nulFree]
  · contradiction

/-- A word that fills the buffer leaves no NUL in it. -/
theorem sendString_full {cmdBuffer word : Bytes} (nulFree : 0 ∉ word)
    (size : cmdBuffer.length = bufferSize) (full : bufferSize ≤ word.length) :
    sendString (overwrite cmdBuffer (word.take bufferSize)) = .error .badAccess := by
  have all : (word.take bufferSize).length = bufferSize := by simpa using full
  have exact : overwrite cmdBuffer (word.take bufferSize) = word.take bufferSize := by
    rw [overwrite, all, List.drop_of_length_le (Nat.le_of_eq size), List.append_nil]
  rw [exact, sendString, if_neg fun member => nulFree (List.mem_of_mem_take member)]

theorem sendWords_cons_iff {cmdBuffer word sent : Bytes} {words : List Bytes} :
    sendWords cmdBuffer (word :: words) = .ok sent ↔
      ∃ text rest, sendString (overwrite cmdBuffer (word.take bufferSize)) = .ok text ∧
        sendWords (overwrite cmdBuffer (word.take bufferSize)) words = .ok rest ∧
        sent = text ++ rest := by
  rw [sendWords]
  cases sendString (overwrite cmdBuffer (word.take bufferSize)) with
  | error stop => simp [bind, Except.bind]
  | ok text =>
      cases sendWords (overwrite cmdBuffer (word.take bufferSize)) words with
      | error stop => simp [bind, Except.bind]
      | ok rest => simp [bind, Except.bind, pure, Except.pure, eq_comm]

/-- A word that fills the buffer ends the program, any other one comes first in
what is sent. -/
theorem sendWords_cons {cmdBuffer word sent : Bytes} {words : List Bytes}
    (size : cmdBuffer.length = bufferSize) (nulFree : 0 ∉ word)
    (sends : sendWords cmdBuffer (word :: words) = .ok sent) :
    word.length < bufferSize ∧ ∃ rest, sendWords (overwrite cmdBuffer word) words = .ok rest ∧
      sent = word ++ cString (cmdBuffer.drop word.length) ++ rest := by
  obtain ⟨text, rest, sent', sends', rfl⟩ := sendWords_cons_iff.mp sends
  by_cases shorter : word.length < bufferSize
  · rw [List.take_of_length_le (Nat.le_of_lt shorter)] at sent' sends'
    exact ⟨shorter, rest, sends', by rw [sendString_overwrite nulFree sent']⟩
  · rw [sendString_full nulFree size (Nat.le_of_not_lt shorter)] at sent'
    contradiction

/-- Nothing gets lost: what is sent is at least as long as the words. -/
theorem length_le_of_sendWords {words : List Bytes} {cmdBuffer sent : Bytes}
    (size : cmdBuffer.length = bufferSize) (nulFree : ∀ word ∈ words, 0 ∉ word)
    (sends : sendWords cmdBuffer words = .ok sent) :
    words.flatten.length ≤ sent.length := by
  induction words generalizing cmdBuffer sent with
  | nil => simp
  | cons word words ih =>
      obtain ⟨shorter, rest, sends', rfl⟩ := sendWords_cons size (nulFree word (by simp)) sends
      have later := ih ((length_overwrite (by omega)).trans size)
        (fun other member => nulFree other (by simp [member])) sends'
      simp only [List.flatten_cons, List.length_append]
      omega

/-- Words without a NUL are sent unchanged exactly if each of them leaves room for
a NUL and covers what the one before it left in the buffer. -/
theorem sendWords_iff {words : List Bytes} {last : Bytes} (lastNulFree : 0 ∉ last)
    (lastShorter : last.length < bufferSize) (nulFree : ∀ word ∈ words, 0 ∉ word) :
    sendWords (last ++ List.replicate (bufferSize - last.length) 0) words = .ok words.flatten ↔
      (∀ word ∈ words, word.length < bufferSize) ∧
        (last :: words).IsChain fun word next => word.length ≤ next.length := by
  induction words generalizing last with
  | nil => simp [sendWords]
  | cons word words ih =>
      have size : (last ++ List.replicate (bufferSize - last.length) 0).length = bufferSize := by
        simp
        omega
      have wordNulFree := nulFree word (by simp)
      have laterNulFree : ∀ other ∈ words, 0 ∉ other :=
        fun other member => nulFree other (by simp [member])
      have covered (grows : last.length ≤ word.length) (shorter : word.length < bufferSize) :
          overwrite (last ++ List.replicate (bufferSize - last.length) 0) word =
            word ++ List.replicate (bufferSize - word.length) 0 := by
        rw [overwrite, List.drop_append, List.drop_of_length_le grows, List.nil_append,
          List.drop_replicate]
        congr 2
        omega
      constructor
      · intro sends
        obtain ⟨shorter, rest, sends', whole⟩ := sendWords_cons size wordNulFree sends
        have later := length_le_of_sendWords ((length_overwrite (by omega)).trans size)
          laterNulFree sends'
        -- The stale tail would make the reply too long.
        have noTail : cString ((last ++ List.replicate (bufferSize - last.length) 0).drop
            word.length) = [] := by
          have lengths := congrArg List.length whole
          simp only [List.flatten_cons, List.length_append] at lengths
          exact List.length_eq_zero_iff.mp (by omega)
        have grows : last.length ≤ word.length := by
          by_contra longer
          rw [List.drop_append_of_le_length (by omega), cString_append
            fun member => lastNulFree (List.mem_of_mem_drop member)] at noTail
          simp at noTail
          omega
        rw [noTail, List.append_nil, List.flatten_cons] at whole
        rw [covered grows shorter, ← List.append_cancel_left whole,
          ih wordNulFree shorter laterNulFree] at sends'
        simpa [shorter, grows] using sends'
      · rintro ⟨shorter, chain⟩
        obtain ⟨grows, chain⟩ := List.isChain_cons_cons.mp chain
        have wordShorter := shorter word (by simp)
        have later := (ih wordNulFree wordShorter laterNulFree).mpr
          ⟨fun other member => shorter other (by simp [member]), chain⟩
        refine sendWords_cons_iff.mpr ⟨word, words.flatten, ?_, ?_, rfl⟩
        · rw [List.take_of_length_le (Nat.le_of_lt wordShorter), covered grows wordShorter,
            sendString, if_pos (by simp; omega), cString_append wordNulFree, cString_zeros,
            List.append_nil]
        · rw [List.take_of_length_le (Nat.le_of_lt wordShorter), covered grows wordShorter]
          exact later

/-! ## The loop on a device -/

section ReadBack

variable {driver : AesdDev} {log : Log} {held leaked : List (Nat × Bytes)}

/-- A committed command is not empty. -/
theorem held_ne_nil (rep : driver.Represents log held leaked) :
    ∀ cmd ∈ driver.held, cmd ≠ [] := by
  intro cmd member
  rw [rep.held_eq_log] at member
  have terminated := log.terminated cmd (List.mem_of_mem_drop member)
  rintro rfl
  simp at terminated

/-- A read at the end of the content returns 0. -/
theorem aesdRead_of_end (rep : driver.Represents log held leaked)
    (unlocked : driver.bufferLock = false) (small : driver.content.length < 2 ^ 63)
    {position : Nat} (positionBound : position < 2 ^ 63)
    (left : dropWords driver.held position = []) :
    aesdRead ⟨true, 0⟩ false bufferSize position driver = .ok ⟨0, [], position, driver⟩ := by
  have read := rep.aesdRead unlocked small (show 0 < (⟨⟨true, 0⟩, bufferSize⟩ : ReadCall).count
    by decide) positionBound
  have atEnd : driver.content.length ≤ position := (dropWords_eq_nil_iff _ _).mp left
  simpa [AesdDev.readReply, atEnd] using read

/-- Before the end a read returns the beginning of the first word left. -/
theorem aesdRead_of_word (rep : driver.Represents log held leaked)
    (unlocked : driver.bufferLock = false) (small : driver.content.length < 2 ^ 63)
    {position : Nat} (positionBound : position < 2 ^ 63) {word : Bytes} {words : List Bytes}
    (left : dropWords driver.held position = word :: words) :
    aesdRead ⟨true, 0⟩ false bufferSize position driver =
      .ok ⟨(word.take bufferSize).length, word.take bufferSize,
        (position + (word.take bufferSize).length : Nat), driver⟩ := by
  have read := rep.aesdRead unlocked small (show 0 < (⟨⟨true, 0⟩, bufferSize⟩ : ReadCall).count
    by decide) positionBound
  have inside : ¬ driver.content.length ≤ position := by
    intro atEnd
    rw [(dropWords_eq_nil_iff driver.held position).mpr atEnd] at left
    contradiction
  have sliceEq : slice driver.held bufferSize position = word.take bufferSize := by
    rw [slice_eq_of_dropWords, left]
    rfl
  simpa [AesdDev.readReply, inside, sliceEq] using read

/-- One turn: nothing more is sent after a read that returns 0; any other read
adds the string it leaves in the buffer. -/
theorem readBack_succ_iff {fuel : Nat} {cmdBuffer sent : Bytes} {file : OpenFile}
    {result : ReadResult}
    (read : aesdRead ⟨true, 0⟩ false bufferSize file.fPos file.driver = .ok result) :
    readBack (fuel + 1) cmdBuffer file = .ok (some sent) ↔
      if result.retval > 0 then
        ∃ text rest, sendString (overwrite cmdBuffer result.delivered) = .ok text ∧
          readBack fuel (overwrite cmdBuffer result.delivered) ⟨result.fPos, result.driver⟩ =
            .ok (some rest) ∧
          sent = text ++ rest
      else
        sent = [] := by
  rw [readBack, read]
  by_cases more : result.retval > 0
  · rw [if_pos more]
    simp only [bind, Except.bind, if_pos more]
    cases sendString (overwrite cmdBuffer result.delivered) with
    | error stop => simp
    | ok text =>
        simp only [Except.ok.injEq]
        cases readBack fuel (overwrite cmdBuffer result.delivered)
            ⟨result.fPos, result.driver⟩ with
        | error stop => simp
        | ok rest => cases rest <;> simp [pure, Except.pure, eq_comm]
  · rw [if_neg more]
    simp [bind, Except.bind, more, pure, Except.pure, eq_comm]

/-- A finished loop has sent no NUL. -/
theorem nul_not_mem_readBack {fuel : Nat} {cmdBuffer sent : Bytes} {file : OpenFile}
    (finished : readBack fuel cmdBuffer file = .ok (some sent)) : 0 ∉ sent := by
  induction fuel generalizing cmdBuffer sent file with
  | zero => simp [readBack] at finished
  | succ fuel ih =>
      cases read : aesdRead ⟨true, 0⟩ false bufferSize file.fPos file.driver with
      | error stop => simp [readBack, read, bind, Except.bind] at finished
      | ok result =>
          rw [readBack_succ_iff read] at finished
          split at finished
          · obtain ⟨text, rest, sent', finished', rfl⟩ := finished
            have textNulFree : 0 ∉ text := by
              unfold sendString at sent'
              split at sent'
              · rw [← Except.ok.inj sent']
                exact nul_not_mem_cString _
              · contradiction
            simp [textNulFree, ih finished']
          · simp [finished]

/-- The loop ends exactly if it has a turn for each word and one for the end, and
then it has sent the words through the buffer. -/
theorem readBack_eq_some_iff (rep : driver.Represents log held leaked)
    (unlocked : driver.bufferLock = false) (small : driver.content.length < 2 ^ 63)
    {position : Nat} (positionBound : position < 2 ^ 63)
    (nulFree : 0 ∉ driver.content.drop position) {cmdBuffer : Bytes}
    (size : cmdBuffer.length = bufferSize) {fuel : Nat} {sent : Bytes} :
    readBack fuel cmdBuffer ⟨position, driver⟩ = .ok (some sent) ↔
      (dropWords driver.held position).length < fuel ∧
        sendWords cmdBuffer (dropWords driver.held position) = .ok sent := by
  induction fuel generalizing position cmdBuffer sent with
  | zero => simp [readBack]
  | succ fuel ih =>
      cases left : dropWords driver.held position with
      | nil =>
          rw [readBack_succ_iff (aesdRead_of_end rep unlocked small positionBound left)]
          simp [sendWords, eq_comm]
      | cons word words =>
          have content : (word :: words).flatten = driver.content.drop position := by
            rw [← left]
            exact flatten_dropWords driver.held position
          have wordNulFree : 0 ∉ word := by
            intro member
            exact nulFree (content ▸ List.mem_flatten.mpr ⟨word, by simp, member⟩)
          obtain ⟨nonempty, upTo⟩ := length_of_dropWords left
          have contentLength : driver.held.flatten.length < 2 ^ 63 := small
          rw [readBack_succ_iff (aesdRead_of_word rep unlocked small positionBound left),
            if_pos (by simp [bufferSize]; omega), sendWords_cons_iff]
          by_cases shorter : word.length < bufferSize
          · have next : dropWords driver.held (position + word.length) = words :=
              dropWords_add (held_ne_nil rep) left
            have nulFree' : 0 ∉ driver.content.drop (position + word.length) := by
              rw [← List.drop_drop]
              exact fun member => nulFree (List.mem_of_mem_drop member)
            have turn (rest : Bytes) :
                readBack fuel (overwrite cmdBuffer word)
                    ⟨(position + word.length : Nat), driver⟩ = .ok (some rest) ↔
                  words.length < fuel ∧ sendWords (overwrite cmdBuffer word) words = .ok rest := by
              rw [ih (by omega) nulFree' ((length_overwrite (by omega)).trans size), next]
            simp only [List.take_of_length_le (Nat.le_of_lt shorter), turn, List.length_cons]
            constructor
            · rintro ⟨text, rest, sent', ⟨enough, sends⟩, rfl⟩
              exact ⟨by omega, text, rest, sent', sends, rfl⟩
            · rintro ⟨enough, text, rest, sent', sends, rfl⟩
              exact ⟨text, rest, sent', ⟨by omega, sends⟩, rfl⟩
          · simp [sendString_full wordNulFree size (Nat.le_of_not_lt shorter)]

/-- A seek to a byte of a held command is accepted. -/
theorem aesdIoctl_of_names (rep : driver.Represents log held leaked)
    (unlocked : driver.bufferLock = false) (allocator : driver.KmallocBounded)
    {cmd : AesdSeekto} (names : driver.Names cmd) :
    aesdIoctl ⟨true, 0⟩ aesdcharIocseekto cmd 0 driver =
      .ok ⟨driver.positionOf cmd, driver.positionOf cmd, driver⟩ := by
  obtain ⟨word, wordEq, inside⟩ := names
  have held := (List.getElem?_eq_some_iff.mp wordEq).1
  rw [AesdDev.aesdIoctl_eq driver unlocked, rep.ioctlSeek_eq, if_neg (by omega),
    rep.ioctlWalk_of_held cmd 0 allocator wordEq, if_neg (by omega)]
  rfl

/-- Behind an accepted seek the content is read back, unless the position is negative as
an `int`. -/
theorem handleIoctl_of_accepted {cmdBuffer : Bytes} {cmd : AesdSeekto} {position : Int}
    (parsed : getIoctlCommand cmdBuffer = some cmd)
    (accepted : aesdIoctl ⟨true, 0⟩ aesdcharIocseekto cmd 0 driver =
      .ok ⟨position, position, driver⟩) (fuel : Nat) :
    handleIoctl fuel cmdBuffer driver =
      if ioctlResult position < 0 then
        .ok (some (-ioctlResult position, []))
      else
        (readBack fuel (List.replicate bufferSize 0) ⟨position, driver⟩).map
          fun sent => sent.map fun sent => (ioctlResult position, sent) := by
  simp only [handleIoctl, parsed, accepted, bind, Except.bind]
  split
  · rfl
  · cases readBack fuel (List.replicate bufferSize 0) ⟨position, driver⟩ <;> rfl

/-- The return value and the bytes sent, when the loop has ended. -/
theorem returns_iff {outcome : Except Stop (Option Bytes)} {value retval : Int} {sent : Bytes} :
    (outcome.map fun sent => sent.map fun sent => (value, sent)) = .ok (some (retval, sent)) ↔
      value = retval ∧ outcome = .ok (some sent) := by
  cases outcome with
  | error stop => simp [Except.map]
  | ok reply => cases reply <;> simp [Except.map]

/-- An accepted seek moves the file to the named byte, or, when the position is
negative as an `int`, sends nothing. -/
theorem handleIoctl_of_names (rep : driver.Represents log held leaked)
    (unlocked : driver.bufferLock = false) (allocator : driver.KmallocBounded)
    {cmdBuffer : Bytes} {cmd : AesdSeekto} (parsed : getIoctlCommand cmdBuffer = some cmd)
    (names : driver.Names cmd) (fuel : Nat) :
    handleIoctl fuel cmdBuffer driver =
      if toInt32 (driver.positionOf cmd) < 0 then
        .ok (some (-toInt32 (driver.positionOf cmd), []))
      else
        (readBack fuel (List.replicate bufferSize 0) ⟨driver.positionOf cmd, driver⟩).map
          fun sent => sent.map fun sent => (toInt32 (driver.positionOf cmd), sent) := by
  have accepted := aesdIoctl_of_names rep unlocked allocator names
  have result : ioctlResult (driver.positionOf cmd) = toInt32 (driver.positionOf cmd) := by
    rw [ioctlResult, if_neg (by omega)]
  rw [handleIoctl_of_accepted parsed accepted, result]

/-- Through the cleared buffer the words left are sent unchanged under the last two
conditions of `ReadsBackWhole`. -/
theorem readBack_cleared_iff (rep : driver.Represents log held leaked)
    (unlocked : driver.bufferLock = false) (small : driver.content.length < 2 ^ 63)
    {position : Nat} (positionBound : position < 2 ^ 63)
    (nulFree : 0 ∉ driver.content.drop position) :
    (∃ fuel, readBack fuel (List.replicate bufferSize 0) ⟨position, driver⟩ =
        .ok (some (driver.content.drop position))) ↔
      (∀ word ∈ dropWords driver.held position, word.length < bufferSize) ∧
        (dropWords driver.held position).IsChain fun word next => word.length ≤ next.length := by
  have whole : (dropWords driver.held position).flatten = driver.content.drop position :=
    flatten_dropWords driver.held position
  have wordsNulFree : ∀ word ∈ dropWords driver.held position, 0 ∉ word := by
    intro word member nul
    exact nulFree (whole ▸ List.mem_flatten.mpr ⟨word, member, nul⟩)
  have sends := sendWords_iff (show 0 ∉ ([] : Bytes) by simp) (by decide) wordsNulFree
  have chain : ([] :: dropWords driver.held position).IsChain
        (fun word next => word.length ≤ next.length) ↔
      (dropWords driver.held position).IsChain fun word next => word.length ≤ next.length := by
    cases dropWords driver.held position <;> simp
  rw [chain, whole] at sends
  simp only [readBack_eq_some_iff rep unlocked small positionBound nulFree
    (List.length_replicate (n := bufferSize) (a := (0 : UInt8)))]
  rw [← sends]
  constructor
  · rintro ⟨fuel, _, sent⟩
    exact sent
  · intro sent
    exact ⟨_, Nat.lt_succ_self _, sent⟩

/-- The bytes sent in reply to a seek to a byte of a held command are the content
from that byte on exactly under `ReadsBackWhole`. -/
theorem sends_content_iff (rep : driver.Represents log held leaked)
    (unlocked : driver.bufferLock = false) (allocator : driver.KmallocBounded)
    {cmdBuffer : Bytes} {cmd : AesdSeekto} (parsed : getIoctlCommand cmdBuffer = some cmd)
    (names : driver.Names cmd) :
    (∃ fuel retval, handleIoctl fuel cmdBuffer driver =
        .ok (some (retval, driver.content.drop (driver.positionOf cmd)))) ↔
      ReadsBackWhole driver cmd := by
  have small := rep.length_content_lt allocator
  have inside : driver.positionOf cmd < driver.content.length := by
    obtain ⟨word, wordEq, offsetLt⟩ := names
    obtain ⟨nonempty, upTo⟩ := length_of_dropWords (dropWords_of_getElem wordEq offsetLt)
    exact Nat.lt_of_lt_of_le (Nat.lt_add_of_pos_right nonempty) upTo
  have readsBack := readBack_cleared_iff rep unlocked small
    (show driver.positionOf cmd < 2 ^ 63 by omega)
  simp only [handleIoctl_of_names rep unlocked allocator parsed names]
  constructor
  · rintro ⟨fuel, retval, replied⟩
    by_cases negative : toInt32 (driver.positionOf cmd) < 0
    · rw [if_pos negative] at replied
      simp only [Except.ok.injEq, Option.some.injEq, Prod.mk.injEq] at replied
      have nothing := congrArg List.length replied.2
      rw [List.length_nil, List.length_drop] at nothing
      omega
    · rw [if_neg negative] at replied
      obtain ⟨_, finished⟩ := returns_iff.mp replied
      have nulFree := nul_not_mem_readBack finished
      obtain ⟨shorter, grows⟩ := (readsBack nulFree).mp ⟨fuel, finished⟩
      exact ⟨by omega, nulFree, shorter, grows⟩
  · intro whole
    obtain ⟨fuel, finished⟩ := (readsBack whole.nulFree).mpr ⟨whole.shorter, whole.grows⟩
    refine ⟨fuel, toInt32 (driver.positionOf cmd), ?_⟩
    rw [if_neg (by have := whole.nonneg; omega), finished]
    rfl

end ReadBack

/-- For every device reached by writes and left idle, and every seek command that
names a byte of a held command: the bytes sent in reply are the content from that
byte on if and only if `ReadsBackWhole` holds. -/
theorem handleIoctl_sends_content_iff {driver : AesdDev}
    (reachable : Reachable AesdDev.write aesdInitModule driver)
    (unlocked : driver.bufferLock = false) (allocator : driver.KmallocBounded)
    {cmdBuffer : Bytes} {cmd : AesdSeekto} (parsed : getIoctlCommand cmdBuffer = some cmd)
    (names : driver.Names cmd) :
    (∃ fuel retval, handleIoctl fuel cmdBuffer driver =
        .ok (some (retval, driver.content.drop (driver.positionOf cmd)))) ↔
      ReadsBackWhole driver cmd := by
  obtain ⟨log, held, leaked, rep⟩ := AesdDev.represents_of_reachable reachable
  exact sends_content_iff rep unlocked allocator parsed names

/-- The command `AESDCHAR_IOCSEEKTO:0,0` in the buffer of a handler. -/
def seekToStart : Bytes :=
  seekCommand ++ [58, 48, 44, 48, 10, 0]

/-- On the device that holds `a\n` and `bb\n`. -/
theorem handleIoctl_sends_content_iff_growing :
    (∃ fuel retval, handleIoctl fuel seekToStart (AesdDev.ofWrites [[97, 10], [98, 98, 10]]) =
        .ok (some (retval, (AesdDev.ofWrites [[97, 10], [98, 98, 10]]).content.drop
          ((AesdDev.ofWrites [[97, 10], [98, 98, 10]]).positionOf ⟨0, 0⟩)))) ↔
      ReadsBackWhole (AesdDev.ofWrites [[97, 10], [98, 98, 10]]) ⟨0, 0⟩ :=
  handleIoctl_sends_content_iff (AesdDev.reachable_ofWrites [[97, 10], [98, 98, 10]]) rfl
    (by unfold AesdDev.KmallocBounded; decide) (by decide) ⟨[97, 10], by decide, by decide⟩

/-- The device that holds `aa\n` and `b\n`: the newline of the first entry is sent
again behind the second one. -/
theorem handleIoctl_sends_stale_byte :
    let driver := AesdDev.ofWrites [[97, 97, 10], [98, 10]]
    Reachable AesdDev.write aesdInitModule driver ∧
      driver.content = [97, 97, 10, 98, 10] ∧
      getIoctlCommand seekToStart = some ⟨0, 0⟩ ∧ driver.Names ⟨0, 0⟩ ∧
      handleIoctl 3 seekToStart driver = .ok (some (0, [97, 97, 10, 98, 10, 10])) ∧
      ∀ fuel retval, handleIoctl fuel seekToStart driver ≠
        .ok (some (retval, driver.content.drop (driver.positionOf ⟨0, 0⟩))) := by
  have reachable := AesdDev.reachable_ofWrites [[97, 97, 10], [98, 10]]
  have parsed : getIoctlCommand seekToStart = some ⟨0, 0⟩ := by decide
  have names : (AesdDev.ofWrites [[97, 97, 10], [98, 10]]).Names ⟨0, 0⟩ :=
    ⟨[97, 97, 10], by decide, by decide⟩
  refine ⟨reachable, by decide +kernel, parsed, names, by decide +kernel, ?_⟩
  intro fuel retval replied
  obtain ⟨log, held, leaked, rep⟩ := AesdDev.represents_of_reachable reachable
  have whole := (sends_content_iff rep rfl (by unfold AesdDev.KmallocBounded; decide) parsed
    names).mp ⟨fuel, retval, replied⟩
  exact absurd whole.grows (by decide +kernel)

end Aesd.Server
