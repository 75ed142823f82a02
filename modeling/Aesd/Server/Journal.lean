import Aesd.Server.Stream

/-!
# The calls of the handlers

The machine of a handler takes one step at a time between those of the other threads.  In
every run the calls it makes on its stream, on `file_mutex` and on the socket are those that
`messageHandlerThread` lists for the chunks it has received.
-/

namespace Aesd.Server

open Aesd.Driver
open Aesd.Transition

variable {δ χ : Type}

/-! ## What a step adds -/

/-- The chunk that `recv` delivers in a step. -/
def Pc.delivered (outcomes : Outcomes χ) : Pc → List Bytes
  | .recv _ =>
      if outcomes.chunk.take bufferSize = [] then [] else [outcomes.chunk.take bufferSize]
  | _ => []

/-- The calls that begin in a step.  Those inside `handle_ioctl`, `cleanup` and
`set_thread_complete_success` do not count. -/
def Pc.callsMade (device : Device δ χ) (outcomes : Outcomes χ) (file : DeviceFile δ) :
    Pc → List HandlerCall
  | .recv buffer =>
      let chunk := outcomes.chunk.take bufferSize
      if chunk = [] then
        [.fflush .null, .fseek .null]
      else
        match receiveChunk (overwrite buffer chunk) chunk.length with
        | some (.seek cmdBuffer) => [.handleIoctl cmdBuffer]
        | _ => []
  | .lockFile _ => [.lockFile outcomes.ok]
  | .openFile bytes =>
      if outcomes.ok then
        [.fopen true, .fwrite bytes, .fflush .opened]
      else
        [.fopen false, .cleanup]
  | .seek _ => [.fseek .opened]
  | .echo line (byte :: _) _ =>
      if byte = newline ∨ line.length + 1 = bufferSize - 1 then
        [.fgets .opened, .send (line ++ [byte])]
      else
        []
  | .echo line [] fPos =>
      match device outcomes.device (.read outcomes.count) fPos file.device with
      | none => []
      | some reply =>
          if reply.retval > 0 then
            []
          else if reply.retval = 0 ∧ line ≠ [] then
            [.fgets .opened, .send line, .fgets .opened, .fclose .opened]
          else
            [.fgets .opened, .fclose .opened]
  | .unlockFile => [.unlockFile outcomes.ok]
  | _ => []

/-- The bytes that a call passes on to the client. -/
def HandlerCall.sent : HandlerCall → Bytes
  | .send line => cString line
  | _ => []

/-- The process with what each handler has received and the calls it has made. -/
structure Journal (δ : Type) where
  process : Process δ
  received : Nat → List Bytes
  calls : Nat → List HandlerCall

namespace Journal

/-- Nothing has been received when `main` reaches the accept loop. -/
def start (device : δ) : Journal δ :=
  ⟨Process.start device, fun _ => [], fun _ => []⟩

/-- What is recorded of a step of the process. -/
def record (device : Device δ χ) (journal : Journal δ) (label : Label χ) (process : Process δ) :
    Journal δ :=
  match label with
  | .signal | .main _ => { journal with process := process }
  | .handler index outcomes =>
      let pc := (journal.process.handlers index).pc
      { process := process
        received := Function.update journal.received index
          (journal.received index ++ pc.delivered outcomes)
        calls := Function.update journal.calls index
          (journal.calls index ++ pc.callsMade device outcomes journal.process.file) }

/-- One step of the process. -/
def step (device : Device δ χ) : Step (Label χ) (Journal δ) := fun label journal =>
  (Process.step device label journal.process).map (journal.record device label)

end Journal

/-! ## Where a handler stands -/

/-- Some content of the buffer makes the receive loop come to this. -/
def ReceivesAs (received : List Bytes) (result : Received) : Prop :=
  ∃ buffer, receiveLoop buffer received = result

/-- The calls for lines that `fgets` finds. -/
def lineCalls (lines : List Bytes) : List HandlerCall :=
  lines.flatMap fun line => [.fgets .opened, .send line]

/-- The calls up to the loop around `fgets`, and those of the lines it has sent. -/
def echoCalls (bytes : Bytes) (lines : List Bytes) : List HandlerCall :=
  [.lockFile true, .fopen true, .fwrite bytes, .fflush .opened, .fseek .opened] ++
    lineCalls lines

/-- The calls are the first ones of a handler that has received these chunks. -/
def Begins (received : List Bytes) (calls : List HandlerCall) : Prop :=
  ∃ outcomes buffer, calls <+: messageHandlerThread outcomes buffer received

/-- They are all of them but the assignment of `thread_complete_success`. -/
def Completes (received : List Bytes) (calls : List HandlerCall) : Prop :=
  ∃ outcomes buffer success,
    messageHandlerThread outcomes buffer received = calls ++ [.complete success]

/-- What the handler has received and done when it comes to a point. -/
def Pc.Follows (received : List Bytes) (calls : List HandlerCall) : Pc → Prop
  | .start => received = [] ∧ calls = []
  | .recv buffer => calls = [] ∧ ∃ first, ∀ later,
      receiveLoop first (received ++ later) = receiveLoop buffer later
  | .handleIoctl _ => ∃ cmdBuffer, ReceivesAs received (.seek cmdBuffer) ∧
      calls = [.handleIoctl cmdBuffer]
  | .lockFile bytes => ReceivesAs received (.data bytes) ∧ calls = []
  | .openFile bytes => ReceivesAs received (.data bytes) ∧ calls = [.lockFile true]
  | .cleanup _ => ∃ bytes, ReceivesAs received (.data bytes) ∧
      calls = [.lockFile true, .fopen false, .cleanup]
  | .flush _ _ | .seek _ => ∃ bytes, ReceivesAs received (.data bytes) ∧
      calls = [.lockFile true, .fopen true, .fwrite bytes, .fflush .opened]
  | .echo _ _ _ => ∃ bytes lines, ReceivesAs received (.data bytes) ∧
      calls = echoCalls bytes lines
  | .unlockFile => ∃ bytes lines, ReceivesAs received (.data bytes) ∧
      calls = echoCalls bytes lines ++ [.fgets .opened, .fclose .opened]
  | .setComplete _ | .returned => Completes received calls

section Follows

variable {received : List Bytes} {calls : List HandlerCall} {bytes cmdBuffer : Bytes}

theorem Completes.begins (completes : Completes received calls) : Begins received calls := by
  obtain ⟨outcomes, buffer, success, split⟩ := completes
  exact ⟨outcomes, buffer, by rw [split]; exact List.prefix_append _ _⟩

theorem Begins.nil (received : List Bytes) : Begins received [] :=
  ⟨⟨0, true, true, true, []⟩, none, List.nil_prefix⟩

theorem Begins.of_isPrefix {more : List HandlerCall} (begins : Begins received more)
    (isPrefix : calls <+: more) : Begins received calls := by
  obtain ⟨outcomes, buffer, before⟩ := begins
  exact ⟨outcomes, buffer, isPrefix.trans before⟩

/-- Behind a seek command. -/
theorem ReceivesAs.of_seek (receives : ReceivesAs received (.seek cmdBuffer)) :
    Completes received [.handleIoctl cmdBuffer] := by
  obtain ⟨buffer, loops⟩ := receives
  refine ⟨⟨0, true, true, true, []⟩, some buffer, true, ?_⟩
  simp [messageHandlerThread, loops]

/-- Behind a chunk of data, when `pthread_mutex_lock` fails. -/
theorem ReceivesAs.of_lockFails (receives : ReceivesAs received (.data bytes)) :
    Completes received [.lockFile false] := by
  obtain ⟨buffer, loops⟩ := receives
  refine ⟨⟨0, false, true, true, []⟩, some buffer, false, ?_⟩
  simp [messageHandlerThread, loops]

/-- When `fopen` fails. -/
theorem ReceivesAs.of_openFails (receives : ReceivesAs received (.data bytes)) :
    Completes received [.lockFile true, .fopen false, .cleanup] := by
  obtain ⟨buffer, loops⟩ := receives
  refine ⟨⟨0, true, false, true, []⟩, some buffer, false, ?_⟩
  simp [messageHandlerThread, loops]

/-- When both succeed. -/
theorem ReceivesAs.of_opened (receives : ReceivesAs received (.data bytes)) (lines : List Bytes)
    (unlocks : Bool) :
    Completes received
      (echoCalls bytes lines ++ [.fgets .opened, .fclose .opened, .unlockFile unlocks]) := by
  obtain ⟨buffer, loops⟩ := receives
  refine ⟨⟨0, true, true, unlocks, lines⟩, some buffer, unlocks, ?_⟩
  simp [messageHandlerThread, loops, readBackPhase, echoCalls, lineCalls]

/-- Calls that have been completed are safe: the loop has not ended without a stream. -/
theorem Completes.safe (completes : Completes received calls) :
    ∃ success, Safe received (calls ++ [.complete success]) := by
  obtain ⟨outcomes, buffer, success, split⟩ := completes
  refine ⟨success, ?_⟩
  rw [← split]
  refine safe_of_present ?_ outcomes
  by_contra none
  obtain ⟨hasBuffer, absent⟩ := not_or.mp none
  obtain ⟨buffer, rfl⟩ := Option.ne_none_iff_exists'.mp hasBuffer
  rw [messageHandlerThread_of_absent fun chunk member present => absent ⟨chunk, member, present⟩]
    at split
  have last := congrArg List.getLast? split
  simp at last

theorem Pc.Follows.completes {pc : Pc} (follows : pc.Follows received calls)
    (returned : pc.hasReturned = true) : Completes received calls := by
  cases pc with
  | returned => exact follows
  | _ => contradiction

/-- Wherever a handler stands, it has made no call or is on the way to the end of the
list. -/
theorem Pc.Follows.ahead {pc : Pc} (follows : pc.Follows received calls) :
    calls = [] ∨ ∃ more, calls <+: more ∧ Completes received more := by
  cases pc with
  | start => exact Or.inl follows.2
  | recv _ => exact Or.inl follows.1
  | lockFile _ => exact Or.inl follows.2
  | handleIoctl _ =>
      obtain ⟨cmdBuffer, receives, rfl⟩ := follows
      exact Or.inr ⟨_, List.prefix_rfl, receives.of_seek⟩
  | openFile bytes =>
      obtain ⟨receives, rfl⟩ := follows
      exact Or.inr ⟨_, List.prefix_append _ _, receives.of_opened [] true⟩
  | cleanup _ =>
      obtain ⟨bytes, receives, rfl⟩ := follows
      exact Or.inr ⟨_, List.prefix_rfl, receives.of_openFails⟩
  | flush _ _ | seek _ =>
      obtain ⟨bytes, receives, rfl⟩ := follows
      exact Or.inr ⟨_, List.prefix_append _ _, receives.of_opened [] true⟩
  | echo _ _ _ =>
      obtain ⟨bytes, lines, receives, rfl⟩ := follows
      exact Or.inr ⟨_, List.prefix_append _ _, receives.of_opened lines true⟩
  | unlockFile =>
      obtain ⟨bytes, lines, receives, rfl⟩ := follows
      refine Or.inr ⟨_, ?_, receives.of_opened lines true⟩
      exact (List.prefix_append_right_inj _).mpr (List.prefix_append _ _)
  | setComplete _ | returned => exact Or.inr ⟨calls, List.prefix_rfl, follows⟩

theorem Pc.Follows.begins {pc : Pc} (follows : pc.Follows received calls) :
    Begins received calls := by
  rcases follows.ahead with rfl | ⟨more, before, completes⟩
  · exact Begins.nil received
  · exact completes.begins.of_isPrefix before

/-- No call has been given a null stream that does not accept one. -/
theorem Pc.Follows.notNull {pc : Pc} (follows : pc.Follows received calls) :
    ∀ call ∈ calls, call.needsStream ≠ some .null := by
  rcases follows.ahead with rfl | ⟨more, before, completes⟩
  · simp
  · obtain ⟨success, safe⟩ := completes.safe
    exact fun call member =>
      safe.notNull call (List.mem_append_left _ (before.subset member))

/-! ## One step -/

/-- The receive loop comes on by a chunk without a newline. -/
theorem receiveLoop_skip {first buffer chunk : Bytes}
    (loops : ∀ later, receiveLoop first (received ++ later) = receiveLoop buffer later)
    (continues : receiveChunk (overwrite buffer chunk) chunk.length = none) (later : List Bytes) :
    receiveLoop first ((received ++ [chunk]) ++ later) =
      receiveLoop (overwrite buffer chunk) later := by
  rw [List.append_assoc, loops, List.singleton_append, receiveLoop, continues]

/-- It ends with another one. -/
theorem receivesAs_of_chunk {first buffer chunk : Bytes} {result : Received}
    (loops : ∀ later, receiveLoop first (received ++ later) = receiveLoop buffer later)
    (decides : receiveChunk (overwrite buffer chunk) chunk.length = some result) :
    ReceivesAs (received ++ [chunk]) result := by
  refine ⟨first, ?_⟩
  rw [loops, receiveLoop, decides]

/-- Without one the handler passes a null stream to `fseek`. -/
theorem begins_null {first buffer : Bytes}
    (loops : ∀ later, receiveLoop first (received ++ later) = receiveLoop buffer later) :
    Begins received [.fflush .null, .fseek .null] := by
  have nothing : receiveLoop first received = .nothing := by
    have ended := loops []
    rwa [List.append_nil] at ended
  refine ⟨⟨0, true, true, true, []⟩, some first, ?_⟩
  simp [messageHandlerThread, nothing, readBackPhase]

variable {device : Device δ χ} {index : Nat} {returned : Nat → Bool} {outcomes : Outcomes χ}
  {file : DeviceFile δ} {clients : Clients} {effect : Effect δ} {pc : Pc}

/-- A step of the loop around `fgets` sends a line or none; then the loop goes on, or the
file is at its end. -/
theorem echoStep_calls {line ahead : Bytes} {fPos : Int}
    (stepped : echoStep device outcomes line ahead fPos file clients = some effect) :
    ∃ lines, effect.sent = lines.flatMap cString ∧
      ((∃ line' ahead' fPos', effect.control = .goto (.echo line' ahead' fPos') ∧
          (Pc.echo line ahead fPos).callsMade device outcomes file = lineCalls lines) ∨
        effect.control = .goto .unlockFile ∧
          (Pc.echo line ahead fPos).callsMade device outcomes file =
            lineCalls lines ++ [.fgets .opened, .fclose .opened]) := by
  cases ahead with
  | cons byte ahead =>
      simp only [echoStep] at stepped
      simp only [Pc.callsMade]
      split at stepped <;> rename_i full <;> cases stepped
      · rw [if_pos full]
        exact ⟨[line ++ [byte]], by simp, Or.inl ⟨_, _, _, rfl, rfl⟩⟩
      · rw [if_neg full]
        exact ⟨[], rfl, Or.inl ⟨_, _, _, rfl, rfl⟩⟩
  | nil =>
      simp only [echoStep] at stepped
      split at stepped
      · contradiction
      · rename_i reply replies
        simp only [Pc.callsMade, replies]
        split at stepped <;> rename_i more
        · cases stepped
          rw [if_pos more]
          exact ⟨[], rfl, Or.inl ⟨_, _, _, rfl, rfl⟩⟩
        · rw [if_neg more]
          split at stepped <;> rename_i atEnd <;> cases stepped
          · -- the last line may lack its newline
            by_cases finished : line = []
            · rw [if_neg fun unfinished => unfinished.2 finished, finished]
              exact ⟨[], rfl, Or.inr ⟨rfl, rfl⟩⟩
            · rw [if_pos ⟨atEnd, finished⟩]
              exact ⟨[line], by simp, Or.inr ⟨rfl, rfl⟩⟩
          · rw [if_neg fun unfinished => atEnd unfinished.1]
            exact ⟨[], rfl, Or.inr ⟨rfl, rfl⟩⟩

theorem echoCalls_append (bytes : Bytes) (lines more : List Bytes) :
    echoCalls bytes lines ++ lineCalls more = echoCalls bytes (lines ++ more) := by
  simp [echoCalls, lineCalls]

/-- A step that ends the process makes calls of the list, and any other one comes to the
point behind them. -/
theorem Pc.follows_step (follows : pc.Follows received calls)
    (stepped : pc.step device index returned outcomes file clients = some effect) :
    effect.control.goesOn = true ∧
        (effect.control.point pc).Follows (received ++ pc.delivered outcomes)
          (calls ++ pc.callsMade device outcomes file) ∨
      effect.control.goesOn = false ∧ pc.hasReturned = false ∧
        Begins (received ++ pc.delivered outcomes)
          (calls ++ pc.callsMade device outcomes file) := by
  cases pc with
  | start =>
      obtain ⟨rfl, rfl⟩ := follows
      simp only [Pc.step] at stepped
      split at stepped <;> cases stepped
      · exact Or.inl ⟨rfl, rfl, uninitialised bufferSize outcomes.fill, fun later => rfl⟩
      · exact Or.inl ⟨rfl, ⟨0, true, true, true, []⟩, none, false, rfl⟩
  | recv buffer =>
      obtain ⟨rfl, first, loops⟩ := follows
      simp only [Pc.step] at stepped
      by_cases none : outcomes.chunk.take bufferSize = []
      · rw [if_pos none] at stepped
        cases stepped
        refine Or.inr ⟨rfl, rfl, ?_⟩
        simpa [Pc.delivered, Pc.callsMade, none] using begins_null loops
      · rw [if_neg none] at stepped
        simp only [Pc.delivered, Pc.callsMade, if_neg none, List.nil_append]
        split at stepped <;> rename_i decides <;> cases stepped <;> simp only [decides]
        · exact Or.inl ⟨rfl, rfl, first, receiveLoop_skip loops decides⟩
        · exact Or.inr ⟨rfl, rfl, Begins.nil _⟩
        · exact Or.inl ⟨rfl, _, receivesAs_of_chunk loops decides, rfl⟩
        · exact Or.inl ⟨rfl, receivesAs_of_chunk loops decides, rfl⟩
  | handleIoctl point =>
      obtain ⟨⟨control, sent, file'⟩, _, rfl⟩ := Option.map_eq_some_iff.mp stepped
      obtain ⟨cmdBuffer, receives, rfl⟩ := follows
      simp only [Pc.delivered, Pc.callsMade, List.append_nil]
      cases control with
      | goto next => exact Or.inl ⟨rfl, cmdBuffer, receives, rfl⟩
      | done => exact Or.inl ⟨rfl, receives.of_seek⟩
      | crash => exact Or.inr ⟨rfl, rfl, receives.of_seek.begins⟩
  | lockFile bytes =>
      obtain ⟨⟨control, file'⟩, locks, rfl⟩ := Option.map_eq_some_iff.mp stepped
      obtain ⟨receives, rfl⟩ := follows
      simp only [Pc.delivered, Pc.callsMade, List.append_nil]
      rcases DeviceFile.lockThen_cases locks with ⟨ok, _, rfl, _⟩ | ⟨fails, rfl, _⟩
      · exact Or.inl ⟨rfl, receives, by rw [ok]; rfl⟩
      · rw [fails]
        exact Or.inl ⟨rfl, receives.of_lockFails⟩
  | openFile bytes =>
      obtain ⟨receives, rfl⟩ := follows
      simp only [Pc.step] at stepped
      simp only [Pc.delivered, Pc.callsMade, List.append_nil]
      split at stepped <;> rename_i opens <;> cases stepped <;> simp only [opens]
      · exact Or.inl ⟨rfl, bytes, receives, rfl⟩
      · exact Or.inl ⟨rfl, bytes, receives, rfl⟩
  | cleanup point =>
      obtain ⟨⟨control, clients'⟩, _, rfl⟩ := Option.map_eq_some_iff.mp stepped
      obtain ⟨bytes, receives, rfl⟩ := follows
      simp only [Pc.delivered, Pc.callsMade, List.append_nil]
      cases control with
      | goto next => exact Or.inl ⟨rfl, bytes, receives, rfl⟩
      | done => exact Or.inl ⟨rfl, receives.of_openFails⟩
      | crash => exact Or.inr ⟨rfl, rfl, receives.of_openFails.begins⟩
  | flush bytes fPos =>
      obtain ⟨written, receives, rfl⟩ := follows
      simp only [Pc.delivered, Pc.callsMade, List.append_nil]
      simp only [Pc.step, flushStep] at stepped
      split at stepped
      · contradiction
      · split at stepped <;> cases stepped <;> exact Or.inl ⟨rfl, written, receives, rfl⟩
  | seek fPos =>
      obtain ⟨bytes, receives, rfl⟩ := follows
      simp only [Pc.delivered, Pc.callsMade, List.append_nil]
      simp only [Pc.step] at stepped
      split at stepped <;> cases stepped
      exact Or.inl ⟨rfl, bytes, [], receives, rfl⟩
  | echo line ahead fPos =>
      obtain ⟨bytes, lines, receives, rfl⟩ := follows
      simp only [Pc.delivered, List.append_nil]
      refine Or.inl ?_
      obtain ⟨more, _, ⟨line', ahead', fPos', control, made⟩ | ⟨control, made⟩⟩ :=
        echoStep_calls stepped
      · rw [control, made, echoCalls_append]
        exact ⟨rfl, bytes, lines ++ more, receives, rfl⟩
      · rw [control, made, ← List.append_assoc, echoCalls_append]
        exact ⟨rfl, bytes, lines ++ more, receives, rfl⟩
  | unlockFile =>
      obtain ⟨bytes, lines, receives, rfl⟩ := follows
      cases stepped
      simp only [Pc.delivered, Pc.callsMade, List.append_nil, List.append_assoc]
      exact Or.inl ⟨rfl, receives.of_opened lines outcomes.ok⟩
  | setComplete point =>
      obtain ⟨⟨control, clients'⟩, _, rfl⟩ := Option.map_eq_some_iff.mp stepped
      simp only [Pc.delivered, Pc.callsMade, List.append_nil]
      cases control with
      | goto next => exact Or.inl ⟨rfl, follows⟩
      | done => exact Or.inl ⟨rfl, follows⟩
      | crash => exact Or.inr ⟨rfl, rfl, Completes.begins follows⟩
  | returned => contradiction

/-- The bytes a step sends are those of the calls it makes, outside `handle_ioctl`. -/
theorem Pc.sent_step (outside : ∀ point, pc ≠ .handleIoctl point)
    (stepped : pc.step device index returned outcomes file clients = some effect) :
    effect.sent = (pc.callsMade device outcomes file).flatMap HandlerCall.sent := by
  cases pc with
  | start =>
      simp only [Pc.step] at stepped
      split at stepped <;> cases stepped <;> rfl
  | recv buffer =>
      simp only [Pc.step] at stepped
      simp only [Pc.callsMade]
      split at stepped
      · cases stepped
        rename_i none
        rw [if_pos none]
        rfl
      · rename_i some
        rw [if_neg some]
        split at stepped <;> rename_i decides <;> cases stepped <;> simp only [decides] <;> rfl
  | handleIoctl point => exact absurd rfl (outside point)
  | lockFile bytes =>
      obtain ⟨_, _, rfl⟩ := Option.map_eq_some_iff.mp stepped
      rfl
  | openFile bytes =>
      simp only [Pc.step] at stepped
      simp only [Pc.callsMade]
      split at stepped <;> rename_i opens <;> cases stepped <;> simp only [opens] <;> rfl
  | cleanup point | setComplete point =>
      obtain ⟨_, _, rfl⟩ := Option.map_eq_some_iff.mp stepped
      rfl
  | flush bytes fPos =>
      simp only [Pc.step, flushStep] at stepped
      split at stepped
      · contradiction
      · split at stepped <;> cases stepped <;> rfl
  | seek fPos =>
      simp only [Pc.step] at stepped
      split at stepped <;> cases stepped
      rfl
  | echo line ahead fPos =>
      have sentLines (lines : List Bytes) :
          (lineCalls lines).flatMap HandlerCall.sent = lines.flatMap cString := by
        simp [lineCalls, List.flatMap_assoc, HandlerCall.sent]
      obtain ⟨lines, sent, ⟨_, _, _, _, made⟩ | ⟨_, made⟩⟩ := echoStep_calls stepped
      · rw [made, sent, sentLines]
      · rw [made, sent, List.flatMap_append, sentLines]
        simp [HandlerCall.sent]
  | unlockFile =>
      cases stepped
      rfl
  | returned => contradiction

end Follows

/-! ## Runs -/

theorem Control.point_of_ends {γ : Type} {control : Control γ} {current : γ}
    (ends : control.goesOn = false) : control.point current = current := by
  cases control with
  | goto point => contradiction
  | done | crash => rfl

/-- Where a handler stands while the process runs, and what its calls are also when the
process has ended. -/
structure OnCourse (alive : Bool) (handler : Handler) (received : List Bytes)
    (calls : List HandlerCall) : Prop where
  follows : alive = true → handler.pc.Follows received calls
  begins : Begins received calls
  completes : handler.pc.hasReturned = true → Completes received calls
  sent : (∀ cmdBuffer, .handleIoctl cmdBuffer ∉ calls) →
    handler.sent = calls.flatMap HandlerCall.sent

section OnCourse

variable {handler : Handler} {received : List Bytes} {calls : List HandlerCall}

/-- A step of another thread. -/
theorem OnCourse.frame (course : OnCourse true handler received calls) (alive : Bool) :
    OnCourse alive handler received calls :=
  ⟨fun _ => course.follows rfl, course.begins, course.completes, course.sent⟩

/-- A step of its own. -/
theorem OnCourse.step {device : Device δ χ} {index : Nat} {returned : Nat → Bool}
    {outcomes : Outcomes χ} {file : DeviceFile δ} {clients : Clients} {effect : Effect δ}
    (course : OnCourse true handler received calls)
    (stepped : handler.pc.step device index returned outcomes file clients = some effect) :
    OnCourse effect.control.goesOn ⟨effect.control.point handler.pc, handler.sent ++ effect.sent⟩
      (received ++ handler.pc.delivered outcomes)
      (calls ++ handler.pc.callsMade device outcomes file) := by
  have follows := course.follows rfl
  have sent (noSeek : ∀ cmdBuffer, .handleIoctl cmdBuffer ∉
      calls ++ handler.pc.callsMade device outcomes file) : handler.sent ++ effect.sent =
        (calls ++ handler.pc.callsMade device outcomes file).flatMap HandlerCall.sent := by
    simp only [List.mem_append, not_or] at noSeek
    have outside (point : HandleIoctl) : handler.pc ≠ .handleIoctl point := by
      intro atPoint
      rw [atPoint] at follows
      obtain ⟨cmdBuffer, _, called⟩ := follows
      exact (noSeek cmdBuffer).1 (by simp [called])
    rw [List.flatMap_append, course.sent fun cmdBuffer => (noSeek cmdBuffer).1,
      Pc.sent_step outside stepped]
  rcases Pc.follows_step follows stepped with ⟨goesOn, follows'⟩ | ⟨ends, running, begins⟩
  · exact ⟨fun _ => follows', follows'.begins, follows'.completes, sent⟩
  · refine ⟨fun goesOn => ?_, begins, fun hasReturned => ?_, sent⟩
    · rw [ends] at goesOn
      contradiction
    · rw [Control.point_of_ends ends, running] at hasReturned
      contradiction

end OnCourse

namespace Journal

/-- In some state of the process. -/
def Sound (journal : Journal δ) : Prop :=
  ∀ index, OnCourse journal.process.alive (journal.process.handlers index)
    (journal.received index) (journal.calls index)

theorem sound_start (device : δ) : (start device).Sound :=
  fun _ => ⟨fun _ => ⟨rfl, rfl⟩, Begins.nil [], fun returned => by contradiction, fun _ => rfl⟩

variable {device : Device δ χ} {journal target : Journal δ} {label : Label χ}

/-- One step. -/
theorem Sound.step (sound : journal.Sound)
    (stepped : Journal.step device label journal = some target) : target.Sound := by
  obtain ⟨process, made, rfl⟩ := Option.map_eq_some_iff.mp stepped
  have alive : journal.process.alive = true := by
    by_contra ended
    simp [Process.step, ended] at made
  have course (index : Nat) : OnCourse true (journal.process.handlers index)
      (journal.received index) (journal.calls index) := alive ▸ sound index
  intro other
  rcases Process.step_cases made with
    ⟨rfl, rfl⟩ | ⟨ok, effect, rfl, _, rfl⟩ | ⟨index, outcomes, effect, rfl, _, moved, rfl⟩
  · exact (course other).frame _
  · exact (course other).frame _
  · by_cases same : other = index
    · subst other
      have next := (course index).step moved
      simpa [record, Process.applyHandler] using next
    · have kept := (course other).frame effect.control.goesOn
      simpa [record, same, Process.applyHandler] using kept

end Journal

end Aesd.Server
