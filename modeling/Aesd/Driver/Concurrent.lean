import Aesd.Atomic.Order
import Aesd.Atomic.Progress
import Aesd.Driver.Chunking
import Aesd.Driver.Guarded
import Aesd.Driver.History
import Aesd.Driver.Indices

/-!
# Processes that share the device

Any number of threads call the file operations, and their accesses interleave in
any order.  Seen from the threads every call takes effect at once, and what holds
of sequences of calls holds of the calls in the order in which they do.
-/

namespace Aesd.Driver

open Aesd.Atomic
open Aesd.Transition
open Aesd.Word

/-! ## Calls as programs -/

namespace DriverCall

/-- The call as a program of accesses. -/
def routine : DriverCall → Routine Response
  | .read outcomes bufIsNull count fPos => Routine.aesdRead outcomes bufIsNull count fPos
  | .write outcomes buf fPos => do
      let retval ← Routine.aesdWrite outcomes buf fPos
      pure ⟨retval, [], fPos⟩
  | .llseek lock off whence fPos => Routine.aesdLlseek lock off whence fPos
  | .ioctl outcomes cmd arg fPos => Routine.aesdIoctl outcomes cmd arg fPos

/-- The call at once: its response, and the device afterwards. -/
def serve (call : DriverCall) (driver : AesdDev) : Except Stop (Response × AesdDev) :=
  match call with
  | .read outcomes bufIsNull count fPos =>
      (aesdRead outcomes bufIsNull count fPos driver).map Routine.ofRead
  | .write outcomes buf fPos =>
      (aesdWrite outcomes buf fPos driver).map fun result => (⟨result.1, [], fPos⟩, result.2)
  | .llseek lock off whence fPos =>
      (aesdLlseek lock off whence fPos driver).map Routine.ofSeek
  | .ioctl outcomes cmd arg fPos =>
      (aesdIoctl outcomes cmd arg fPos driver).map Routine.ofSeek

/-- By itself, the program of a call is the call at once. -/
theorem routine_alone (call : DriverCall) (driver : AesdDev) :
    call.routine.alone driver = call.serve driver := by
  cases call with
  | read outcomes bufIsNull count fPos => exact Routine.aesdRead_alone driver _ _ _ _
  | write outcomes buf fPos =>
      rw [routine, Program.alone_bind, Routine.aesdWrite_alone, serve]
      cases aesdWrite outcomes buf fPos driver <;> rfl
  | llseek lock off whence fPos => exact Routine.aesdLlseek_alone driver _ _ _ _
  | ioctl outcomes cmd arg fPos => exact Routine.aesdIoctl_alone driver _ _ _ _

/-- Apart from its response, a call at once is the call of a sequence. -/
theorem serve_map_snd (call : DriverCall) (driver : AesdDev) :
    (call.serve driver).map Prod.snd = driver.perform call := by
  cases call with
  | read outcomes bufIsNull count fPos =>
      rw [serve, AesdDev.perform]
      cases aesdRead outcomes bufIsNull count fPos driver <;> rfl
  | write outcomes buf fPos =>
      rw [serve, AesdDev.perform]
      cases aesdWrite outcomes buf fPos driver <;> rfl
  | llseek lock off whence fPos =>
      rw [serve, AesdDev.perform]
      cases aesdLlseek lock off whence fPos driver <;> rfl
  | ioctl outcomes cmd arg fPos =>
      rw [serve, AesdDev.perform]
      cases aesdIoctl outcomes cmd arg fPos driver <;> rfl

theorem guarded_routine (call : DriverCall) : bufferLockRule.Guarded call.routine := by
  cases call with
  | read outcomes bufIsNull count fPos => exact Routine.guarded_aesdRead _ _ _ _
  | write outcomes buf fPos => exact (Routine.guarded_aesdWrite outcomes buf fPos).map _
  | llseek lock off whence fPos => exact Routine.guarded_aesdLlseek _ _ _ _
  | ioctl outcomes cmd arg fPos => exact Routine.guarded_aesdIoctl _ _ _ _

/-- The last index of the loop of `aesd_ioctl` is an `int`, wherever the ring starts. -/
def FitsInt : DriverCall → Prop
  | .ioctl _ _ arg _ => arg.writeCmd.toNat + 9 ≤ 2 ^ 31
  | .read .. | .write .. | .llseek .. => True

end DriverCall

/-- On an idle device such a call returns. -/
theorem AesdDev.Represents.perform_of_fitsInt {driver : AesdDev} {log : Log}
    {held leaked : List (Nat × Bytes)} (rep : driver.Represents log held leaked)
    (unlocked : driver.bufferLock = false) {call : DriverCall} (fits : call.FitsInt) :
    ∃ driver', driver.perform call = .ok driver' ∧
      (driver'.bufferLock = false ↔ call.Releases driver) := by
  rcases answers_of_idle rep unlocked call with
    ⟨stop, stops, rfl | rfl⟩ | ⟨driver', _, _, _, returned, _, released⟩
  · exact absurd stops (rep.perform_avoids call)
  · cases call with
    | read outcomes bufIsNull count fPos =>
        exact absurd stops ((aesdRead_avoids_badIndex outcomes bufIsNull count fPos driver).map _)
    | write outcomes buf fPos =>
        exact absurd stops ((aesdWrite_avoids (by simp) rep outcomes buf fPos).map _)
    | llseek lock off whence fPos =>
        exact absurd stops
          ((aesdLlseek_avoids (by simp) (by simp) lock off whence fPos driver).map _)
    | ioctl outcomes cmd arg fPos =>
        have outLt := rep.ring.outOffs_lt
        have stays : (DriverCall.ioctl outcomes cmd arg fPos).StaysInArray driver := by
          intro _ _ _ _ _
          unfold DriverCall.FitsInt at fits
          omega
        exact absurd stops (((rep.aesdIoctl_avoids_iff outcomes cmd arg fPos).mpr stays).map _)
  · exact ⟨driver', returned, released⟩

theorem DriverCall.serve_of_perform {call : DriverCall} {driver driver' : AesdDev}
    (returned : driver.perform call = .ok driver') :
    ∃ response, call.serve driver = .ok (response, driver') := by
  rw [← call.serve_map_snd] at returned
  obtain ⟨⟨response, after⟩, served, rfl⟩ := map_eq_ok_iff.mp returned
  exact ⟨response, served⟩

/-! ## The calls implement themselves -/

namespace DriverCall

/-- A device in step with some log. -/
def Sound (driver : AesdDev) : Prop :=
  ∃ log held leaked, driver.Represents log held leaked

theorem sound_init : Sound aesdInitModule :=
  ⟨Log.empty, [], [], AesdDev.represents_init⟩

theorem implements : Implements bufferLockRule routine serve Sound FitsInt where
  guarded := guarded_routine
  alone_eq := routine_alone
  serves := by
    rintro call driver fits ⟨log, held, leaked, rep⟩ unlocked
    obtain ⟨driver', returned, _⟩ := rep.perform_of_fitsInt unlocked fits
    obtain ⟨response, served⟩ := serve_of_perform returned
    obtain ⟨log', held', leaked', rep', _⟩ := rep.of_perform returned
    exact ⟨response, driver', served, log', held', leaked', rep'⟩

/-- The call gives the lock back from every idle device, and does not leak.  Whether
a seek from the end gives it back depends on the content; such a seek is none of
these calls. -/
structure GivesBack (call : DriverCall) : Prop where
  fits : call.FitsInt
  grows : call.KreallocSucceeds
  releases : ∀ driver, call.Releases driver

/-- An idle device in step with some log, without leaked blocks. -/
def SoundIdle (driver : AesdDev) : Prop :=
  driver.bufferLock = false ∧ ∃ log held, driver.Represents log held []

theorem soundIdle_init : SoundIdle aesdInitModule :=
  ⟨rfl, Log.empty, [], AesdDev.represents_init⟩

theorem implements_givesBack : Implements bufferLockRule routine serve SoundIdle GivesBack where
  guarded := guarded_routine
  alone_eq := routine_alone
  serves := by
    rintro call driver givesBack ⟨unlocked, log, held, rep⟩ _
    obtain ⟨driver', returned, released⟩ := rep.perform_of_fitsInt unlocked givesBack.fits
    obtain ⟨response, served⟩ := serve_of_perform returned
    obtain ⟨log', held', leaked', rep', noLeak⟩ := rep.of_perform returned
    rw [noLeak givesBack.grows] at rep'
    exact ⟨response, driver', served, released.mpr (givesBack.releases driver), log', held', rep'⟩

end DriverCall

/-! ## Runs of threads -/

section Threads

variable {ι : Type} [Fintype ι] [DecidableEq ι] {events : List (Event ι DriverCall Response)}
  {state : Interleaved ι AesdDev Stop Response}

/-- The calls of concurrent threads take effect one after the other.  However their
accesses interleave, there is an order of the calls that have taken effect, in which
each of them happens at once and has the same response; it keeps the order of the
calls of each thread and puts a call that returned before another one started in
front of it.  When no call is in progress, the device is the one this order leads
to. -/
theorem concurrentCalls_linearize
    (executed : exec (Interleaved.step DriverCall.routine) events
      (Interleaved.start aesdInitModule) = some state)
    (fits : ∀ thread call, .invoke thread call ∈ events → call.FitsInt) :
    ∃ order stage driver, exec (inOrder DriverCall.serve) order aesdInitModule = some driver ∧
      Explains order events stage ∧
      ((∀ thread, state.thread thread = none) →
        driver = state.shared ∧ ∀ thread, stage thread = .idle) := by
  obtain ⟨order, served, view, performed, explains, corresponds⟩ :=
    DriverCall.implements.exists_order DriverCall.sound_init executed fits
  refine ⟨order, served.stage, served.shared, performed, explains, ?_⟩
  intro quiet
  exact ⟨(corresponds.shared_eq quiet).symm, fun thread =>
    corresponds.stage_eq_idle (quiet thread)⟩

/-- A thread writes a line, and another one reads it before the writer has freed its
buffer. -/
def writerAndReader : List (Event Bool DriverCall Response) :=
  [.invoke false (.write WriteOutcomes.success (some [97, newline]) 0),
    .invoke true (.read ⟨true, 0⟩ false 4 0)] ++
    List.replicate 20 (.advance false) ++ List.replicate 9 (.advance true) ++
    [.respond true ⟨2, [97, newline], 2⟩, .advance false, .respond false ⟨2, [], 0⟩]

theorem writerAndReader_returns : ∃ state,
    exec (Interleaved.step DriverCall.routine) writerAndReader
      (Interleaved.start aesdInitModule) = some state ∧
    ∀ thread, state.thread thread = none :=
  ⟨_, rfl, by decide +kernel⟩

theorem writerAndReader_givesBack (thread : Bool) (call : DriverCall)
    (member : .invoke thread call ∈ writerAndReader) : call.GivesBack := by
  simp only [writerAndReader, List.mem_append, List.mem_cons, List.mem_replicate,
    Event.invoke.injEq] at member
  simp only [reduceCtorEq, and_false, or_false, List.not_mem_nil] at member
  rcases member with ⟨_, rfl⟩ | ⟨_, rfl⟩
  · exact ⟨trivial, rfl, fun _ _ _ uncopied => absurd rfl uncopied⟩
  · exact ⟨trivial, trivial, fun _ => trivial⟩

theorem concurrentCalls_linearize_two : ∃ state : Interleaved Bool AesdDev Stop Response,
    exec (Interleaved.step DriverCall.routine) writerAndReader
      (Interleaved.start aesdInitModule) = some state ∧
    ∃ order stage driver, exec (inOrder DriverCall.serve) order aesdInitModule = some driver ∧
      Explains order writerAndReader stage ∧
      ((∀ thread, state.thread thread = none) →
        driver = state.shared ∧ ∀ thread, stage thread = .idle) := by
  obtain ⟨state, executed, _⟩ := writerAndReader_returns
  exact ⟨state, executed, concurrentCalls_linearize executed fun thread call member =>
    (writerAndReader_givesBack thread call member).fits⟩

/-- In no interleaving does a thread access memory that is not live, leave the
array, free a block twice or give back a lock that is not held: the next access of
every thread can be performed, or it waits for the lock while the lock is held. -/
theorem concurrentCalls_stop_nowhere
    (executed : exec (Interleaved.step DriverCall.routine) events
      (Interleaved.start aesdInitModule) = some state)
    (fits : ∀ thread call, .invoke thread call ∈ events → call.FitsInt)
    {thread : ι} {β : Type} {access : AesdDev → Except Stop (β × AesdDev)}
    {next : β → Routine Response} (running : state.thread thread = some (.act access next)) :
    (∃ outcome, access state.shared = .ok outcome) ∨
      state.shared.bufferLock = true ∧ access state.shared = .error .blocked := by
  obtain ⟨_, served, view, _, _, corresponds⟩ :=
    (Corresponds.start DriverCall.sound_init).run DriverCall.implements executed fits
  exact corresponds.performs_or_waits running

/-- The reader waits for the writer. -/
theorem writerAndReader_waits : ∃ (state : Interleaved Bool AesdDev Stop Response) (β : Type)
    (access : AesdDev → Except Stop (β × AesdDev)) (next : β → Routine Response),
    exec (Interleaved.step DriverCall.routine) (writerAndReader.take 3)
      (Interleaved.start aesdInitModule) = some state ∧
    state.thread true = some (.act access next) :=
  ⟨_, _, _, _, rfl, rfl⟩

theorem concurrentCalls_stop_nowhere_two :
    ∃ (state : Interleaved Bool AesdDev Stop Response) (β : Type)
      (access : AesdDev → Except Stop (β × AesdDev)) (next : β → Routine Response),
      exec (Interleaved.step DriverCall.routine) (writerAndReader.take 3)
        (Interleaved.start aesdInitModule) = some state ∧
      state.thread true = some (.act access next) ∧
      ((∃ outcome, access state.shared = .ok outcome) ∨
        state.shared.bufferLock = true ∧ access state.shared = .error .blocked) := by
  obtain ⟨state, β, access, next, executed, running⟩ := writerAndReader_waits
  refine ⟨state, β, access, next, executed, running,
    concurrentCalls_stop_nowhere executed ?_ running⟩
  exact fun thread call member =>
    (writerAndReader_givesBack thread call (List.mem_of_mem_take member)).fits

/-- Threads whose calls give the lock back never block each other for good: from
every point of every run, they can all be brought to return.  Then the lock is free,
and the kernel memory in use is that of the entries. -/
theorem concurrentCalls_finish
    (executed : exec (Interleaved.step DriverCall.routine) events
      (Interleaved.start aesdInitModule) = some state)
    (givesBack : ∀ thread call, .invoke thread call ∈ events → call.GivesBack) :
    ∃ events' target, exec (Interleaved.step DriverCall.routine) events' state = some target ∧
      (∀ event ∈ events', event.isOwn = true) ∧ (∀ thread, target.thread thread = none) ∧
      target.shared.bufferLock = false ∧ target.shared.OwnsHeap := by
  obtain ⟨_, served, view, _, _, corresponds⟩ :=
    (Corresponds.start DriverCall.soundIdle_init).run DriverCall.implements_givesBack executed
      givesBack
  obtain ⟨events', target, finishes, own, quiet⟩ :=
    corresponds.finish DriverCall.implements_givesBack fun _ sound => sound.1
  have noCall : ∀ thread call, .invoke thread call ∈ events' → call.GivesBack := by
    intro thread call member
    have isOwn := own _ member
    contradiction
  obtain ⟨_, served', view', _, _, corresponds'⟩ :=
    corresponds.run DriverCall.implements_givesBack finishes noCall
  obtain ⟨unlocked, log, held, rep⟩ := corresponds'.sound
  rw [← corresponds'.shared_eq quiet] at unlocked rep
  exact ⟨events', target, finishes, own, quiet, unlocked, rep.ownsHeap⟩

theorem concurrentCalls_finish_two : ∃ state : Interleaved Bool AesdDev Stop Response,
    exec (Interleaved.step DriverCall.routine) (writerAndReader.take 3)
      (Interleaved.start aesdInitModule) = some state ∧
    ∃ events' target, exec (Interleaved.step DriverCall.routine) events' state = some target ∧
      (∀ event ∈ events', event.isOwn = true) ∧ (∀ thread, target.thread thread = none) ∧
      target.shared.bufferLock = false ∧ target.shared.OwnsHeap := by
  obtain ⟨state, _, _, _, executed, _⟩ := writerAndReader_waits
  exact ⟨state, executed, concurrentCalls_finish executed fun thread call member =>
    writerAndReader_givesBack thread call (List.mem_of_mem_take member)⟩

end Threads

/-! ## Concurrent writers -/

namespace WriteCall

/-- A write as a program of accesses. -/
def routine (call : WriteCall) : Routine Int :=
  Routine.aesdWrite call.outcomes (some call.user) call.fPos

/-- A write at once. -/
def serve (call : WriteCall) (driver : AesdDev) : Except Stop (Int × AesdDev) :=
  aesdWrite call.outcomes (some call.user) call.fPos driver

theorem implements_admissible :
    Implements bufferLockRule routine serve DriverCall.SoundIdle Admissible where
  guarded call := Routine.guarded_aesdWrite call.outcomes (some call.user) call.fPos
  alone_eq call driver := Routine.aesdWrite_alone driver call.outcomes (some call.user) call.fPos
  serves := by
    rintro call driver admissible ⟨unlocked, log, held, rep⟩ _
    have fits : (DriverCall.write call.outcomes (some call.user) call.fPos).FitsInt := trivial
    obtain ⟨driver', returned, released⟩ := rep.perform_of_fitsInt unlocked fits
    obtain ⟨log', held', leaked', rep', noLeak⟩ := rep.of_perform returned
    rw [noLeak admissible.krealloc] at rep'
    obtain ⟨⟨retval, after⟩, written, rfl⟩ := map_eq_ok_iff.mp returned
    refine ⟨retval, after, written, released.mpr ?_, log', held', rep'⟩
    intro _ _ uncopied
    exact absurd admissible.uncopied uncopied

end WriteCall

/-- Writes at once, recorded. -/
theorem History.exec_of_inOrder {ι : Type} {order : List (Performed ι WriteCall Int)}
    {driver : AesdDev}
    (performed : exec (inOrder WriteCall.serve) order aesdInitModule = some driver) :
    ∃ history, exec History.write (order.map Performed.call) History.initial = some history ∧
      history.driver = driver ∧
      history.calls = order.map fun performed => ⟨performed.call.user, performed.reply⟩ := by
  induction order using List.reverseRecOn generalizing driver with
  | nil =>
      cases performed
      exact ⟨History.initial, rfl, rfl, rfl⟩
  | append_singleton order last ih =>
      obtain ⟨before, first, final⟩ := (exec_concat_eq_some_iff _ _ _ _ _).mp performed
      obtain ⟨history, written, rfl, calls⟩ := ih first
      have served := inOrder_eq_some_iff.mp final
      unfold WriteCall.serve at served
      refine ⟨history.record last.call.user last.reply driver, ?_, rfl, ?_⟩
      · rw [List.map_append]
        refine (exec_concat_eq_some_iff _ _ _ _ _).mpr ⟨history, written, ?_⟩
        simp only [History.write, served]
      · simp [History.record, calls]

/-! ### Writers of lines -/

/-- A write of one line stores it whole, or fails and stores nothing. -/
theorem Log.write_isLine (log : Log) (pending : log.pending = .held []) {call : WriteCall}
    (admissible : call.Admissible) (isLine : IsLine newline call.user) :
    (log.write call.outcomes call.user).2.pending = .held [] ∧
      ((log.write call.outcomes call.user).1 = call.user.length ∧
          (log.write call.outcomes call.user).2.committed = log.committed ++ [call.user] ∨
        (log.write call.outcomes call.user).1 < 0 ∧
          (log.write call.outcomes call.user).2.committed = log.committed) := by
  obtain ⟨fill, granted⟩ := Option.isSome_iff_exists.mp admissible.krealloc
  cases allocates : call.outcomes.kbuf with
  | none =>
      have writes : log.write call.outcomes call.user = (-enomem, log) := by
        simp [Log.write, allocates]
      rw [writes]
      exact ⟨pending, Or.inr ⟨by simp [enomem], rfl⟩⟩
  | some kbufFill =>
      have writes : log.write call.outcomes call.user =
          log.accept fill call.outcomes.remainder.isSome call.user := by
        simp [Log.write, allocates, admissible.uncopied, granted]
      have accepts := log.accept_of_isLine fill call.outcomes.remainder.isSome isLine []
      rw [List.append_nil, if_pos (Or.inl rfl)] at accepts
      rw [writes, accepts]
      refine ⟨rfl, Or.inl ⟨rfl, ?_⟩⟩
      simp [Log.commit, pending]

/-- One such write at once. -/
theorem AesdDev.Represents.serve_isLine {driver driver' : AesdDev} {log : Log}
    {held : List (Nat × Bytes)} (rep : driver.Represents log held [])
    (unlocked : driver.bufferLock = false) (pending : log.pending = .held []) {call : WriteCall}
    (admissible : call.Admissible) (isLine : IsLine newline call.user) {reply : Int}
    (served : call.serve driver = .ok (reply, driver')) :
    ∃ log' held', driver'.Represents log' held' [] ∧ driver'.bufferLock = false ∧
      log'.pending = .held [] ∧
      (reply = call.user.length ∧ log'.committed = log.committed ++ [call.user] ∨
        reply < 0 ∧ log'.committed = log.committed) := by
  unfold WriteCall.serve at served
  by_cases nonneg : 0 ≤ call.fPos
  · obtain ⟨after, held', leaked', written, rep', locked, noLeak⟩ :=
      rep.aesdWrite unlocked admissible.lock admissible.nonempty nonneg
    rw [noLeak admissible.krealloc] at rep'
    obtain ⟨pending', outcome⟩ := log.write_isLine pending admissible isLine
    rw [written, Except.ok.injEq, Prod.mk.injEq] at served
    obtain ⟨rfl, rfl⟩ := served
    refine ⟨_, held', rep', ?_, pending', outcome⟩
    simpa [admissible.uncopied] using locked
  · have refused : Driver.aesdWrite call.outcomes (some call.user) call.fPos driver =
        .ok (-einval, driver) := by
      simp [Driver.aesdWrite, Int.not_le.mp nonneg]
    rw [refused, Except.ok.injEq, Prod.mk.injEq] at served
    obtain ⟨rfl, rfl⟩ := served
    exact ⟨log, held, rep, unlocked, pending, Or.inr ⟨by simp [einval], rfl⟩⟩

/-- The buffers of the writes that have succeeded. -/
def stored {ι : Type} (order : List (Performed ι WriteCall Int)) : List Bytes :=
  (order.filter fun performed => decide (0 < performed.reply)).map fun performed =>
    performed.call.user

/-- Lines written at once. -/
theorem lines_of_inOrder {ι : Type} {order : List (Performed ι WriteCall Int)}
    {driver : AesdDev}
    (performed : exec (inOrder WriteCall.serve) order aesdInitModule = some driver)
    (admissible : ∀ one ∈ order, one.call.Admissible ∧ IsLine newline one.call.user) :
    ∃ log held, driver.Represents log held [] ∧ driver.bufferLock = false ∧
      log.pending = .held [] ∧ log.committed = stored order ∧
      ∀ one ∈ order, one.reply = one.call.user.length ∨ one.reply < 0 := by
  induction order using List.reverseRecOn generalizing driver with
  | nil =>
      cases performed
      exact ⟨Log.empty, [], AesdDev.represents_init, rfl, rfl, rfl, by simp⟩
  | append_singleton order last ih =>
      obtain ⟨before, first, final⟩ := (exec_concat_eq_some_iff _ _ _ _ _).mp performed
      obtain ⟨log, held, rep, unlocked, pending, committed, wholly⟩ :=
        ih first fun one member => admissible one (List.mem_append_left _ member)
      obtain ⟨isAdmissible, isLine⟩ := admissible last (by simp)
      obtain ⟨log', held', rep', unlocked', pending', outcome⟩ :=
        rep.serve_isLine unlocked pending isAdmissible isLine (inOrder_eq_some_iff.mp final)
      refine ⟨log', held', rep', unlocked', pending', ?_, ?_⟩
      · have positive := List.length_pos_iff.mpr isAdmissible.nonempty
        unfold stored at committed ⊢
        rcases outcome with ⟨whole, added⟩ | ⟨fails, same⟩
        · simp [added, committed, whole, positive]
        · simp [same, committed, show ¬ 0 < last.reply by omega]
      · intro one member
        rcases List.mem_append.mp member with old | new
        · exact wholly one old
        · rw [List.mem_singleton.mp new]
          exact outcome.imp And.left And.left

section Writers

variable {ι : Type} [Fintype ι] [DecidableEq ι] {events : List (Event ι WriteCall Int)}
  {state : Interleaved ι AesdDev Stop Int}

/-- Concurrent writers lose no byte and store none twice.  When their writes have
returned, some order of them, which has for each thread its calls with their return
values, is a history that conserves bytes and ends in this device. -/
theorem concurrentWrites_conserve
    (executed : exec (Interleaved.step WriteCall.routine) events
      (Interleaved.start aesdInitModule) = some state)
    (admissible : ∀ thread call, .invoke thread call ∈ events → call.Admissible)
    (quiet : ∀ thread, state.thread thread = none) :
    ∃ (order : List (Performed ι WriteCall Int)) (history : History),
      Explains order events (fun _ => .idle) ∧
      exec History.write (order.map Performed.call) History.initial = some history ∧
      history.driver = state.shared ∧
      (history.calls = order.map fun performed => ⟨performed.call.user, performed.reply⟩) ∧
      history.Conserved := by
  obtain ⟨order, served, view, performed, explains, corresponds⟩ :=
    WriteCall.implements_admissible.exists_order DriverCall.soundIdle_init executed admissible
  obtain ⟨history, written, driverEq, calls⟩ := History.exec_of_inOrder performed
  have allAdmissible : ∀ call ∈ order.map Performed.call, call.Admissible := by
    intro call member
    obtain ⟨one, inOrder, rfl⟩ := List.mem_map.mp member
    exact admissible _ _ (explains.accounts.invoked inOrder)
  obtain ⟨history', log, held, written', tracks⟩ := History.tracks_of_admissible _ allAdmissible
  rw [written] at written'
  cases written'
  have allIdle : served.stage = fun _ => .idle :=
    funext fun thread => corresponds.stage_eq_idle (quiet thread)
  rw [allIdle] at explains
  refine ⟨order, history, explains, written, ?_, calls, tracks.conserved⟩
  rw [driverEq, corresponds.shared_eq quiet]

/-- A write of one line of a single letter. -/
def letterLine (letter : UInt8) : WriteCall :=
  ⟨WriteOutcomes.success, [letter, newline], 0⟩

/-- Two threads write a line each; the second one takes the lock before the first one
has freed its buffer. -/
def twoWriters : List (Event Bool WriteCall Int) :=
  [.invoke false (letterLine 97), .invoke true (letterLine 98)] ++
    List.replicate 20 (.advance false) ++ List.replicate 3 (.advance true) ++
    [.advance false, .respond false 2] ++ List.replicate 18 (.advance true) ++ [.respond true 2]

theorem twoWriters_returns : ∃ state,
    exec (Interleaved.step WriteCall.routine) twoWriters (Interleaved.start aesdInitModule) =
      some state ∧
    ∀ thread, state.thread thread = none :=
  ⟨_, rfl, by decide +kernel⟩

theorem twoWriters_admissible (thread : Bool) (call : WriteCall)
    (member : .invoke thread call ∈ twoWriters) :
    call.Admissible ∧ IsLine newline call.user := by
  simp only [twoWriters, List.mem_append, List.mem_cons, List.mem_replicate,
    Event.invoke.injEq] at member
  simp only [reduceCtorEq, and_false, or_false, List.not_mem_nil] at member
  have isLine : ∀ letter, letter ≠ newline → IsLine newline (letterLine letter).user :=
    fun letter differs => ⟨[letter], by simpa using differs.symm, rfl⟩
  rcases member with ⟨_, rfl⟩ | ⟨_, rfl⟩
  · exact ⟨⟨rfl, rfl, rfl, by simp [letterLine]⟩, isLine 97 (by decide)⟩
  · exact ⟨⟨rfl, rfl, rfl, by simp [letterLine]⟩, isLine 98 (by decide)⟩

theorem concurrentWrites_conserve_two : ∃ state : Interleaved Bool AesdDev Stop Int,
    exec (Interleaved.step WriteCall.routine) twoWriters (Interleaved.start aesdInitModule) =
      some state ∧
    ∃ (order : List (Performed Bool WriteCall Int)) (history : History),
      Explains order twoWriters (fun _ => .idle) ∧
      exec History.write (order.map Performed.call) History.initial = some history ∧
      history.driver = state.shared ∧
      (history.calls = order.map fun performed => ⟨performed.call.user, performed.reply⟩) ∧
      history.Conserved := by
  obtain ⟨state, executed, quiet⟩ := twoWriters_returns
  exact ⟨state, executed, concurrentWrites_conserve executed
    (fun thread call member => (twoWriters_admissible thread call member).1) quiet⟩

/-- Lines of concurrent writers stay whole.  When each of the writes passes one line,
each of them stores it whole or fails, and the ring holds the last ten of the stored
lines in an order that fits every thread; nothing is pending. -/
theorem concurrentWrites_keep_lines
    (executed : exec (Interleaved.step WriteCall.routine) events
      (Interleaved.start aesdInitModule) = some state)
    (admissible : ∀ thread call, .invoke thread call ∈ events →
      call.Admissible ∧ IsLine newline call.user)
    (quiet : ∀ thread, state.thread thread = none) :
    ∃ order : List (Performed ι WriteCall Int), Explains order events (fun _ => .idle) ∧
      (∀ performed ∈ order, performed.reply = performed.call.user.length ∨ performed.reply < 0) ∧
      state.shared.held = (stored order).rtake 10 ∧ state.shared.pending = [] := by
  obtain ⟨order, served, view, performed, explains, corresponds⟩ :=
    WriteCall.implements_admissible.exists_order DriverCall.soundIdle_init executed
      fun thread call member => (admissible thread call member).1
  have allIdle : served.stage = fun _ => .idle :=
    funext fun thread => corresponds.stage_eq_idle (quiet thread)
  rw [allIdle] at explains
  obtain ⟨log, held, rep, _, pending, committed, wholly⟩ := lines_of_inOrder performed
    fun one member => admissible _ _ (explains.accounts.invoked member)
  rw [← corresponds.shared_eq quiet] at rep
  refine ⟨order, explains, wholly, ?_, rep.pending_eq_log pending⟩
  rw [rep.held_eq_log, Log.held, committed]

theorem concurrentWrites_keep_lines_two : ∃ state : Interleaved Bool AesdDev Stop Int,
    exec (Interleaved.step WriteCall.routine) twoWriters (Interleaved.start aesdInitModule) =
      some state ∧
    ∃ order : List (Performed Bool WriteCall Int), Explains order twoWriters (fun _ => .idle) ∧
      (∀ performed ∈ order, performed.reply = performed.call.user.length ∨ performed.reply < 0) ∧
      state.shared.held = (stored order).rtake 10 ∧ state.shared.pending = [] := by
  obtain ⟨state, executed, quiet⟩ := twoWriters_returns
  exact ⟨state, executed, concurrentWrites_keep_lines executed twoWriters_admissible quiet⟩

end Writers

end Aesd.Driver
