import Aesd.Driver.Retry

/-!
# Uninitialised memory

The blocks `aesd_write` allocates are overwritten before anything is read from
them, so that what the allocator left in them never reaches a reader.  There is
one exception: after a failing `krealloc` the pending entry has a size but no
block, and the next block it gets is filled from behind that size on only.

Two runs that differ in the contents of fresh memory are compared step by step:
as long as no `krealloc` fails for a pending entry with a block, the devices
are the same.
-/

namespace Aesd.Driver

open Aesd.Memory
open Aesd.Memory.Heap
open Aesd.Transition
open Aesd.Word

/-! ## Overwriting fresh blocks -/

/-- Every byte the pending entry counts was written. -/
def Pending.Written : Pending → Prop
  | held _ => True
  | lost size => size = 0

namespace AesdDev.Represents

variable {driver : AesdDev} {log : Log} {held leaked : List (Nat × Bytes)}
  {kbuf : Nat} {contents : Bytes}

/-- What `kbuf` contained when it was allocated does not matter. -/
theorem allocateKbuf_overwrites (rep : driver.Represents log held leaked) (user : Bytes)
    (uncopied : Nat) :
    ∃ kbuf driver' copied,
      (∀ fill, ∃ allocated, driver.kmalloc user.length (some fill) = (some kbuf, allocated) ∧
        allocated.copyFromUser kbuf user uncopied = .ok driver') ∧
      driver'.Represents log held ((kbuf, copied) :: leaked) ∧
      (uncopied = 0 → copied = user) := by
  let data := user.take (user.length - uncopied) ++
    List.replicate (user.length - (user.length - uncopied)) 0
  let driver' : AesdDev := { driver with heap := driver.heap.alloc data }
  have overwrites : ∀ fill, ∃ allocated,
      driver.kmalloc user.length (some fill) = (some driver.heap.next, allocated) ∧
      allocated.copyFromUser driver.heap.next user uncopied = .ok driver' := by
    intro fill
    refine ⟨_, rfl, ?_⟩
    have lengthEq : (uninitialised user.length fill).length = data.length := by
      simp [data]
    have stored := driver.heap.store_alloc [] lengthEq
    simp only [List.nil_append, List.length_nil] at stored
    simp only [copyFromUser, memcpy]
    rw [stored]
  obtain ⟨kbuf, _, _, copied, kmallocEq, copies, rep', complete, _⟩ :=
    rep.allocateKbuf user (fun _ => 0) uncopied
  obtain ⟨_, kmallocEq', copies'⟩ := overwrites fun _ => 0
  rw [kmallocEq] at kmallocEq'
  cases kmallocEq'
  rw [copies'] at copies
  cases copies
  exact ⟨driver.heap.next, driver', copied, overwrites, rep', complete⟩

/-- Nor does what the block of the next entry contained. -/
theorem startNextEntry_overwrites (rep : driver.Represents log held ((kbuf, contents) :: leaked))
    {cmdBytes nextBytes : Nat} (inside : cmdBytes + nextBytes = contents.length) :
    ∃ driver', ∀ fill, driver.startNextEntry kbuf cmdBytes nextBytes (some fill) =
      .ok (true, driver') := by
  obtain ⟨current, _, owns⟩ := rep.memory
  let rest := contents.drop cmdBytes
  refine ⟨{ driver with
    heap := driver.heap.alloc rest, currentEntry := ⟨some driver.heap.next, nextBytes⟩ }, ?_⟩
  intro fill
  let grown : AesdDev :=
    { driver with heap := driver.heap.alloc (uninitialised nextBytes fill) }
  have ownsGrown : Owns grown.heap ((driver.heap.next, uninitialised nextBytes fill) ::
      (held ++ current ++ (kbuf, contents) :: leaked)) := owns.alloc _
  have loaded : grown.load (some kbuf) cmdBytes nextBytes = .ok rest := by
    have read := load_of_owns ownsGrown (show (kbuf, contents) ∈ _ by simp) cmdBytes nextBytes
      (by omega)
    rwa [List.take_of_length_le (by simp; omega)] at read
  have lengthEq : (uninitialised nextBytes fill).length = rest.length := by
    simp [rest]
    omega
  have stored := driver.heap.store_alloc [] lengthEq
  simp only [List.nil_append, List.length_nil] at stored
  simp only [AesdDev.startNextEntry, kmalloc, bind, Except.bind]
  rw [loaded]
  simp only [memcpy]
  rw [stored]
  rfl

/-- Nor does what the first block of the pending entry contained. -/
theorem extendCurrentEntry_overwrites_of_empty
    (rep : driver.Represents log held ((kbuf, contents) :: leaked))
    (entryEq : driver.currentEntry = BufferEntry.zero) {more : Nat}
    (inside : more ≤ contents.length) :
    ∃ driver', ∀ fill, driver.extendCurrentEntry kbuf more (some fill) =
      .ok (true, driver') := by
  obtain ⟨current, _, owns⟩ := rep.memory
  let cmd := contents.take more
  refine ⟨{ driver with
    heap := driver.heap.alloc cmd, currentEntry := ⟨some driver.heap.next, 0 + more⟩ }, ?_⟩
  intro fill
  let grown : AesdDev :=
    { driver with heap := driver.heap.alloc (uninitialised (0 + more) fill) }
  have ownsGrown : Owns grown.heap ((driver.heap.next, uninitialised (0 + more) fill) ::
      (held ++ current ++ (kbuf, contents) :: leaked)) := owns.alloc _
  have loaded : grown.load (some kbuf) 0 more = .ok cmd :=
    load_of_owns ownsGrown (by simp) 0 more (by omega)
  have lengthEq : (uninitialised (0 + more) fill).length = cmd.length := by
    simp [cmd, inside]
  have stored := driver.heap.store_alloc [] lengthEq
  simp only [List.nil_append, List.length_nil] at stored
  have grows : driver.krealloc none (0 + more) (some fill) =
      .ok (some driver.heap.next, grown) := rfl
  simp only [AesdDev.extendCurrentEntry, entryEq, BufferEntry.zero, bind, Except.bind]
  rw [grows]
  simp only
  rw [loaded]
  simp only [memcpy, grown]
  rw [entryEq]
  simp only [BufferEntry.zero]
  rw [stored]
  rfl

/-- Nor does what `krealloc` added to it. -/
theorem extendCurrentEntry_overwrites_of_block {rest : List (Nat × Bytes)} {ptr : Nat}
    {bytes : Bytes} (owns : Owns driver.heap ((ptr, bytes) :: rest))
    (member : (kbuf, contents) ∈ rest)
    (entryEq : driver.currentEntry = ⟨some ptr, bytes.length⟩) {more : Nat}
    (inside : more ≤ contents.length) :
    ∃ driver', ∀ fill, driver.extendCurrentEntry kbuf more (some fill) =
      .ok (true, driver') := by
  let cmd := contents.take more
  have live : driver.heap.block ptr = some bytes := owns.block_of_mem List.mem_cons_self
  obtain ⟨heap', freed, _⟩ :=
    ((owns.alloc (bytes ++ cmd)).perm (List.Perm.swap _ _ _)).free
  refine ⟨{ driver with
    heap := heap', currentEntry := ⟨some driver.heap.next, bytes.length + more⟩ }, ?_⟩
  intro fill
  let tail := (uninitialised (bytes.length + more) fill).drop bytes.length
  have blockEq : bytes.take (bytes.length + more) ++ tail = bytes ++ tail := by simp
  obtain ⟨heap₁, freed₁, owns₁⟩ :=
    ((owns.alloc (bytes ++ tail)).perm (List.Perm.swap _ _ _)).free
  have lengthEq : tail.length = cmd.length := by
    simp [tail, cmd, inside]
  have stored := store_free_alloc live bytes lengthEq
  rw [freed₁, freed, Option.bind_some] at stored
  let shrunk : AesdDev := { driver with heap := heap₁ }
  have ownsShrunk : Owns shrunk.heap ((driver.heap.next, bytes ++ tail) :: rest) := owns₁
  have loaded : shrunk.load (some kbuf) 0 more = .ok cmd :=
    load_of_owns ownsShrunk (List.mem_cons_of_mem _ member) 0 more (by omega)
  have grows : driver.krealloc (some ptr) (bytes.length + more) (some fill) =
      .ok (some driver.heap.next, shrunk) := by
    simp only [krealloc, live, kfree, bind, Except.bind]
    rw [blockEq, freed₁]
    rfl
  simp only [AesdDev.extendCurrentEntry, entryEq, bind, Except.bind]
  rw [grows]
  simp only
  rw [loaded]
  simp only [memcpy, shrunk]
  rw [entryEq, stored]
  rfl

/-- Provided that every byte the pending entry counts was written. -/
theorem extendCurrentEntry_overwrites
    (rep : driver.Represents log held ((kbuf, contents) :: leaked)) (written : log.pending.Written)
    {more : Nat} (inside : more ≤ contents.length) :
    ∃ driver', ∀ fill, driver.extendCurrentEntry kbuf more (some fill) =
      .ok (true, driver') := by
  obtain ⟨current, is, owns⟩ := rep.memory
  cases pendingEq : log.pending with
  | lost size =>
      rw [pendingEq] at is written
      apply rep.extendCurrentEntry_overwrites_of_empty _ inside
      generalize driver.currentEntry = entry at is
      cases is
      exact congrArg (BufferEntry.mk none) written
  | held bytes =>
      rw [pendingEq] at is
      generalize entryEq : driver.currentEntry = entry at is
      cases is with
      | empty => exact rep.extendCurrentEntry_overwrites_of_empty entryEq inside
      | held ptr bytes _ =>
          have blockFirst : (held ++ [(ptr, bytes)] ++ (kbuf, contents) :: leaked).Perm
              ((ptr, bytes) :: (held ++ (kbuf, contents) :: leaked)) := by
            rw [List.append_assoc]
            exact List.perm_middle
          exact extendCurrentEntry_overwrites_of_block (owns.perm blockFirst) (by simp) entryEq
            inside

end AesdDev.Represents

/-! ## Writes that differ in fresh memory -/

/-- What the kernel decides is the same, except for what fresh memory contains. -/
structure WriteOutcomes.SameButFills (outcomes other : WriteOutcomes) : Prop where
  lock : outcomes.lock = other.lock
  kbuf : outcomes.kbuf.isSome = other.kbuf.isSome
  uncopied : outcomes.uncopied = other.uncopied
  krealloc : outcomes.krealloc.isSome = other.krealloc.isSome
  remainder : outcomes.remainder.isSome = other.remainder.isSome

namespace AesdDev.Represents

variable {driver : AesdDev} {log : Log} {held leaked : List (Nat × Bytes)}
  {kbuf : Nat} {outcomes other : WriteOutcomes}

theorem aesdWriteCopied_congr {user : Bytes}
    (rep : driver.Represents log held ((kbuf, user) :: leaked)) (written : log.pending.Written)
    (nonempty : user ≠ []) (same : outcomes.SameButFills other) :
    Driver.aesdWriteCopied outcomes kbuf user.length driver =
      Driver.aesdWriteCopied other kbuf user.length driver := by
  have userPositive : 0 < user.length := List.length_pos_iff.mpr nonempty
  have kreallocEq := same.krealloc
  have remainderEq := same.remainder
  unfold Driver.aesdWriteCopied
  rw [rep.load_kbuf]
  simp only [bind, Except.bind]
  cases granted : outcomes.krealloc with
  | none =>
      have granted' : other.krealloc = none := by simpa [granted] using kreallocEq.symm
      obtain ⟨_, _, fails, _⟩ := rep.extendCurrentEntry_fails
      simp only [granted', fails]
  | some fill =>
      obtain ⟨fill', granted'⟩ : ∃ fill', other.krealloc = some fill' := by
        rw [← Option.isSome_iff_exists, ← kreallocEq, granted]
        rfl
      simp only [granted']
      rcases not_mem_or_isLine_append newline user with absent | ⟨cmd, rest, isLine, rfl⟩
      · have noNewline : user.idxOf? newline = none := List.idxOf?_eq_none_iff.mpr absent
        obtain ⟨driver₁, grows⟩ := rep.extendCurrentEntry_overwrites written (Nat.le_refl _)
        simp only [noNewline, grows, Option.isSome_none, Bool.false_eq_true, if_false]
      · have newlineAt : (cmd ++ rest).idxOf? newline = some (cmd.length - 1) :=
          isLine.idxOf?_append rest
        have cmdPositive : 0 < cmd.length := List.length_pos_iff.mpr isLine.ne_nil
        have cmdEnd : cmd.length - 1 + 1 = cmd.length := by omega
        have restLength : (cmd ++ rest).length - cmd.length = rest.length := by simp
        have cmdInside : cmd.length ≤ (cmd ++ rest).length := by simp
        obtain ⟨driver₁, grows⟩ := rep.extendCurrentEntry_overwrites written cmdInside
        obtain ⟨_, extended, rep₁, _⟩ := rep.extendCurrentEntry cmdPositive cmdInside fill
        rw [grows fill] at extended
        cases extended
        rw [List.take_left] at rep₁
        obtain ⟨driver₂, held', pushed, rep₂, _⟩ := rep₁.pushCurrentEntry isLine
        simp only [newlineAt, cmdEnd, restLength, grows, pushed, Option.isSome_some, if_true]
        cases remainder : outcomes.remainder with
        | none =>
            have remainder' : other.remainder = none := by
              simpa [remainder] using remainderEq.symm
            simp only [remainder']
        | some restFill =>
            obtain ⟨restFill', remainder'⟩ : ∃ restFill', other.remainder = some restFill' := by
              rw [← Option.isSome_iff_exists, ← remainderEq, remainder]
              rfl
            obtain ⟨driver₃, starts⟩ :=
              rep₂.startNextEntry_overwrites (show cmd.length + rest.length = _ by simp)
            simp only [remainder', starts]

/-- As long as every byte the pending entry counts was written, a write does not
depend on what fresh memory contains. -/
theorem aesdWrite_congr (rep : driver.Represents log held leaked)
    (written : log.pending.Written) (same : outcomes.SameButFills other)
    (buf : Option Bytes) (fPos : Int) :
    Driver.aesdWrite outcomes buf fPos driver = Driver.aesdWrite other buf fPos driver := by
  cases buf with
  | none => rfl
  | some user =>
      by_cases refused : fPos < 0 ∨ user.length = 0
      · simp only [Driver.aesdWrite, if_pos refused]
      · have nonempty : user ≠ [] := by
          rintro rfl
          simp at refused
        have kbufEq := same.kbuf
        simp only [Driver.aesdWrite, if_neg refused, same.lock, ← same.uncopied, bind, Except.bind]
        cases lockTaken : driver.mutexLockInterruptible other.lock with
        | error stop => rfl
        | ok taken =>
            cases taken with
            | none => rfl
            | some locked =>
                have repLocked := (SameMemory.of_lock lockTaken).represents rep
                cases allocates : outcomes.kbuf with
                | none =>
                    have allocates' : other.kbuf = none := by
                      simpa [allocates] using kbufEq.symm
                    simp only [allocates', kmalloc]
                | some fill =>
                    obtain ⟨fill', allocates'⟩ : ∃ fill', other.kbuf = some fill' := by
                      rw [← Option.isSome_iff_exists, ← kbufEq, allocates]
                      rfl
                    obtain ⟨kbuf, driver₁, copied, overwrites, rep₁, complete⟩ :=
                      repLocked.allocateKbuf_overwrites user outcomes.uncopied
                    obtain ⟨allocated, kmallocEq, copies⟩ := overwrites fill
                    obtain ⟨allocated', kmallocEq', copies'⟩ := overwrites fill'
                    simp only [allocates', kmallocEq, kmallocEq', copies, copies']
                    by_cases whole : outcomes.uncopied = 0
                    · obtain rfl := complete whole
                      simp only [whole, ne_eq, not_true_eq_false, if_false]
                      exact rep₁.aesdWriteCopied_congr written nonempty same
                    · simp only [ne_eq, whole, not_false_eq_true, if_true]

end AesdDev.Represents

/-! ## Losing the pending bytes -/

/-- The call fails in `krealloc` while the pending entry has a block. -/
def DriverCall.LosesPending (driver : AesdDev) : DriverCall → Prop
  | .write outcomes buf fPos =>
      ReachesCopy outcomes buf fPos driver.bufferLock ∧ outcomes.uncopied = 0 ∧
        outcomes.krealloc = none ∧ driver.currentEntry.buffptr ≠ none
  | .read .. | .llseek .. | .ioctl .. => False

theorem Log.written_accept (log : Log) (fill : Nat → UInt8) (roomForRest : Bool) (user : Bytes) :
    (log.accept fill roomForRest user).2.pending.Written := by
  unfold Log.accept
  split
  · trivial
  · split <;> trivial

/-- A pending entry without a block counts no bytes, if every byte it counts was
written. -/
theorem CurrentEntry.size_eq_zero {entry : BufferEntry} {pending : Pending}
    {current : List (Nat × Bytes)} (is : CurrentEntry entry pending current)
    (noBlock : entry.buffptr = none) (written : pending.Written) : pending.size = 0 := by
  cases is with
  | empty => rfl
  | held ptr bytes _ => contradiction
  | lost size => exact written

namespace AesdDev

/-- The device is in step with a log every byte of which was written. -/
def Initialised (driver : AesdDev) : Prop :=
  ∃ log held leaked, driver.Represents log held leaked ∧ log.pending.Written

theorem initialised_init : aesdInitModule.Initialised :=
  ⟨Log.empty, [], [], represents_init, trivial⟩

/-- A write keeps the device initialised unless it loses the pending bytes. -/
theorem Initialised.aesdWrite {driver driver' : AesdDev} (initialised : driver.Initialised)
    {outcomes : WriteOutcomes} {buf : Option Bytes} {fPos retval : Int}
    (kept : ¬ (DriverCall.write outcomes buf fPos).LosesPending driver)
    (returned : Driver.aesdWrite outcomes buf fPos driver = .ok (retval, driver')) :
    driver'.Initialised := by
  obtain ⟨log, held, leaked, rep, written⟩ := initialised
  by_cases reaches : ReachesCopy outcomes buf fPos driver.bufferLock
  · obtain ⟨user, rfl, _⟩ := reaches.accepted
    obtain ⟨after, held', leaked', returned', rep', _⟩ := rep.aesdWrite_of_reachesCopy reaches
    rw [returned'] at returned
    cases returned
    refine ⟨_, held', leaked', rep', ?_⟩
    obtain ⟨fill, kbufEq⟩ := Option.isSome_iff_exists.mp reaches.kbuf
    by_cases whole : outcomes.uncopied = 0
    · cases granted : outcomes.krealloc with
      | none =>
          have noBlock : driver.currentEntry.buffptr = none := by
            by_contra block
            exact kept ⟨reaches, whole, granted, block⟩
          obtain ⟨_, is, _⟩ := rep.memory
          simp only [Log.write, kbufEq, whole, granted, ne_eq, not_true_eq_false, if_false]
          exact is.size_eq_zero noBlock written
      | some kreallocFill =>
          simpa [Log.write, kbufEq, whole, granted] using log.written_accept _ _ user
    · simpa [Log.write, kbufEq, whole] using written
  · obtain ⟨reply, replies⟩ := aesdWrite_of_not_reachesCopy reaches
    rw [replies driver rfl] at returned
    obtain ⟨_, _, unchanged⟩ := map_eq_ok_iff.mp returned
    cases unchanged
    exact ⟨log, held, leaked, rep, written⟩

theorem Initialised.perform {driver driver' : AesdDev} (initialised : driver.Initialised)
    {call : DriverCall} (kept : ¬ call.LosesPending driver)
    (returned : driver.perform call = .ok driver') : driver'.Initialised := by
  cases call with
  | write outcomes buf fPos =>
      obtain ⟨⟨retval, after⟩, wrote, rfl⟩ := map_eq_ok_iff.mp returned
      exact initialised.aesdWrite kept wrote
  | read outcomes bufIsNull count fPos =>
      obtain ⟨log, held, leaked, rep, written⟩ := initialised
      exact ⟨log, held, leaked, (sameMemory_of_perform (by simp) returned).represents rep, written⟩
  | llseek lock off whence fPos =>
      obtain ⟨log, held, leaked, rep, written⟩ := initialised
      exact ⟨log, held, leaked, (sameMemory_of_perform (by simp) returned).represents rep, written⟩
  | ioctl outcomes cmd arg fPos =>
      obtain ⟨log, held, leaked, rep, written⟩ := initialised
      exact ⟨log, held, leaked, (sameMemory_of_perform (by simp) returned).represents rep, written⟩

end AesdDev

/-! ## Readers -/

/-- What user space sees of a read. -/
structure Reply where
  retval : Int
  delivered : Bytes
  fPos : Int
  deriving DecidableEq

/-- A device and what its readers have seen so far. -/
structure Session where
  driver : AesdDev
  replies : List Reply

namespace Session

/-- A fresh device nobody has read. -/
def start : Session :=
  ⟨aesdInitModule, []⟩

/-- One call that returns; a read is recorded. -/
def call : Step DriverCall Session := fun call session =>
  match call with
  | .read outcomes bufIsNull count fPos =>
      match aesdRead outcomes bufIsNull count fPos session.driver with
      | .error _ => none
      | .ok result =>
          some ⟨result.driver,
            session.replies ++ [⟨result.retval, result.delivered, result.fPos⟩]⟩
  | .write .. | .llseek .. | .ioctl .. =>
      match session.driver.perform call with
      | .error _ => none
      | .ok driver => some ⟨driver, session.replies⟩

theorem perform_of_call {session session' : Session} {driverCall : DriverCall}
    (called : Session.call driverCall session = some session') :
    session.driver.perform driverCall = .ok session'.driver := by
  unfold Session.call at called
  cases driverCall with
  | read outcomes bufIsNull count fPos =>
      simp only at called
      split at called
      · contradiction
      · rename_i returned
        cases called
        simp only [AesdDev.perform, returned]
        rfl
  | _ =>
      simp only at called
      split at called
      · contradiction
      · rename_i returned
        cases called
        exact returned

end Session

/-- The calls differ at most in what fresh memory contains. -/
inductive DriverCall.SameButFills : DriverCall → DriverCall → Prop
  | refl (call : DriverCall) : SameButFills call call
  | write {outcomes other : WriteOutcomes} (same : outcomes.SameButFills other)
      (buf : Option Bytes) (fPos : Int) :
      SameButFills (.write outcomes buf fPos) (.write other buf fPos)

theorem Session.call_congr {session : Session} (initialised : session.driver.Initialised)
    {driverCall other : DriverCall} (same : driverCall.SameButFills other) :
    Session.call driverCall session = Session.call other session := by
  cases same with
  | refl => rfl
  | write same buf fPos =>
      obtain ⟨log, held, leaked, rep, written⟩ := initialised
      simp only [Session.call, AesdDev.perform, rep.aesdWrite_congr written same]

/-- In a run none of whose calls loses pending bytes, fresh memory may contain
anything: the run goes through all the same, and the readers see the same. -/
theorem aesdRead_ignores_fills {calls others : List DriverCall} {session : Session}
    (run : Run Session.call (fun session call => ¬ call.LosesPending session.driver) Session.start
      calls session)
    (same : List.Forall₂ DriverCall.SameButFills calls others) :
    ∃ session', exec Session.call others Session.start = some session' ∧
      session'.replies = session.replies := by
  refine ⟨session, ?_, rfl⟩
  refine run.exec_eq_some_of_forall₂ (fun session => session.driver.Initialised)
    AesdDev.initialised_init ?_ (fun initialised => Session.call_congr initialised) same
  intro middle call target initialised kept called
  exact initialised.perform kept (Session.perform_of_call called)

/-- Fresh memory contains the given byte, and nothing fails. -/
def WriteOutcomes.filled (byte : UInt8) : WriteOutcomes :=
  ⟨true, some fun _ => byte, 0, some fun _ => byte, some fun _ => byte⟩

theorem WriteOutcomes.filled_sameButFills (byte other : UInt8) :
    (filled byte).SameButFills (filled other) :=
  ⟨rfl, rfl, rfl, rfl, rfl⟩

/-- A write of `a\n` and a read of the whole device. -/
def writeAndRead (byte : UInt8) : List DriverCall :=
  [.write (WriteOutcomes.filled byte) (some [97, 10]) 0, .read ⟨true, 0⟩ false 8 0]

theorem aesdRead_ignores_fills_of_line :
    ∃ session session', exec Session.call (writeAndRead 0) Session.start = some session ∧
      exec Session.call (writeAndRead 1) Session.start = some session' ∧
      session'.replies = session.replies := by
  obtain ⟨session, executed⟩ :
      ∃ session, exec Session.call (writeAndRead 0) Session.start = some session := ⟨_, rfl⟩
  have kept : ∀ call ∈ writeAndRead 0, ∀ session : Session,
      ¬ call.LosesPending session.driver := by
    intro call member session
    simp only [writeAndRead, List.mem_cons, List.not_mem_nil, or_false] at member
    rcases member with rfl | rfl <;> simp [DriverCall.LosesPending, WriteOutcomes.filled]
  have same : List.Forall₂ DriverCall.SameButFills (writeAndRead 0) (writeAndRead 1) :=
    .cons (.write (WriteOutcomes.filled_sameButFills 0 1) _ _) (.cons (.refl _) .nil)
  obtain ⟨session', executed', repliesEq⟩ :=
    aesdRead_ignores_fills (run_of_forall executed kept) same
  exact ⟨session, session', executed, executed', repliesEq⟩

/-- A write of `ab`, one of `c` that fails in `krealloc`, one of `d\n`, and a read of
the whole device. -/
def writeOverLost (byte : UInt8) : List DriverCall :=
  [.write (WriteOutcomes.filled byte) (some [97, 98]) 0,
    .write { WriteOutcomes.filled byte with krealloc := none } (some [99]) 0,
    .write (WriteOutcomes.filled byte) (some [100, 10]) 0, .read ⟨true, 0⟩ false 8 0]

/-- The read delivers two bytes of fresh memory in front of `d\n`. -/
theorem aesdRead_delivers_fills :
    List.Forall₂ DriverCall.SameButFills (writeOverLost 0) (writeOverLost 1) ∧
      ∃ session session', exec Session.call (writeOverLost 0) Session.start = some session ∧
        exec Session.call (writeOverLost 1) Session.start = some session' ∧
        session.replies = [⟨4, [0, 0, 100, 10], 4⟩] ∧
        session'.replies = [⟨4, [1, 1, 100, 10], 4⟩] := by
  refine ⟨?_, _, _, rfl, rfl, by decide, by decide⟩
  have same := WriteOutcomes.filled_sameButFills 0 1
  refine .cons (.write same _ _) (.cons (.write ?_ _ _) (.cons (.write same _ _)
    (.cons (.refl _) .nil)))
  exact ⟨rfl, rfl, rfl, rfl, rfl⟩

end Aesd.Driver
