import Aesd.Driver.Log
import Aesd.Transition.Core

/-!
# The driver implements the command log

`AesdDev.Represents` relates a device to a command log: the ring holds the last
ten committed commands, every held entry and the pending one own a block of
kernel memory with exactly their bytes, and no other block is live except the
ones the driver has leaked.  The simulation theorem says that `aesd_write` does
to the device what `Log.write` does to the log, for every outcome of every
kernel primitive.
-/

namespace Aesd.Driver

open Aesd.Memory
open Aesd.Memory.Heap
open Aesd.Ring
open Aesd.Transition
open Aesd.Word

/-! ## Observations -/

namespace AesdDev

/-- The bytes an entry refers to. -/
def bytesOf (driver : AesdDev) (entry : BufferEntry) : Bytes :=
  match entry.buffptr with
  | none => []
  | some ptr => ((driver.heap.block ptr).getD []).take entry.size

/-- The commands held in the ring, oldest first. -/
def held (driver : AesdDev) : List Bytes :=
  driver.cBuffer.heldEntries.map driver.bytesOf

/-- What sequential reads from the start deliver. -/
def content (driver : AesdDev) : Bytes :=
  driver.held.flatten

/-- The bytes of the pending command. -/
def pending (driver : AesdDev) : Bytes :=
  driver.bytesOf driver.currentEntry

end AesdDev

/-! ## The representation relation -/

/-- The entry that owns a block. -/
def entryOfCell (cell : Nat × Bytes) : BufferEntry :=
  ⟨some cell.1, cell.2.length⟩

@[simp]
theorem entryOfCell_buffptr (cell : Nat × Bytes) :
    (entryOfCell cell).buffptr = some cell.1 :=
  rfl

@[simp]
theorem entryOfCell_size (cell : Nat × Bytes) :
    (entryOfCell cell).size = cell.2.length :=
  rfl

/-- What `current_entry` contains for a pending command, and the block it
owns. -/
inductive CurrentEntry : BufferEntry → Pending → List (Nat × Bytes) → Prop
  | empty : CurrentEntry BufferEntry.zero (.held []) []
  | held (ptr : Nat) (bytes : Bytes) (nonempty : bytes ≠ []) :
      CurrentEntry ⟨some ptr, bytes.length⟩ (.held bytes) [(ptr, bytes)]
  | lost (size : Nat) : CurrentEntry ⟨none, size⟩ (.lost size) []

theorem CurrentEntry.size_eq {entry : BufferEntry} {pending : Pending}
    {current : List (Nat × Bytes)} (is : CurrentEntry entry pending current) :
    entry.size = pending.size := by
  cases is <;> rfl

/-- An entry without bytes owns no block. -/
theorem CurrentEntry.cells_eq_nil {entry : BufferEntry} {current : List (Nat × Bytes)}
    (is : CurrentEntry entry (.held []) current) : current = [] := by
  cases is with
  | empty => rfl
  | held ptr bytes nonempty => exact absurd rfl nonempty

/-- The device after the writes recorded in `log`: `held` and `leaked` list the
blocks of the held entries and those nothing refers to any more. -/
structure AesdDev.Represents (driver : AesdDev) (log : Log)
    (held leaked : List (Nat × Bytes)) : Prop where
  ring : driver.cBuffer.Represents (held.map entryOfCell) log.committed.length
  held_eq : held.map Prod.snd = log.held
  memory : ∃ current, CurrentEntry driver.currentEntry log.pending current ∧
    Owns driver.heap (held ++ current ++ leaked)

theorem AesdDev.represents_init : aesdInitModule.Represents Log.empty [] [] where
  ring := CircularBuffer.Represents.init
  held_eq := rfl
  memory := ⟨[], CurrentEntry.empty, Owns.empty⟩

namespace AesdDev.Represents

variable {driver : AesdDev} {log : Log} {held leaked : List (Nat × Bytes)}

/-- The bytes of a held entry are those of its block. -/
theorem bytesOf_cell (rep : driver.Represents log held leaked) {cell : Nat × Bytes}
    (member : cell ∈ held) : driver.bytesOf (entryOfCell cell) = cell.2 := by
  obtain ⟨current, _, owns⟩ := rep.memory
  have live : driver.heap.block cell.1 = some cell.2 :=
    owns.block_of_mem (by simp [member])
  simp [bytesOf, entryOfCell, live]

/-- The device holds the last ten committed commands. -/
theorem held_eq_log (rep : driver.Represents log held leaked) :
    driver.held = log.held := by
  rw [AesdDev.held, rep.ring.heldEntries_eq, ← rep.held_eq, List.map_map]
  apply List.map_congr_left
  intro cell member
  exact rep.bytesOf_cell member

/-- The pending entry holds the pending command unless its block was lost. -/
theorem pending_eq_log (rep : driver.Represents log held leaked) {bytes : Bytes}
    (notLost : log.pending = .held bytes) : driver.pending = bytes := by
  obtain ⟨current, is, owns⟩ := rep.memory
  rw [notLost] at is
  unfold pending
  generalize driver.currentEntry = entry at is
  cases is with
  | empty => rfl
  | held ptr bytes nonempty =>
      have live : driver.heap.block ptr = some bytes := owns.block_of_mem (by simp)
      simp [bytesOf, live]

end AesdDev.Represents

/-! ## Kernel primitives on owned blocks -/

namespace AesdDev

variable {driver : AesdDev} {cells rest : List (Nat × Bytes)} {ptr : Nat}
  {contents : Bytes}

theorem load_of_owns (owns : Owns driver.heap cells) (member : (ptr, contents) ∈ cells)
    (offset length : Nat) (inside : offset + length ≤ contents.length) :
    driver.load (some ptr) offset length = .ok ((contents.drop offset).take length) := by
  simp [load, owns.load member inside]

theorem memcpy_of_owns (owns : Owns driver.heap ((ptr, contents) :: rest)) (offset : Nat)
    (bytes : Bytes) (inside : offset + bytes.length ≤ contents.length) :
    ∃ heap', driver.memcpy ptr offset bytes = .ok { driver with heap := heap' } ∧
      Owns heap'
        ((ptr, contents.take offset ++ bytes ++ contents.drop (offset + bytes.length)) ::
          rest) := by
  obtain ⟨heap', stored, owns'⟩ := owns.store inside
  exact ⟨heap', by simp [memcpy, stored], owns'⟩

/-- The exit through `free_mutex` gives up the lock and `kbuf`. -/
theorem freeMutex_of_owns (locked : driver.bufferLock = true)
    (owns : Owns driver.heap ((ptr, contents) :: rest)) (retval : Int) :
    ∃ heap', driver.freeMutex (some ptr) retval =
        .ok (retval, { driver with bufferLock := false, heap := heap' }) ∧
      Owns heap' rest := by
  obtain ⟨heap', freed, owns'⟩ := owns.free
  refine ⟨heap', ?_, owns'⟩
  simp [freeMutex, freeKbuf, mutexUnlock, kfree, locked, freed, bind, Except.bind,
    pure, Except.pure]

theorem copyFromUser_of_owns {user : Bytes}
    (owns : Owns driver.heap ((ptr, contents) :: rest))
    (lengthEq : contents.length = user.length) (uncopied : Nat) :
    ∃ heap' copied, driver.copyFromUser ptr user uncopied =
        .ok { driver with heap := heap' } ∧
      Owns heap' ((ptr, copied) :: rest) ∧ (uncopied = 0 → copied = user) := by
  obtain ⟨heap', stored, owns'⟩ := memcpy_of_owns owns 0
    (user.take (user.length - uncopied) ++
      List.replicate (user.length - (user.length - uncopied)) 0) (by simp; omega)
  refine ⟨heap', _, stored, owns', ?_⟩
  rintro rfl
  simp [lengthEq]

theorem take_uninitialised (size more : Nat) (fill : Nat → UInt8) :
    (uninitialised (size + more) fill).take size = uninitialised size fill := by
  simp [uninitialised, ← List.map_take, List.take_range]

/-- Enlarging the current entry hands out a block that starts with the bytes of
the pending command. -/
theorem krealloc_of_owns {entry : BufferEntry} {pending : Pending}
    {current : List (Nat × Bytes)} (is : CurrentEntry entry pending current)
    (owns : Owns driver.heap (current ++ rest)) (more : Nat) (fill : Nat → UInt8) :
    ∃ ptr heap' block,
      driver.krealloc entry.buffptr (entry.size + more) (some fill) =
        .ok (some ptr, { driver with heap := heap' }) ∧
      Owns heap' ((ptr, block) :: rest) ∧ block.length = entry.size + more ∧
      block.take entry.size = pending.recover fill := by
  cases is with
  | empty =>
      exact ⟨driver.heap.next, _, uninitialised (0 + more) fill, rfl, owns.alloc _,
        by simp [BufferEntry.zero], rfl⟩
  | held ptr bytes nonempty =>
      have live : driver.heap.block ptr = some bytes := owns.block_of_mem (by simp)
      let block := bytes.take (bytes.length + more) ++
        (uninitialised (bytes.length + more) fill).drop bytes.length
      have grown : Owns (driver.heap.alloc block)
          ((ptr, bytes) :: (driver.heap.next, block) :: rest) :=
        (owns.alloc block).perm (List.Perm.swap _ _ _)
      obtain ⟨heap', freed, owns'⟩ := grown.free
      refine ⟨driver.heap.next, heap', block, ?_, owns', by simp [block], ?_⟩
      · simp only [block] at freed
        simp only [krealloc, live, kfree, freed, bind, Except.bind, pure, Except.pure]
      · simp [block, Pending.recover]
  | lost size =>
      exact ⟨driver.heap.next, _, uninitialised (size + more) fill, rfl, owns.alloc _,
        by simp, take_uninitialised size more fill⟩

end AesdDev

/-! ## The simulation -/

namespace AesdDev.Represents

variable {driver : AesdDev} {log : Log} {held leaked : List (Nat × Bytes)}
  {kbuf ptr : Nat} {contents : Bytes}

/-- The exit through `free_mutex`: `kbuf` is the first block nothing refers
to. -/
theorem freeMutex (rep : driver.Represents log held ((kbuf, contents) :: leaked))
    (locked : driver.bufferLock = true) (retval : Int) :
    ∃ driver', driver.freeMutex (some kbuf) retval = .ok (retval, driver') ∧
      driver'.Represents log held leaked ∧ driver'.bufferLock = false := by
  obtain ⟨current, is, owns⟩ := rep.memory
  have kbufFirst : Owns driver.heap ((kbuf, contents) :: (held ++ current ++ leaked)) :=
    owns.perm List.perm_middle
  obtain ⟨heap', freed, owns'⟩ := freeMutex_of_owns locked kbufFirst retval
  exact ⟨_, freed, ⟨rep.ring, rep.held_eq, current, is, owns'⟩, rfl⟩

/-- Successfully enlarging the current entry extends the pending command. -/
theorem extendCurrentEntry (rep : driver.Represents log held ((kbuf, contents) :: leaked))
    {more : Nat} (positive : 0 < more) (inside : more ≤ contents.length)
    (fill : Nat → UInt8) :
    ∃ driver', driver.extendCurrentEntry kbuf more (some fill) = .ok (true, driver') ∧
      driver'.Represents (log.append fill (contents.take more)) held
        ((kbuf, contents) :: leaked) ∧
      driver'.bufferLock = driver.bufferLock := by
  obtain ⟨current, is, owns⟩ := rep.memory
  have currentFirst :
      Owns driver.heap (current ++ (held ++ (kbuf, contents) :: leaked)) := by
    refine owns.perm ?_
    rw [List.append_assoc]
    exact List.perm_append_comm_assoc _ _ _
  obtain ⟨ptr, heap₁, block, grown, owns₁, blockLength, blockTake⟩ :=
    krealloc_of_owns is currentFirst more fill
  have cmdLength : (contents.take more).length = more := by
    simp
    omega
  let grownDriver : AesdDev := { driver with heap := heap₁ }
  have ownsGrown : Owns grownDriver.heap ((ptr, block) :: (held ++ (kbuf, contents) :: leaked)) :=
    owns₁
  have loaded : grownDriver.load (some kbuf) 0 more = .ok (contents.take more) := by
    have read := load_of_owns ownsGrown (show (kbuf, contents) ∈ _ by simp) 0 more (by omega)
    simpa using read
  obtain ⟨heap₂, copied, owns₂⟩ :=
    memcpy_of_owns ownsGrown driver.currentEntry.size (contents.take more) (by omega)
  let entry := log.pending.recover fill ++ contents.take more
  have blockEq : block.take driver.currentEntry.size ++ contents.take more ++
      block.drop (driver.currentEntry.size + (contents.take more).length) = entry := by
    rw [blockTake, List.drop_of_length_le (by omega), List.append_nil]
  rw [blockEq] at owns₂
  have entryLength : entry.length = driver.currentEntry.size + more := by
    rw [is.size_eq]
    simp [entry, cmdLength]
  refine ⟨{ driver with heap := heap₂, currentEntry := ⟨some ptr, entry.length⟩ }, ?_,
    ⟨rep.ring, rep.held_eq, [(ptr, entry)], ?_, ?_⟩, rfl⟩
  · simp only [AesdDev.extendCurrentEntry, grown, bind, Except.bind]
    rw [loaded]
    simp only
    rw [copied, entryLength]
    rfl
  · refine CurrentEntry.held ptr entry ?_
    intro entryNil
    rw [entryNil] at entryLength
    simp at entryLength
    omega
  · refine owns₂.perm ?_
    simp only [List.append_assoc, List.singleton_append]
    exact List.perm_middle.symm

/-- Pushing the finished command commits it; the block of an overwritten entry
is freed. -/
theorem pushCurrentEntry {fill : Nat → UInt8} {cmd : Bytes}
    (isLine : IsLine newline cmd) (rep : driver.Represents (log.append fill cmd) held leaked) :
    ∃ driver' held', driver.pushCurrentEntry = .ok driver' ∧
      driver'.Represents (log.commit fill cmd isLine []) held' leaked ∧
      driver'.bufferLock = driver.bufferLock := by
  obtain ⟨current, is, owns⟩ := rep.memory
  have ring := rep.ring
  have heldEq := rep.held_eq
  let entry := log.pending.recover fill ++ cmd
  have nonempty : entry ≠ [] := by simp [entry, isLine.ne_nil]
  obtain ⟨ptr, entryEq, rfl⟩ : ∃ ptr, driver.currentEntry = entryOfCell (ptr, entry) ∧
      current = [(ptr, entry)] := by
    change CurrentEntry driver.currentEntry (.held entry) current at is
    generalize driver.currentEntry = currentEntry at is
    generalize entry = bytes at is nonempty
    cases is with
    | empty => exact absurd rfl nonempty
    | held ptr => exact ⟨ptr, rfl, rfl⟩
  have sizeNe : (entryOfCell (ptr, entry)).size ≠ 0 := by simpa using nonempty
  rw [show (log.append fill cmd).committed = log.committed from rfl] at ring
  by_cases room : log.committed.length < 10
  · obtain ⟨cBuffer', added, ring'⟩ := ring.addEntry_of_room room sizeNe
    refine ⟨{ driver with cBuffer := cBuffer', currentEntry := BufferEntry.zero },
      held ++ [(ptr, entry)], ?_, ⟨?_, ?_, [], CurrentEntry.empty, ?_⟩, rfl⟩
    · simp [AesdDev.pushCurrentEntry, entryEq, added, kfree, bind, Except.bind, pure,
        Except.pure]
    · simpa [Log.commit] using ring'
    · rw [List.map_append, heldEq]
      simp only [Log.held, Log.commit]
      rw [← push_rtake, push_of_room (by rw [length_rtake]; omega)]
      rfl
    · simpa using owns
  · obtain ⟨oldest, others, cBuffer', splitEq, added, ring'⟩ :=
      ring.addEntry_of_full (by omega) sizeNe
    cases held with
    | nil => simp at splitEq
    | cons evicted held =>
        simp only [List.map_cons, List.cons.injEq] at splitEq
        obtain ⟨rfl, rfl⟩ := splitEq
        obtain ⟨heap', freed, owns'⟩ := owns.free
        refine ⟨{ driver with
            cBuffer := cBuffer', heap := heap', currentEntry := BufferEntry.zero },
          held ++ [(ptr, entry)], ?_, ⟨?_, ?_, [], CurrentEntry.empty, ?_⟩, rfl⟩
        · simp [AesdDev.pushCurrentEntry, entryEq, added, kfree, freed, bind, Except.bind,
            pure, Except.pure]
        · simpa [Log.commit] using ring'
        · have lengthEq : (log.committed.rtake 10).length = 10 := by
            rw [length_rtake]
            omega
          have heldEq' : evicted.2 :: held.map Prod.snd = log.committed.rtake 10 := heldEq
          simp only [Log.held, Log.commit]
          rw [← push_rtake, push_of_full lengthEq, ← heldEq']
          simp [entry]
        · simpa using owns'

/-- When enlarging the current entry fails, its block is leaked. -/
theorem extendCurrentEntry_fails
    (rep : driver.Represents log held ((kbuf, contents) :: leaked)) :
    ∃ driver' leaked',
      (∀ more, driver.extendCurrentEntry kbuf more none = .ok (false, driver')) ∧
      driver'.Represents log.lose held ((kbuf, contents) :: leaked') ∧
      driver'.bufferLock = driver.bufferLock := by
  obtain ⟨current, is, owns⟩ := rep.memory
  refine ⟨{ driver with currentEntry := ⟨none, driver.currentEntry.size⟩ },
    current ++ leaked, fun _ => rfl, ⟨rep.ring, rep.held_eq, [], ?_, ?_⟩, rfl⟩
  · rw [is.size_eq]
    exact CurrentEntry.lost log.pending.size
  · refine owns.perm ?_
    rw [List.append_nil, List.append_assoc]
    exact List.Perm.append_left held List.perm_middle

/-- Starting the next entry after a commit that left nothing pending. -/
theorem startNextEntry {cmdBytes nextBytes : Nat} {rest : Bytes}
    (rep : driver.Represents log held ((kbuf, contents) :: leaked))
    (nothing : log.pending = .held []) (restEq : contents.drop cmdBytes = rest)
    (lengthEq : rest.length = nextBytes) (nonempty : rest ≠ []) (fill : Nat → UInt8) :
    ∃ driver', driver.startNextEntry kbuf cmdBytes nextBytes (some fill) =
        .ok (true, driver') ∧
      driver'.Represents (log.withPending (.held rest)) held ((kbuf, contents) :: leaked) ∧
      driver'.bufferLock = driver.bufferLock := by
  obtain ⟨current, is, owns⟩ := rep.memory
  rw [nothing] at is
  obtain rfl := is.cells_eq_nil
  let block := uninitialised nextBytes fill
  let grown : AesdDev := { driver with heap := driver.heap.alloc block }
  have ownsGrown : Owns grown.heap
      ((driver.heap.next, block) :: (held ++ [] ++ (kbuf, contents) :: leaked)) :=
    owns.alloc block
  have restLength : nextBytes = contents.length - cmdBytes := by
    rw [← lengthEq, ← restEq, List.length_drop]
  have restPositive : 0 < nextBytes := by
    rw [← lengthEq]
    exact List.length_pos_iff.mpr nonempty
  have loaded : grown.load (some kbuf) cmdBytes nextBytes = .ok rest := by
    have read := load_of_owns ownsGrown (show (kbuf, contents) ∈ _ by simp) cmdBytes nextBytes
      (by omega)
    rwa [restEq, List.take_of_length_le (by omega)] at read
  obtain ⟨heap', stored, owns'⟩ := memcpy_of_owns ownsGrown 0 rest (by simp [block, lengthEq])
  have blockEq : block.take 0 ++ rest ++ block.drop (0 + rest.length) = rest := by
    rw [List.drop_of_length_le (by simp [block, lengthEq])]
    simp
  rw [blockEq] at owns'
  refine ⟨{ driver with heap := heap', currentEntry := ⟨some driver.heap.next, nextBytes⟩ },
    ?_, ⟨rep.ring, rep.held_eq, [(driver.heap.next, rest)], ?_, ?_⟩, rfl⟩
  · simp only [AesdDev.startNextEntry, kmalloc, bind, Except.bind]
    rw [loaded]
    simp only
    rw [stored]
    rfl
  · rw [← lengthEq]
    exact CurrentEntry.held driver.heap.next rest nonempty
  · refine owns'.perm ?_
    simp only [List.append_nil, List.append_assoc, List.singleton_append]
    exact List.perm_middle.symm

theorem load_kbuf (rep : driver.Represents log held ((kbuf, contents) :: leaked)) :
    driver.load (some kbuf) 0 contents.length = .ok contents := by
  obtain ⟨current, _, owns⟩ := rep.memory
  have read := load_of_owns owns (show (kbuf, contents) ∈ _ by simp) 0 contents.length (by omega)
  simpa using read

/-- The part of `aesd_write` behind the copy, with `user` in `kbuf`. -/
theorem aesdWriteCopied {user : Bytes}
    (rep : driver.Represents log held ((kbuf, user) :: leaked))
    (locked : driver.bufferLock = true) (nonempty : user ≠ []) {outcomes : WriteOutcomes}
    {fill : Nat → UInt8} (granted : outcomes.krealloc = some fill) :
    ∃ driver' held', Driver.aesdWriteCopied outcomes kbuf user.length driver =
        .ok ((log.accept fill outcomes.remainder.isSome user).1, driver') ∧
      driver'.Represents (log.accept fill outcomes.remainder.isSome user).2 held' leaked ∧
      driver'.bufferLock = false := by
  have userPositive : 0 < user.length := List.length_pos_iff.mpr nonempty
  have loaded : driver.load (some kbuf) 0 user.length = .ok user := rep.load_kbuf
  unfold Driver.aesdWriteCopied
  rw [loaded]
  simp only [bind, Except.bind, granted]
  rcases not_mem_or_isLine_append newline user with absent | ⟨cmd, rest, isLine, rfl⟩
  · have noNewline : user.idxOf? newline = none := List.idxOf?_eq_none_iff.mpr absent
    obtain ⟨driver₁, extended, rep₁, locked₁⟩ :=
      rep.extendCurrentEntry userPositive (Nat.le_refl _) fill
    rw [List.take_length] at rep₁
    obtain ⟨driver₂, exited, rep₂, unlocked⟩ :=
      rep₁.freeMutex (locked₁.trans locked) (user.length : Int)
    rw [Log.accept_of_not_mem log fill _ absent]
    refine ⟨driver₂, held, ?_, rep₂, unlocked⟩
    simp only [noNewline, extended, Option.isSome_none, Bool.false_eq_true, if_false]
    exact exited
  · have newlineAt : (cmd ++ rest).idxOf? newline = some (cmd.length - 1) :=
      isLine.idxOf?_append rest
    have cmdPositive : 0 < cmd.length := List.length_pos_iff.mpr isLine.ne_nil
    have cmdEnd : cmd.length - 1 + 1 = cmd.length := by omega
    have restLength : (cmd ++ rest).length - cmd.length = rest.length := by simp
    obtain ⟨driver₁, extended, rep₁, locked₁⟩ :=
      rep.extendCurrentEntry cmdPositive (by simp) fill
    rw [List.take_left] at rep₁
    obtain ⟨driver₂, held', pushed, rep₂, locked₂⟩ := rep₁.pushCurrentEntry isLine
    simp only [newlineAt, cmdEnd, restLength, extended, pushed, Option.isSome_some, if_true]
    rw [Log.accept_of_isLine log fill _ isLine rest]
    have lockedBoth : driver₂.bufferLock = true := by rw [locked₂, locked₁, locked]
    by_cases nothingLeft : rest = []
    · obtain ⟨driver₃, exited, rep₃, unlocked⟩ := rep₂.freeMutex lockedBoth (cmd.length : Int)
      refine ⟨driver₃, held', ?_, ?_, unlocked⟩
      · simpa [nothingLeft] using exited
      · simpa [nothingLeft] using rep₃
    · have restPositive : rest.length > 0 := List.length_pos_iff.mpr nothingLeft
      simp only [restPositive, if_true, nothingLeft, false_or]
      cases remainder : outcomes.remainder with
      | none =>
          obtain ⟨driver₃, exited, rep₃, unlocked⟩ :=
            rep₂.freeMutex lockedBoth (cmd.length : Int)
          exact ⟨driver₃, held', by simpa [AesdDev.startNextEntry, kmalloc] using exited,
            by simpa using rep₃, unlocked⟩
      | some restFill =>
          obtain ⟨driver₃, started, rep₃, locked₃⟩ := rep₂.startNextEntry rfl
            (List.drop_left) rfl nothingLeft restFill
          obtain ⟨driver₄, exited, rep₄, unlocked⟩ :=
            rep₃.freeMutex (locked₃.trans lockedBoth) ((cmd ++ rest).length : Int)
          refine ⟨driver₄, held', ?_, rep₄, unlocked⟩
          rw [started]
          simpa using exited

/-- The same when enlarging the current entry fails. -/
theorem aesdWriteCopied_fails {user : Bytes}
    (rep : driver.Represents log held ((kbuf, user) :: leaked))
    (locked : driver.bufferLock = true) {outcomes : WriteOutcomes}
    (refused : outcomes.krealloc = none) :
    ∃ driver' leaked', Driver.aesdWriteCopied outcomes kbuf user.length driver =
        .ok (-enomem, driver') ∧
      driver'.Represents log.lose held leaked' ∧ driver'.bufferLock = false := by
  have loaded : driver.load (some kbuf) 0 user.length = .ok user := rep.load_kbuf
  unfold Driver.aesdWriteCopied
  rw [loaded]
  simp only [bind, Except.bind, refused]
  obtain ⟨driver₁, leaked', extended, rep₁, locked₁⟩ := rep.extendCurrentEntry_fails
  obtain ⟨driver₂, exited, rep₂, unlocked⟩ := rep₁.freeMutex (locked₁.trans locked) (-enomem)
  refine ⟨driver₂, leaked', ?_, rep₂, unlocked⟩
  rw [extended]
  exact exited

/-- Allocating `kbuf` and copying the user buffer into it. -/
theorem allocateKbuf (rep : driver.Represents log held leaked) (user : Bytes) (fill : Nat → UInt8)
    (uncopied : Nat) :
    ∃ kbuf allocated driver' copied,
      driver.kmalloc user.length (some fill) = (some kbuf, allocated) ∧
      allocated.copyFromUser kbuf user uncopied = .ok driver' ∧
      driver'.Represents log held ((kbuf, copied) :: leaked) ∧
      (uncopied = 0 → copied = user) ∧ driver'.bufferLock = driver.bufferLock := by
  obtain ⟨current, is, owns⟩ := rep.memory
  let allocated : AesdDev :=
    { driver with heap := driver.heap.alloc (uninitialised user.length fill) }
  have ownsAllocated : Owns allocated.heap
      ((driver.heap.next, uninitialised user.length fill) :: (held ++ current ++ leaked)) :=
    owns.alloc _
  obtain ⟨heap', copied, copiedEq, owns', complete⟩ :=
    copyFromUser_of_owns ownsAllocated (length_uninitialised _ _) uncopied
  exact ⟨driver.heap.next, allocated, _, copied, rfl, copiedEq,
    ⟨rep.ring, rep.held_eq, current, is, owns'.perm List.perm_middle.symm⟩, complete, rfl⟩

/-- The exit through `free_kbuf` keeps the lock as it is. -/
theorem freeKbuf (rep : driver.Represents log held ((ptr, contents) :: leaked))
    (retval : Int) :
    ∃ driver', driver.freeKbuf (some ptr) retval = .ok (retval, driver') ∧
      driver'.Represents log held leaked ∧ driver'.bufferLock = driver.bufferLock := by
  obtain ⟨current, is, owns⟩ := rep.memory
  obtain ⟨heap', freed, owns'⟩ := (owns.perm List.perm_middle).free
  refine ⟨{ driver with heap := heap' }, ?_, ⟨rep.ring, rep.held_eq, current, is, owns'⟩, rfl⟩
  simp [AesdDev.freeKbuf, kfree, freed, bind, Except.bind, pure, Except.pure]

/-- Once it has obtained the lock, `aesd_write` does to the device what the log
does to itself.  The lock stays held when the copy from user space fails, and
only a failing `krealloc` leaks a block. -/
theorem aesdWrite (rep : driver.Represents log held leaked)
    (unlocked : driver.bufferLock = false) {outcomes : WriteOutcomes}
    (obtained : outcomes.lock = true) {user : Bytes} (nonempty : user ≠ []) {fPos : Int}
    (nonneg : 0 ≤ fPos) :
    ∃ driver' held' leaked',
      Driver.aesdWrite outcomes (some user) fPos driver =
        .ok ((log.write outcomes user).1, driver') ∧
      driver'.Represents (log.write outcomes user).2 held' leaked' ∧
      driver'.bufferLock = (outcomes.kbuf.isSome && decide (outcomes.uncopied ≠ 0)) ∧
      (outcomes.krealloc.isSome → leaked' = leaked) := by
  have accepts : ¬ (fPos < 0 ∨ user.length = 0) := by
    have positive := List.length_pos_iff.mpr nonempty
    omega
  let locked : AesdDev := { driver with bufferLock := true }
  have repLocked : locked.Represents log held leaked := ⟨rep.ring, rep.held_eq, rep.memory⟩
  have lockTaken : driver.mutexLockInterruptible outcomes.lock = .ok (some locked) := by
    simp [mutexLockInterruptible, obtained, unlocked, locked]
  simp only [Driver.aesdWrite, if_neg accepts, lockTaken, bind, Except.bind]
  cases allocates : outcomes.kbuf with
  | none =>
      refine ⟨driver, held, leaked, ?_, ?_, by simp [unlocked], fun _ => rfl⟩
      · simp [kmalloc, AesdDev.freeMutex, AesdDev.freeKbuf, mutexUnlock, kfree, locked,
          Log.write, allocates, bind, Except.bind, pure, Except.pure]
        rw [← unlocked]
      · simpa [Log.write, allocates] using rep
  | some fill =>
      obtain ⟨kbuf, allocated, driver₁, copied, kmallocEq, copiedEq, rep₁, complete, locked₁⟩ :=
        repLocked.allocateKbuf user fill outcomes.uncopied
      simp only [kmallocEq, copiedEq]
      by_cases whole : outcomes.uncopied = 0
      · obtain rfl := complete whole
        cases granted : outcomes.krealloc with
        | none =>
            obtain ⟨driver₂, leaked', written, rep₂, unlocked₂⟩ :=
              rep₁.aesdWriteCopied_fails locked₁ granted
            refine ⟨driver₂, held, leaked', ?_, ?_, by simp [whole, unlocked₂], by simp⟩
            · simpa [whole, Log.write, allocates, granted] using written
            · simpa [whole, Log.write, allocates, granted] using rep₂
        | some kreallocFill =>
            obtain ⟨driver₂, held', written, rep₂, unlocked₂⟩ :=
              rep₁.aesdWriteCopied locked₁ nonempty granted
            refine ⟨driver₂, held', leaked, ?_, ?_, by simp [whole, unlocked₂], fun _ => rfl⟩
            · simpa [whole, Log.write, allocates, granted] using written
            · simpa [whole, Log.write, allocates, granted] using rep₂
      · obtain ⟨driver₂, exited, rep₂, locked₂⟩ := rep₁.freeKbuf (-efault)
        refine ⟨driver₂, held, leaked, ?_, ?_, ?_, fun _ => rfl⟩
        · simpa [whole, Log.write, allocates] using exited
        · simpa [whole, Log.write, allocates] using rep₂
        · simpa [whole] using locked₂.trans locked₁

end AesdDev.Represents

/-! ## Runs of writes -/

/-- The arguments of `aesd_write` and what the kernel decides during the call. -/
structure WriteCall where
  outcomes : WriteOutcomes
  user : Bytes
  fPos : Int

/-- Nothing fails, and fresh memory is zero. -/
def WriteOutcomes.success : WriteOutcomes :=
  ⟨true, some fun _ => 0, 0, some fun _ => 0, some fun _ => 0⟩

/-- One write; undefined when the call does not return. -/
def AesdDev.write : Step WriteCall AesdDev := fun call driver =>
  match aesdWrite call.outcomes (some call.user) call.fPos driver with
  | .error _ => none
  | .ok (_, driver) => some driver

/-- Whatever the outcomes, a write keeps the device in step with some log; only a
failing `krealloc` leaks a block. -/
theorem AesdDev.Represents.write {driver driver' : AesdDev} {log : Log}
    {held leaked : List (Nat × Bytes)} (rep : driver.Represents log held leaked)
    {call : WriteCall} (written : AesdDev.write call driver = some driver') :
    ∃ log' held' leaked', driver'.Represents log' held' leaked' ∧
      (call.outcomes.krealloc.isSome → leaked' = leaked) := by
  by_cases refused : call.fPos < 0 ∨ call.user.length = 0
  · simp only [AesdDev.write, Driver.aesdWrite, if_pos refused] at written
    cases written
    exact ⟨log, held, leaked, rep, fun _ => rfl⟩
  · cases obtained : call.outcomes.lock with
    | false =>
        simp only [AesdDev.write, Driver.aesdWrite, if_neg refused, obtained,
          mutexLockInterruptible, Bool.false_eq_true, if_false, bind, Except.bind, pure,
          Except.pure] at written
        cases written
        exact ⟨log, held, leaked, rep, fun _ => rfl⟩
    | true =>
        cases locked : driver.bufferLock with
        | true =>
            simp only [AesdDev.write, Driver.aesdWrite, if_neg refused, obtained,
              mutexLockInterruptible, locked, if_true, bind, Except.bind] at written
            contradiction
        | false =>
            have nonempty : call.user ≠ [] := by
              rintro empty
              simp [empty] at refused
            obtain ⟨driver'', held', leaked', returned, rep', _, noLeak⟩ :=
              rep.aesdWrite locked obtained nonempty (show 0 ≤ call.fPos by omega)
            simp only [AesdDev.write, returned] at written
            cases written
            exact ⟨_, held', leaked', rep', noLeak⟩

/-- Every device reached by writes is in step with some log. -/
theorem AesdDev.represents_of_reachable {driver : AesdDev}
    (reachable : Reachable AesdDev.write aesdInitModule driver) :
    ∃ log held leaked, driver.Represents log held leaked := by
  refine reachable.invariant (fun driver => ∃ log held leaked, driver.Represents log held leaked)
    ⟨Log.empty, [], [], AesdDev.represents_init⟩ ?_
  rintro middle call target ⟨log, held, leaked, rep⟩ written
  obtain ⟨log', held', leaked', rep', _⟩ := rep.write written
  exact ⟨log', held', leaked', rep'⟩

/-- The device after the given buffers were written without any failure. -/
def AesdDev.ofWrites (users : List Bytes) : AesdDev :=
  (exec AesdDev.write (users.map fun user => ⟨WriteOutcomes.success, user, 0⟩)
    aesdInitModule).getD aesdInitModule

theorem AesdDev.reachable_ofWrites (users : List Bytes) :
    Reachable AesdDev.write aesdInitModule (AesdDev.ofWrites users) := by
  unfold AesdDev.ofWrites
  cases executed : exec AesdDev.write
      (users.map fun user => ⟨WriteOutcomes.success, user, 0⟩) aesdInitModule with
  | none => exact ⟨[], rfl⟩
  | some driver => exact ⟨_, executed⟩

end Aesd.Driver
