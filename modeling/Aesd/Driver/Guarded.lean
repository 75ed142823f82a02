import Aesd.Atomic.Section
import Aesd.Driver.Alone
import Aesd.Memory.Frame

/-!
# What `buffer_lock` protects

The lock protects everything of the device but single blocks of kernel memory: a
write has released it when it frees `kbuf`.  With such blocks as the resources of
single threads, every file operation is a guarded program.
-/

namespace Aesd.Driver

open Aesd.Atomic
open Aesd.Atomic.Discipline
open Aesd.Memory

/-- The discipline of the driver: the resources of a thread are blocks of kernel
memory. -/
def bufferLockRule : Discipline AesdDev Stop (Multiset (Nat × Bytes)) where
  locked driver := driver.bufferLock
  wait := .blocked
  joins rest frame whole :=
    Heap.Joins rest.heap frame whole.heap ∧ whole = { rest with heap := whole.heap }
  joins_zero {rest whole} := by
    rw [Heap.Joins.zero_iff]
    constructor
    · rintro ⟨heapEq, wholeEq⟩
      rw [wholeEq, heapEq]
    · rintro rfl
      exact ⟨rfl, rfl⟩
  joins_add {rest whole first second} := by
    rw [Heap.Joins.add_iff]
    constructor
    · rintro ⟨⟨heap, joinsFirst, joinsSecond⟩, wholeEq⟩
      exact ⟨{ rest with heap := heap }, ⟨joinsFirst, rfl⟩, joinsSecond, wholeEq⟩
    · rintro ⟨middle, ⟨joinsFirst, middleEq⟩, joinsSecond, wholeEq⟩
      refine ⟨⟨middle.heap, joinsFirst, joinsSecond⟩, ?_⟩
      rw [wholeEq, middleEq]
  locked_eq {rest frame whole} joins := by
    rw [joins.2]

/-- Blocks in a heap are blocks in the device. -/
theorem bufferLockRule_joins_iff {rest whole : AesdDev} {frame : Multiset (Nat × Bytes)} :
    bufferLockRule.joins rest frame whole ↔
      ∃ heap, Heap.Joins rest.heap frame heap ∧ whole = { rest with heap := heap } := by
  constructor
  · rintro ⟨joins, wholeEq⟩
    exact ⟨whole.heap, joins, wholeEq⟩
  · rintro ⟨heap, joins, rfl⟩
    exact ⟨joins, rfl⟩

/-! ## Accesses -/

namespace Routine

/-- A field apart from the memory. -/
theorem steady_look {α : Type} {field : AesdDev → α}
    (apart : ∀ driver heap, field { driver with heap := heap } = field driver) :
    bufferLockRule.Steady (look field) := by
  refine .observe ?_
  intro rest frame whole value joins queried
  obtain ⟨heap, _, rfl⟩ := bufferLockRule_joins_iff.mp joins
  rw [apart]
  exact queried

theorem steady_entryAt (index : Int) : bufferLockRule.Steady (entryAt index) := by
  refine .observe ?_
  intro rest frame whole value joins queried
  obtain ⟨heap, _, rfl⟩ := bufferLockRule_joins_iff.mp joins
  exact queried

theorem steady_load (ptr : Option Nat) (offset length : Nat) :
    bufferLockRule.Steady (load ptr offset length) := by
  refine .observe ?_
  intro rest frame whole value joins queried
  obtain ⟨heap, joinsHeap, rfl⟩ := bufferLockRule_joins_iff.mp joins
  unfold AesdDev.load at queried ⊢
  split at queried
  · contradiction
  · next bytes loaded =>
      cases queried
      obtain ⟨ptr, rfl, loaded⟩ := Option.bind_eq_some_iff.mp loaded
      simp only [Option.bind_some, joinsHeap.load loaded]

theorem steady_setCurrentEntry (entry : BufferEntry) :
    bufferLockRule.Steady (setCurrentEntry entry) := by
  refine .modify ?_ ?_
  · intro rest frame whole rest' joins updated
    obtain ⟨heap, joinsHeap, rfl⟩ := bufferLockRule_joins_iff.mp joins
    cases updated
    exact ⟨_, rfl, joinsHeap, rfl⟩
  · intro driver driver' updated
    cases updated
    rfl

theorem steady_modifyBuffer (update : CircularBuffer → Except Stop CircularBuffer) :
    bufferLockRule.Steady (modifyBuffer update) := by
  refine .modify ?_ ?_
  · intro rest frame whole rest' joins updated
    obtain ⟨heap, joinsHeap, rfl⟩ := bufferLockRule_joins_iff.mp joins
    obtain ⟨cBuffer, updatedBuffer, rfl⟩ := map_eq_ok_iff.mp updated
    exact ⟨_, by rw [updatedBuffer, map_ok], joinsHeap, rfl⟩
  · intro driver driver' updated
    obtain ⟨cBuffer, _, rfl⟩ := map_eq_ok_iff.mp updated
    rfl

theorem steady_memcpy (ptr offset : Nat) (bytes : Bytes) :
    bufferLockRule.Steady (memcpy ptr offset bytes) := by
  refine .modify ?_ ?_
  · intro rest frame whole rest' joins updated
    obtain ⟨heap, joinsHeap, rfl⟩ := bufferLockRule_joins_iff.mp joins
    unfold AesdDev.memcpy at updated ⊢
    split at updated
    · contradiction
    · next heap' stored =>
        cases updated
        obtain ⟨whole', storedWhole, joins'⟩ := joinsHeap.store stored
        exact ⟨{ rest with heap := whole' }, by simp only [storedWhole], joins', rfl⟩
  · intro driver driver' updated
    unfold AesdDev.memcpy at updated
    split at updated
    · contradiction
    · cases updated
      rfl

theorem steady_copyFromUser (ptr : Nat) (user : Bytes) (uncopied : Nat) :
    bufferLockRule.Steady (copyFromUser ptr user uncopied) :=
  steady_memcpy ptr 0 _

/-- Freeing a block, next to any others. -/
theorem kfree_local {rest whole rest' : AesdDev} {frame : Multiset (Nat × Bytes)}
    (joins : bufferLockRule.joins rest frame whole) {ptr : Option Nat}
    (freed : rest.kfree ptr = .ok rest') :
    ∃ whole', whole.kfree ptr = .ok whole' ∧ bufferLockRule.joins rest' frame whole' := by
  obtain ⟨heap, joinsHeap, rfl⟩ := bufferLockRule_joins_iff.mp joins
  cases ptr with
  | none =>
      cases freed
      exact ⟨_, rfl, joins⟩
  | some ptr =>
      unfold AesdDev.kfree at freed ⊢
      simp only at freed ⊢
      split at freed
      · contradiction
      · next heap' freedHeap =>
          cases freed
          obtain ⟨whole', freedWhole, joins'⟩ := joinsHeap.free freedHeap
          exact ⟨{ rest with heap := whole' }, by simp only [freedWhole], joins', rfl⟩

theorem kfree_keeps {driver driver' : AesdDev} {ptr : Option Nat}
    (freed : driver.kfree ptr = .ok driver') : driver'.bufferLock = driver.bufferLock := by
  unfold AesdDev.kfree at freed
  split at freed
  · cases freed
    rfl
  · split at freed
    · contradiction
    · cases freed
      rfl

theorem steady_kfree (ptr : Option Nat) : bufferLockRule.Steady (kfree ptr) :=
  .modify (fun joins freed => kfree_local joins freed) fun freed => kfree_keeps freed

/-- Both heaps hand out the same pointer. -/
theorem kmalloc_local {rest whole : AesdDev} {frame : Multiset (Nat × Bytes)}
    (joins : bufferLockRule.joins rest frame whole) (size : Nat)
    (outcome : Option (Nat → UInt8)) :
    (whole.kmalloc size outcome).1 = (rest.kmalloc size outcome).1 ∧
      bufferLockRule.joins (rest.kmalloc size outcome).2 frame (whole.kmalloc size outcome).2 := by
  obtain ⟨heap, joinsHeap, rfl⟩ := bufferLockRule_joins_iff.mp joins
  cases outcome with
  | none => exact ⟨rfl, joins⟩
  | some fill => exact ⟨congrArg some joinsHeap.next_eq, joinsHeap.alloc _, rfl⟩

theorem kmalloc_keeps (driver : AesdDev) (size : Nat) (outcome : Option (Nat → UInt8)) :
    (driver.kmalloc size outcome).2.bufferLock = driver.bufferLock := by
  cases outcome <;> rfl

theorem steady_kmalloc (size : Nat) (outcome : Option (Nat → UInt8)) :
    bufferLockRule.Steady (kmalloc size outcome) := by
  refine .perform ?_ ?_
  · intro rest frame whole value rest' joins performed
    obtain ⟨samePtr, joins'⟩ := kmalloc_local joins size outcome
    have allocated := Except.ok.inj performed
    rw [allocated] at samePtr joins'
    refine ⟨(whole.kmalloc size outcome).2, ?_, joins'⟩
    exact congrArg Except.ok (Prod.ext samePtr rfl)
  · intro driver value driver' performed
    have keeps := kmalloc_keeps driver size outcome
    rw [Except.ok.inj performed] at keeps
    exact keeps

/-- The old block is in both heaps, and the new one gets the same pointer. -/
theorem krealloc_local {rest whole rest' : AesdDev} {frame : Multiset (Nat × Bytes)}
    (joins : bufferLockRule.joins rest frame whole) {ptr value : Option Nat} {size : Nat}
    {outcome : Option (Nat → UInt8)} (grown : rest.krealloc ptr size outcome = .ok (value, rest')) :
    ∃ whole', whole.krealloc ptr size outcome = .ok (value, whole') ∧
      bufferLockRule.joins rest' frame whole' := by
  cases outcome with
  | none =>
      cases grown
      exact ⟨whole, rfl, joins⟩
  | some fill =>
      cases ptr with
      | none =>
          obtain ⟨samePtr, joins'⟩ := kmalloc_local joins size (some fill)
          cases grown
          refine ⟨(whole.kmalloc size (some fill)).2, ?_, joins'⟩
          exact congrArg Except.ok (Prod.ext samePtr rfl)
      | some old =>
          obtain ⟨heap, joinsHeap, rfl⟩ := bufferLockRule_joins_iff.mp joins
          simp only [AesdDev.krealloc] at grown ⊢
          split at grown
          · contradiction
          · next contents live =>
              obtain ⟨freed, frees, grown⟩ := bind_eq_ok_iff.mp grown
              cases grown
              let block := contents.take size ++ (uninitialised size fill).drop contents.length
              have joinsAlloc : bufferLockRule.joins { rest with heap := rest.heap.alloc block }
                  frame { rest with heap := heap.alloc block } := ⟨joinsHeap.alloc block, rfl⟩
              obtain ⟨whole', freesWhole, joins'⟩ := kfree_local joinsAlloc frees
              refine ⟨whole', ?_, joins'⟩
              simp only [joinsHeap.block_of_rest live]
              rw [← joinsHeap.next_eq]
              exact bind_eq_ok_iff.mpr ⟨whole', freesWhole, rfl⟩

theorem krealloc_keeps {driver driver' : AesdDev} {ptr value : Option Nat} {size : Nat}
    {outcome : Option (Nat → UInt8)}
    (grown : driver.krealloc ptr size outcome = .ok (value, driver')) :
    driver'.bufferLock = driver.bufferLock := by
  unfold AesdDev.krealloc at grown
  split at grown
  · cases grown
    rfl
  · cases grown
    rfl
  · split at grown
    · contradiction
    · obtain ⟨freed, frees, grown⟩ := bind_eq_ok_iff.mp grown
      cases grown
      have kept := kfree_keeps frees
      exact kept

theorem steady_krealloc (ptr : Option Nat) (size : Nat) (outcome : Option (Nat → UInt8)) :
    bufferLockRule.Steady (krealloc ptr size outcome) :=
  .perform (fun joins grown => krealloc_local joins grown) fun grown => krealloc_keeps grown

/-! ## The lock -/

/-- The section ends when the lock is released. -/
theorem inside_mutexUnlock {ρ : Type} {rest : Routine ρ}
    (concludes : bufferLockRule.Concludes rest) :
    bufferLockRule.Inside (mutexUnlock >>= fun _ => rest) := by
  refine .leave ?_ ?_ fun _ => concludes
  · intro driver frame whole value driver' joins performed
    obtain ⟨unlocked, unlocks, same⟩ := map_eq_ok_iff.mp performed
    cases same
    obtain ⟨heap, joinsHeap, rfl⟩ := bufferLockRule_joins_iff.mp joins
    unfold AesdDev.mutexUnlock at unlocks
    split at unlocks
    · next locked =>
        cases unlocks
        refine ⟨{ driver with bufferLock := false, heap := heap }, ?_, joinsHeap, rfl⟩
        simp only [AesdDev.mutexUnlock, if_pos locked, map_ok]
    · contradiction
  · intro driver value driver' performed
    obtain ⟨unlocked, unlocks, same⟩ := map_eq_ok_iff.mp performed
    cases same
    unfold AesdDev.mutexUnlock at unlocks
    split at unlocks
    · cases unlocks
      rfl
    · contradiction

/-- The section begins when the lock is obtained; an interrupted wait does nothing. -/
theorem guarded_mutexLockInterruptible {ρ : Type} (lock : Bool) {body : Routine ρ} {early : ρ}
    (inside : bufferLockRule.Inside body) :
    bufferLockRule.Guarded (do
      let obtained ← mutexLockInterruptible lock
      if obtained then body else pure early) := by
  cases lock with
  | false => exact .skip false (fun _ => rfl) (.done early)
  | true =>
      refine .enter ?_ ?_ ?_
      · intro driver frame whole value driver' joins performed
        obtain ⟨heap, joinsHeap, rfl⟩ := bufferLockRule_joins_iff.mp joins
        obtain ⟨locked, locks, same⟩ := map_eq_ok_iff.mp performed
        unfold AesdDev.mutexLockInterruptible at locks
        simp only [if_true] at locks
        split at locks
        · contradiction
        · next unlocked =>
            cases locks
            cases same
            refine ⟨{ driver with bufferLock := true, heap := heap }, ?_, joinsHeap, rfl⟩
            simp only [AesdDev.mutexLockInterruptible, if_true, if_neg unlocked, map_ok]
            rfl
      · intro driver
        change if driver.bufferLock = true then _ else _
        split
        · next locked =>
            simp only [AesdDev.mutexLockInterruptible, if_true, if_pos locked, map_error]
            rfl
        · next unlocked =>
            refine ⟨true, { driver with bufferLock := true }, ?_, rfl⟩
            simp only [AesdDev.mutexLockInterruptible, if_true, if_neg unlocked, map_ok]
            rfl
      · intro obtained
        cases obtained with
        | true => exact inside
        | false => exact .done early

/-! ## Loops -/

theorem steady_findEntryLoop (charOffset remaining : Nat) : ∀ i cumulativeSize,
    bufferLockRule.Steady (findEntryLoop charOffset remaining i cumulativeSize) := by
  induction remaining with
  | zero => exact fun _ _ => .done none
  | succ remaining ih =>
      intro i cumulativeSize
      refine (steady_look fun _ _ => rfl).bind fun outOffs => ?_
      refine (steady_entryAt _).bind fun entry => ?_
      dsimp only
      split
      · exact .done _
      · exact ih _ _

theorem steady_find (charOffset : Nat) :
    bufferLockRule.Steady (aesdCircularBufferFindEntryOffsetForFpos charOffset) := by
  refine (steady_look fun _ _ => rfl).bind fun inOffs => ?_
  refine (steady_look fun _ _ => rfl).bind fun outOffs => ?_
  refine (steady_look fun _ _ => rfl).bind fun full => ?_
  split
  · exact .done none
  · exact steady_findEntryLoop charOffset _ 0 0

theorem steady_dropOldest : bufferLockRule.Steady dropOldest := by
  refine (steady_look fun _ _ => rfl).bind fun full => ?_
  split
  · refine (steady_look fun _ _ => rfl).bind fun inOffs => ?_
    refine (steady_entryAt _).bind fun oldest => ?_
    refine (steady_look fun _ _ => rfl).bind fun outOffs => ?_
    exact (steady_modifyBuffer _).bind fun _ => .done _
  · exact .done none

theorem steady_noteFull : bufferLockRule.Steady noteFull := by
  refine (steady_look fun _ _ => rfl).bind fun inOffs => ?_
  refine (steady_look fun _ _ => rfl).bind fun outOffs => ?_
  split
  · refine (steady_entryAt _).bind fun following => ?_
    split
    · exact steady_modifyBuffer _
    · exact .done ()
  · exact .done ()

theorem steady_addEntry (addEntry : BufferEntry) :
    bufferLockRule.Steady (aesdCircularBufferAddEntry addEntry) := by
  refine steady_dropOldest.bind fun retPtr => ?_
  refine Steady.bind ?_ fun _ => steady_noteFull.bind fun _ => .done retPtr
  refine (steady_look fun _ _ => rfl).bind fun inOffs => ?_
  exact (steady_modifyBuffer _).bind fun _ => steady_modifyBuffer _

theorem steady_totalSizeLoop (remaining : Nat) : ∀ index total,
    bufferLockRule.Steady (totalSizeLoop remaining index total) := by
  induction remaining with
  | zero => exact fun _ total => .done total
  | succ remaining ih => exact fun index total => (steady_entryAt _).bind fun entry => ih _ _

theorem steady_llseekTarget (fPos off whence : Int) :
    bufferLockRule.Steady (llseekTarget fPos off whence) := by
  unfold llseekTarget
  split
  · exact .done _
  · exact .done _
  · exact (steady_totalSizeLoop _ 0 0).bind fun total => .done _
  · exact .done none

theorem steady_seekSum (iterations : Nat) : bufferLockRule.Steady (seekSum iterations) := by
  induction iterations with
  | zero => exact .done 0
  | succ iterations ih =>
      refine ih.bind fun retval => ?_
      refine (steady_look fun _ _ => rfl).bind fun outOffs => ?_
      exact (steady_entryAt _).bind fun entry => .done _

theorem steady_ioctlSeek (seekCmd : AesdSeekto) (fPos : Int) :
    bufferLockRule.Steady (ioctlSeek seekCmd fPos) := by
  refine (steady_look fun _ _ => rfl).bind fun full => ?_
  refine (steady_look fun _ _ => rfl).bind fun inOffs => ?_
  refine (steady_look fun _ _ => rfl).bind fun outOffs => ?_
  dsimp only
  generalize (if full = true then aesdcharMaxWriteOperationsSupported
    else (((inOffs : Int) - outOffs) % 256).toNat) = numEntries
  split
  · exact .done _
  · refine (steady_seekSum _).bind fun retval => ?_
    refine (steady_look fun _ _ => rfl).bind fun outOffs => ?_
    refine (steady_entryAt _).bind fun entry => ?_
    split <;> exact .done _

/-! ## The file operations -/

theorem guarded_aesdRead (outcomes : ReadOutcomes) (bufIsNull : Bool) (count : Nat) (fPos : Int) :
    bufferLockRule.Guarded (aesdRead outcomes bufIsNull count fPos) := by
  unfold aesdRead
  split
  · exact .done _
  · refine guarded_mutexLockInterruptible outcomes.lock ?_
    refine (steady_find _).bind_inside fun found => ?_
    cases found with
    | none => exact inside_mutexUnlock (concludes_done _)
    | some location =>
        refine (steady_entryAt _).bind_inside fun entry => ?_
        refine (steady_load _ _ _).bind_inside fun bytes => ?_
        refine inside_mutexUnlock ?_
        split <;> exact concludes_done _

theorem guarded_aesdLlseek (lock : Bool) (off whence fPos : Int) :
    bufferLockRule.Guarded (aesdLlseek lock off whence fPos) := by
  refine guarded_mutexLockInterruptible lock ?_
  refine (steady_llseekTarget fPos off whence).bind_inside fun target => ?_
  cases target with
  | none => exact .done _
  | some newpos =>
      dsimp only
      split
      · exact .done _
      · exact inside_mutexUnlock (concludes_done _)

theorem guarded_aesdIoctl (outcomes : IoctlOutcomes) (cmd : Nat) (arg : AesdSeekto) (fPos : Int) :
    bufferLockRule.Guarded (aesdIoctl outcomes cmd arg fPos) := by
  unfold aesdIoctl
  split
  · exact .done _
  · split
    · exact .done _
    · refine guarded_mutexLockInterruptible outcomes.lock ?_
      refine (steady_ioctlSeek arg fPos).bind_inside fun reply => ?_
      exact inside_mutexUnlock (concludes_done _)

/-- After the lock has been released, a write frees its own block. -/
theorem concludes_freeKbuf (kbuf : Option Nat) (retval : Int) :
    bufferLockRule.Concludes (freeKbuf kbuf retval) := by
  intro driver reply final finished
  rw [freeKbuf_alone] at finished
  obtain ⟨freed, frees, same⟩ := bind_eq_ok_iff.mp finished
  cases same
  cases kbuf with
  | none =>
      cases frees
      refine ⟨0, bufferLockRule.joins_zero.mpr rfl, .act () 0 ?_ (.done retval)⟩
      exact fun joins => ⟨_, rfl, joins⟩
  | some ptr =>
      unfold AesdDev.kfree at frees
      simp only at frees
      split at frees
      · contradiction
      · next heap freedHeap =>
          cases frees
          obtain ⟨contents, joins⟩ := Heap.Joins.of_free freedHeap
          refine ⟨{(ptr, contents)}, ⟨joins, rfl⟩, .act () 0 ?_ (.done retval)⟩
          intro rest whole joins
          obtain ⟨heap, joinsHeap, rfl⟩ := bufferLockRule_joins_iff.mp joins
          refine ⟨rest, ?_, bufferLockRule.joins_zero.mpr rfl⟩
          simp only [AesdDev.kfree, joinsHeap.free_frame, map_ok]

theorem inside_freeMutex (kbuf : Option Nat) (retval : Int) :
    bufferLockRule.Inside (freeMutex kbuf retval) :=
  inside_mutexUnlock (concludes_freeKbuf kbuf retval)

theorem steady_extendCurrentEntry (kbuf currentCmdBytes : Nat) (outcome : Option (Nat → UInt8)) :
    bufferLockRule.Steady (extendCurrentEntry kbuf currentCmdBytes outcome) := by
  refine (steady_look fun _ _ => rfl).bind fun entry => ?_
  refine (steady_krealloc _ _ _).bind fun ptr => ?_
  cases ptr with
  | none => exact (steady_setCurrentEntry _).bind fun _ => .done false
  | some ptr =>
      refine (steady_setCurrentEntry _).bind fun _ => ?_
      refine (steady_load _ _ _).bind fun cmd => ?_
      refine (steady_memcpy _ _ _).bind fun _ => ?_
      exact (steady_setCurrentEntry _).bind fun _ => .done true

theorem steady_pushCurrentEntry : bufferLockRule.Steady pushCurrentEntry := by
  refine (steady_look fun _ _ => rfl).bind fun entry => ?_
  refine (steady_addEntry entry).bind fun overwrittenBuffptr => ?_
  exact (steady_kfree _).bind fun _ => steady_setCurrentEntry _

theorem steady_startNextEntry (kbuf currentCmdBytes nextCmdBytes : Nat)
    (outcome : Option (Nat → UInt8)) :
    bufferLockRule.Steady (startNextEntry kbuf currentCmdBytes nextCmdBytes outcome) := by
  refine (steady_kmalloc _ _).bind fun ptr => ?_
  cases ptr with
  | none => exact .done false
  | some ptr =>
      refine (steady_setCurrentEntry _).bind fun _ => ?_
      refine (steady_load _ _ _).bind fun rest => ?_
      refine (steady_memcpy _ _ _).bind fun _ => ?_
      exact (steady_setCurrentEntry _).bind fun _ => .done true

theorem inside_acceptCmd (outcomes : WriteOutcomes) (kbuf count currentCmdBytes : Nat)
    (newlineFound : Bool) :
    bufferLockRule.Inside (acceptCmd outcomes kbuf count currentCmdBytes newlineFound) := by
  refine (steady_extendCurrentEntry _ _ _).bind_inside fun extended => ?_
  split
  · split
    · refine steady_pushCurrentEntry.bind_inside fun _ => ?_
      split
      · refine (steady_startNextEntry _ _ _ _).bind_inside fun started => ?_
        split <;> exact inside_freeMutex _ _
      · exact inside_freeMutex _ _
    · exact inside_freeMutex _ _
  · exact inside_freeMutex _ _

theorem guarded_aesdWrite (outcomes : WriteOutcomes) (buf : Option Bytes) (fPos : Int) :
    bufferLockRule.Guarded (aesdWrite outcomes buf fPos) := by
  cases buf with
  | none => exact .done _
  | some user =>
      unfold aesdWrite
      simp only
      split
      · exact .done _
      · refine guarded_mutexLockInterruptible outcomes.lock ?_
        refine (steady_kmalloc _ _).bind_inside fun kbuf => ?_
        cases kbuf with
        | none => exact inside_freeMutex _ _
        | some kbuf =>
            refine (steady_copyFromUser _ _ _).bind_inside fun _ => ?_
            split
            · exact Steady.inside ((steady_kfree _).bind fun _ => .done _)
            · refine (steady_load _ _ _).bind_inside fun text => ?_
              split <;> exact inside_acceptCmd _ _ _ _ _

end Routine

end Aesd.Driver
