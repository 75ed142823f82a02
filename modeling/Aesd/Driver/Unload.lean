import Aesd.Driver.Chunking

/-!
# Unloading the module

`aesd_cleanup_module` frees the blocks of all ten slots, and after writes without
failures these are exactly the blocks of the held entries.  It does not look at
the pending entry, whose block is leaked unless the last write has left nothing
pending.
-/

namespace Aesd.Driver

open Aesd.Memory
open Aesd.Memory.Heap
open Aesd.Ring
open Aesd.Transition
open Aesd.Word

/-! ## The cleanup loop -/

/-- The block of an entry, if it has one. -/
def AesdDev.cellsOf (driver : AesdDev) (entry : BufferEntry) : List (Nat × Bytes) :=
  entry.buffptr.toList.map fun ptr => (ptr, (driver.heap.block ptr).getD [])

namespace AesdDev

/-- The loop frees the blocks of the slots it visits. -/
theorem freeSlots (blocks : BufferEntry → List (Nat × Bytes))
    (pointers : ∀ entry, (blocks entry).map Prod.fst = entry.buffptr.toList) (indices : List Nat)
    (bounded : ∀ index ∈ indices, index < 10) (rest : List (Nat × Bytes)) (driver : AesdDev)
    (owns : Owns driver.heap
      ((indices.flatMap fun index => blocks (driver.cBuffer.entry (Fin.ofNat 10 index))) ++ rest)) :
    ∃ heap', indices.foldlM (fun (driver : AesdDev) (index : Nat) => do
        let entry ← driver.cBuffer.entryAt index
        if entry.buffptr ≠ none then
          driver.kfree entry.buffptr
        else
          pure driver) driver = Except.ok { driver with heap := heap' } ∧ Owns heap' rest := by
  induction indices generalizing driver with
  | nil => exact ⟨driver.heap, rfl, owns⟩
  | cons index indices ih =>
      have inside := bounded index List.mem_cons_self
      have later : ∀ other ∈ indices, other < 10 := fun other member =>
        bounded other (List.mem_cons_of_mem _ member)
      rw [List.flatMap_cons, List.append_assoc] at owns
      have blockEq := pointers (driver.cBuffer.entry (Fin.ofNat 10 index))
      simp only [List.foldlM_cons, driver.cBuffer.entryAt_of_lt index inside, bind, Except.bind]
      cases ptrEq : (driver.cBuffer.entry (Fin.ofNat 10 index)).buffptr with
      | none =>
          rw [ptrEq] at blockEq
          rw [List.map_eq_nil_iff.mp blockEq, List.nil_append] at owns
          obtain ⟨heap', freed, owns'⟩ := ih later driver owns
          exact ⟨heap', freed, owns'⟩
      | some ptr =>
          rw [ptrEq] at blockEq
          obtain ⟨⟨_, contents⟩, cellEq, rfl⟩ := List.map_eq_singleton_iff.mp blockEq
          rw [cellEq, List.singleton_append] at owns
          obtain ⟨heap₁, freed₁, owns₁⟩ := owns.free
          obtain ⟨heap', freed, owns'⟩ := ih later { driver with heap := heap₁ } owns₁
          refine ⟨heap', ?_, owns'⟩
          simp only [ne_eq, reduceCtorEq, not_false_eq_true, if_true, kfree, freed₁]
          exact freed

theorem map_fst_cellsOf (driver : AesdDev) (entry : BufferEntry) :
    (driver.cellsOf entry).map Prod.fst = entry.buffptr.toList := by
  simp [cellsOf, Function.comp_def]

namespace Represents

variable {driver : AesdDev} {log : Log} {held leaked : List (Nat × Bytes)}

/-- The slots own the blocks of the held entries. -/
theorem slots_perm (rep : driver.Represents log held leaked) :
    ((List.range 10).flatMap fun index =>
      driver.cellsOf (driver.cBuffer.entry (Fin.ofNat 10 index))).Perm held := by
  have slotsEq : ((List.range 10).flatMap fun index =>
      driver.cellsOf (driver.cBuffer.entry (Fin.ofNat 10 index))) =
        (List.ofFn driver.cBuffer.entry).flatMap driver.cellsOf := rfl
  have heldEq : (held.map entryOfCell).flatMap driver.cellsOf = held := by
    obtain ⟨current, _, owns⟩ := rep.memory
    rw [List.flatMap_map]
    have each : ∀ cell ∈ held, driver.cellsOf (entryOfCell cell) = [cell] := by
      intro cell member
      have live : driver.heap.block cell.1 = some cell.2 := owns.block_of_mem (by simp [member])
      simp [cellsOf, live]
    rw [List.flatMap_congr each, List.flatMap_singleton']
  rw [slotsEq]
  refine (rep.ring.window.ofFn_perm.flatMap_right _).trans (List.Perm.of_eq ?_)
  rw [List.flatMap_append, heldEq, List.append_right_eq_self, List.flatMap_eq_nil_iff]
  intro entry member
  obtain ⟨index, inside, rfl⟩ := List.mem_map.mp member
  have bounds := List.mem_range'_1.mp inside
  have above : (held.map entryOfCell).length ≤ index := bounds.1
  have below : index < 10 := by
    have upper : index < (held.map entryOfCell).length + (10 - (held.map entryOfCell).length) :=
      bounds.2
    have short : (held.map entryOfCell).length ≤ 10 := rep.ring.window.length_le
    omega
  rw [rep.ring.entry_unset above below]
  rfl

/-- Unloading frees the blocks of the held entries, and no others. -/
theorem aesdCleanupModule (rep : driver.Represents log held leaked) :
    ∃ current heap', CurrentEntry driver.currentEntry log.pending current ∧
      Driver.aesdCleanupModule driver = .ok { driver with heap := heap' } ∧
      Owns heap' (current ++ leaked) := by
  obtain ⟨current, is, owns⟩ := rep.memory
  have slotsFirst := owns.perm ((List.append_assoc held current leaked ▸
    (rep.slots_perm.symm.append_right (current ++ leaked))))
  obtain ⟨heap', freed, owns'⟩ := freeSlots driver.cellsOf driver.map_fst_cellsOf (List.range 10)
    (by simp) (current ++ leaked) driver slotsFirst
  exact ⟨current, heap', is, freed, owns'⟩

end Represents

end AesdDev

/-! ## What is left -/

/-- Unloading the module frees every block that is still live, and each of them once:
freeing a block that is not live would be a bad access. -/
def AesdDev.UnloadsClean (driver : AesdDev) : Prop :=
  ∃ driver', aesdCleanupModule driver = .ok driver' ∧ ∀ ptr, driver'.heap.block ptr = none

theorem AesdDev.Represents.unloadsClean_iff {driver : AesdDev} {log : Log}
    {held : List (Nat × Bytes)} (rep : driver.Represents log held []) {bytes : Bytes}
    (pending : log.pending = .held bytes) : driver.UnloadsClean ↔ bytes = [] := by
  obtain ⟨current, heap', is, cleaned, owns⟩ := rep.aesdCleanupModule
  rw [List.append_nil] at owns
  rw [pending] at is
  have cleanIff : driver.UnloadsClean ↔ current = [] := by
    constructor
    · rintro ⟨driver', cleaned', nothing⟩
      rw [cleaned] at cleaned'
      cases cleaned'
      by_contra left
      obtain ⟨cell, rest, rfl⟩ := List.exists_cons_of_ne_nil left
      have live : heap'.block cell.1 = some cell.2 := owns.block_of_mem (by simp)
      rw [nothing] at live
      contradiction
    · rintro rfl
      refine ⟨_, cleaned, ?_⟩
      intro ptr
      rw [Option.eq_none_iff_forall_ne_some]
      intro contents live
      exact absurd ((owns.block_eq_some_iff ptr contents).mp live) List.not_mem_nil
  rw [cleanIff]
  constructor
  · rintro rfl
    generalize driver.currentEntry = entry at is
    cases is
    rfl
  · rintro rfl
    exact is.cells_eq_nil

/-! ## When nothing is left -/

/-- A write during which every allocation and the copy succeed. -/
structure WriteCall.Allocates (call : WriteCall) : Prop where
  kbuf : call.outcomes.kbuf.isSome = true
  uncopied : call.outcomes.uncopied = 0
  krealloc : call.outcomes.krealloc.isSome = true
  remainder : call.outcomes.remainder.isSome = true

/-- The call obtains the lock and is not refused. -/
def WriteCall.accepted (call : WriteCall) : Bool :=
  call.outcomes.lock && decide (0 ≤ call.fPos) && decide (call.user ≠ [])

/-- The last write that was accepted, if there was one, wrote a single line: its first
newline is its last byte. -/
def EndsWithLine (calls : List WriteCall) : Prop :=
  ∀ call ∈ (calls.filter WriteCall.accepted).getLast?, IsLine newline call.user

/-- A write that is not accepted changes nothing. -/
theorem AesdDev.write_of_not_accepted {call : WriteCall} (refused : call.accepted = false)
    (driver : AesdDev) : AesdDev.write call driver = some driver := by
  by_cases invalid : call.fPos < 0 ∨ call.user.length = 0
  · simp only [AesdDev.write, aesdWrite, if_pos invalid]
  · have interrupted : call.outcomes.lock = false := by
      simp only [WriteCall.accepted, Bool.and_eq_false_iff, decide_eq_false_iff_not] at refused
      rcases refused with (interrupted | negative) | empty
      · exact interrupted
      · omega
      · simp only [ne_eq, not_not] at empty
        simp [empty] at invalid
    simp only [AesdDev.write, aesdWrite, if_neg invalid, interrupted]
    rfl

/-- After writes whose allocations and copies all succeed, unloading the module frees
everything if and only if the last accepted write was a single line. -/
theorem aesdCleanupModule_clean_iff (calls : List WriteCall)
    (allocate : ∀ call ∈ calls, call.Allocates) :
    ∃ driver, exec AesdDev.write calls aesdInitModule = some driver ∧
      (driver.UnloadsClean ↔ EndsWithLine calls) := by
  let accepted := calls.filter WriteCall.accepted
  have succeed : ∀ call ∈ accepted, call.Succeeds := by
    intro call member
    obtain ⟨inCalls, isAccepted⟩ := List.mem_filter.mp member
    obtain ⟨kbuf, uncopied, krealloc, remainder⟩ := allocate call inCalls
    simp only [WriteCall.accepted, Bool.and_eq_true, decide_eq_true_eq] at isAccepted
    obtain ⟨⟨lock, nonneg⟩, nonempty⟩ := isAccepted
    exact ⟨lock, kbuf, uncopied, krealloc, remainder, nonempty, nonneg⟩
  obtain ⟨driver, log, held, bytes, executed, rep, _, pending, linesEq⟩ :=
    AesdDev.represents_of_succeeds accepted succeed
  rw [exec_filter _ _ fun _ refused => AesdDev.write_of_not_accepted refused] at executed
  refine ⟨driver, executed, ?_⟩
  have bytesEq : bytes =
      (Lines.feedChunks newline Lines.empty (accepted.map WriteCall.user)).pending := by
    rw [← linesEq, Log.lines, pending]
    rfl
  have nonempty : ∀ chunk ∈ accepted.map WriteCall.user, chunk ≠ [] := by
    intro chunk member
    obtain ⟨call, inAccepted, rfl⟩ := List.mem_map.mp member
    exact (succeed call inAccepted).nonempty
  rw [rep.unloadsClean_iff pending, bytesEq, Lines.pending_feedChunks_eq_nil_iff nonempty,
    EndsWithLine, List.getLast?_map]
  constructor
  · intro lines call member
    exact lines call.user (Option.mem_map_of_mem _ member)
  · intro lines chunk member
    obtain ⟨call, last, rfl⟩ := Option.mem_map.mp member
    exact lines call last

/-- After writes of `a\nb` and `c\n`. -/
theorem aesdCleanupModule_clean_iff_two_writes :
    ∃ driver, exec AesdDev.write
        [⟨WriteOutcomes.success, [97, 10, 98], 0⟩, ⟨WriteOutcomes.success, [99, 10], 0⟩]
        aesdInitModule = some driver ∧
      (driver.UnloadsClean ↔ EndsWithLine
        [⟨WriteOutcomes.success, [97, 10, 98], 0⟩, ⟨WriteOutcomes.success, [99, 10], 0⟩]) := by
  refine aesdCleanupModule_clean_iff
    [⟨WriteOutcomes.success, [97, 10, 98], 0⟩, ⟨WriteOutcomes.success, [99, 10], 0⟩] ?_
  intro call member
  simp only [List.mem_cons, List.not_mem_nil, or_false] at member
  rcases member with rfl | rfl <;> exact ⟨rfl, rfl, rfl, rfl⟩

/-- The block of an unterminated `a` outlives the module. -/
theorem aesdCleanupModule_leaks :
    ∃ driver driver', exec AesdDev.write [⟨WriteOutcomes.success, [97], 0⟩] aesdInitModule =
        some driver ∧
      aesdCleanupModule driver = .ok driver' ∧ driver'.heap.live = [[97]] ∧
      ¬ driver.UnloadsClean := by
  refine ⟨_, _, rfl, rfl, by decide, ?_⟩
  rintro ⟨driver', cleaned, nothing⟩
  cases cleaned
  exact absurd (nothing 1) (by decide)

end Aesd.Driver
