import Aesd.Memory.Core
import Aesd.Ring.Core
import Aesd.Word.Locate

/-!
# The circular buffer of the driver

The functions of `aesd-circular-buffer.c` over ten raw slots, two offsets and
the `full` flag, as the code computes them: an index outside the array and every
other access the kernel does not survive ends the call instead of yielding a
value.

`Represents` ties the raw buffer to the queue of held entries.  It also counts
the entries added since initialization, because both offsets are residues of
that count.
-/

namespace Aesd.Driver

open Aesd.Ring
open Aesd.Word

/-- A byte sequence in kernel or user memory. -/
abbrev Bytes := List UInt8

/-- Why a call does not return to its caller. -/
inductive Stop
  /-- It waits for a lock that is held. -/
  | blocked
  /-- It uses memory outside a live block. -/
  | badAccess
  /-- It indexes an array outside its bounds. -/
  | badIndex
  /-- It releases a lock that is not held. -/
  | badUnlock
  deriving DecidableEq

/-- `AESDCHAR_MAX_WRITE_OPERATIONS_SUPPORTED` -/
abbrev aesdcharMaxWriteOperationsSupported : Nat := 10

instance neZero_aesdcharMaxWriteOperationsSupported :
    NeZero aesdcharMaxWriteOperationsSupported :=
  ⟨by decide⟩

/-- Conversion to `size_t`. -/
def toSizeT (value : Int) : Nat :=
  (value % 2 ^ 64).toNat

theorem toSizeT_of_lt {value : Nat} (bound : value < 2 ^ 64) : toSizeT value = value := by
  unfold toSizeT
  omega

/-- `struct aesd_buffer_entry` -/
structure BufferEntry where
  buffptr : Option Nat
  size : Nat
  deriving DecidableEq

/-- An entry whose bytes are all zero. -/
def BufferEntry.zero : BufferEntry :=
  ⟨none, 0⟩

/-- `struct aesd_circular_buffer` -/
structure CircularBuffer where
  entry : Fin aesdcharMaxWriteOperationsSupported → BufferEntry
  inOffs : Nat
  outOffs : Nat
  full : Bool

/-- `aesd_circular_buffer_init` -/
def aesdCircularBufferInit : CircularBuffer where
  entry _ := BufferEntry.zero
  inOffs := 0
  outOffs := 0
  full := false

namespace CircularBuffer

/-- The expression `buffer->entry[index]`. -/
def entryAt (buffer : CircularBuffer) (index : Int) : Except Stop BufferEntry :=
  if 0 ≤ index ∧ index < aesdcharMaxWriteOperationsSupported then
    .ok (buffer.entry (Fin.ofNat _ index.toNat))
  else
    .error .badIndex

/-- The assignment `buffer->entry[index] = value`. -/
def setEntry (buffer : CircularBuffer) (index : Nat) (value : BufferEntry) :
    Except Stop CircularBuffer :=
  if index < aesdcharMaxWriteOperationsSupported then
    .ok { buffer with entry := Function.update buffer.entry (Fin.ofNat _ index) value }
  else
    .error .badIndex

theorem entryAt_of_lt (buffer : CircularBuffer) (index : Nat) (bound : index < 10) :
    buffer.entryAt index = .ok (buffer.entry (Fin.ofNat 10 index)) := by
  have inside : (0 : Int) ≤ index ∧ (index : Int) < 10 := by omega
  exact if_pos inside

theorem setEntry_of_lt (buffer : CircularBuffer) (index : Nat) (bound : index < 10)
    (value : BufferEntry) :
    buffer.setEntry index value =
      .ok { buffer with entry := Function.update buffer.entry (Fin.ofNat 10 index) value } := by
  exact if_pos bound

end CircularBuffer

/-- `aesd_circular_buffer_add_entry`: the overwritten `buffptr`, or null, and
the buffer afterwards. -/
def aesdCircularBufferAddEntry (buffer : CircularBuffer) (addEntry : BufferEntry) :
    Except Stop (Option Nat × CircularBuffer) := do
  let (retPtr, outOffs) ←
    if buffer.full then do
      let oldest ← buffer.entryAt buffer.inOffs
      pure (oldest.buffptr,
        (buffer.outOffs + 1) % aesdcharMaxWriteOperationsSupported)
    else
      pure (none, buffer.outOffs)
  let buffer ← { buffer with outOffs := outOffs }.setEntry buffer.inOffs addEntry
  let inOffs := (buffer.inOffs + 1) % aesdcharMaxWriteOperationsSupported
  let buffer := { buffer with inOffs := inOffs }
  if inOffs = outOffs then do
    let following ← buffer.entryAt inOffs
    if following.size ≠ 0 then
      pure (retPtr, { buffer with full := true })
    else
      pure (retPtr, buffer)
  else
    pure (retPtr, buffer)

/-- The buffer after an addition that stays inside the array. -/
def CircularBuffer.withEntry (buffer : CircularBuffer) (addEntry : BufferEntry) :
    CircularBuffer :=
  let slots := Function.update buffer.entry (Fin.ofNat 10 buffer.inOffs) addEntry
  let inOffs := (buffer.inOffs + 1) % 10
  let outOffs := if buffer.full then (buffer.outOffs + 1) % 10 else buffer.outOffs
  ⟨slots, inOffs, outOffs,
    buffer.full || decide (inOffs = outOffs ∧ (slots (Fin.ofNat 10 inOffs)).size ≠ 0)⟩

/-- What `aesd_circular_buffer_add_entry` computes, whatever the buffer contains. -/
theorem CircularBuffer.addEntry_eq (buffer : CircularBuffer) (inLt : buffer.inOffs < 10)
    (addEntry : BufferEntry) :
    aesdCircularBufferAddEntry buffer addEntry =
      .ok (if buffer.full then (buffer.entry (Fin.ofNat 10 buffer.inOffs)).buffptr else none,
        buffer.withEntry addEntry) := by
  have oldest := buffer.entryAt_of_lt buffer.inOffs inLt
  cases full : buffer.full with
  | false =>
      simp only [aesdCircularBufferAddEntry, full, Bool.false_eq_true, if_false, bind, Except.bind,
        pure, Except.pure, setEntry_of_lt _ _ inLt, withEntry, Bool.false_or]
      split
      · rename_i wraps
        rw [entryAt_of_lt _ _ (Nat.mod_lt _ (by decide))]
        simp only [wraps, true_and]
        split <;> simp_all
      · rename_i differs
        simp [differs]
  | true =>
      simp only [aesdCircularBufferAddEntry, full, if_true, bind, Except.bind,
        pure, Except.pure, oldest, setEntry_of_lt _ _ inLt, withEntry, Bool.true_or]
      split
      · rw [entryAt_of_lt _ _ (Nat.mod_lt _ (by decide))]
        simp only
        split <;> simp_all
      · rfl

/-- The loop of `aesd_circular_buffer_find_entry_offset_for_fpos` with
`remaining` iterations to go: the index of the entry found and the offset
stored through `entry_offset_byte_rtn`. -/
def findEntryLoop (buffer : CircularBuffer) (charOffset : Nat) :
    Nat → Nat → Nat → Except Stop (Option (Nat × Nat))
  | 0, _, _ => .ok none
  | remaining + 1, i, cumulativeSize => do
      let index := (buffer.outOffs + i) % aesdcharMaxWriteOperationsSupported
      let entry ← buffer.entryAt index
      let cumulativeSize := toSizeT (cumulativeSize + entry.size : Nat)
      if cumulativeSize > charOffset then
        pure (some (index,
          toSizeT (charOffset - toSizeT ((cumulativeSize : Int) - entry.size))))
      else
        findEntryLoop buffer charOffset remaining (i + 1) cumulativeSize

/-- `aesd_circular_buffer_find_entry_offset_for_fpos` -/
def aesdCircularBufferFindEntryOffsetForFpos (buffer : CircularBuffer)
    (charOffset : Nat) : Except Stop (Option (Nat × Nat)) :=
  if buffer.inOffs = buffer.outOffs ∧ ¬ buffer.full then
    .ok none
  else
    findEntryLoop buffer charOffset aesdcharMaxWriteOperationsSupported 0 0

/-! ## The queue a buffer represents -/

namespace CircularBuffer

/-- The number of entries the offsets and the flag describe. -/
def count (buffer : CircularBuffer) : Nat :=
  if buffer.full then
    aesdcharMaxWriteOperationsSupported
  else
    (buffer.inOffs + aesdcharMaxWriteOperationsSupported - buffer.outOffs) %
      aesdcharMaxWriteOperationsSupported

/-- The entries read from `out_offs` on, oldest first. -/
def heldEntries (buffer : CircularBuffer) : List BufferEntry :=
  (List.range buffer.count).map fun index =>
    buffer.entry (Fin.ofNat _ (buffer.outOffs + index))

theorem heldEntries_of_window {buffer : CircularBuffer} {held : List BufferEntry}
    (window : Window buffer.entry buffer.outOffs held) (countEq : buffer.count = held.length) :
    buffer.heldEntries = held := by
  apply List.ext_getElem?
  intro index
  rw [heldEntries, List.getElem?_map, countEq]
  by_cases inside : index < held.length
  · rw [List.getElem?_range inside, List.getElem?_eq_getElem inside]
    exact congrArg some (window.cell_eq index _ (List.getElem?_eq_getElem inside))
  · rw [List.getElem?_eq_none (by simpa using inside),
      List.getElem?_eq_none (by simpa using inside)]
    rfl

end CircularBuffer

/-- The slots after `total` additions of entries of any size, of which the last
ones are `held`, oldest first. -/
structure CircularBuffer.Stores (buffer : CircularBuffer) (held : List BufferEntry)
    (total : Nat) : Prop where
  window : Window buffer.entry (total - held.length) held
  length_eq : held.length = min total 10
  inOffs_eq : buffer.inOffs = total % 10

namespace CircularBuffer.Stores

variable {buffer : CircularBuffer} {held : List BufferEntry} {total : Nat}

theorem inOffs_lt (stores : buffer.Stores held total) : buffer.inOffs < 10 := by
  rw [stores.inOffs_eq]
  exact Nat.mod_lt _ (by decide)

/-- An addition pushes the entry onto the queue of the last ten. -/
theorem add (stores : buffer.Stores held total) (entry : BufferEntry) :
    (buffer.withEntry entry).Stores (push 10 held entry) (total + 1) := by
  have lengthEq := stores.length_eq
  have inEq := stores.inOffs_eq
  by_cases room : total < 10
  · have pushEq : push 10 held entry = held ++ [entry] := push_of_room (by omega) entry
    have grown := stores.window.append (show held.length < 10 by omega) entry
    have slotEq : total - held.length + held.length = buffer.inOffs := by omega
    rw [slotEq] at grown
    rw [pushEq]
    refine ⟨?_, by simp; omega, by simp only [withEntry]; omega⟩
    have firstEq : total + 1 - (held ++ [entry]).length = total - held.length := by
      simp
    rw [firstEq]
    exact grown
  · have pushEq : push 10 held entry = (held ++ [entry]).drop 1 := push_of_full (by omega) entry
    have rotated := stores.window.rotate (show held.length = 10 by omega) entry
    have slotEq : Fin.ofNat 10 (total - held.length) = Fin.ofNat 10 buffer.inOffs := by
      rw [ofNat_eq_ofNat_iff]
      simp only [Nat.ModEq]
      omega
    rw [slotEq] at rotated
    rw [pushEq]
    refine ⟨?_, by simp; omega, by simp only [withEntry]; omega⟩
    have firstEq : total + 1 - ((held ++ [entry]).drop 1).length = total - held.length + 1 := by
      simp
      omega
    rw [firstEq]
    exact rotated

end CircularBuffer.Stores

/-- The raw buffer after `total` additions of non-empty entries, of which it
holds `held`, oldest first. -/
structure CircularBuffer.Represents (buffer : CircularBuffer)
    (held : List BufferEntry) (total : Nat) : Prop where
  window : Window buffer.entry buffer.outOffs held
  length_eq : held.length = min total 10
  inOffs_eq : buffer.inOffs = total % 10
  outOffs_eq : buffer.outOffs = (total - held.length) % 10
  full_eq : buffer.full = decide (10 ≤ total)
  size_ne_zero : ∀ entry ∈ held, entry.size ≠ 0
  unset : ∀ index, total ≤ index → index < 10 →
    buffer.entry (Fin.ofNat 10 index) = BufferEntry.zero

namespace CircularBuffer.Represents

variable {buffer : CircularBuffer} {held : List BufferEntry} {total : Nat}

theorem init : aesdCircularBufferInit.Represents [] 0 where
  window := Window.empty _ _
  length_eq := rfl
  inOffs_eq := rfl
  outOffs_eq := rfl
  full_eq := rfl
  size_ne_zero := by simp
  unset _ _ _ := rfl

theorem outOffs_lt (rep : buffer.Represents held total) : buffer.outOffs < 10 := by
  rw [rep.outOffs_eq]
  omega

theorem inOffs_lt (rep : buffer.Represents held total) : buffer.inOffs < 10 := by
  rw [rep.inOffs_eq]
  omega

/-- Until the buffer is full its first slot is slot zero. -/
theorem outOffs_of_room (rep : buffer.Represents held total) (room : total < 10) :
    buffer.outOffs = 0 ∧ held.length = total := by
  have lengthEq := rep.length_eq
  have outEq := rep.outOffs_eq
  omega

theorem outOffs_of_full (rep : buffer.Represents held total) (full : 10 ≤ total) :
    buffer.outOffs = total % 10 ∧ held.length = 10 := by
  have lengthEq := rep.length_eq
  have outEq := rep.outOffs_eq
  omega

theorem count_eq (rep : buffer.Represents held total) : buffer.count = held.length := by
  have lengthEq := rep.length_eq
  have inEq := rep.inOffs_eq
  have fullEq := rep.full_eq
  unfold count
  by_cases room : total < 10
  · obtain ⟨outEq, _⟩ := rep.outOffs_of_room room
    have notFull : buffer.full = false := by simpa [fullEq] using room
    simp only [notFull, Bool.false_eq_true, if_false, aesdcharMaxWriteOperationsSupported]
    omega
  · have isFull : buffer.full = true := by
      rw [fullEq]
      exact decide_eq_true (by omega)
    simp only [isFull, if_true, aesdcharMaxWriteOperationsSupported]
    omega

theorem heldEntries_eq (rep : buffer.Represents held total) : buffer.heldEntries = held :=
  heldEntries_of_window rep.window rep.count_eq

/-- A slot without a held entry is unset. -/
theorem unset_of_not_held (rep : buffer.Represents held total) {slot : Fin 10}
    (notHeld : ∀ index, index < held.length →
      Fin.ofNat 10 (buffer.outOffs + index) ≠ slot) :
    buffer.entry slot = BufferEntry.zero := by
  have lengthEq := rep.length_eq
  have slotEq : Fin.ofNat 10 slot.val = slot := Fin.ext (Nat.mod_eq_of_lt slot.isLt)
  by_cases room : total < 10
  · obtain ⟨outEq, heldLength⟩ := rep.outOffs_of_room room
    rw [← slotEq]
    refine rep.unset slot.val ?_ slot.isLt
    by_contra below
    have isHeld := notHeld slot.val (by omega)
    rw [outEq, Nat.zero_add] at isHeld
    exact isHeld slotEq
  · -- every slot of a full buffer is held
    obtain ⟨_, heldLength⟩ := rep.outOffs_of_full (by omega)
    have outLt := rep.outOffs_lt
    refine absurd ?_ (notHeld ((slot.val + 10 - buffer.outOffs) % 10) (by omega))
    apply Fin.ext
    simp only [Fin.ofNat]
    omega

/-- The slot of the held entry with a given index. -/
theorem entryAt_held (rep : buffer.Represents held total) (index : Nat)
    {entry : BufferEntry} (entryEq : held[index]? = some entry) :
    buffer.entryAt ((buffer.outOffs + index) % 10 : Nat) = .ok entry := by
  rw [entryAt_of_lt buffer _ (by omega)]
  have cellEq := rep.window.cell_eq index entry entryEq
  rw [← cellEq]
  congr 2
  exact Fin.ext (Nat.mod_mod _ _)

/-- The slots, without the flag. -/
theorem stores (rep : buffer.Represents held total) : buffer.Stores held total where
  window := by
    refine rep.window.congr ?_
    rw [rep.outOffs_eq]
    exact Nat.mod_modEq _ _
  length_eq := rep.length_eq
  inOffs_eq := rep.inOffs_eq

theorem size_ne_zero_push (rep : buffer.Represents held total) {entry : BufferEntry}
    (nonempty : entry.size ≠ 0) : ∀ other ∈ push 10 held entry, other.size ≠ 0 := by
  intro other member
  rcases List.mem_append.mp (List.mem_of_mem_drop member) with old | new
  · exact rep.size_ne_zero other old
  · rwa [List.mem_singleton.mp new]

/-- What `aesd_circular_buffer_add_entry` computes when the buffer has room. -/
theorem addEntry_of_room (rep : buffer.Represents held total) (room : total < 10)
    {entry : BufferEntry} (nonempty : entry.size ≠ 0) :
    ∃ buffer', aesdCircularBufferAddEntry buffer entry = .ok (none, buffer') ∧
      buffer'.Represents (held ++ [entry]) (total + 1) := by
  obtain ⟨outEq, lengthEq⟩ := rep.outOffs_of_room room
  have inEq : buffer.inOffs = total := by
    rw [rep.inOffs_eq]
    omega
  have notFull : buffer.full = false := by
    rw [rep.full_eq]
    simpa using room
  have pushEq : push 10 held entry = held ++ [entry] := push_of_room (by omega) entry
  have stores := rep.stores.add entry
  have sizeNe := rep.size_ne_zero_push nonempty
  rw [pushEq] at stores sizeNe
  have window : Window (buffer.withEntry entry).entry 0 (held ++ [entry]) := by
    simpa [lengthEq] using stores.window
  have outEq' : (buffer.withEntry entry).outOffs = 0 := by
      simp [CircularBuffer.withEntry, notFull, outEq]
  refine ⟨buffer.withEntry entry, ?_, ?_, stores.length_eq, stores.inOffs_eq, ?_, ?_, sizeNe, ?_⟩
  · rw [buffer.addEntry_eq rep.inOffs_lt, notFull]
    rfl
  · rwa [outEq']
  · simp [outEq', lengthEq]
  · -- the flag is set by the tenth addition, when `in_offs` comes back to slot zero
    by_cases last : total = 9
    · obtain ⟨first, firstEq⟩ : ∃ first, (held ++ [entry])[0]? = some first :=
        ⟨_, List.getElem?_eq_getElem (by simp)⟩
      have firstSlot := window.cell_eq 0 first firstEq
      have firstSize := sizeNe first (List.mem_of_getElem? firstEq)
      rw [← firstSlot] at firstSize
      simp only [CircularBuffer.withEntry, notFull, inEq, outEq, last] at firstSize ⊢
      simpa using firstSize
    · have noWrap : (total + 1) % 10 ≠ 0 := by omega
      have notYet : ¬ 10 ≤ total + 1 := by omega
      simp [CircularBuffer.withEntry, notFull, inEq, outEq, noWrap, notYet]
  · intro index above bound
    have different : Fin.ofNat 10 (0 + index) ≠ Fin.ofNat 10 (0 + total) :=
      ofNat_add_ne 0 bound room (by omega)
    simp only [CircularBuffer.withEntry, inEq]
    rw [Function.update_of_ne (by simpa using different)]
    exact rep.unset index (by omega) bound

/-- Adding an entry to a full buffer hands back the oldest one. -/
theorem addEntry_of_full (rep : buffer.Represents held total) (full : 10 ≤ total)
    {entry : BufferEntry} (nonempty : entry.size ≠ 0) :
    ∃ oldest rest buffer', held = oldest :: rest ∧
      aesdCircularBufferAddEntry buffer entry = .ok (oldest.buffptr, buffer') ∧
      buffer'.Represents (rest ++ [entry]) (total + 1) := by
  obtain ⟨outEq, lengthEq⟩ := rep.outOffs_of_full full
  have isFull : buffer.full = true := by
    rw [rep.full_eq]
    simpa using full
  cases held with
  | nil => simp at lengthEq
  | cons oldest rest =>
      have pushEq : push 10 (oldest :: rest) entry = rest ++ [entry] := push_of_full lengthEq entry
      have stores := rep.stores.add entry
      have sizeNe := rep.size_ne_zero_push nonempty
      rw [pushEq] at stores sizeNe
      have oldestSlot : buffer.entry (Fin.ofNat 10 buffer.inOffs) = oldest := by
        rw [rep.inOffs_eq, ← outEq]
        exact rep.window.cell_eq 0 oldest rfl
      have outEq' : (buffer.withEntry entry).outOffs = (total + 1) % 10 := by
        simp only [CircularBuffer.withEntry, isFull, outEq, if_true]
        omega
      have restLength : (rest ++ [entry]).length = 10 := by simpa using lengthEq
      refine ⟨oldest, rest, buffer.withEntry entry, rfl, ?_, ?_, stores.length_eq,
        stores.inOffs_eq, ?_, ?_, sizeNe, ?_⟩
      · rw [buffer.addEntry_eq rep.inOffs_lt, isFull, oldestSlot]
        rfl
      · refine stores.window.congr ?_
        rw [outEq', restLength]
        simp only [Nat.ModEq, aesdcharMaxWriteOperationsSupported]
        omega
      · rw [outEq', restLength]
        omega
      · have still : 10 ≤ total + 1 := by omega
        simp [CircularBuffer.withEntry, isFull, still]
      · intro index above bound
        omega

/-- An addition pushes the entry onto the queue. -/
theorem addEntry (rep : buffer.Represents held total) {entry : BufferEntry}
    (nonempty : entry.size ≠ 0) :
    ∃ retPtr buffer', aesdCircularBufferAddEntry buffer entry = .ok (retPtr, buffer') ∧
      buffer'.Represents (push 10 held entry) (total + 1) := by
  have lengthEq := rep.length_eq
  by_cases room : total < 10
  · obtain ⟨buffer', added, rep'⟩ := rep.addEntry_of_room room nonempty
    rw [push_of_room (by omega)]
    exact ⟨none, buffer', added, rep'⟩
  · obtain ⟨oldest, rest, buffer', rfl, added, rep'⟩ :=
      rep.addEntry_of_full (by omega) nonempty
    rw [push_of_full (by omega)]
    exact ⟨oldest.buffptr, buffer', added, rep'⟩

/-! ### The offset search -/

/-- A slot behind the held entries is unset. -/
theorem entry_unset (rep : buffer.Represents held total) {index : Nat}
    (above : held.length ≤ index) (bound : index < 10) :
    buffer.entry (Fin.ofNat 10 (buffer.outOffs + index)) = BufferEntry.zero := by
  have lengthEq := rep.length_eq
  obtain ⟨outEq, _⟩ := rep.outOffs_of_room (by omega)
  rw [outEq, Nat.zero_add]
  exact rep.unset index (by omega) bound

/-- Every slot is a held entry or unset. -/
theorem slot_cases (rep : buffer.Represents held total) (slot : Fin 10) :
    buffer.entry slot ∈ held ∨ buffer.entry slot = BufferEntry.zero := by
  have listed : buffer.entry slot ∈ List.ofFn buffer.entry := by
    rw [List.mem_ofFn]
    exact ⟨slot, rfl⟩
  rw [rep.window.ofFn_perm.mem_iff, List.mem_append] at listed
  rcases listed with inHeld | outside
  · exact Or.inl inHeld
  · obtain ⟨index, inside, cellEq⟩ := List.mem_map.mp outside
    have bounds := List.mem_range'_1.mp inside
    have short : held.length ≤ 10 := rep.window.length_le
    have upper : index < held.length + (10 - held.length) := bounds.2
    rw [← cellEq]
    exact Or.inr (rep.entry_unset bounds.1 (by omega))

theorem entryAt_unset (rep : buffer.Represents held total) {index : Nat}
    (above : held.length ≤ index) (bound : index < 10) :
    buffer.entryAt ((buffer.outOffs + index) % 10 : Nat) = .ok BufferEntry.zero := by
  rw [entryAt_of_lt buffer _ (Nat.mod_lt _ (by decide)), ← rep.entry_unset above bound]
  congr 2
  exact Fin.ext (Nat.mod_mod _ _)

/-- The loop from slot `i` on searches the sizes of the remaining entries. -/
theorem findEntryLoop_eq (rep : buffer.Represents held total)
    (bound : (held.map BufferEntry.size).sum < 2 ^ 64) (charOffset : Nat) :
    ∀ remaining i, i + remaining = 10 →
      ((held.map BufferEntry.size).take i).sum ≤ charOffset →
      findEntryLoop buffer charOffset remaining i
          ((held.map BufferEntry.size).take i).sum =
        .ok ((locate ((held.map BufferEntry.size).drop i)
            (charOffset - ((held.map BufferEntry.size).take i).sum)).map
          fun found => ((buffer.outOffs + (i + found.1)) % 10, found.2)) := by
  intro remaining
  induction remaining with
  | zero =>
      intro i lastEq _
      have short : held.length ≤ i := by
        have lengthEq := rep.length_eq
        omega
      simp [findEntryLoop, List.drop_of_length_le, short]
  | succ remaining ih =>
      intro i lastEq below
      have next := ih (i + 1) (by omega)
      by_cases inside : i < held.length
      · have entryEq : held[i]? = some held[i] := List.getElem?_eq_getElem inside
        have dropEq : (held.map BufferEntry.size).drop i =
            held[i].size :: (held.map BufferEntry.size).drop (i + 1) := by
          rw [List.drop_eq_getElem_cons (by simpa using inside)]
          simp
        have takeEq : ((held.map BufferEntry.size).take (i + 1)).sum =
            ((held.map BufferEntry.size).take i).sum + held[i].size := by
          rw [List.take_succ_eq_append_getElem (by simpa using inside)]
          simp
        have sumBound := List.sum_take_add_sum_drop (held.map BufferEntry.size) (i + 1)
        rw [takeEq] at next sumBound
        rw [dropEq, locate_cons]
        simp only [findEntryLoop, aesdcharMaxWriteOperationsSupported,
          rep.entryAt_held i entryEq, bind, Except.bind]
        rw [toSizeT_of_lt (by omega)]
        by_cases reached :
            charOffset < ((held.map BufferEntry.size).take i).sum + held[i].size
        · have offsetEq : toSizeT (charOffset -
              toSizeT (((((held.map BufferEntry.size).take i).sum + held[i].size : Nat) : Int)
                - held[i].size)) =
              charOffset - ((held.map BufferEntry.size).take i).sum := by
            unfold toSizeT
            omega
          rw [if_pos reached, if_pos (by omega), offsetEq]
          rfl
        · rw [if_neg reached, if_neg (by omega), next (by omega), Option.map_map]
          congr 2
          · funext found
            simp only [Function.comp]
            congr 2
            omega
          · congr 1
            omega
      · have outside : held.length ≤ i := by omega
        have takeEq : (held.map BufferEntry.size).take (i + 1) =
            (held.map BufferEntry.size).take i := by
          rw [List.take_of_length_le (by simp; omega),
            List.take_of_length_le (by simpa using outside)]
        have sumBound := List.sum_take_add_sum_drop (held.map BufferEntry.size) i
        rw [takeEq] at next
        simp only [findEntryLoop, aesdcharMaxWriteOperationsSupported,
          rep.entryAt_unset outside (show i < 10 by omega), bind, Except.bind,
          BufferEntry.zero, Nat.add_zero]
        rw [toSizeT_of_lt (by omega), if_neg (by omega), next below]
        simp [List.drop_of_length_le, outside, Nat.le_succ_of_le outside]

/-- The search inverts concatenation: it finds the slot of the held entry that
contains the offset, and nothing at or behind the end. -/
theorem find_eq (rep : buffer.Represents held total)
    (bound : (held.map BufferEntry.size).sum < 2 ^ 64) (charOffset : Nat) :
    aesdCircularBufferFindEntryOffsetForFpos buffer charOffset =
      .ok ((locate (held.map BufferEntry.size) charOffset).map
        fun found => ((buffer.outOffs + found.1) % 10, found.2)) := by
  unfold aesdCircularBufferFindEntryOffsetForFpos
  by_cases isEmpty : buffer.inOffs = buffer.outOffs ∧ ¬ buffer.full
  · have heldNil : held = [] := by
      have fullEq := rep.full_eq
      have notFull : ¬ 10 ≤ total := by simpa [fullEq] using isEmpty.2
      obtain ⟨outEq, lengthEq⟩ := rep.outOffs_of_room (by omega)
      have inEq := rep.inOffs_eq
      have totalZero : total = 0 := by omega
      exact List.length_eq_zero_iff.mp (by omega)
    rw [if_pos isEmpty, heldNil]
    rfl
  · rw [if_neg isEmpty]
    have searched := rep.findEntryLoop_eq bound charOffset 10 0 rfl (by simp)
    simpa using searched

end CircularBuffer.Represents

end Aesd.Driver
