import Aesd.Driver.CircularBuffer
import Aesd.Transition.Core

/-!
# The circular buffer on its own

The functions of `aesd-circular-buffer.c` as an interface, apart from the driver
that calls them.  A full buffer and an empty one have equal offsets, and `full`
tells them apart; `aesd_circular_buffer_add_entry` sets it only if the slot
`in_offs` arrives at has a positive size.  Entries of size zero can therefore
make a full buffer look empty.  As long as all sizes are positive the offset
search inverts concatenation.
-/

namespace Aesd.Driver

open Aesd.Ring
open Aesd.Transition
open Aesd.Word

/-! ## Additions -/

/-- A buffer with the values its additions have returned. -/
structure FifoHistory where
  buffer : CircularBuffer
  returned : List (Option Nat)

/-- `in_offs` comes back to slot zero for the `turn`-th time, counted from zero, and
finds an entry of positive size there. -/
def SetsFlag (added : List BufferEntry) (turn : Nat) : Prop :=
  10 * (turn + 1) ≤ added.length ∧ ∃ first, added[10 * turn]? = some first ∧ first.size ≠ 0

theorem setsFlag_append_singleton {added : List BufferEntry} {entry : BufferEntry} {turn : Nat} :
    SetsFlag (added ++ [entry]) turn ↔
      SetsFlag added turn ∨
        10 * (turn + 1) = added.length + 1 ∧
          ∃ first, added[10 * turn]? = some first ∧ first.size ≠ 0 := by
  unfold SetsFlag
  rw [List.length_append, List.length_singleton]
  by_cases inside : 10 * turn < added.length
  · rw [List.getElem?_append_left inside]
    constructor
    · rintro ⟨bound, sized⟩
      by_cases last : 10 * (turn + 1) = added.length + 1
      · exact Or.inr ⟨last, sized⟩
      · exact Or.inl ⟨by omega, sized⟩
    · rintro (⟨bound, sized⟩ | ⟨last, sized⟩)
      · exact ⟨by omega, sized⟩
      · exact ⟨by omega, sized⟩
  · constructor
    · rintro ⟨bound, _⟩
      omega
    · rintro (⟨bound, _⟩ | ⟨last, _⟩) <;> omega

/-- What the additions return: null until the flag is set, and the pointer of the
oldest of the last ten entries afterwards. -/
inductive Returns (added : List BufferEntry) : Bool → List (Option Nat) → Prop
  | filling : (∀ turn, ¬ SetsFlag added turn) →
      Returns added false (List.replicate added.length none)
  | full (turn : Nat) : SetsFlag added turn →
      (∀ earlier, earlier < turn → ¬ SetsFlag added earlier) →
      Returns added true (List.replicate (10 * (turn + 1)) none ++
        ((added.take (added.length - 10)).drop (10 * turn)).map BufferEntry.buffptr)

/-- The slot `in_offs` points to holds the oldest of ten entries. -/
theorem CircularBuffer.Stores.oldest {buffer : CircularBuffer} {added : List BufferEntry}
    (stores : buffer.Stores (added.rtake 10) added.length) (long : 10 ≤ added.length) :
    ∃ oldest, added[added.length - 10]? = some oldest ∧
      buffer.entry (Fin.ofNat 10 buffer.inOffs) = oldest := by
  have lengthEq := stores.length_eq
  obtain ⟨oldest, oldestEq⟩ : ∃ oldest, added[added.length - 10]? = some oldest :=
    ⟨_, List.getElem?_eq_getElem (by omega)⟩
  refine ⟨oldest, oldestEq, ?_⟩
  have first : (added.rtake 10)[0]? = some oldest := by
    rw [List.rtake, List.getElem?_drop]
    exact oldestEq
  rw [← stores.window.cell_eq 0 oldest first]
  congr 1
  rw [ofNat_eq_ofNat_iff, stores.inOffs_eq]
  simp only [Nat.ModEq]
  omega

namespace Returns

variable {added : List BufferEntry} {returned : List (Option Nat)}

/-- Once the flag is set, an addition returns the pointer of the oldest entry. -/
theorem add_full (returns : Returns added true returned)
    {buffer : CircularBuffer} (stores : buffer.Stores (added.rtake 10) added.length)
    (entry : BufferEntry) :
    Returns (added ++ [entry]) true
      (returned ++ [(buffer.entry (Fin.ofNat 10 buffer.inOffs)).buffptr]) := by
  cases returns with
  | full turn sets earliest =>
      have bound := sets.1
      obtain ⟨oldest, oldestEq, slotEq⟩ := stores.oldest (by omega)
      have taken : (added ++ [entry]).take ((added ++ [entry]).length - 10) =
          added.take (added.length - 10) ++ [oldest] := by
        have lengthEq : (added ++ [entry]).length - 10 = added.length - 10 + 1 := by
          simp
          omega
        rw [lengthEq, List.take_append_of_le_length (by omega), List.take_add_one, oldestEq]
        rfl
      have setsStill : SetsFlag (added ++ [entry]) turn :=
        setsFlag_append_singleton.mpr (Or.inl sets)
      have returned := Returns.full turn setsStill ?_
      · rw [taken, List.drop_append_of_le_length (by rw [List.length_take]; omega), List.map_append,
          ← List.append_assoc] at returned
        rw [slotEq]
        exact returned
      · intro earlier before setsEarlier
        rcases setsFlag_append_singleton.mp setsEarlier with old | ⟨last, _⟩
        · exact earliest earlier before old
        · omega

/-- Before that it returns null, and may set the flag. -/
theorem add_filling (returns : Returns added false returned)
    {entry : BufferEntry} {flag : Bool}
    (flagIff : flag = true ↔ ∃ turn, 10 * (turn + 1) = added.length + 1 ∧
      ∃ first, added[10 * turn]? = some first ∧ first.size ≠ 0) :
    Returns (added ++ [entry]) flag (returned ++ [none]) := by
  cases returns with
  | filling never =>
      rw [← List.replicate_succ']
      cases flag with
      | false =>
          have stillNever : ∀ turn, ¬ SetsFlag (added ++ [entry]) turn := by
            intro turn sets
            rcases setsFlag_append_singleton.mp sets with old | new
            · exact never turn old
            · exact absurd (flagIff.mpr ⟨turn, new⟩) Bool.false_ne_true
          simpa using Returns.filling stillNever
      | true =>
          obtain ⟨turn, last, sized⟩ := flagIff.mp rfl
          have sets : SetsFlag (added ++ [entry]) turn :=
            setsFlag_append_singleton.mpr (Or.inr ⟨last, sized⟩)
          have returned := Returns.full turn sets ?_
          · have nothing : ((added ++ [entry]).take ((added ++ [entry]).length - 10)).drop
                (10 * turn) = [] := by
              rw [List.drop_eq_nil_iff, List.length_take, List.length_append,
                List.length_singleton]
              omega
            rw [nothing, List.map_nil, List.append_nil, last] at returned
            exact returned
          · intro earlier before setsEarlier
            rcases setsFlag_append_singleton.mp setsEarlier with old | ⟨last', _⟩
            · exact never earlier old
            · omega

end Returns

namespace FifoHistory

/-- A buffer that has just been initialised. -/
def start : FifoHistory :=
  ⟨aesdCircularBufferInit, []⟩

/-- One call of `aesd_circular_buffer_add_entry`. -/
def add : Step BufferEntry FifoHistory := fun entry history =>
  match aesdCircularBufferAddEntry history.buffer entry with
  | .error _ => none
  | .ok (retPtr, buffer) => some ⟨buffer, history.returned ++ [retPtr]⟩

/-- The state after any additions. -/
structure Tracks (history : FifoHistory) (added : List BufferEntry) : Prop where
  stores : history.buffer.Stores (added.rtake 10) added.length
  outOffs_eq : history.buffer.outOffs = if history.buffer.full then added.length % 10 else 0
  returns : Returns added history.buffer.full history.returned

theorem tracks_start : start.Tracks [] where
  stores := ⟨Window.empty _ _, rfl, rfl⟩
  outOffs_eq := rfl
  returns := by
    apply Returns.filling
    rintro turn ⟨bound, _⟩
    simp at bound

variable {history : FifoHistory} {added : List BufferEntry}

/-- An addition to a buffer without the flag sets it at the end of a turn only. -/
theorem Tracks.withEntry_full_iff (tracks : history.Tracks added)
    (notFull : history.buffer.full = false) (entry : BufferEntry) :
    (history.buffer.withEntry entry).full = true ↔
      ∃ turn, 10 * (turn + 1) = added.length + 1 ∧
        ∃ first, added[10 * turn]? = some first ∧ first.size ≠ 0 := by
  have inEq := tracks.stores.inOffs_eq
  have outEq := tracks.outOffs_eq
  have stores := tracks.stores.add entry
  rw [push_rtake] at stores
  rw [notFull, if_neg Bool.false_ne_true] at outEq
  have flagEq : (history.buffer.withEntry entry).full =
      decide ((history.buffer.inOffs + 1) % 10 = 0 ∧
        ((history.buffer.withEntry entry).entry
          (Fin.ofNat 10 (history.buffer.withEntry entry).inOffs)).size ≠ 0) := by
    simp [CircularBuffer.withEntry, notFull, outEq]
  rw [flagEq, decide_eq_true_iff]
  by_cases wraps : (history.buffer.inOffs + 1) % 10 = 0
  · have long : 10 ≤ (added ++ [entry]).length := by
      simp
      omega
    obtain ⟨oldest, oldestEq, slotEq⟩ :=
      CircularBuffer.Stores.oldest (by simpa using stores) long
    have inside : added.length - 9 < added.length := by omega
    rw [List.length_append, List.length_singleton, List.getElem?_append_left (by omega)] at oldestEq
    rw [slotEq]
    constructor
    · rintro ⟨_, sized⟩
      refine ⟨added.length / 10, by omega, oldest, ?_, sized⟩
      rw [← oldestEq]
      congr 1
      omega
    · rintro ⟨turn, last, first, firstEq, sized⟩
      have place : 10 * turn = added.length + 1 - 10 := by omega
      rw [place, oldestEq] at firstEq
      obtain rfl := Option.some.inj firstEq
      exact ⟨wraps, sized⟩
  · constructor
    · rintro ⟨atZero, _⟩
      exact absurd atZero wraps
    · rintro ⟨turn, last, _⟩
      omega

theorem Tracks.withEntry_outOffs (tracks : history.Tracks added) (entry : BufferEntry) :
    (history.buffer.withEntry entry).outOffs =
      if (history.buffer.withEntry entry).full then (added.length + 1) % 10 else 0 := by
  have outEq := tracks.outOffs_eq
  by_cases full : history.buffer.full = true
  · rw [if_pos full] at outEq
    simp only [CircularBuffer.withEntry, full, outEq, if_true, Bool.true_or]
    omega
  · have notFull : history.buffer.full = false := by simpa using full
    rw [if_neg full] at outEq
    have atZero : (history.buffer.withEntry entry).outOffs = 0 := by
      simp [CircularBuffer.withEntry, notFull, outEq]
    rw [atZero]
    split
    · rename_i flag
      obtain ⟨turn, last, _⟩ := (tracks.withEntry_full_iff notFull entry).mp flag
      omega
    · rfl

/-- One addition. -/
theorem Tracks.add (tracks : history.Tracks added) (entry : BufferEntry) :
    ∃ history', FifoHistory.add entry history = some history' ∧
      history'.Tracks (added ++ [entry]) := by
  have stores := tracks.stores.add entry
  have returns := tracks.returns
  rw [push_rtake, show added.length + 1 = (added ++ [entry]).length by simp] at stores
  have outOffsEq := tracks.withEntry_outOffs entry
  rw [show added.length + 1 = (added ++ [entry]).length by simp] at outOffsEq
  have added' := history.buffer.addEntry_eq tracks.stores.inOffs_lt entry
  refine ⟨_, by simp only [FifoHistory.add, added']; rfl, stores, outOffsEq, ?_⟩
  cases full : history.buffer.full with
  | true =>
      have stillFull : (history.buffer.withEntry entry).full = true := by
        simp [CircularBuffer.withEntry, full]
      rw [full] at returns
      simp only [stillFull, if_true]
      exact returns.add_full tracks.stores entry
  | false =>
      rw [full] at returns
      simp only [Bool.false_eq_true, if_false]
      exact returns.add_filling (tracks.withEntry_full_iff full entry)

/-- Every sequence of additions returns. -/
theorem tracks_of_add (added : List BufferEntry) :
    ∃ history, exec FifoHistory.add added start = some history ∧ history.Tracks added := by
  induction added using List.reverseRecOn with
  | nil => exact ⟨start, rfl, tracks_start⟩
  | append_singleton added entry ih =>
      obtain ⟨history, executed, tracks⟩ := ih
      obtain ⟨history', stepped, tracks'⟩ := tracks.add entry
      refine ⟨history', ?_, tracks'⟩
      exact (exec_concat_eq_some_iff _ _ _ _ _).mpr ⟨history, executed, stepped⟩

/-! ## When the buffer is a queue -/

/-- The buffer has been a queue of the last ten entries. -/
structure IsFifo (history : FifoHistory) (added : List BufferEntry) : Prop where
  inOffs_lt : history.buffer.inOffs < 10
  outOffs_lt : history.buffer.outOffs < 10
  full_iff : history.buffer.full = true ↔ 10 ≤ added.length
  /-- The entries from `out_offs` on are the last ten, oldest first. -/
  heldEntries_eq : history.buffer.heldEntries = added.rtake 10
  /-- The first ten calls return null, and the others the pointer added ten calls
  before. -/
  returned_eq : history.returned = List.replicate (min added.length 10) none ++
    (added.take (added.length - 10)).map BufferEntry.buffptr
  /-- Every pointer is handed back or held, and only once. -/
  conserved : history.returned.drop 10 ++ history.buffer.heldEntries.map BufferEntry.buffptr =
    added.map BufferEntry.buffptr

/-- Fewer than ten entries were added, or some turn found an entry of positive size
and no pointer was overwritten before. -/
def FlagInTime (added : List BufferEntry) : Prop :=
  added.length < 10 ∨
    ∃ turn, SetsFlag added turn ∧ ∀ entry ∈ added.take (10 * turn), entry.buffptr = none

theorem Tracks.heldEntries_eq (tracks : history.Tracks added)
    (fullIff : history.buffer.full = true ↔ 10 ≤ added.length) :
    history.buffer.heldEntries = added.rtake 10 := by
  have lengthEq := tracks.stores.length_eq
  have inEq := tracks.stores.inOffs_eq
  have outEq := tracks.outOffs_eq
  by_cases room : added.length < 10
  · have notFull : ¬ history.buffer.full = true := fun full => by
      rw [fullIff] at full
      omega
    rw [if_neg notFull] at outEq
    refine CircularBuffer.heldEntries_of_window (tracks.stores.window.congr ?_) ?_
    · simp only [Nat.ModEq, aesdcharMaxWriteOperationsSupported]
      omega
    · simp only [CircularBuffer.count, if_neg notFull, aesdcharMaxWriteOperationsSupported]
      omega
  · have isFull : history.buffer.full = true := fullIff.mpr (by omega)
    rw [if_pos isFull] at outEq
    refine CircularBuffer.heldEntries_of_window (tracks.stores.window.congr ?_) ?_
    · simp only [Nat.ModEq, aesdcharMaxWriteOperationsSupported]
      omega
    · simp only [CircularBuffer.count, if_pos isFull, aesdcharMaxWriteOperationsSupported]
      omega

/-- What the additions should have returned accounts for every pointer. -/
theorem conserved_of_returned {returned : List (Option Nat)}
    (returnedEq : returned = List.replicate (min added.length 10) none ++
      (added.take (added.length - 10)).map BufferEntry.buffptr) :
    returned.drop 10 ++ (added.rtake 10).map BufferEntry.buffptr =
      added.map BufferEntry.buffptr := by
  have handedBack :
      returned.drop 10 = (added.take (added.length - 10)).map BufferEntry.buffptr := by
    rw [returnedEq]
    by_cases few : added.length < 10
    · rw [Nat.sub_eq_zero_of_le (Nat.le_of_lt few)]
      simp
    · rw [Nat.min_eq_right (by omega), List.drop_left' (List.length_replicate)]
  rw [handedBack, ← List.map_append, take_append_rtake]

theorem Tracks.isFifo (tracks : history.Tracks added)
    (fullIff : history.buffer.full = true ↔ 10 ≤ added.length)
    (returnedEq : history.returned = List.replicate (min added.length 10) none ++
      (added.take (added.length - 10)).map BufferEntry.buffptr) : history.IsFifo added where
  inOffs_lt := tracks.stores.inOffs_lt
  outOffs_lt := by
    rw [tracks.outOffs_eq]
    split
    · exact Nat.mod_lt _ (by decide)
    · decide
  full_iff := fullIff
  heldEntries_eq := tracks.heldEntries_eq fullIff
  returned_eq := returnedEq
  conserved := by
    rw [tracks.heldEntries_eq fullIff]
    exact conserved_of_returned returnedEq

/-- After the flag was set in the turn `turn`, the values returned are right if and
only if only null pointers were overwritten before. -/
theorem returned_eq_iff {turn : Nat} (bound : 10 * (turn + 1) ≤ added.length) :
    List.replicate (10 * (turn + 1)) none ++
        ((added.take (added.length - 10)).drop (10 * turn)).map BufferEntry.buffptr =
      List.replicate (min added.length 10) none ++
        (added.take (added.length - 10)).map BufferEntry.buffptr ↔
      ∀ entry ∈ added.take (10 * turn), entry.buffptr = none := by
  have splitReturned : List.replicate (10 * (turn + 1)) (none : Option Nat) =
      List.replicate 10 none ++ List.replicate (10 * turn) none := by
    rw [← List.replicate_add]
    congr 1
    omega
  have splitAdded : (added.take (added.length - 10)).map BufferEntry.buffptr =
      (added.take (10 * turn)).map BufferEntry.buffptr ++
        ((added.take (added.length - 10)).drop (10 * turn)).map BufferEntry.buffptr := by
    rw [← List.map_append]
    congr 1
    conv_lhs => rw [← List.take_append_drop (10 * turn) (added.take (added.length - 10))]
    rw [List.take_take, Nat.min_eq_left (by omega)]
  rw [splitReturned, Nat.min_eq_right (show 10 ≤ added.length by omega), List.append_assoc,
    List.append_cancel_left_eq]
  conv_lhs =>
    rhs
    rw [splitAdded]
  rw [List.append_cancel_right_eq, eq_comm, List.eq_replicate_iff]
  simp only [List.length_map, List.length_take, List.mem_map, forall_exists_index, and_imp,
    forall_apply_eq_imp_iff₂]
  constructor
  · rintro ⟨_, unset⟩
    exact unset
  · intro unset
    exact ⟨by omega, unset⟩

theorem Tracks.isFifo_iff (tracks : history.Tracks added) :
    history.IsFifo added ↔ FlagInTime added := by
  have returns := tracks.returns
  cases full : history.buffer.full with
  | false =>
      have notFull : ¬ history.buffer.full = true := by simp [full]
      rw [full] at returns
      generalize returnedEq : history.returned = returned at returns
      cases returns with
      | filling never =>
          constructor
          · intro isFifo
            apply Or.inl
            by_contra many
            exact notFull (isFifo.full_iff.mpr (by omega))
          · rintro (few | ⟨turn, sets, _⟩)
            · refine tracks.isFifo ?_ ?_
              · constructor
                · exact fun isFull => absurd isFull notFull
                · intro many
                  omega
              · rw [returnedEq, Nat.min_eq_left (by omega),
                  Nat.sub_eq_zero_of_le (Nat.le_of_lt few)]
                simp
            · exact absurd sets (never turn)
  | true =>
      rw [full] at returns
      generalize returnedEq : history.returned = returned at returns
      cases returns with
      | full turn sets earliest =>
          have bound := sets.1
          constructor
          · intro isFifo
            have expected := isFifo.returned_eq
            rw [returnedEq] at expected
            exact Or.inr ⟨turn, sets, (returned_eq_iff bound).mp expected⟩
          · rintro (few | ⟨other, setsOther, unset⟩)
            · omega
            · have before : turn ≤ other := by
                by_contra later
                exact earliest other (by omega) setsOther
              refine tracks.isFifo ?_ ?_
              · constructor
                · intro _
                  omega
                · exact fun _ => full
              · rw [returnedEq, returned_eq_iff bound]
                intro entry member
                apply unset entry
                exact (List.take_prefix_take_left (by omega)).subset member

end FifoHistory

/-- For every sequence of additions, with entries of any size: the buffer has been a
queue of the last ten entries if and only if the flag was set in time. -/
theorem addEntry_isFifo_iff (added : List BufferEntry) :
    ∃ history, exec FifoHistory.add added FifoHistory.start = some history ∧
      (history.IsFifo added ↔ FifoHistory.FlagInTime added) := by
  obtain ⟨history, executed, tracks⟩ := FifoHistory.tracks_of_add added
  exact ⟨history, executed, tracks.isFifo_iff⟩

/-- After ten additions, the first one of an empty string, the flag is not set, and
the eleventh overwrites an entry without handing back its pointer. -/
theorem addEntry_empty_string :
    let added : List BufferEntry :=
      ⟨some 0, 0⟩ :: (List.range 9).map fun index => ⟨some (index + 1), 1⟩
    (∃ history, exec FifoHistory.add added FifoHistory.start = some history ∧
      history.buffer.full = false ∧ ¬ history.IsFifo added) ∧
    ∃ history, exec FifoHistory.add (added ++ [⟨some 10, 1⟩]) FifoHistory.start = some history ∧
      history.returned.getLast? = some none := by
  refine ⟨⟨_, rfl, rfl, ?_⟩, _, rfl, rfl⟩
  intro isFifo
  exact absurd (isFifo.full_iff.mpr (by decide)) (by decide)

/-! ## The offset search -/

namespace CircularBuffer

/-- Byte `charOffset` of the held entries laid end to end is byte `offset` of the
entry with index `index`. -/
def Locates (buffer : CircularBuffer) (charOffset index offset : Nat) : Prop :=
  ∃ entry, buffer.heldEntries[index]? = some entry ∧ offset < entry.size ∧
    ((buffer.heldEntries.map BufferEntry.size).take index).sum + offset = charOffset

/-- The offset search inverts concatenation. -/
structure SearchInverts (buffer : CircularBuffer) : Prop where
  /-- Behind the end nothing is found, and nothing is stored. -/
  none_iff : ∀ charOffset,
    aesdCircularBufferFindEntryOffsetForFpos buffer charOffset = .ok none ↔
      (buffer.heldEntries.map BufferEntry.size).sum ≤ charOffset
  /-- Every position before the end lies in one entry, at one offset. -/
  existsUnique : ∀ charOffset, charOffset < (buffer.heldEntries.map BufferEntry.size).sum →
    ∃! place : Nat × Nat, buffer.Locates charOffset place.1 place.2
  /-- The search returns the slot of this entry and stores this offset. -/
  find_eq : ∀ charOffset index offset, buffer.Locates charOffset index offset →
    aesdCircularBufferFindEntryOffsetForFpos buffer charOffset =
      .ok (some ((buffer.outOffs + index) % 10, offset))
  slot_eq : ∀ index entry, buffer.heldEntries[index]? = some entry →
    buffer.entryAt ((buffer.outOffs + index) % 10 : Nat) = .ok entry

variable {buffer : CircularBuffer} {held : List BufferEntry} {total : Nat}

theorem Represents.locates_iff (rep : buffer.Represents held total)
    {charOffset index offset : Nat} :
    buffer.Locates charOffset index offset ↔
      locate (held.map BufferEntry.size) charOffset = some (index, offset) := by
  rw [Locates, rep.heldEntries_eq, locate_eq_some_iff]
  constructor
  · rintro ⟨entry, entryEq, inside, sumEq⟩
    exact ⟨entry.size, by simp [entryEq], inside, sumEq⟩
  · rintro ⟨size, sizeEq, inside, sumEq⟩
    rw [List.getElem?_map, Option.map_eq_some_iff] at sizeEq
    obtain ⟨entry, entryEq, rfl⟩ := sizeEq
    exact ⟨entry, entryEq, inside, sumEq⟩

theorem Represents.searchInverts (rep : buffer.Represents held total)
    (bound : (held.map BufferEntry.size).sum < 2 ^ 64) : buffer.SearchInverts where
  none_iff charOffset := by
    rw [rep.find_eq bound, rep.heldEntries_eq, ← locate_eq_none_iff]
    cases locate (held.map BufferEntry.size) charOffset <;> simp
  existsUnique charOffset inside := by
    rw [rep.heldEntries_eq] at inside
    cases found : locate (held.map BufferEntry.size) charOffset with
    | none =>
        rw [locate_eq_none_iff] at found
        omega
    | some place =>
        refine ⟨place, rep.locates_iff.mpr found, ?_⟩
        intro other locates
        have foundOther := rep.locates_iff.mp locates
        rw [found] at foundOther
        exact (Option.some.inj foundOther).symm
  find_eq charOffset index offset locates := by
    rw [rep.find_eq bound, rep.locates_iff.mp locates]
    rfl
  slot_eq index entry entryEq := by
    rw [rep.heldEntries_eq] at entryEq
    exact rep.entryAt_held index entryEq

end CircularBuffer

/-- Additions of entries of positive size keep the buffer in step with the queue. -/
theorem FifoHistory.represents_of_add {added : List BufferEntry}
    (positive : ∀ entry ∈ added, entry.size ≠ 0) :
    ∃ history, exec FifoHistory.add added FifoHistory.start = some history ∧
      history.buffer.Represents (added.rtake 10) added.length := by
  induction added using List.reverseRecOn with
  | nil => exact ⟨start, rfl, CircularBuffer.Represents.init⟩
  | append_singleton added entry ih =>
      obtain ⟨history, executed, rep⟩ := ih fun other member => positive other (by simp [member])
      obtain ⟨retPtr, buffer, returned, rep'⟩ := rep.addEntry (positive entry (by simp))
      rw [push_rtake] at rep'
      have added : FifoHistory.add entry history = some ⟨buffer, history.returned ++ [retPtr]⟩ := by
        simp only [FifoHistory.add, returned]
      exact ⟨_, (exec_concat_eq_some_iff _ _ _ _ _).mpr ⟨history, executed, added⟩,
        by simpa using rep'⟩

/-- After any additions of entries of positive size the offset search inverts
concatenation, provided the held sizes fit in a `size_t`. -/
theorem find_inverts {added : List BufferEntry} (positive : ∀ entry ∈ added, entry.size ≠ 0) :
    ∃ history, exec FifoHistory.add added FifoHistory.start = some history ∧
      ((history.buffer.heldEntries.map BufferEntry.size).sum < 2 ^ 64 →
        history.buffer.SearchInverts) := by
  obtain ⟨history, executed, rep⟩ := FifoHistory.represents_of_add positive
  refine ⟨history, executed, ?_⟩
  intro bound
  rw [rep.heldEntries_eq] at bound
  exact rep.searchInverts bound

/-- Eleven additions, so that the search begins in slot one. -/
theorem find_inverts_eleven :
    let added : List BufferEntry := (List.range 11).map fun index => ⟨some index, index + 1⟩
    ∃ history, exec FifoHistory.add added FifoHistory.start = some history ∧
      history.buffer.SearchInverts := by
  have positive : ∀ entry ∈
      (List.range 11).map fun index => (⟨some index, index + 1⟩ : BufferEntry),
      entry.size ≠ 0 := by
    intro entry member
    obtain ⟨index, _, rfl⟩ := List.mem_map.mp member
    exact Nat.succ_ne_zero index
  obtain ⟨history, executed, inverts⟩ := find_inverts positive
  refine ⟨history, executed, inverts ?_⟩
  cases executed
  decide

end Aesd.Driver
