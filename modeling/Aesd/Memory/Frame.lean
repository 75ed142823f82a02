import Aesd.Memory.Core
import Mathlib.Data.Multiset.UnionInter

/-!
# Heaps with a frame

`Joins rest frame whole` says that the heap `whole` consists of `rest` and the
blocks `frame`, about which `rest` knows nothing.  Each operation that is defined
on `rest` does the same on `whole` and leaves the frame alone.  Both heaps hand
out the same pointers.
-/

namespace Aesd.Memory.Heap

universe u

variable {α : Type u}

/-- Only live blocks are freed. -/
theorem exists_of_free {heap heap' : Heap α} {ptr : Nat} (freed : heap.free ptr = some heap') :
    ∃ contents, ∃ live : heap.block ptr = some contents,
      heap' = heap.set ptr none (lt_next live) := by
  unfold free at freed
  split at freed
  · contradiction
  · next contents live => exact ⟨contents, live, (Option.some.inj freed).symm⟩

/-- Only live blocks are written to. -/
theorem exists_of_store {heap heap' : Heap α} {ptr offset : Nat} {data : List α}
    (stored : heap.store ptr offset data = some heap') :
    ∃ contents, ∃ live : heap.block ptr = some contents,
      offset + data.length ≤ contents.length ∧
        heap' = heap.set ptr
          (some (contents.take offset ++ data ++ contents.drop (offset + data.length)))
          (lt_next live) := by
  unfold store at stored
  split at stored
  · contradiction
  · next contents live =>
      split at stored
      · next inside => exact ⟨contents, live, inside, (Option.some.inj stored).symm⟩
      · contradiction

/-- A heap split into two parts. -/
structure Joins (rest : Heap α) (frame : Multiset (Nat × List α)) (whole : Heap α) : Prop where
  next_eq : whole.next = rest.next
  nodup : (frame.map Prod.fst).Nodup
  disjoint : ∀ cell ∈ frame, rest.block cell.1 = none
  block_eq_some_iff : ∀ ptr contents, whole.block ptr = some contents ↔
    rest.block ptr = some contents ∨ (ptr, contents) ∈ frame

namespace Joins

variable {rest whole rest' : Heap α} {frame : Multiset (Nat × List α)} {ptr : Nat}
  {contents : List α}

theorem zero_iff : Joins rest 0 whole ↔ whole = rest := by
  constructor
  · intro joins
    refine Heap.ext ?_ joins.next_eq
    funext ptr
    apply Option.ext
    intro contents
    simp [joins.block_eq_some_iff]
  · rintro rfl
    exact ⟨rfl, by simp, by simp, by simp⟩

/-- Blocks of the frame are apart from the rest. -/
theorem not_mem_of_live (joins : Joins rest frame whole) (live : rest.block ptr = some contents)
    (other : List α) : (ptr, other) ∉ frame := by
  intro member
  rw [joins.disjoint _ member] at live
  contradiction

theorem block_of_rest (joins : Joins rest frame whole) (live : rest.block ptr = some contents) :
    whole.block ptr = some contents :=
  (joins.block_eq_some_iff ptr contents).mpr (Or.inl live)

theorem alloc (joins : Joins rest frame whole) (contents : List α) :
    Joins (rest.alloc contents) frame (whole.alloc contents) where
  next_eq := by simp only [Heap.alloc, joins.next_eq]
  nodup := joins.nodup
  disjoint cell member := by
    have live : whole.block cell.1 = some cell.2 :=
      (joins.block_eq_some_iff _ _).mpr (Or.inr member)
    have bound := lt_next live
    rw [joins.next_eq] at bound
    simp only [Heap.alloc]
    rw [Function.update_of_ne (Nat.ne_of_lt bound), joins.disjoint cell member]
  block_eq_some_iff ptr other := by
    simp only [Heap.alloc, joins.next_eq]
    by_cases fresh : ptr = rest.next
    · subst ptr
      have notMem : (rest.next, other) ∉ frame := by
        intro member
        have live : whole.block rest.next = some other :=
          (joins.block_eq_some_iff _ _).mpr (Or.inr member)
        have bound := lt_next live
        rw [joins.next_eq] at bound
        exact absurd bound (Nat.lt_irrefl _)
      simp [notMem]
    · simp [fresh, joins.block_eq_some_iff]

/-- Replacing a block of the rest. -/
theorem set (joins : Joins rest frame whole) (live : rest.block ptr = some contents)
    (replacement : Option (List α)) :
    Joins (rest.set ptr replacement (lt_next live)) frame
      (whole.set ptr replacement (lt_next (joins.block_of_rest live))) where
  next_eq := joins.next_eq
  nodup := joins.nodup
  disjoint cell member := by
    have differs : cell.1 ≠ ptr := by
      rintro rfl
      exact joins.not_mem_of_live live _ member
    simp only [Heap.set]
    rw [Function.update_of_ne differs, joins.disjoint cell member]
  block_eq_some_iff other otherContents := by
    simp only [Heap.set]
    by_cases same : other = ptr
    · subst other
      simp [joins.not_mem_of_live live]
    · simp [same, joins.block_eq_some_iff]

/-- Freeing a block of the rest. -/
theorem free (joins : Joins rest frame whole) (freed : rest.free ptr = some rest') :
    ∃ whole', whole.free ptr = some whole' ∧ Joins rest' frame whole' := by
  obtain ⟨contents, live, rfl⟩ := exists_of_free freed
  exact ⟨_, free_of_live (joins.block_of_rest live), joins.set live none⟩

theorem load (joins : Joins rest frame whole) {offset length : Nat} {cells : List α}
    (loaded : rest.load ptr offset length = some cells) :
    whole.load ptr offset length = some cells := by
  unfold Heap.load at loaded ⊢
  obtain ⟨contents, live, read⟩ := Option.bind_eq_some_iff.mp loaded
  rw [joins.block_of_rest live]
  exact read

/-- Overwriting a block of the rest. -/
theorem store (joins : Joins rest frame whole) {offset : Nat} {data : List α}
    (stored : rest.store ptr offset data = some rest') :
    ∃ whole', whole.store ptr offset data = some whole' ∧ Joins rest' frame whole' := by
  obtain ⟨contents, live, inside, rfl⟩ := exists_of_store stored
  exact ⟨_, store_of_live (joins.block_of_rest live) inside, joins.set live _⟩

/-! ## Frames come and go -/

/-- A block that is freed was a frame of what is left. -/
theorem of_free (freed : rest.free ptr = some rest') :
    ∃ contents, Joins rest' {(ptr, contents)} rest := by
  obtain ⟨contents, live, rfl⟩ := exists_of_free freed
  refine ⟨contents, rfl, by simp, ?_, ?_⟩
  · intro cell member
    obtain rfl := Multiset.mem_singleton.mp member
    simp [Heap.set]
  · intro other otherContents
    rw [Multiset.mem_singleton]
    by_cases same : other = ptr
    · subst other
      simp [Heap.set, live, eq_comm]
    · simp [Heap.set, same]

/-- Freeing the frame leaves the rest. -/
theorem free_frame (joins : Joins rest {(ptr, contents)} whole) :
    whole.free ptr = some rest := by
  have live : whole.block ptr = some contents :=
    (joins.block_eq_some_iff _ _).mpr (Or.inr (Multiset.mem_singleton_self _))
  rw [free_of_live live]
  congr 1
  refine Heap.ext ?_ joins.next_eq
  funext other
  by_cases same : other = ptr
  · subst other
    simpa [Heap.set] using (joins.disjoint _ (Multiset.mem_singleton_self _)).symm
  · apply Option.ext
    intro otherContents
    simp [Heap.set, same, joins.block_eq_some_iff]

/-- The heap without the listed blocks. -/
def without (whole : Heap α) (frame : Multiset (Nat × List α)) : Heap α where
  block ptr := if ptr ∈ frame.map Prod.fst then none else whole.block ptr
  next := whole.next
  fresh ptr above := by
    split
    · rfl
    · exact whole.fresh ptr above

/-- Two frames are joined one after the other. -/
theorem add_iff {first second : Multiset (Nat × List α)} :
    Joins rest (first + second) whole ↔
      ∃ middle, Joins rest first middle ∧ Joins middle second whole := by
  constructor
  · intro joins
    have nodup := joins.nodup
    rw [Multiset.map_add, Multiset.nodup_add, Multiset.disjoint_left] at nodup
    obtain ⟨nodupFirst, nodupSecond, apart⟩ := nodup
    refine ⟨without whole second, ⟨joins.next_eq, nodupFirst, ?_, ?_⟩, ⟨rfl, nodupSecond, ?_, ?_⟩⟩
    · intro cell member
      exact joins.disjoint cell (Multiset.mem_add.mpr (Or.inl member))
    · intro ptr contents
      by_cases listed : ptr ∈ second.map Prod.fst
      · have notFirst : (ptr, contents) ∉ first := fun member =>
          apart (Multiset.mem_map_of_mem Prod.fst member) listed
        obtain ⟨cell, member, rfl⟩ := Multiset.mem_map.mp listed
        have notRest := joins.disjoint cell (Multiset.mem_add.mpr (Or.inr member))
        simp [without, listed, notFirst, notRest]
      · have notSecond : (ptr, contents) ∉ second := fun member =>
          listed (Multiset.mem_map_of_mem Prod.fst member)
        simp [without, listed, notSecond, joins.block_eq_some_iff]
    · intro cell member
      simp only [without, if_pos (Multiset.mem_map_of_mem Prod.fst member)]
    · intro ptr contents
      by_cases listed : ptr ∈ second.map Prod.fst
      · have notFirst : (ptr, contents) ∉ first := fun member =>
          apart (Multiset.mem_map_of_mem Prod.fst member) listed
        obtain ⟨cell, member, rfl⟩ := Multiset.mem_map.mp listed
        have notRest := joins.disjoint cell (Multiset.mem_add.mpr (Or.inr member))
        simp [without, listed, notFirst, notRest, joins.block_eq_some_iff]
      · have notSecond : (ptr, contents) ∉ second := fun member =>
          listed (Multiset.mem_map_of_mem Prod.fst member)
        simp [without, listed, notSecond]
  · rintro ⟨middle, joinsFirst, joinsSecond⟩
    refine ⟨joinsSecond.next_eq.trans joinsFirst.next_eq, ?_, ?_, ?_⟩
    · rw [Multiset.map_add, Multiset.nodup_add, Multiset.disjoint_left]
      refine ⟨joinsFirst.nodup, joinsSecond.nodup, ?_⟩
      intro ptr inFirst inSecond
      obtain ⟨cell, member, rfl⟩ := Multiset.mem_map.mp inFirst
      obtain ⟨other, otherMember, same⟩ := Multiset.mem_map.mp inSecond
      have live := (joinsFirst.block_eq_some_iff cell.1 cell.2).mpr (Or.inr member)
      rw [← same, joinsSecond.disjoint other otherMember] at live
      contradiction
    · intro cell member
      rcases Multiset.mem_add.mp member with inFirst | inSecond
      · exact joinsFirst.disjoint cell inFirst
      · cases live : rest.block cell.1 with
        | none => rfl
        | some contents =>
            have dead := joinsSecond.disjoint cell inSecond
            rw [joinsFirst.block_of_rest live] at dead
            contradiction
    · intro ptr contents
      rw [joinsSecond.block_eq_some_iff, joinsFirst.block_eq_some_iff, Multiset.mem_add, or_assoc]

end Joins

end Aesd.Memory.Heap
