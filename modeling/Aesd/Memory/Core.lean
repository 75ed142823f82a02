import Mathlib.Data.List.Nodup
import Mathlib.Data.List.Perm.Basic
import Mathlib.Logic.Function.Basic

/-!
# A heap of separately allocated blocks

A heap maps the pointers of its live blocks to their contents.  Pointers are
handed out in increasing order and never reused, so that an access through a
pointer whose block has been freed is undefined rather than an access to some
later block.  The structure carries this as a field: no pointer at or above
`next` is live.

`Owns heap cells` lists the live blocks exactly.  Each operation has one rule
that says what it does to the list; programs over the heap are verified with
these rules and never by looking at the map.
-/

namespace Aesd.Memory

universe u

/-- Live blocks with their contents, and the next pointer to be handed out.
Pointers are natural numbers; a null pointer is represented by its user as the
`none` of an `Option Nat`. -/
structure Heap (α : Type u) where
  block : Nat → Option (List α)
  next : Nat
  fresh : ∀ ptr, next ≤ ptr → block ptr = none

namespace Heap

variable {α : Type u}

/-- The heap without live blocks. -/
def empty : Heap α where
  block _ := none
  next := 0
  fresh _ _ := rfl

/-- Allocate a block with the given contents.  Its pointer is `heap.next`. -/
def alloc (heap : Heap α) (contents : List α) : Heap α where
  block := Function.update heap.block heap.next (some contents)
  next := heap.next + 1
  fresh ptr bound := by
    rw [Function.update_of_ne (by omega)]
    exact heap.fresh ptr (by omega)

/-- Replace the contents of a block, or remove it; the pointer must be below
`next`. -/
def set (heap : Heap α) (ptr : Nat) (contents : Option (List α))
    (bound : ptr < heap.next) : Heap α where
  block := Function.update heap.block ptr contents
  next := heap.next
  fresh other above := by
    rw [Function.update_of_ne (by omega)]
    exact heap.fresh other above

/-- A live pointer is below `next`. -/
theorem lt_next {heap : Heap α} {ptr : Nat} {contents : List α}
    (live : heap.block ptr = some contents) : ptr < heap.next := by
  by_contra above
  rw [heap.fresh ptr (by omega)] at live
  contradiction

/-- The contents of all live blocks. -/
def live (heap : Heap α) : List (List α) :=
  (List.range heap.next).filterMap heap.block

theorem mem_live_iff {heap : Heap α} {contents : List α} :
    contents ∈ heap.live ↔ ∃ ptr, heap.block ptr = some contents := by
  unfold live
  rw [List.mem_filterMap]
  constructor
  · rintro ⟨ptr, _, isLive⟩
    exact ⟨ptr, isLive⟩
  · rintro ⟨ptr, isLive⟩
    exact ⟨ptr, List.mem_range.mpr (lt_next isLive), isLive⟩

/-- Free a live block; freeing anything else is undefined. -/
def free (heap : Heap α) (ptr : Nat) : Option (Heap α) :=
  match live : heap.block ptr with
  | none => none
  | some _ => some (heap.set ptr none (lt_next live))

/-- Read `length` cells from `offset` on; defined inside a live block only. -/
def load (heap : Heap α) (ptr : Nat) (offset length : Nat) : Option (List α) :=
  (heap.block ptr).bind fun contents =>
    if offset + length ≤ contents.length then
      some ((contents.drop offset).take length)
    else
      none

/-- Overwrite the cells from `offset` on; defined inside a live block only. -/
def store (heap : Heap α) (ptr : Nat) (offset : Nat) (data : List α) :
    Option (Heap α) :=
  match live : heap.block ptr with
  | none => none
  | some contents =>
      if offset + data.length ≤ contents.length then
        some (heap.set ptr
          (some (contents.take offset ++ data ++ contents.drop (offset + data.length)))
          (lt_next live))
      else
        none

/-! ## Overwriting fresh memory -/

theorem ext {heap other : Heap α} (blockEq : heap.block = other.block)
    (nextEq : heap.next = other.next) : heap = other := by
  cases heap
  cases other
  cases blockEq
  cases nextEq
  rfl

theorem free_of_live {heap : Heap α} {ptr : Nat} {contents : List α}
    (live : heap.block ptr = some contents) :
    heap.free ptr = some (heap.set ptr none (lt_next live)) := by
  unfold free
  split
  · rename_i dead
    rw [live] at dead
    contradiction
  · rfl

theorem store_of_live {heap : Heap α} {ptr : Nat} {contents : List α}
    (live : heap.block ptr = some contents) {offset : Nat} {data : List α}
    (inside : offset + data.length ≤ contents.length) :
    heap.store ptr offset data = some (heap.set ptr
      (some (contents.take offset ++ data ++ contents.drop (offset + data.length)))
      (lt_next live)) := by
  unfold store
  split
  · rename_i dead
    rw [live] at dead
    contradiction
  · rename_i actual actualLive
    obtain rfl := Option.some.inj (actualLive.symm.trans live)
    rw [if_pos inside]

/-- Once the tail of a new block has been overwritten, what it contained at first
does not matter. -/
theorem store_alloc (heap : Heap α) (head : List α) {tail data : List α}
    (lengthEq : tail.length = data.length) :
    (heap.alloc (head ++ tail)).store heap.next head.length data =
      some (heap.alloc (head ++ data)) := by
  have live : (heap.alloc (head ++ tail)).block heap.next = some (head ++ tail) :=
    Function.update_self _ _ _
  rw [store_of_live live (by simp [lengthEq])]
  congr 1
  apply ext
  · simp [set, alloc, ← lengthEq]
  · rfl

/-- The same when another block is freed in between. -/
theorem store_free_alloc {heap : Heap α} {ptr : Nat} {contents : List α}
    (live : heap.block ptr = some contents) (head : List α) {tail data : List α}
    (lengthEq : tail.length = data.length) :
    ((heap.alloc (head ++ tail)).free ptr).bind
        (fun freed => freed.store heap.next head.length data) =
      (heap.alloc (head ++ data)).free ptr := by
  have ptrNe : ptr ≠ heap.next := Nat.ne_of_lt (lt_next live)
  have liveIn : ∀ block, (heap.alloc block).block ptr = some contents := by
    intro block
    simp [alloc, ptrNe, live]
  have fresh : ((heap.alloc (head ++ tail)).set ptr none (lt_next (liveIn _))).block heap.next =
      some (head ++ tail) := by
    simp [set, alloc, Ne.symm ptrNe]
  rw [free_of_live (liveIn _), free_of_live (liveIn _), Option.bind_some,
    store_of_live fresh (by simp [lengthEq])]
  congr 1
  apply ext
  · simp [set, alloc, ← lengthEq, Function.update_comm ptrNe]
  · rfl

/-! ## Ownership -/

/-- The live blocks of the heap are exactly the listed ones. -/
structure Owns (heap : Heap α) (cells : List (Nat × List α)) : Prop where
  nodup : (cells.map Prod.fst).Nodup
  block_eq_some_iff : ∀ ptr contents,
    heap.block ptr = some contents ↔ (ptr, contents) ∈ cells

namespace Owns

variable {heap : Heap α} {cells rest : List (Nat × List α)} {ptr : Nat}
  {contents : List α}

theorem empty : Owns (Heap.empty : Heap α) [] where
  nodup := List.nodup_nil
  block_eq_some_iff := by simp [Heap.empty]

/-- The order of the list is irrelevant. -/
theorem perm {other : List (Nat × List α)} (owns : Owns heap cells)
    (permuted : cells.Perm other) : Owns heap other where
  nodup := (permuted.map Prod.fst).nodup_iff.mp owns.nodup
  block_eq_some_iff ptr contents := by
    rw [owns.block_eq_some_iff, permuted.mem_iff]

theorem block_of_mem (owns : Owns heap cells) (member : (ptr, contents) ∈ cells) :
    heap.block ptr = some contents :=
  (owns.block_eq_some_iff ptr contents).mpr member

/-- The live pointers are the listed ones. -/
theorem isSome_block_iff (owns : Owns heap cells) :
    (heap.block ptr).isSome = true ↔ ptr ∈ cells.map Prod.fst := by
  rw [Option.isSome_iff_exists, List.mem_map]
  constructor
  · rintro ⟨contents, live⟩
    exact ⟨(ptr, contents), (owns.block_eq_some_iff ptr contents).mp live, rfl⟩
  · rintro ⟨⟨_, contents⟩, member, rfl⟩
    exact ⟨contents, owns.block_of_mem member⟩

/-- The list determines the blocks. -/
theorem block_unique {other : Heap α} (owns : Owns heap cells) (owns' : Owns other cells) :
    heap.block = other.block := by
  funext ptr
  apply Option.ext
  intro contents
  rw [owns.block_eq_some_iff, owns'.block_eq_some_iff]

/-- The next pointer to be handed out is not listed. -/
theorem next_not_mem (owns : Owns heap cells) :
    heap.next ∉ cells.map Prod.fst := by
  intro member
  obtain ⟨⟨ptr, contents⟩, cellMem, rfl⟩ := List.mem_map.mp member
  exact absurd (lt_next (owns.block_of_mem cellMem)) (Nat.lt_irrefl _)

theorem alloc (owns : Owns heap cells) (contents : List α) :
    Owns (heap.alloc contents) ((heap.next, contents) :: cells) where
  nodup := by
    rw [List.map_cons, List.nodup_cons]
    exact ⟨owns.next_not_mem, owns.nodup⟩
  block_eq_some_iff ptr other := by
    by_cases ptrEq : ptr = heap.next
    · subst ptr
      have notMem : (heap.next, other) ∉ cells := fun member =>
        owns.next_not_mem (List.mem_map_of_mem (f := Prod.fst) member)
      simp [Heap.alloc, notMem, eq_comm]
    · simp [Heap.alloc, ptrEq, owns.block_eq_some_iff]

private theorem set_iff (owns : Owns heap ((ptr, contents) :: rest))
    (replacement : Option (List α)) (bound : ptr < heap.next) (other : Nat)
    (otherContents : List α) :
    (heap.set ptr replacement bound).block other = some otherContents ↔
      (other = ptr ∧ replacement = some otherContents) ∨
        (other, otherContents) ∈ rest := by
  have headFresh : ptr ∉ rest.map Prod.fst :=
    (List.nodup_cons.mp owns.nodup).1
  by_cases otherEq : other = ptr
  · subst other
    have notMem : (ptr, otherContents) ∉ rest := fun member =>
      headFresh (List.mem_map_of_mem (f := Prod.fst) member)
    simp [Heap.set, notMem]
  · simp [Heap.set, owns.block_eq_some_iff, otherEq]

theorem free (owns : Owns heap ((ptr, contents) :: rest)) :
    ∃ heap', heap.free ptr = some heap' ∧ Owns heap' rest := by
  have live : heap.block ptr = some contents := owns.block_of_mem List.mem_cons_self
  refine ⟨heap.set ptr none (lt_next live), free_of_live live, ?_⟩
  · constructor
    · exact (List.nodup_cons.mp owns.nodup).2
    · intro other otherContents
      simpa using set_iff owns none (lt_next live) other otherContents

theorem load (owns : Owns heap cells) (member : (ptr, contents) ∈ cells)
    {offset length : Nat} (inside : offset + length ≤ contents.length) :
    heap.load ptr offset length = some ((contents.drop offset).take length) := by
  simp [Heap.load, owns.block_of_mem member, inside]

theorem store (owns : Owns heap ((ptr, contents) :: rest)) {offset : Nat}
    {data : List α} (inside : offset + data.length ≤ contents.length) :
    ∃ heap', heap.store ptr offset data = some heap' ∧
      Owns heap'
        ((ptr, contents.take offset ++ data ++ contents.drop (offset + data.length)) ::
          rest) := by
  have live : heap.block ptr = some contents := owns.block_of_mem List.mem_cons_self
  refine ⟨heap.set ptr
    (some (contents.take offset ++ data ++ contents.drop (offset + data.length)))
    (lt_next live), store_of_live live inside, ?_⟩
  · constructor
    · exact owns.nodup
    · intro other otherContents
      rw [set_iff owns]
      simp [eq_comm]

/-- The contents of the live blocks are the listed ones. -/
theorem live_perm (owns : Owns heap cells) : heap.live.Perm (cells.map Prod.snd) := by
  let pairs := (List.range heap.next).filterMap fun ptr =>
    (heap.block ptr).map fun contents => (ptr, contents)
  have liveEq : heap.live = pairs.map Prod.snd := by
    simp only [pairs, live, List.map_filterMap, Option.map_map]
    congr 1
    funext ptr
    cases heap.block ptr <;> rfl
  have pairsNodup : pairs.Nodup := by
    refine List.nodup_range.filterMap ?_
    intro ptr other pair isPtr isOther
    obtain ⟨_, _, rfl⟩ := Option.map_eq_some_iff.mp isPtr
    obtain ⟨_, _, same⟩ := Option.map_eq_some_iff.mp isOther
    exact (congrArg Prod.fst same).symm
  rw [liveEq]
  refine ((List.perm_ext_iff_of_nodup pairsNodup (List.Nodup.of_map _ owns.nodup)).mpr ?_).map _
  rintro ⟨ptr, contents⟩
  rw [← owns.block_eq_some_iff, List.mem_filterMap]
  constructor
  · rintro ⟨other, _, isOther⟩
    obtain ⟨_, isLive, same⟩ := Option.map_eq_some_iff.mp isOther
    cases same
    exact isLive
  · intro isLive
    exact ⟨ptr, List.mem_range.mpr (lt_next isLive), by rw [isLive]; rfl⟩

end Owns

end Heap

end Aesd.Memory
