import Aesd.Memory.Core

/-!
# Singly linked lists on a heap

The `SLIST` macros of `sys/queue.h`: a head with the first pointer, and elements
that are heap blocks of their own and hold the pointer to the next one.  An
element stays where it is when it is unlinked, and is freed on its own.

`Represents slist entries others` says that the list consists of `entries`, in
this order, and that the heap has the blocks `others` besides.  Each operation
has one rule that says what it does to both.
-/

namespace Aesd.Memory

universe u

/-- An element: the data of the user and the field `sle_next`. -/
structure Element (α : Type u) where
  value : α
  sleNext : Option Nat

/-- The head of a list and the heap its elements are on. -/
structure Slist (α : Type u) where
  heap : Heap (Element α)
  slhFirst : Option Nat

namespace Slist

variable {α : Type u}

/-- Read an element; defined for a live block only. -/
def get (slist : Slist α) (ptr : Nat) : Option (Element α) :=
  (slist.heap.load ptr 0 1).bind List.head?

/-- Assign the field `sle_next` of an element. -/
def setNext (slist : Slist α) (ptr : Nat) (sleNext : Option Nat) : Option (Slist α) :=
  (slist.get ptr).bind fun element =>
    (slist.heap.store ptr 0 [{ element with sleNext := sleNext }]).map fun heap =>
      { slist with heap := heap }

/-- The search for the element in front of `elm`.  A walk that is longer than the
number of pointers handed out has no end. -/
def findBefore (slist : Slist α) (elm : Nat) : Nat → Option Nat → Option Nat
  | 0, _ => none
  | _ + 1, none => none
  | fuel + 1, some curelm =>
      (slist.get curelm).bind fun element =>
        if element.sleNext = some elm then
          some curelm
        else
          slist.findBefore elm fuel element.sleNext

/-- `SLIST_REMOVE`, in the first case `SLIST_REMOVE_HEAD` -/
def remove (slist : Slist α) (elm : Nat) : Option (Slist α) :=
  if slist.slhFirst = some elm then
    (slist.get elm).map fun element => { slist with slhFirst := element.sleNext }
  else
    (slist.findBefore elm slist.heap.next slist.slhFirst).bind fun curelm =>
      (slist.get elm).bind fun element => slist.setNext curelm element.sleNext

/-- `free` of an element. -/
def free (slist : Slist α) (ptr : Nat) : Option (Slist α) :=
  (slist.heap.free ptr).map fun heap => { slist with heap := heap }

/-! ## Representation -/

/-- The pointer to the first of `entries`, which are followed by `last`. -/
def firstOf (entries : List (Nat × α)) (last : Option Nat) : Option Nat :=
  match entries with
  | [] => last
  | (ptr, _) :: _ => some ptr

/-- The blocks of `entries`, each linked to the next and the last one to `last`. -/
def segment : List (Nat × α) → Option Nat → List (Nat × List (Element α))
  | [], _ => []
  | (ptr, value) :: entries, last =>
      (ptr, [⟨value, firstOf entries last⟩]) :: segment entries last

/-- The list consists of `entries`; the heap has the blocks `others` besides. -/
structure Represents (slist : Slist α) (entries : List (Nat × α))
    (others : List (Nat × List (Element α))) : Prop where
  slhFirst : slist.slhFirst = firstOf entries none
  owns : slist.heap.Owns (segment entries none ++ others)

@[simp]
theorem firstOf_cons (ptr : Nat) (value : α) (entries : List (Nat × α)) (last : Option Nat) :
    firstOf ((ptr, value) :: entries) last = some ptr :=
  rfl

theorem firstOf_append (entries after : List (Nat × α)) (last : Option Nat) :
    firstOf (entries ++ after) last = firstOf entries (firstOf after last) := by
  cases entries <;> rfl

theorem segment_append (entries after : List (Nat × α)) (last : Option Nat) :
    segment (entries ++ after) last =
      segment entries (firstOf after last) ++ segment after last := by
  induction entries with
  | nil => rfl
  | cons entry entries ih =>
      simp only [List.cons_append, segment, firstOf_append, ih]

@[simp]
theorem map_fst_segment (entries : List (Nat × α)) (last : Option Nat) :
    (segment entries last).map Prod.fst = entries.map Prod.fst := by
  induction entries with
  | nil => rfl
  | cons entry entries ih => simp [segment, ih]

/-- The blocks of a list, with one of its elements taken to the front. -/
theorem segment_perm_middle {before after : List (Nat × α)} {ptr : Nat} {value : α}
    {last : Option Nat} {others : List (Nat × List (Element α))} :
    (segment (before ++ (ptr, value) :: after) last ++ others).Perm
      ((ptr, [⟨value, firstOf after last⟩]) ::
        (segment before (some ptr) ++ (segment after last ++ others))) := by
  rw [segment_append, List.append_assoc]
  exact List.perm_middle

/-- The element behind another one is not the first. -/
theorem firstOf_ne {before after : List (Nat × α)} {ptr elm : Nat} {value target : α}
    {last : Option Nat}
    (nodup : ((before ++ (ptr, value) :: (elm, target) :: after).map Prod.fst).Nodup) :
    firstOf (before ++ (ptr, value) :: (elm, target) :: after) last ≠ some elm := by
  intro equal
  cases before with
  | nil =>
      obtain rfl := Option.some.inj equal
      simp at nodup
  | cons first before =>
      obtain rfl := Option.some.inj equal
      simp at nodup

namespace Represents

variable {slist : Slist α} {entries before after : List (Nat × α)}
  {others : List (Nat × List (Element α))} {ptr : Nat} {value : α} {element : Element α}

theorem nodup (rep : slist.Represents entries others) : (entries.map Prod.fst).Nodup := by
  have nodup := rep.owns.nodup
  rw [List.map_append, map_fst_segment] at nodup
  exact nodup.of_append_left

/-- There are at most as many elements as pointers have been handed out. -/
theorem length_le (rep : slist.Represents entries others) : entries.length ≤ slist.heap.next := by
  have bounded : entries.map Prod.fst ⊆ List.range slist.heap.next := by
    intro ptr member
    have listed : ptr ∈ (segment entries none ++ others).map Prod.fst := by
      rw [List.map_append, map_fst_segment]
      exact List.mem_append_left _ member
    obtain ⟨⟨_, contents⟩, cell, rfl⟩ := List.mem_map.mp listed
    exact List.mem_range.mpr (Heap.lt_next (rep.owns.block_of_mem cell))
  simpa using (List.subperm_of_subset rep.nodup bounded).length_le

/-- A block that holds one element can be read. -/
theorem get_of_mem (rep : slist.Represents entries others)
    (member : (ptr, [element]) ∈ segment entries none ++ others) :
    slist.get ptr = some element := by
  rw [get, rep.owns.load member (Nat.le_refl 1)]
  rfl

theorem get_middle (rep : slist.Represents (before ++ (ptr, value) :: after) others) :
    slist.get ptr = some ⟨value, firstOf after none⟩ := by
  apply rep.get_of_mem
  exact segment_perm_middle.mem_iff.mpr List.mem_cons_self

/-- A pointer to no block cannot be used. -/
theorem get_eq_none (rep : slist.Represents entries others)
    (absent : ptr ∉ (segment entries none ++ others).map Prod.fst) : slist.get ptr = none := by
  have dead : slist.heap.block ptr = none := by
    rw [← Option.not_isSome_iff_eq_none, rep.owns.isSome_block_iff]
    exact absent
  simp [get, Heap.load, dead]

/-- `free` takes an unlinked element out of the heap, and its pointer is of no use any
more. -/
theorem free (rep : slist.Represents entries ((ptr, [element]) :: others)) :
    ∃ slist', slist.free ptr = some slist' ∧ slist'.Represents entries others ∧
      slist'.get ptr = none := by
  have moved := rep.owns.perm List.perm_middle
  obtain ⟨heap, freed, owns⟩ := moved.free
  refine ⟨{ slist with heap := heap }, ?_, ⟨rep.slhFirst, owns⟩, ?_⟩
  · simp [Slist.free, freed]
  · have rep' : Represents { slist with heap := heap } entries others := ⟨rep.slhFirst, owns⟩
    exact rep'.get_eq_none (List.nodup_cons.mp moved.nodup).1

theorem setNext_of_owns (owns : slist.heap.Owns ((ptr, [element]) :: others))
    (sleNext : Option Nat) :
    ∃ slist', slist.setNext ptr sleNext = some slist' ∧ slist'.slhFirst = slist.slhFirst ∧
      slist'.heap.Owns ((ptr, [{ element with sleNext := sleNext }]) :: others) := by
  have read : slist.get ptr = some element := by
    rw [get, owns.load List.mem_cons_self (Nat.le_refl 1)]
    rfl
  have fits : 0 + [{ element with sleNext := sleNext }].length ≤ [element].length := Nat.le_refl 1
  obtain ⟨heap, stored, owns'⟩ := owns.store fits
  refine ⟨{ slist with heap := heap }, ?_, rfl, by simpa using owns'⟩
  simp [setNext, read, stored]

/-- The search walks over `middle` and stops in front of `elm`, which no element before
is linked to. -/
theorem findBefore_eq {middle : List (Nat × α)} {elm : Nat} {target : α}
    (rep : slist.Represents (before ++ (middle ++ (ptr, value) :: (elm, target) :: after)) others)
    {fuel : Nat} (enough : middle.length < fuel) :
    slist.findBefore elm fuel (firstOf (middle ++ (ptr, value) :: (elm, target) :: after) none) =
      some ptr := by
  induction middle generalizing before fuel with
  | nil =>
      obtain ⟨fuel, rfl⟩ := Nat.exists_eq_succ_of_ne_zero (Nat.ne_zero_of_lt enough)
      simp [findBefore, rep.get_middle]
  | cons entry middle ih =>
      obtain ⟨other, otherValue⟩ := entry
      obtain ⟨fuel, rfl⟩ := Nat.exists_eq_succ_of_ne_zero (Nat.ne_zero_of_lt enough)
      have read : slist.get other =
          some ⟨otherValue, firstOf (middle ++ (ptr, value) :: (elm, target) :: after) none⟩ :=
        rep.get_middle
      have rep' : slist.Represents
          ((before ++ [(other, otherValue)]) ++
            (middle ++ (ptr, value) :: (elm, target) :: after)) others := by
        simpa using rep
      have goesOn : firstOf (middle ++ (ptr, value) :: (elm, target) :: after) none ≠ some elm := by
        have nodup := rep'.nodup
        rw [List.map_append] at nodup
        exact firstOf_ne nodup.of_append_right
      have later := ih rep' (Nat.lt_of_succ_lt_succ enough)
      rw [List.cons_append, firstOf_cons, findBefore, read, Option.bind_some, if_neg goesOn]
      exact later

/-- `SLIST_REMOVE` takes an element out of the list and leaves its block alone. -/
theorem remove (rep : slist.Represents (before ++ (ptr, value) :: after) others) :
    ∃ slist', slist.remove ptr = some slist' ∧
      slist'.Represents (before ++ after) ((ptr, [⟨value, firstOf after none⟩]) :: others) := by
  have read := rep.get_middle
  rcases List.eq_nil_or_concat before with rfl | ⟨before, ⟨last, lastValue⟩, rfl⟩
  · refine ⟨{ slist with slhFirst := firstOf after none }, ?_, rfl, ?_⟩
    · have isFirst : slist.slhFirst = some ptr := rep.slhFirst
      simp [Slist.remove, isFirst, read]
    · exact rep.owns.perm List.perm_middle.symm
  · rw [List.concat_eq_append, List.append_assoc, List.singleton_append] at rep ⊢
    have notFirst : slist.slhFirst ≠ some ptr := rep.slhFirst ▸ firstOf_ne rep.nodup
    have enough : before.length < slist.heap.next := by
      have bound := rep.length_le
      simp only [List.length_append, List.length_cons] at bound
      omega
    have found := findBefore_eq (show slist.Represents ([] ++ _) others from rep) enough
    obtain ⟨slist', stored, sameFirst, owns⟩ :=
      setNext_of_owns (rep.owns.perm segment_perm_middle) (firstOf after none)
    refine ⟨slist', ?_, ?_, ?_⟩
    · rw [Slist.remove, if_neg notFirst, rep.slhFirst, found]
      simp [read, stored]
    · rw [sameFirst, rep.slhFirst, firstOf_append, firstOf_append]
      rfl
    · refine owns.perm (List.Perm.trans ?_ segment_perm_middle.symm)
      refine List.Perm.cons _ (List.Perm.append_left _ ?_)
      exact List.perm_middle.symm

end Represents

end Slist

end Aesd.Memory
