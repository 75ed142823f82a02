import Mathlib.Algebra.BigOperators.Group.List.Basic
import Mathlib.Algebra.Order.BigOperators.Group.List
import Mathlib.Algebra.Order.Ring.Nat

/-!
# Positions in a concatenation

A sequence of blocks laid end to end is addressed in two ways: by a position
from the start, and by a block index with an offset inside that block.
`locate` translates the former into the latter.  Blocks of size zero occupy no
position.
-/

namespace Aesd.Word

/-- The block that holds a position, and the offset of the position in it. -/
def locate : List Nat → Nat → Option (Nat × Nat)
  | [], _ => none
  | size :: sizes, position =>
      if position < size then
        some (0, position)
      else
        (locate sizes (position - size)).map fun found => (found.1 + 1, found.2)

@[simp]
theorem locate_nil (position : Nat) : locate [] position = none :=
  rfl

theorem locate_cons (size : Nat) (sizes : List Nat) (position : Nat) :
    locate (size :: sizes) position =
      if position < size then
        some (0, position)
      else
        (locate sizes (position - size)).map fun found => (found.1 + 1, found.2) :=
  rfl

/-- The two ways of addressing agree exactly. -/
theorem locate_eq_some_iff {sizes : List Nat} {position index offset : Nat} :
    locate sizes position = some (index, offset) ↔
      ∃ size, sizes[index]? = some size ∧ offset < size ∧
        (sizes.take index).sum + offset = position := by
  induction sizes generalizing position index with
  | nil => simp
  | cons size sizes ih =>
      rw [locate_cons]
      by_cases inside : position < size
      · rw [if_pos inside]
        cases index with
        | zero => simp; omega
        | succ index =>
            simp only [Option.some.injEq, Prod.mk.injEq, Nat.right_eq_add, Nat.add_eq_zero_iff,
              Nat.succ_ne_self, and_false, false_and, List.take_succ_cons, List.sum_cons,
              false_iff, not_exists, not_and]
            omega
      · rw [if_neg inside]
        cases index with
        | zero => simp; omega
        | succ index =>
            simp only [Option.map_eq_some_iff, Prod.exists, Prod.mk.injEq,
              Nat.add_right_cancel_iff, List.getElem?_cons_succ, List.take_succ_cons,
              List.sum_cons]
            constructor
            · rintro ⟨i, o, found, rfl, rfl⟩
              obtain ⟨found, sizeEq, bound, sumEq⟩ := ih.mp found
              exact ⟨found, sizeEq, bound, by omega⟩
            · rintro ⟨found, sizeEq, bound, sumEq⟩
              exact ⟨index, offset, ih.mpr ⟨found, sizeEq, bound, by omega⟩, rfl, rfl⟩

/-- A position is outside exactly when it is at or behind the end. -/
theorem locate_eq_none_iff {sizes : List Nat} {position : Nat} :
    locate sizes position = none ↔ sizes.sum ≤ position := by
  induction sizes generalizing position with
  | nil => simp
  | cons size sizes ih =>
      rw [locate_cons, List.sum_cons]
      by_cases inside : position < size
      · simp [inside]; omega
      · rw [if_neg inside, Option.map_eq_none_iff, ih]
        omega

/-- What is left of a concatenation behind a located position: the rest of the
block found, then the later blocks. -/
theorem drop_flatten_of_locate {α : Type*} {words : List (List α)}
    {position index offset : Nat} {word : List α}
    (found : locate (words.map List.length) position = some (index, offset))
    (wordEq : words[index]? = some word) :
    words.flatten.drop position =
      word.drop offset ++ (words.drop (index + 1)).flatten := by
  induction words generalizing position index with
  | nil => simp at found
  | cons first words ih =>
      rw [List.map_cons, locate_cons] at found
      by_cases inside : position < first.length
      · simp only [inside, if_true, Option.some.injEq, Prod.mk.injEq] at found
        obtain ⟨rfl, rfl⟩ := found
        simp only [List.getElem?_cons_zero, Option.some.injEq] at wordEq
        subst first
        rw [List.flatten_cons, List.drop_append_of_le_length (by omega)]
        simp
      · simp only [inside, if_false, Option.map_eq_some_iff, Prod.exists,
          Prod.mk.injEq] at found
        obtain ⟨i, o, found, rfl, rfl⟩ := found
        rw [List.flatten_cons, List.drop_append,
          List.drop_of_length_le (by omega), List.nil_append]
        exact ih found (by simpa using wordEq)

theorem flatten_take_isPrefix {α : Type*} (words : List (List α)) (index : Nat) :
    (words.take index).flatten <+: words.flatten :=
  ⟨(words.drop index).flatten, by rw [← List.flatten_append, List.take_append_drop]⟩

theorem length_flatten_take_succ {α : Type*} {words : List (List α)} {index : Nat}
    {word : List α} (wordEq : words[index]? = some word) :
    (words.take (index + 1)).flatten.length =
      (words.take index).flatten.length + word.length := by
  rw [List.take_add_one, wordEq]
  simp only [Option.toList_some, List.flatten_append, List.flatten_singleton, List.length_append]

/-! ## Slices -/

section Slices

universe u

variable {α : Type u} {words : List (List α)} {count position : Nat}

/-- At most `count` letters from a position on, all of them from one word.  The
slice is empty at and behind the end. -/
def slice (words : List (List α)) (count position : Nat) : List α :=
  match locate (words.map List.length) position with
  | none => []
  | some (index, offset) => ((words.getD index []).drop offset).take count

theorem slice_of_end (atEnd : words.flatten.length ≤ position) :
    slice words count position = [] := by
  rw [List.length_flatten] at atEnd
  rw [slice, locate_eq_none_iff.mpr atEnd]

/-- Before the end, a slice starts inside some word and stays in it. -/
theorem slice_of_lt (count : Nat) (inside : position < words.flatten.length) :
    ∃ index word offset, words[index]? = some word ∧
      locate (words.map List.length) position = some (index, offset) ∧
      offset < word.length ∧ (words.take index).flatten.length + offset = position ∧
      slice words count position = (word.drop offset).take count := by
  rw [List.length_flatten] at inside
  cases found : locate (words.map List.length) position with
  | none =>
      have atEnd := locate_eq_none_iff.mp found
      omega
  | some location =>
      obtain ⟨index, offset⟩ := location
      obtain ⟨size, sizeEq, offsetLt, sumEq⟩ := locate_eq_some_iff.mp found
      rw [List.getElem?_map, Option.map_eq_some_iff] at sizeEq
      obtain ⟨word, wordEq, rfl⟩ := sizeEq
      refine ⟨index, word, offset, wordEq, rfl, offsetLt, ?_, ?_⟩
      · rw [List.length_flatten, List.map_take]
        exact sumEq
      · simp [slice, found, List.getD_eq_getElem?_getD, wordEq]

theorem length_slice_le (words : List (List α)) (count position : Nat) :
    (slice words count position).length ≤ count := by
  unfold slice
  split
  · simp
  · simp only [List.length_take]
    omega

/-- With room for a letter, only the end yields an empty slice. -/
theorem slice_eq_nil_iff (positive : 0 < count) :
    slice words count position = [] ↔ words.flatten.length ≤ position := by
  constructor
  · intro empty
    by_contra inside
    obtain ⟨index, word, offset, _, _, offsetLt, _, sliceEq⟩ :=
      slice_of_lt count (Nat.lt_of_not_le inside)
    have lengthZero := congrArg List.length (sliceEq.symm.trans empty)
    simp at lengthZero
    omega
  · exact slice_of_end

/-- A slice is the next piece of the concatenation. -/
theorem slice_eq_take (words : List (List α)) (count position : Nat) :
    slice words count position =
      (words.flatten.drop position).take (slice words count position).length := by
  by_cases inside : position < words.flatten.length
  · obtain ⟨index, word, offset, wordEq, found, _, _, sliceEq⟩ := slice_of_lt count inside
    rw [drop_flatten_of_locate found wordEq, sliceEq, List.length_take,
      List.take_append_of_le_length (Nat.min_le_right _ _), List.take_eq_take_iff]
    omega
  · rw [slice_of_end (by omega)]
    rfl

/-- A slice does not cross the end of a word. -/
theorem slice_in_word (count : Nat) (inside : position < words.flatten.length) :
    ∃ index, index < words.length ∧ (words.take index).flatten.length ≤ position ∧
      position + (slice words count position).length ≤
        (words.take (index + 1)).flatten.length := by
  obtain ⟨index, word, offset, wordEq, _, offsetLt, positionEq, sliceEq⟩ := slice_of_lt count inside
  have bound : index < words.length := (List.getElem?_eq_some_iff.mp wordEq).1
  refine ⟨index, bound, by omega, ?_⟩
  rw [length_flatten_take_succ wordEq, sliceEq, List.length_take, List.length_drop]
  omega

/-- What is left of a sequence of words from a position on: the rest of one word,
then the later words. -/
def dropWords : List (List α) → Nat → List (List α)
  | [], _ => []
  | word :: words, position =>
      if position < word.length then
        word.drop position :: words
      else
        dropWords words (position - word.length)

theorem flatten_dropWords (words : List (List α)) (position : Nat) :
    (dropWords words position).flatten = words.flatten.drop position := by
  induction words generalizing position with
  | nil => simp [dropWords]
  | cons word words ih =>
      rw [dropWords, List.flatten_cons, List.drop_append]
      by_cases inside : position < word.length
      · rw [if_pos inside, List.flatten_cons, Nat.sub_eq_zero_of_le (Nat.le_of_lt inside)]
        rfl
      · rw [if_neg inside, ih, List.drop_of_length_le (show word.length ≤ position by omega),
          List.nil_append]

theorem dropWords_eq_nil_iff (words : List (List α)) (position : Nat) :
    dropWords words position = [] ↔ words.flatten.length ≤ position := by
  induction words generalizing position with
  | nil => simp [dropWords]
  | cons word words ih =>
      rw [dropWords, List.flatten_cons, List.length_append]
      by_cases inside : position < word.length
      · simp only [if_pos inside, reduceCtorEq, false_iff]
        omega
      · rw [if_neg inside, ih]
        omega

/-- The first word left is not empty. -/
theorem length_of_dropWords {first : List α} {rest : List (List α)}
    (left : dropWords words position = first :: rest) :
    0 < first.length ∧ position + first.length ≤ words.flatten.length := by
  induction words generalizing position with
  | nil => simp [dropWords] at left
  | cons word words ih =>
      rw [dropWords] at left
      rw [List.flatten_cons, List.length_append]
      by_cases inside : position < word.length
      · rw [if_pos inside] at left
        obtain ⟨rfl, rfl⟩ := List.cons.inj left
        rw [List.length_drop]
        omega
      · rw [if_neg inside] at left
        have later := ih left
        omega

/-- A slice is the beginning of the first word left. -/
theorem slice_eq_of_dropWords (words : List (List α)) (count position : Nat) :
    slice words count position = ((dropWords words position).headD []).take count := by
  induction words generalizing position with
  | nil => simp [slice, dropWords]
  | cons word words ih =>
      have next := ih (position - word.length)
      unfold slice at next ⊢
      rw [dropWords, List.map_cons, locate_cons]
      by_cases inside : position < word.length
      · simp [inside]
      · rw [if_neg inside, if_neg inside, ← next]
        cases locate (words.map List.length) (position - word.length) with
        | none => rfl
        | some found => simp

theorem dropWords_of_getElem {index offset : Nat} {word : List α}
    (wordEq : words[index]? = some word) (inside : offset < word.length) :
    dropWords words ((words.take index).flatten.length + offset) =
      word.drop offset :: words.drop (index + 1) := by
  induction words generalizing index with
  | nil => simp at wordEq
  | cons first words ih =>
      cases index with
      | zero =>
          simp only [List.getElem?_cons_zero, Option.some.injEq] at wordEq
          subst first
          simp [dropWords, inside]
      | succ index =>
          have next := ih (by simpa using wordEq)
          rw [dropWords, List.take_succ_cons, List.flatten_cons, List.length_append,
            if_neg (by omega), List.drop_succ_cons, ← next]
          congr 1
          omega

theorem dropWords_zero (nonempty : ∀ word ∈ words, word ≠ []) : dropWords words 0 = words := by
  cases words with
  | nil => rfl
  | cons word words =>
      have positive := List.length_pos_iff.mpr (nonempty word List.mem_cons_self)
      simp [dropWords, positive]

/-- Behind the first word left come the others. -/
theorem dropWords_add (nonempty : ∀ word ∈ words, word ≠ []) {first : List α}
    {rest : List (List α)} (left : dropWords words position = first :: rest) :
    dropWords words (position + first.length) = rest := by
  induction words generalizing position with
  | nil => simp [dropWords] at left
  | cons word words ih =>
      rw [dropWords] at left ⊢
      by_cases inside : position < word.length
      · rw [if_pos inside] at left
        obtain ⟨rfl, rfl⟩ := List.cons.inj left
        have atNext : position + (word.length - position) - word.length = 0 := by omega
        rw [List.length_drop, if_neg (by omega), atNext]
        exact dropWords_zero fun other member => nonempty other (List.mem_cons_of_mem _ member)
      · rw [if_neg inside] at left
        rw [if_neg (by omega), ← ih (fun other member => nonempty other (by simp [member])) left]
        congr 1
        omega

end Slices

end Aesd.Word
