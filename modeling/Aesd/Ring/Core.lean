import Mathlib.Algebra.BigOperators.Fin
import Mathlib.Algebra.Group.Fin.Basic
import Mathlib.Data.Fin.Basic
import Mathlib.Data.List.DropRight
import Mathlib.Data.List.FinRange
import Mathlib.Data.Nat.ModEq
import Mathlib.Logic.Function.Basic

/-!
# Bounded queues in circular arrays

A queue of bounded capacity keeps the last elements pushed: pushing onto a full
queue drops the oldest one.  A circular array represents such a queue from a
first cell on, wrapping around at the end of the array.  `Window` relates the
two; its two rules are a push with room left and a push that overwrites the
oldest element.
-/

namespace Aesd.Ring

universe u

variable {α : Type u}

/-! ## Bounded queues -/

/-- Push onto a queue that keeps its last `capacity` elements. -/
def push (capacity : Nat) (held : List α) (element : α) : List α :=
  (held ++ [element]).rtake capacity

theorem length_rtake (history : List α) (capacity : Nat) :
    (history.rtake capacity).length = min history.length capacity := by
  simp [List.rtake]
  omega

theorem rtake_of_length_le {history : List α} {capacity : Nat}
    (room : history.length ≤ capacity) : history.rtake capacity = history := by
  simp [List.rtake, Nat.sub_eq_zero_of_le room]

/-- A long enough suffix determines the last elements. -/
theorem rtake_append_of_le_length {history suffix : List α} {capacity : Nat}
    (long : capacity ≤ suffix.length) :
    (history ++ suffix).rtake capacity = suffix.rtake capacity := by
  unfold List.rtake
  rw [List.drop_append, List.drop_of_length_le (by simp; omega), List.nil_append]
  congr 1
  simp
  omega

/-- A short enough suffix is among the last elements. -/
theorem rtake_append_of_length_le {history suffix : List α} {capacity : Nat}
    (short : suffix.length ≤ capacity) :
    (history ++ suffix).rtake capacity =
      history.rtake (capacity - suffix.length) ++ suffix := by
  unfold List.rtake
  have inHistory : history.length + suffix.length - capacity - history.length = 0 := by omega
  rw [List.length_append, List.drop_append, inHistory, List.drop_zero]
  congr 2
  omega

/-- Pushing onto the last elements of a history gives the last elements of the
longer history. -/
theorem push_rtake (capacity : Nat) (history : List α) (element : α) :
    push capacity (history.rtake capacity) element =
      (history ++ [element]).rtake capacity := by
  cases capacity with
  | zero => simp [push, List.rtake]
  | succ capacity =>
      rw [push, List.rtake_concat_succ, List.rtake_concat_succ]
      congr 1
      unfold List.rtake
      rw [List.drop_drop, List.length_drop]
      congr 1
      omega

/-- The dropped elements and the kept ones make up the history. -/
theorem take_append_rtake (history : List α) (capacity : Nat) :
    history.take (history.length - capacity) ++ history.rtake capacity = history :=
  List.take_append_drop _ _

theorem push_of_room {capacity : Nat} {held : List α} (room : held.length < capacity)
    (element : α) : push capacity held element = held ++ [element] :=
  rtake_of_length_le (by simp; omega)

theorem push_of_full {capacity : Nat} {held : List α} (full : held.length = capacity)
    (element : α) : push capacity held element = (held ++ [element]).drop 1 := by
  simp [push, List.rtake, full]

/-! ## Circular arrays -/

variable {capacity : Nat} [NeZero capacity]

/-- The array holds the queue from cell `first` on, modulo the capacity. -/
structure Window (cells : Fin capacity → α) (first : Nat) (held : List α) : Prop where
  length_le : held.length ≤ capacity
  cell_eq : ∀ index element, held[index]? = some element →
    cells (Fin.ofNat capacity (first + index)) = element

theorem ofNat_eq_ofNat_iff {left right : Nat} :
    Fin.ofNat capacity left = Fin.ofNat capacity right ↔ left ≡ right [MOD capacity] := by
  rw [Fin.ext_iff]
  rfl

/-- Cells less than a full turn apart are different. -/
theorem ofNat_add_ne (first : Nat) {left right : Nat} (leftBound : left < capacity)
    (rightBound : right < capacity) (different : left ≠ right) :
    Fin.ofNat capacity (first + left) ≠ Fin.ofNat capacity (first + right) := by
  intro equal
  have congruent := Nat.ModEq.add_left_cancel' first (ofNat_eq_ofNat_iff.mp equal)
  exact different (Nat.ModEq.eq_of_lt_of_lt congruent leftBound rightBound)

theorem Window.empty (cells : Fin capacity → α) (first : Nat) :
    Window cells first [] :=
  ⟨Nat.zero_le _, by simp⟩

/-- With room left, the cell behind the last element extends the queue. -/
theorem Window.append {cells : Fin capacity → α} {first : Nat} {held : List α}
    (window : Window cells first held) (room : held.length < capacity) (element : α) :
    Window (Function.update cells (Fin.ofNat capacity (first + held.length)) element)
      first (held ++ [element]) where
  length_le := by simp; omega
  cell_eq index found foundEq := by
    rcases Nat.lt_trichotomy index held.length with before | last | behind
    · rw [List.getElem?_append_left before] at foundEq
      rw [Function.update_of_ne (ofNat_add_ne first (by omega) room (by omega))]
      exact window.cell_eq index found foundEq
    · subst index
      have foundIs : element = found := by simpa using foundEq
      rw [Function.update_self, foundIs]
    · rw [List.getElem?_eq_none (by simp; omega)] at foundEq
      contradiction

/-- In a full array the cell behind the last element is the first one; writing
it drops the oldest element and moves the first cell on. -/
theorem Window.rotate {cells : Fin capacity → α} {first : Nat} {held : List α}
    (window : Window cells first held) (full : held.length = capacity) (element : α) :
    Window (Function.update cells (Fin.ofNat capacity first) element)
      (first + 1) ((held ++ [element]).drop 1) where
  length_le := by simp [full]
  cell_eq index found foundEq := by
    rw [List.getElem?_drop, Nat.add_comm 1 index] at foundEq
    have shift : first + 1 + index = first + (index + 1) := by omega
    rw [shift]
    rcases Nat.lt_trichotomy (index + 1) held.length with before | last | behind
    · rw [List.getElem?_append_left before] at foundEq
      have different : Fin.ofNat capacity (first + (index + 1)) ≠
          Fin.ofNat capacity (first + 0) :=
        ofNat_add_ne first (by omega) (by omega) (by omega)
      rw [Function.update_of_ne (by simpa using different)]
      exact window.cell_eq (index + 1) found foundEq
    · rw [last] at foundEq
      have foundIs : element = found := by simpa using foundEq
      have wraps : Fin.ofNat capacity (first + (index + 1)) = Fin.ofNat capacity first := by
        rw [ofNat_eq_ofNat_iff, last, full]
        exact Nat.add_modEq_right
      rw [wraps, Function.update_self, foundIs]
    · rw [List.getElem?_eq_none (by simp; omega)] at foundEq
      contradiction

/-- The first cell matters modulo the capacity only. -/
theorem Window.congr {cells : Fin capacity → α} {first other : Nat} {held : List α}
    (window : Window cells first held) (congruent : first ≡ other [MOD capacity]) :
    Window cells other held where
  length_le := window.length_le
  cell_eq index found foundEq := by
    rw [ofNat_eq_ofNat_iff.mpr (congruent.symm.add_right index)]
    exact window.cell_eq index found foundEq

/-- The array lists the queue and the cells outside of it. -/
theorem Window.ofFn_perm {cells : Fin capacity → α} {first : Nat} {held : List α}
    (window : Window cells first held) :
    (List.ofFn cells).Perm
      (held ++ (List.range' held.length (capacity - held.length)).map fun index =>
        cells (Fin.ofNat capacity (first + index))) := by
  have short := window.length_le
  have rotated := Equiv.Perm.ofFn_comp_perm (Equiv.addLeft (Fin.ofNat capacity first)) cells
  refine rotated.symm.trans (List.Perm.of_eq ?_)
  apply List.ext_getElem
  · simp
    omega
  · intro index inArray _
    have bound : index < capacity := by simpa using inArray
    have cellEq : (List.ofFn (cells ∘ Equiv.addLeft (Fin.ofNat capacity first)))[index] =
        cells (Fin.ofNat capacity (first + index)) := by
      rw [List.getElem_ofFn, Function.comp_apply]
      congr 1
      apply Fin.ext
      simp [Fin.val_add]
    rw [cellEq]
    by_cases inside : index < held.length
    · rw [List.getElem_append_left inside]
      exact window.cell_eq index _ (List.getElem?_eq_getElem inside)
    · rw [List.getElem_append_right (by omega), List.getElem_map, List.getElem_range']
      congr 2
      omega

/-- When the other cells weigh nothing, the array weighs as much as the queue. -/
theorem Window.sum_eq {cells : Fin capacity → α} {first : Nat} {held : List α}
    (window : Window cells first held) (weight : α → Nat)
    (outside : ∀ index, held.length ≤ index → index < capacity →
      weight (cells (Fin.ofNat capacity (first + index))) = 0) :
    ∑ cell, weight (cells cell) = (held.map weight).sum := by
  have short := window.length_le
  have listed := (window.ofFn_perm.map weight).sum_eq
  rw [List.map_ofFn, List.sum_ofFn, List.map_append, List.sum_append] at listed
  have nothing : (((List.range' held.length (capacity - held.length)).map fun index =>
      cells (Fin.ofNat capacity (first + index))).map weight).sum = 0 := by
    apply List.sum_eq_zero
    intro cellWeight member
    simp only [List.map_map, List.mem_map, List.mem_range'_1] at member
    obtain ⟨index, ⟨above, below⟩, rfl⟩ := member
    exact outside index above (by omega)
  rw [nothing, Nat.add_zero] at listed
  exact listed

end Aesd.Ring
