import Mathlib.Data.List.TakeWhile

/-!
# Longest spans

A word splits in one way into a span of letters that satisfy a predicate and a
rest that does not begin with such a letter.  `takeWhile` and `dropWhile`
compute this split.
-/

namespace Aesd.Word

universe u

variable {α : Type u} {p : α → Bool} {span rest : List α}

/-- The word does not begin with a letter that satisfies the predicate. -/
def Stops (p : α → Bool) (word : List α) : Prop :=
  ∀ letter ∈ word.head?, p letter = false

theorem stops_nil (p : α → Bool) : Stops p [] := by
  simp [Stops]

@[simp]
theorem stops_cons {letter : α} : Stops p (letter :: rest) ↔ p letter = false := by
  simp [Stops]

theorem stops_dropWhile (p : α → Bool) (word : List α) : Stops p (word.dropWhile p) := by
  induction word with
  | nil => exact stops_nil p
  | cons letter word ih =>
      cases holds : p letter with
      | true => simpa [holds] using ih
      | false => simp [holds]

theorem takeWhile_span (inside : ∀ letter ∈ span, p letter = true) (stops : Stops p rest) :
    (span ++ rest).takeWhile p = span := by
  rw [List.takeWhile_append_of_pos inside]
  cases rest with
  | nil => simp
  | cons letter rest => simp [stops_cons.mp stops]

theorem dropWhile_span (inside : ∀ letter ∈ span, p letter = true) (stops : Stops p rest) :
    (span ++ rest).dropWhile p = rest := by
  rw [List.dropWhile_append_of_pos inside]
  cases rest with
  | nil => simp
  | cons letter rest => simp [stops_cons.mp stops]

/-- A word that stops inside is split at the same place with anything behind it. -/
theorem dropWhile_append_of_ne_nil {word : List α} (stops : word.dropWhile p ≠ [])
    (later : List α) : (word ++ later).dropWhile p = word.dropWhile p ++ later := by
  rw [List.dropWhile_append, if_neg (by simpa using stops)]

theorem takeWhile_append_of_ne_nil {word : List α} (stops : word.dropWhile p ≠ [])
    (later : List α) : (word ++ later).takeWhile p = word.takeWhile p := by
  rw [List.takeWhile_append, if_neg]
  intro whole
  apply stops
  have split := congrArg List.length (List.takeWhile_append_dropWhile (p := p) (l := word))
  rw [List.length_append, whole] at split
  exact List.length_eq_zero_iff.mp (by omega)

end Aesd.Word
