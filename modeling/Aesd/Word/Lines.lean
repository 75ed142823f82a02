import Mathlib.Data.List.Induction

/-!
# Words cut at a separator

A word over an alphabet with a separator splits into complete lines, each of
which ends in the separator and contains no other, and a pending rest without
separators.  The splitter reads one letter at a time, so that it does not see
how a word is cut into the pieces it is fed.

`cut` is the one-line version: it finds the first separator only.
-/

namespace Aesd.Word

universe u

variable {α : Type u}

/-- A complete line: its last letter is its only separator. -/
def IsLine (sep : α) (line : List α) : Prop :=
  ∃ body, sep ∉ body ∧ line = body ++ [sep]

theorem IsLine.ne_nil {sep : α} {line : List α} (isLine : IsLine sep line) :
    line ≠ [] := by
  obtain ⟨body, _, rfl⟩ := isLine
  simp

theorem IsLine.mem {sep : α} {line : List α} (isLine : IsLine sep line) :
    sep ∈ line := by
  obtain ⟨body, _, rfl⟩ := isLine
  simp

theorem IsLine.getLast? {sep : α} {line : List α} (isLine : IsLine sep line) :
    line.getLast? = some sep := by
  obtain ⟨body, _, rfl⟩ := isLine
  simp

/-- Letters in front of a line lengthen it. -/
theorem IsLine.append_of_not_mem {sep : α} {line word : List α} (isLine : IsLine sep line)
    (absent : sep ∉ word) : IsLine sep (word ++ line) := by
  obtain ⟨body, bodyAbsent, rfl⟩ := isLine
  exact ⟨word ++ body, by simp [absent, bodyAbsent], by simp⟩

variable [DecidableEq α]

theorem IsLine.count {sep : α} {line : List α} (isLine : IsLine sep line) :
    line.count sep = 1 := by
  obtain ⟨body, absent, rfl⟩ := isLine
  simp [List.count_eq_zero_of_not_mem absent]

/-! ## The first line -/

/-- Cut a word just behind its first separator; undefined when there is none. -/
def cut (sep : α) : List α → Option (List α × List α)
  | [] => none
  | letter :: rest =>
      if letter = sep then
        some ([letter], rest)
      else
        (cut sep rest).map fun parts => (letter :: parts.1, parts.2)

@[simp]
theorem cut_nil (sep : α) : cut sep [] = none :=
  rfl

theorem cut_eq_none_iff {sep : α} {word : List α} :
    cut sep word = none ↔ sep ∉ word := by
  induction word with
  | nil => simp
  | cons letter rest ih =>
      by_cases letterEq : letter = sep
      · simp [cut, letterEq]
      · simp [cut, letterEq, ih, Ne.symm letterEq]

/-- Cutting succeeds exactly with the first line of the word. -/
theorem cut_eq_some_iff {sep : α} {word line rest : List α} :
    cut sep word = some (line, rest) ↔ IsLine sep line ∧ word = line ++ rest := by
  induction word generalizing line with
  | nil =>
      simp only [cut_nil, reduceCtorEq, false_iff, not_and]
      intro isLine
      simp [isLine.ne_nil]
  | cons letter word ih =>
      by_cases letterEq : letter = sep
      · subst letter
        simp only [cut, if_true, Option.some.injEq, Prod.mk.injEq]
        constructor
        · rintro ⟨rfl, rfl⟩
          exact ⟨⟨[], by simp, rfl⟩, rfl⟩
        · rintro ⟨⟨body, absent, rfl⟩, wordEq⟩
          cases body with
          | nil => simpa [eq_comm] using wordEq
          | cons first body =>
              have firstEq : sep = first := by
                simpa using congrArg List.head? wordEq
              simp [firstEq] at absent
      · simp only [cut, letterEq, if_false, Option.map_eq_some_iff, Prod.exists,
          Prod.mk.injEq]
        constructor
        · rintro ⟨tail, actualRest, found, rfl, rfl⟩
          obtain ⟨⟨body, absent, rfl⟩, rfl⟩ := ih.mp found
          exact ⟨⟨letter :: body, by simp [absent, Ne.symm letterEq], rfl⟩, rfl⟩
        · rintro ⟨⟨body, absent, rfl⟩, wordEq⟩
          cases body with
          | nil =>
              have firstEq : letter = sep := by
                simpa using congrArg List.head? wordEq
              exact absurd firstEq letterEq
          | cons first body =>
              simp only [List.cons_append, List.cons.injEq] at wordEq
              obtain ⟨rfl, rfl⟩ := wordEq
              have bodyAbsent : sep ∉ body := fun member =>
                absent (List.mem_cons_of_mem letter member)
              exact ⟨body ++ [sep], rest, ih.mpr ⟨⟨body, bodyAbsent, rfl⟩, rfl⟩, rfl, rfl⟩

/-- The cut of a word that starts with a line. -/
theorem IsLine.cut_append {sep : α} {line : List α} (isLine : IsLine sep line)
    (rest : List α) : cut sep (line ++ rest) = some (line, rest) :=
  cut_eq_some_iff.mpr ⟨isLine, rfl⟩

/-- A word has no separator, or starts with a line. -/
theorem not_mem_or_isLine_append (sep : α) (word : List α) :
    sep ∉ word ∨ ∃ line rest, IsLine sep line ∧ word = line ++ rest := by
  cases found : cut sep word with
  | none => exact Or.inl (cut_eq_none_iff.mp found)
  | some parts => exact Or.inr ⟨parts.1, parts.2, cut_eq_some_iff.mp found⟩

/-- A word starts with at most one line. -/
theorem IsLine.append_inj {sep : α} {line other rest otherRest : List α}
    (isLine : IsLine sep line) (otherIsLine : IsLine sep other)
    (equal : line ++ rest = other ++ otherRest) : line = other ∧ rest = otherRest := by
  have cutEq := isLine.cut_append rest
  rw [equal, otherIsLine.cut_append] at cutEq
  cases cutEq
  exact ⟨rfl, rfl⟩

/-- In a word that starts with a line, the last letter of the line is the first
separator. -/
theorem IsLine.idxOf?_append {sep : α} {line : List α} (isLine : IsLine sep line)
    (rest : List α) : (line ++ rest).idxOf? sep = some (line.length - 1) := by
  obtain ⟨body, absent, rfl⟩ := isLine
  rw [List.idxOf?_eq_some_iff]
  refine ⟨by simp, by simp, ?_⟩
  intro index before
  have inBody : index < body.length := by simpa using before
  have notSep : body[index] ≠ sep := fun equal =>
    absent (equal ▸ List.getElem_mem inBody)
  simpa [List.getElem_append_left, inBody] using notSep

/-! ## All lines -/

/-- The complete lines read so far and the letters after the last of them. -/
structure Lines (α : Type u) where
  complete : List (List α)
  pending : List α
  deriving DecidableEq

namespace Lines

/-- The splitter before it has read anything. -/
def empty : Lines α :=
  ⟨[], []⟩

/-- Read one letter. -/
def push (sep : α) (lines : Lines α) (letter : α) : Lines α :=
  if letter = sep then
    ⟨lines.complete ++ [lines.pending ++ [letter]], []⟩
  else
    ⟨lines.complete, lines.pending ++ [letter]⟩

/-- Read a word. -/
def feed (sep : α) (lines : Lines α) (word : List α) : Lines α :=
  word.foldl (push sep) lines

variable {sep : α}

@[simp]
theorem feed_nil (lines : Lines α) : feed sep lines [] = lines :=
  rfl

/-- The splitter does not see where a word is cut. -/
theorem feed_append (lines : Lines α) (first second : List α) :
    feed sep lines (first ++ second) = feed sep (feed sep lines first) second :=
  List.foldl_append

theorem feed_of_not_mem (lines : Lines α) {word : List α} (absent : sep ∉ word) :
    feed sep lines word = ⟨lines.complete, lines.pending ++ word⟩ := by
  induction word generalizing lines with
  | nil => simp
  | cons letter rest ih =>
      have letterNe : letter ≠ sep := fun letterEq => absent (by simp [letterEq])
      have restAbsent : sep ∉ rest := fun member =>
        absent (List.mem_cons_of_mem letter member)
      change feed sep (push sep lines letter) rest = _
      rw [ih _ restAbsent]
      simp [push, letterNe]

theorem feed_of_isLine (lines : Lines α) {line : List α} (isLine : IsLine sep line) :
    feed sep lines line = ⟨lines.complete ++ [lines.pending ++ line], []⟩ := by
  obtain ⟨body, absent, rfl⟩ := isLine
  rw [feed_append, feed_of_not_mem lines absent]
  simp [feed, push]

/-- The lines already complete do not influence what is read later. -/
theorem feed_eq_append_complete (lines : Lines α) (word : List α) :
    feed sep lines word =
      ⟨lines.complete ++ (feed sep ⟨[], lines.pending⟩ word).complete,
        (feed sep ⟨[], lines.pending⟩ word).pending⟩ := by
  induction word using List.reverseRecOn with
  | nil => simp
  | append_singleton word letter ih =>
      rw [feed_append, ih, feed_append]
      by_cases letterEq : letter = sep <;> simp [feed, push, letterEq]

/-- Complete lines are lines, and the rest has no separator. -/
structure Split (sep : α) (lines : Lines α) : Prop where
  isLine : ∀ line ∈ lines.complete, IsLine sep line
  pending : sep ∉ lines.pending

omit [DecidableEq α] in
theorem split_empty : Split sep (empty : Lines α) :=
  ⟨by simp [empty], by simp [empty]⟩

theorem Split.feed {lines : Lines α} (split : Split sep lines) (word : List α) :
    Split sep (feed sep lines word) := by
  induction word using List.reverseRecOn with
  | nil => exact split
  | append_singleton word letter ih =>
      rw [feed_append]
      change Split sep (push sep _ letter)
      unfold push
      split
      · rename_i letterEq
        subst letter
        refine ⟨?_, by simp⟩
        intro line member
        rcases List.mem_append.mp member with old | new
        · exact ih.isLine line old
        · rw [List.mem_singleton.mp new]
          exact ⟨_, ih.pending, rfl⟩
      · rename_i letterNe
        exact ⟨ih.isLine, by simp [ih.pending, Ne.symm letterNe]⟩

end Lines

end Aesd.Word
