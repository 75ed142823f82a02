import Aesd.Ring.Core
import Aesd.Word.Lines

/-!
# Cutting every chunk once

A reader that looks for the first separator of each chunk only, and keeps what
follows it for later, agrees with the splitter as long as no chunk has a second
separator.  After a chunk that has one, the next entry it completes contains two
separators.  When only the last `capacity` entries are kept, the damage is
exactly as long-lived as that entry.
-/

namespace Aesd.Word

open Aesd.Ring

universe u

variable {α : Type u} [DecidableEq α] {sep : α}

namespace Lines

/-- Read a chunk, cutting it at its first separator only. -/
def feedOnce (sep : α) (lines : Lines α) (chunk : List α) : Lines α :=
  match cut sep chunk with
  | none => ⟨lines.complete, lines.pending ++ chunk⟩
  | some (line, rest) => ⟨lines.complete ++ [lines.pending ++ line], rest⟩

/-- Read a sequence of chunks this way. -/
def feedChunks (sep : α) (lines : Lines α) (chunks : List (List α)) : Lines α :=
  chunks.foldl (feedOnce sep) lines

theorem feedOnce_of_not_mem (lines : Lines α) {chunk : List α} (absent : sep ∉ chunk) :
    feedOnce sep lines chunk = ⟨lines.complete, lines.pending ++ chunk⟩ := by
  rw [feedOnce, cut_eq_none_iff.mpr absent]

theorem feedOnce_of_isLine (lines : Lines α) {line : List α} (isLine : IsLine sep line)
    (rest : List α) :
    feedOnce sep lines (line ++ rest) = ⟨lines.complete ++ [lines.pending ++ line], rest⟩ := by
  rw [feedOnce, isLine.cut_append]

theorem feedChunks_append (lines : Lines α) (first second : List (List α)) :
    feedChunks sep lines (first ++ second) =
      feedChunks sep (feedChunks sep lines first) second :=
  List.foldl_append

/-- Nothing is pending when the last chunk was one line. -/
theorem pending_feedChunks_eq_nil_iff {chunks : List (List α)}
    (nonempty : ∀ chunk ∈ chunks, chunk ≠ []) :
    (feedChunks sep empty chunks).pending = [] ↔
      ∀ chunk ∈ chunks.getLast?, IsLine sep chunk := by
  rcases List.eq_nil_or_concat chunks with rfl | ⟨earlier, chunk, rfl⟩
  · simp [feedChunks, empty]
  · have chunkNe : chunk ≠ [] := nonempty chunk (by simp)
    rw [List.concat_eq_append, feedChunks_append, List.getLast?_concat]
    simp only [feedChunks, List.foldl_cons, List.foldl_nil, Option.mem_some_iff, forall_eq']
    rcases not_mem_or_isLine_append sep chunk with absent | ⟨line, rest, isLine, rfl⟩
    · rw [feedOnce_of_not_mem _ absent]
      constructor
      · intro nothing
        exact absurd (List.append_eq_nil_iff.mp nothing).2 chunkNe
      · intro isLine
        exact absurd isLine.mem absent
    · rw [feedOnce_of_isLine _ isLine]
      constructor
      · rintro rfl
        rwa [List.append_nil]
      · intro isLine'
        exact (isLine.append_inj isLine' (by rw [List.append_nil])).2

/-- A chunk with at most one separator is read correctly. -/
theorem feedOnce_eq_feed (lines : Lines α) {chunk : List α} (few : chunk.count sep ≤ 1) :
    feedOnce sep lines chunk = feed sep lines chunk := by
  rcases not_mem_or_isLine_append sep chunk with absent | ⟨line, rest, isLine, rfl⟩
  · rw [feedOnce_of_not_mem lines absent, feed_of_not_mem lines absent]
  · have restAbsent : sep ∉ rest := by
      rw [List.count_append, isLine.count] at few
      exact List.count_eq_zero.mp (by omega)
    rw [feedOnce_of_isLine lines isLine, feed_append, feed_of_isLine lines isLine,
      feed_of_not_mem _ restAbsent, List.nil_append]

/-- So are chunks that all have at most one. -/
theorem feedChunks_eq_feed {chunks : List (List α)}
    (few : ∀ chunk ∈ chunks, chunk.count sep ≤ 1) (lines : Lines α) :
    feedChunks sep lines chunks = feed sep lines chunks.flatten := by
  induction chunks generalizing lines with
  | nil => rfl
  | cons chunk chunks ih =>
      change feedChunks sep (feedOnce sep lines chunk) chunks = _
      rw [feedOnce_eq_feed lines (few chunk (by simp)), List.flatten_cons, feed_append]
      exact ih (fun other member => few other (List.mem_cons_of_mem _ member)) _

/-- A chunk with a second separator leaves one pending. -/
theorem mem_pending_feedOnce (lines : Lines α) {chunk : List α} (many : 1 < chunk.count sep) :
    sep ∈ (feedOnce sep lines chunk).pending := by
  rcases not_mem_or_isLine_append sep chunk with absent | ⟨line, rest, isLine, rfl⟩
  · rw [List.count_eq_zero_of_not_mem absent] at many
    omega
  · rw [feedOnce_of_isLine lines isLine]
    rw [List.count_append, isLine.count] at many
    have positive : 0 < rest.count sep := by omega
    exact List.count_pos_iff.mp positive

/-- What was pending before a word sticks to the first line of the word and
changes nothing else. -/
theorem feed_of_line (lines : Lines α) {line : List α} (isLine : IsLine sep line)
    (rest : List α) :
    feed sep lines (line ++ rest) =
      ⟨lines.complete ++ (lines.pending ++ line) :: (feed sep empty rest).complete,
        (feed sep empty rest).pending⟩ := by
  rw [feed_append, feed_of_isLine lines isLine, feed_eq_append_complete]
  simp [empty]

/-- A word has as many lines as separators. -/
theorem length_complete_feed_empty (sep : α) (word : List α) :
    (feed sep empty word).complete.length = word.count sep := by
  induction word using List.reverseRecOn with
  | nil => rfl
  | append_singleton word letter ih =>
      rw [feed_append, List.count_append, List.count_singleton]
      change (push sep _ letter).complete.length = _
      unfold push
      split
      · rename_i letterEq
        simp [ih, letterEq]
      · rename_i letterNe
        simp [ih, letterNe]

end Lines

/-! ## When the last entries are the right ones -/

/-- Every chunk with a second separator is followed by more chunks with a
separator than there is capacity, all of them with a single one. -/
def CutsInTime (sep : α) (capacity : Nat) (chunks : List (List α)) : Prop :=
  ∃ early late, chunks = early ++ late ∧ (∀ chunk ∈ late, chunk.count sep ≤ 1) ∧
    (early = [] ∨ capacity < late.countP (sep ∈ ·))

/-- Either no chunk has a second separator or there is a last one that has. -/
theorem last_many (sep : α) (chunks : List (List α)) :
    (∀ chunk ∈ chunks, chunk.count sep ≤ 1) ∨
      ∃ early chunk late, chunks = early ++ chunk :: late ∧ 1 < chunk.count sep ∧
        ∀ chunk ∈ late, chunk.count sep ≤ 1 := by
  induction chunks with
  | nil => exact Or.inl (by simp)
  | cons chunk chunks ih =>
      rcases ih with few | ⟨early, last, late, rfl, many, few⟩
      · by_cases one : chunk.count sep ≤ 1
        · refine Or.inl ?_
          intro other member
          rcases List.mem_cons.mp member with rfl | tail
          · exact one
          · exact few other tail
        · exact Or.inr ⟨[], chunk, chunks, rfl, by omega, few⟩
      · exact Or.inr ⟨chunk :: early, last, late, rfl, many, few⟩

/-- Chunks with at most one separator each have as many separators as there are
chunks with one. -/
theorem count_flatten_eq_countP {chunks : List (List α)}
    (few : ∀ chunk ∈ chunks, chunk.count sep ≤ 1) :
    chunks.flatten.count sep = chunks.countP (sep ∈ ·) := by
  induction chunks with
  | nil => rfl
  | cons chunk chunks ih =>
      have one := few chunk (by simp)
      rw [List.flatten_cons, List.count_append, List.countP_cons,
        ih fun other member => few other (List.mem_cons_of_mem _ member)]
      by_cases present : sep ∈ chunk
      · have positive := List.count_pos_iff.mpr present
        simp [present]
        omega
      · simp [present, List.count_eq_zero_of_not_mem present]

/-- Reading every chunk up to its first separator yields the last lines and the
rest of the stream exactly when the chunks are cut in time. -/
theorem feedChunks_kept_iff (sep : α) (capacity : Nat) (chunks : List (List α)) :
    ((Lines.feedChunks sep Lines.empty chunks).complete.rtake capacity =
        (Lines.feed sep Lines.empty chunks.flatten).complete.rtake capacity ∧
      (Lines.feedChunks sep Lines.empty chunks).pending =
        (Lines.feed sep Lines.empty chunks.flatten).pending) ↔
      CutsInTime sep capacity chunks := by
  constructor
  · rintro ⟨keptEq, pendingEq⟩
    rcases last_many sep chunks with few | ⟨early, chunk, late, rfl, many, few⟩
    · exact ⟨[], chunks, rfl, few, Or.inl rfl⟩
    · refine ⟨early ++ [chunk], late, by simp, few, Or.inr ?_⟩
      by_contra tooFew
      have split : Lines.Split sep (Lines.feed sep Lines.empty (early ++ chunk :: late).flatten) :=
        Lines.split_empty.feed _
      -- the chunks behind the bad one are read correctly, but start with a separator pending
      have readEq : Lines.feedChunks sep Lines.empty (early ++ chunk :: late) =
          Lines.feed sep (Lines.feedOnce sep (Lines.feedChunks sep Lines.empty early) chunk)
            late.flatten := by
        rw [Lines.feedChunks_append, ← Lines.feedChunks_eq_feed few]
        rfl
      have present := Lines.mem_pending_feedOnce (Lines.feedChunks sep Lines.empty early) many
      generalize Lines.feedOnce sep (Lines.feedChunks sep Lines.empty early) chunk = lines
        at readEq present
      rw [readEq] at keptEq pendingEq
      rcases not_mem_or_isLine_append sep late.flatten with absent | ⟨line, rest, isLine, flatEq⟩
      · rw [Lines.feed_of_not_mem lines absent] at pendingEq
        refine split.pending ?_
        rw [← pendingEq]
        exact List.mem_append_left _ present
      · rw [flatEq, Lines.feed_of_line lines isLine rest] at keptEq
        have countEq := count_flatten_eq_countP few
        rw [flatEq, List.count_append, isLine.count] at countEq
        have lengthEq := Lines.length_complete_feed_empty sep rest
        have badKept : lines.pending ++ line ∈
            (lines.complete ++ (lines.pending ++ line) ::
              (Lines.feed sep Lines.empty rest).complete).rtake capacity := by
          rw [rtake_append_of_length_le (by simp; omega)]
          simp
        rw [keptEq] at badKept
        have single := (split.isLine _ (List.mem_of_mem_drop badKept)).count
        rw [List.count_append, isLine.count] at single
        have positive := List.count_pos_iff.mpr present
        omega
  · rintro ⟨early, late, rfl, few, inTime⟩
    rw [Lines.feedChunks_append, Lines.feedChunks_eq_feed few, List.flatten_append,
      Lines.feed_append]
    rcases inTime with rfl | enough
    · exact ⟨rfl, rfl⟩
    · rw [← count_flatten_eq_countP few] at enough
      rcases not_mem_or_isLine_append sep late.flatten with absent | ⟨line, rest, isLine, flatEq⟩
      · rw [List.count_eq_zero_of_not_mem absent] at enough
        omega
      · rw [flatEq, Lines.feed_of_line _ isLine rest, Lines.feed_of_line _ isLine rest]
        rw [flatEq, List.count_append, isLine.count] at enough
        have long : capacity ≤ (Lines.feed sep Lines.empty rest).complete.length := by
          rw [Lines.length_complete_feed_empty]
          omega
        refine ⟨?_, rfl⟩
        rw [List.append_cons, rtake_append_of_le_length long, List.append_cons,
          rtake_append_of_le_length long]

end Aesd.Word
