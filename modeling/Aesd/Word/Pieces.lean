import Mathlib.Data.List.Induction

/-!
# Reading a growing word

A word grows at its end, and letters are dropped at its front.  A reader keeps a
position in what is left and takes pieces from there.  `Account` states where the
pieces lie in the whole word; what the reader misses between two pieces is what was
dropped between them.
-/

namespace Aesd.Word

universe u

variable {α : Type u}

/-- A piece, the number of letters dropped before it was taken, and the position of the
reader. -/
structure Piece (α : Type u) where
  skipped : Nat
  position : Nat
  word : List α
  deriving DecidableEq

namespace Piece

/-- Where the piece starts in the whole word. -/
def start (piece : Piece α) : Nat :=
  piece.skipped + piece.position

/-- Where the piece ends in the whole word. -/
def stop (piece : Piece α) : Nat :=
  piece.start + piece.word.length

/-- The letters of some pieces. -/
def letters (pieces : List (Piece α)) : List α :=
  (pieces.map Piece.word).flatten

theorem letters_append (first second : List (Piece α)) :
    letters (first ++ second) = letters first ++ letters second := by
  simp [letters]

end Piece

/-- The pieces a reader has taken from `whole`, when `skipped` letters have been dropped
and its position is `position`. -/
structure Account (whole : List α) (pieces : List (Piece α)) (skipped position : Nat) : Prop where
  /-- Each piece is part of the word. -/
  word_eq : ∀ piece ∈ pieces, piece.word = (whole.drop piece.start).take piece.word.length
  /-- The position counts the letters taken. -/
  position_eq : position = (Piece.letters pieces).length
  positions : ∀ early piece late, pieces = early ++ piece :: late →
    piece.position = (Piece.letters early).length
  ordered : pieces.Pairwise fun first second =>
    first.skipped ≤ second.skipped ∧ first.position + first.word.length ≤ second.position
  within : ∀ piece ∈ pieces,
    piece.skipped ≤ skipped ∧ piece.position + piece.word.length ≤ position

namespace Account

variable {whole : List α} {pieces : List (Piece α)} {skipped position : Nat}

theorem nil (whole : List α) : Account whole [] 0 0 where
  word_eq := by simp
  position_eq := rfl
  positions := by simp
  ordered := List.Pairwise.nil
  within := by simp

/-- The word grows, and letters are dropped. -/
theorem grow (account : Account whole pieces skipped position) (more : List α) {skipped' : Nat}
    (later : skipped ≤ skipped') : Account (whole ++ more) pieces skipped' position where
  word_eq := by
    intro piece member
    have wordEq := account.word_eq piece member
    have lengthEq := congrArg List.length wordEq
    rw [List.length_take, List.length_drop] at lengthEq
    by_cases inside : piece.start ≤ whole.length
    · rw [List.drop_append_of_le_length inside, List.take_append_of_le_length (by simp; omega)]
      exact wordEq
    · have empty : piece.word = [] := List.length_eq_zero_iff.mp (by omega)
      simp [empty]
  position_eq := account.position_eq
  positions := account.positions
  ordered := account.ordered
  within piece member :=
    (account.within piece member).imp_left fun bound => Nat.le_trans bound later

/-- A piece is taken. -/
theorem take (account : Account whole pieces skipped position) {word : List α}
    (wordEq : word = (whole.drop (skipped + position)).take word.length) :
    Account whole (pieces ++ [⟨skipped, position, word⟩]) skipped (position + word.length) where
  word_eq := by
    intro piece member
    rcases List.mem_append.mp member with old | new
    · exact account.word_eq piece old
    · rw [List.mem_singleton.mp new]
      exact wordEq
  position_eq := by
    simp [account.position_eq, Piece.letters]
  positions := by
    intro early piece late split
    rcases List.eq_nil_or_concat late with rfl | ⟨late, last, rfl⟩
    · obtain ⟨rfl, pieceEq⟩ := List.append_inj' split rfl
      rw [← List.cons.inj pieceEq |>.1]
      exact account.position_eq
    · rw [List.concat_eq_append, ← List.cons_append, ← List.append_assoc] at split
      exact account.positions early piece late (List.append_inj' split rfl).1
  ordered := by
    refine List.pairwise_append.mpr ⟨account.ordered, List.pairwise_singleton _ _, ?_⟩
    intro piece member last isLast
    rw [List.mem_singleton.mp isLast]
    exact account.within piece member
  within := by
    intro piece member
    rcases List.mem_append.mp member with old | new
    · have bounds := account.within piece old
      omega
    · rw [List.mem_singleton.mp new]
      exact ⟨Nat.le_refl _, Nat.le_refl _⟩

/-- Nothing is taken twice, and the pieces come in the order of the word. -/
theorem pairwise_stop_le (account : Account whole pieces skipped position) :
    pieces.Pairwise fun first second => first.stop ≤ second.start :=
  account.ordered.imp fun {first second} ordered => by
    unfold Piece.stop Piece.start
    omega

/-- The account before the last piece was taken. -/
theorem of_concat {last : Piece α} (account : Account whole (pieces ++ [last]) skipped position) :
    Account whole pieces skipped last.position ∧ position = last.position + last.word.length := by
  have lastPosition := account.positions pieces last [] rfl
  have before := List.pairwise_append.mp account.ordered
  refine ⟨⟨?_, lastPosition, ?_, before.1, ?_⟩, ?_⟩
  · exact fun piece member => account.word_eq piece (List.mem_append_left _ member)
  · rintro early piece late rfl
    exact account.positions early piece (late ++ [last]) (by simp)
  · intro piece member
    exact ⟨(account.within piece (List.mem_append_left _ member)).1,
      (before.2.2 piece member last (by simp)).2⟩
  · rw [account.position_eq, Piece.letters_append, List.length_append, ← lastPosition]
    simp [Piece.letters]

/-- As long as nothing has been dropped, the pieces are the beginning of the word. -/
theorem letters_eq_take (account : Account whole pieces 0 position) :
    Piece.letters pieces = whole.take position := by
  induction pieces using List.reverseRecOn generalizing position with
  | nil =>
      rw [account.position_eq]
      rfl
  | append_singleton pieces last ih =>
      obtain ⟨before, rfl⟩ := account.of_concat
      have wordEq := account.word_eq last (by simp)
      have notSkipped : last.skipped = 0 := Nat.le_zero.mp (account.within last (by simp)).1
      rw [Piece.start, notSkipped, Nat.zero_add] at wordEq
      rw [Piece.letters_append, ih before, List.take_add, ← wordEq]
      simp [Piece.letters]

end Account

end Aesd.Word
