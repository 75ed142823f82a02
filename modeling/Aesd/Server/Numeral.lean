import Aesd.Server.Text
import Aesd.Word.Span

/-!
# Numerals in a seek command

What `sscanf` reads as a number: white space, an optional sign and digits.  A
numeral denotes an integer, and `%u` narrows this integer to 32 bits, so that a
negative number and a number from `2 ^ 32` on are taken for other ones.
-/

namespace Aesd.Server

open Aesd.Driver
open Aesd.Word

/-! ## Digits -/

theorem decimal_append (digits : Bytes) (digit : UInt8) :
    decimal (digits ++ [digit]) = 10 * decimal digits + (digit.toNat - 48) := by
  simp [decimal]

/-- Digits behind a number multiply it. -/
theorem decimal_append_ge (digits : Bytes) {more : Bytes} (some : more ≠ []) :
    10 * decimal digits ≤ decimal (digits ++ more) := by
  induction more using List.reverseRecOn with
  | nil => contradiction
  | append_singleton more digit ih =>
      rw [← List.append_assoc, decimal_append]
      by_cases single : more = []
      · simp [single]
      · have longer := ih single
        omega

/-- The decimal digits of a number. -/
def decimalText (value : Nat) : Bytes :=
  if value < 10 then
    [UInt8.ofNat (48 + value)]
  else
    decimalText (value / 10) ++ [UInt8.ofNat (48 + value % 10)]

theorem toNat_digit {digit : Nat} (small : digit < 10) :
    (UInt8.ofNat (48 + digit)).toNat = 48 + digit :=
  UInt8.toNat_ofNat_of_lt' (by simp only [UInt8.size]; omega)

theorem isDigit_iff {byte : UInt8} : isDigit byte = true ↔ 48 ≤ byte.toNat ∧ byte.toNat ≤ 57 := by
  simp [isDigit, UInt8.le_iff_toNat_le]

theorem isSpace_iff {byte : UInt8} :
    isSpace byte = true ↔ byte.toNat = 32 ∨ 9 ≤ byte.toNat ∧ byte.toNat ≤ 13 := by
  simp [isSpace, UInt8.le_iff_toNat_le, ← UInt8.toNat_inj]

/-- The digits denote the number they are made from. -/
theorem decimal_decimalText (value : Nat) : decimal (decimalText value) = value := by
  induction value using Nat.strong_induction_on with
  | _ value ih =>
      rw [decimalText]
      split
      · rename_i small
        simp only [decimal, List.foldl_cons, List.foldl_nil, toNat_digit small]
        omega
      · rw [decimal_append, ih (value / 10) (by omega), toNat_digit (Nat.mod_lt _ (by decide))]
        omega

theorem isDigit_of_mem_decimalText {value : Nat} {digit : UInt8}
    (member : digit ∈ decimalText value) : isDigit digit = true := by
  induction value using Nat.strong_induction_on with
  | _ value ih =>
      rw [decimalText] at member
      split at member
      · rw [List.mem_singleton.mp member, isDigit_iff, toNat_digit ‹_›]
        omega
      · rcases List.mem_append.mp member with early | last
        · exact ih (value / 10) (by omega) early
        · rw [List.mem_singleton.mp last, isDigit_iff,
            toNat_digit (Nat.mod_lt _ (by decide))]
          omega

theorem decimalText_ne_nil (value : Nat) : decimalText value ≠ [] := by
  rw [decimalText]
  split <;> simp

theorem not_isSpace_of_isDigit {byte : UInt8} (digit : isDigit byte = true) :
    isSpace byte = false := by
  rw [isDigit_iff] at digit
  rw [Bool.eq_false_iff, ne_eq, isSpace_iff]
  omega

/-! ## Signs -/

/-- The optional sign in front of the digits: whether it is a minus, and what
follows it. -/
def splitSign : Bytes → Bool × Bytes
  | 45 :: rest => (true, rest)
  | 43 :: rest => (false, rest)
  | other => (false, other)

/-- The bytes of a sign, and whether it is a minus. -/
inductive IsSign : Bytes → Bool → Prop
  | none : IsSign [] false
  | plus : IsSign [43] false
  | minus : IsSign [45] true

/-- A text without a sign of its own, such as one that begins with a digit. -/
def Unsigned (text : Bytes) : Prop :=
  text.head? ≠ some 45 ∧ text.head? ≠ some 43

theorem splitSign_of_unsigned {text : Bytes} (unsigned : Unsigned text) :
    splitSign text = (false, text) := by
  unfold splitSign
  split
  · exact absurd rfl unsigned.1
  · exact absurd rfl unsigned.2
  · rfl

/-- Every text is a sign and a rest. -/
theorem isSign_splitSign (text : Bytes) :
    ∃ sign, IsSign sign (splitSign text).1 ∧ text = sign ++ (splitSign text).2 := by
  unfold splitSign
  split
  · exact ⟨[45], .minus, rfl⟩
  · exact ⟨[43], .plus, rfl⟩
  · exact ⟨[], .none, rfl⟩

theorem splitSign_append {sign digits : Bytes} {negative : Bool} (isSign : IsSign sign negative)
    (unsigned : Unsigned digits) : splitSign (sign ++ digits) = (negative, digits) := by
  cases isSign with
  | none => exact splitSign_of_unsigned unsigned
  | plus => rfl
  | minus => rfl

/-! ## Numerals -/

/-- The integer with the given sign and absolute value. -/
def signed (negative : Bool) (magnitude : Nat) : Int :=
  if negative then -(magnitude : Int) else magnitude

@[simp]
theorem natAbs_signed (negative : Bool) (magnitude : Nat) :
    (signed negative magnitude).natAbs = magnitude := by
  cases negative <;> simp [signed]

/-- White space, an optional sign and digits, and the integer they denote. -/
inductive IsNumeral : Bytes → Int → Prop
  | intro {spaces sign digits : Bytes} {negative : Bool} :
      (∀ byte ∈ spaces, isSpace byte = true) → IsSign sign negative → digits ≠ [] →
      (∀ byte ∈ digits, isDigit byte = true) →
      IsNumeral (spaces ++ (sign ++ digits)) (signed negative (decimal digits))

/-- The numeral at the start of a text: the integer it denotes, and what follows. -/
def scanNumeral (input : Bytes) : Option (Int × Bytes) :=
  let (negative, unsigned) := splitSign (input.dropWhile isSpace)
  let digits := unsigned.takeWhile isDigit
  if digits = [] then
    none
  else
    some (signed negative (decimal digits), unsigned.dropWhile isDigit)

theorem unsigned_of_digits {digits rest : Bytes} (nonempty : digits ≠ [])
    (areDigits : ∀ byte ∈ digits, isDigit byte = true) : Unsigned (digits ++ rest) := by
  cases digits with
  | nil => contradiction
  | cons digit digits =>
      have isDigit := isDigit_iff.mp (areDigits digit List.mem_cons_self)
      constructor <;> rintro ⟨rfl⟩ <;> simp at isDigit

/-- White space, a sign and digits are scanned as far as they go. -/
theorem scanNumeral_append {spaces sign digits rest : Bytes} {negative : Bool}
    (areSpaces : ∀ byte ∈ spaces, isSpace byte = true) (isSign : IsSign sign negative)
    (nonempty : digits ≠ []) (areDigits : ∀ byte ∈ digits, isDigit byte = true)
    (stops : Stops isDigit rest) :
    scanNumeral (spaces ++ (sign ++ (digits ++ rest))) =
      some (signed negative (decimal digits), rest) := by
  have notSpace : Stops isSpace (sign ++ (digits ++ rest)) := by
    cases isSign with
    | none =>
        cases digits with
        | nil => contradiction
        | cons digit digits =>
            exact stops_cons.mpr (not_isSpace_of_isDigit (areDigits digit List.mem_cons_self))
    | plus => exact stops_cons.mpr rfl
    | minus => exact stops_cons.mpr rfl
  simp only [scanNumeral, dropWhile_span areSpaces notSpace,
    splitSign_append isSign (unsigned_of_digits nonempty areDigits),
    takeWhile_span areDigits stops, dropWhile_span areDigits stops, if_neg nonempty]

/-- The scan finds exactly the longest numeral. -/
theorem scanNumeral_eq_some_iff {input rest : Bytes} {value : Int} :
    scanNumeral input = some (value, rest) ↔
      ∃ numeral, input = numeral ++ rest ∧ IsNumeral numeral value ∧ Stops isDigit rest := by
  constructor
  · intro scanned
    obtain ⟨sign, isSign, signEq⟩ := isSign_splitSign (input.dropWhile isSpace)
    simp only [scanNumeral] at scanned
    generalize splitSign (input.dropWhile isSpace) = parts at isSign signEq scanned
    obtain ⟨negative, unsigned⟩ := parts
    have areSpaces : ∀ byte ∈ input.takeWhile isSpace, isSpace byte = true :=
      fun byte => List.mem_takeWhile_imp
    have areDigits : ∀ byte ∈ unsigned.takeWhile isDigit, isDigit byte = true :=
      fun byte => List.mem_takeWhile_imp
    split at scanned
    · contradiction
    · rename_i nonempty
      simp only [Option.some.injEq, Prod.mk.injEq] at scanned
      obtain ⟨rfl, rfl⟩ := scanned
      refine ⟨_, ?_, .intro areSpaces isSign nonempty areDigits, stops_dropWhile _ _⟩
      calc
        input = input.takeWhile isSpace ++ input.dropWhile isSpace :=
          List.takeWhile_append_dropWhile.symm
        _ = input.takeWhile isSpace ++ (sign ++
            (unsigned.takeWhile isDigit ++ unsigned.dropWhile isDigit)) := by
          rw [signEq, List.takeWhile_append_dropWhile]
        _ = _ := by simp only [List.append_assoc]
  · rintro ⟨numeral, rfl, isNumeral, stops⟩
    cases isNumeral with
    | intro areSpaces isSign nonempty areDigits =>
        simpa [List.append_assoc] using
          scanNumeral_append areSpaces isSign nonempty areDigits stops

/-- The 32 bits `%u` stores for a number: `strtoul` converts it to an
`unsigned long`, of which the low half is kept. -/
def narrow (value : Int) : UInt32 :=
  UInt32.ofNat (if value.natAbs < 2 ^ 64 then (value % 2 ^ 64).toNat else 2 ^ 64 - 1)

/-- `%u` narrows the number it has found. -/
theorem scanUnsigned_eq (input : Bytes) :
    scanUnsigned input = (scanNumeral input).map fun scanned => (narrow scanned.1, scanned.2) := by
  have unfolded : scanUnsigned input =
      let (negative, unsigned) := splitSign (input.dropWhile isSpace)
      let value := decimal (unsigned.takeWhile isDigit)
      if unsigned.takeWhile isDigit = [] then
        none
      else
        some (UInt32.ofNat
          (if value < 2 ^ 64 then if negative then (2 ^ 64 - value) % 2 ^ 64 else value
            else 2 ^ 64 - 1), unsigned.dropWhile isDigit) :=
    rfl
  rw [unfolded, scanNumeral]
  obtain ⟨negative, unsigned⟩ := splitSign (input.dropWhile isSpace)
  simp only
  generalize decimal (unsigned.takeWhile isDigit) = value
  split
  · rfl
  · simp only [Option.map_some, Option.some.injEq, Prod.mk.injEq, and_true, narrow,
      natAbs_signed]
    congr 1
    split
    · cases negative <;> simp only [signed, if_true, Bool.false_eq_true, if_false] <;> omega
    · rfl

theorem narrow_eq_self {value : Int} (nonneg : 0 ≤ value) (bound : value < 2 ^ 32) :
    ((narrow value).toNat : Int) = value := by
  have whole : (if value.natAbs < 2 ^ 64 then (value % 2 ^ 64).toNat else 2 ^ 64 - 1) =
      value.toNat := by
    split <;> omega
  rw [narrow, whole, UInt32.toNat_ofNat_of_lt' (by simp only [UInt32.size]; omega)]
  exact Int.toNat_of_nonneg nonneg

end Aesd.Server
