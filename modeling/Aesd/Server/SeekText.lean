import Aesd.Server.Numeral

/-!
# The text of a seek command

`get_ioctl_command` reads back every pair of 32-bit values that is written in
decimal.  It also accepts numbers that are no 32-bit values, and stores what is
left of them after the narrowing.
-/

namespace Aesd.Server

open Aesd.Driver
open Aesd.Word

/-- The text is `AESDCHAR_IOCSEEKTO:` with the numeral of `first`, a comma and the
numeral of `second` behind it. -/
def CommandText (text : Bytes) (first second : Int) : Prop :=
  ∃ numeral numeral' rest,
    text = seekCommand ++ 58 :: (numeral ++ 44 :: (numeral' ++ rest)) ∧
      IsNumeral numeral first ∧ IsNumeral numeral' second ∧ Stops isDigit rest

theorem scanLiteral_eq_some_iff {literal input rest : Bytes} :
    scanLiteral literal input = some rest ↔ input = literal ++ rest := by
  induction literal generalizing input with
  | nil => simp [scanLiteral]
  | cons letter literal ih =>
      cases input with
      | nil => simp [scanLiteral]
      | cons byte input =>
          by_cases same : byte = letter
          · simp [scanLiteral, same, ih]
          · simp [scanLiteral, same]

/-- A text is a command exactly if the two scans succeed. -/
theorem commandText_iff {text : Bytes} {first second : Int} :
    CommandText text first second ↔
      ∃ input, text = seekCommand ++ 58 :: input ∧
        ∃ input', scanNumeral input = some (first, 44 :: input') ∧
          ∃ rest, scanNumeral input' = some (second, rest) := by
  constructor
  · rintro ⟨numeral, numeral', rest, rfl, isFirst, isSecond, stops⟩
    exact ⟨_, rfl, _, scanNumeral_eq_some_iff.mpr ⟨numeral, rfl, isFirst, stops_cons.mpr rfl⟩,
      rest, scanNumeral_eq_some_iff.mpr ⟨numeral', rfl, isSecond, stops⟩⟩
  · rintro ⟨input, rfl, input', scanned, rest, scanned'⟩
    obtain ⟨numeral, rfl, isFirst, _⟩ := scanNumeral_eq_some_iff.mp scanned
    obtain ⟨numeral', rfl, isSecond, stops⟩ := scanNumeral_eq_some_iff.mp scanned'
    exact ⟨numeral, numeral', rest, rfl, isFirst, isSecond, stops⟩

/-- A text denotes at most one pair of integers. -/
theorem CommandText.unique {text : Bytes} {first second first' second' : Int}
    (is : CommandText text first second) (is' : CommandText text first' second') :
    first = first' ∧ second = second' := by
  obtain ⟨input, rfl, input', scanned, rest, scanned'⟩ := commandText_iff.mp is
  obtain ⟨other, equal, other', otherScanned, rest', otherScanned'⟩ := commandText_iff.mp is'
  obtain rfl : input = other := (List.cons.inj (List.append_cancel_left equal)).2
  rw [scanned] at otherScanned
  simp only [Option.some.injEq, Prod.mk.injEq, List.cons.injEq, true_and] at otherScanned
  obtain ⟨rfl, rfl⟩ := otherScanned
  rw [scanned'] at otherScanned'
  simp only [Option.some.injEq, Prod.mk.injEq] at otherScanned'
  exact ⟨rfl, otherScanned'.1⟩

/-- `get_ioctl_command` narrows both numbers of a command. -/
theorem getIoctlCommand_eq_some_iff {cmdBuffer : Bytes} {cmd : AesdSeekto} :
    getIoctlCommand cmdBuffer = some cmd ↔
      ∃ first second, CommandText (cString cmdBuffer) first second ∧
        cmd = ⟨narrow first, narrow second⟩ := by
  simp only [getIoctlCommand, bind, Option.bind_eq_some_iff, scanLiteral_eq_some_iff,
    scanUnsigned_eq, Option.map_eq_some_iff, pure, Option.some.injEq]
  constructor
  · rintro ⟨input, textEq, _, ⟨⟨first, rest⟩, scanned, rfl⟩, input', restEq, _,
      ⟨⟨second, rest'⟩, scanned', rfl⟩, rfl⟩
    obtain rfl : rest = 44 :: input' := restEq
    exact ⟨first, second, commandText_iff.mpr ⟨input, by simpa using textEq, input', scanned,
      rest', scanned'⟩, rfl⟩
  · rintro ⟨first, second, is, rfl⟩
    obtain ⟨input, textEq, input', scanned, rest', scanned'⟩ := commandText_iff.mp is
    exact ⟨input, by simpa using textEq, _, ⟨_, scanned, rfl⟩, input', rfl, _,
      ⟨_, scanned', rfl⟩, rfl⟩

/-! ## Texts and pairs -/

/-- The command for a pair, with its newline. -/
def commandLine (cmd : AesdSeekto) : Bytes :=
  seekCommand ++ 58 :: (decimalText cmd.writeCmd.toNat ++
    44 :: (decimalText cmd.writeCmdOffset.toNat ++ [newline]))

theorem isNumeral_decimalText (value : Nat) : IsNumeral (decimalText value) value := by
  have noSpaces : ∀ byte ∈ ([] : Bytes), isSpace byte = true := by simp
  have numeral := IsNumeral.intro noSpaces .none (decimalText_ne_nil value)
    fun _ member => isDigit_of_mem_decimalText member
  simpa [decimal_decimalText, signed] using numeral

theorem nul_not_mem_decimalText (value : Nat) : 0 ∉ decimalText value := by
  intro nul
  have digit := isDigit_of_mem_decimalText nul
  contradiction

theorem nul_not_mem_commandLine (cmd : AesdSeekto) : 0 ∉ commandLine cmd := by
  have noNul : 0 ∉ seekCommand := by decide
  simp [commandLine, noNul, nul_not_mem_decimalText, newline]

/-- Whatever follows its newline, the command line of a pair denotes the pair. -/
theorem commandText_commandLine (cmd : AesdSeekto) (later : Bytes) :
    CommandText (commandLine cmd ++ later) cmd.writeCmd.toNat cmd.writeCmdOffset.toNat :=
  ⟨decimalText cmd.writeCmd.toNat, decimalText cmd.writeCmdOffset.toNat, newline :: later,
    by simp [commandLine], isNumeral_decimalText _, isNumeral_decimalText _, stops_cons.mpr rfl⟩

theorem narrow_natCast_toNat (value : UInt32) : narrow (value.toNat : Int) = value := by
  have same := narrow_eq_self (Int.natCast_nonneg value.toNat)
    (by have := value.toNat_lt; omega)
  exact UInt32.toNat_inj.mp (by omega)

theorem getIoctlCommand_commandLine (cmd : AesdSeekto) (later : Bytes) :
    getIoctlCommand (commandLine cmd ++ later) = some cmd := by
  rw [getIoctlCommand_eq_some_iff, cString_append (nul_not_mem_commandLine cmd)]
  refine ⟨_, _, commandText_commandLine cmd (cString later), ?_⟩
  rw [narrow_natCast_toNat, narrow_natCast_toNat]

/-- A pair is returned only for the text of this pair. -/
def ParsesExactly (cmdBuffer : Bytes) : Prop :=
  ∀ cmd, getIoctlCommand cmdBuffer = some cmd →
    CommandText (cString cmdBuffer) cmd.writeCmd.toNat cmd.writeCmdOffset.toNat

/-- The numbers in the text, if it is a command, are 32-bit values. -/
def NumbersInRange (cmdBuffer : Bytes) : Prop :=
  ∀ first second, CommandText (cString cmdBuffer) first second →
    (0 ≤ first ∧ first < 2 ^ 32) ∧ 0 ≤ second ∧ second < 2 ^ 32

/-- The command line of every pair is read back as the pair, whatever lies behind
it in the buffer.  For an arbitrary buffer, a pair is returned only if the
numerals of the text denote it, if and only if they denote 32-bit values. -/
theorem getIoctlCommand_exact_iff (cmdBuffer : Bytes) :
    (∀ cmd later, getIoctlCommand (commandLine cmd ++ later) = some cmd) ∧
      (ParsesExactly cmdBuffer ↔ NumbersInRange cmdBuffer) := by
  refine ⟨getIoctlCommand_commandLine, ?_⟩
  constructor
  · intro exactly first second is
    have denoted := exactly ⟨narrow first, narrow second⟩
      (getIoctlCommand_eq_some_iff.mpr ⟨first, second, is, rfl⟩)
    obtain ⟨firstEq, secondEq⟩ := is.unique denoted
    have firstLt := (narrow first).toNat_lt
    have secondLt := (narrow second).toNat_lt
    simp only at firstEq secondEq
    omega
  · intro inRange cmd parsed
    obtain ⟨first, second, is, rfl⟩ := getIoctlCommand_eq_some_iff.mp parsed
    obtain ⟨⟨firstNonneg, firstLt⟩, secondNonneg, secondLt⟩ := inRange first second is
    rwa [narrow_eq_self firstNonneg firstLt, narrow_eq_self secondNonneg secondLt]

/-- The text `AESDCHAR_IOCSEEKTO:-1,4294967296` denotes no pair and is taken for
one. -/
theorem getIoctlCommand_narrows :
    let cmdBuffer := seekCommand ++ [58, 45, 49, 44, 52, 50, 57, 52, 57, 54, 55, 50, 57, 54, 10, 0]
    CommandText (cString cmdBuffer) (-1) 4294967296 ∧
      getIoctlCommand cmdBuffer = some ⟨4294967295, 0⟩ ∧ ¬ ParsesExactly cmdBuffer := by
  intro cmdBuffer
  have is : CommandText (cString cmdBuffer) (-1) 4294967296 :=
    commandText_iff.mpr ⟨_, rfl, _, rfl, _, rfl⟩
  have parsed : getIoctlCommand cmdBuffer = some ⟨4294967295, 0⟩ := by decide
  refine ⟨is, parsed, ?_⟩
  intro exactly
  have wrong := (is.unique (exactly _ parsed)).1
  contradiction

end Aesd.Server
