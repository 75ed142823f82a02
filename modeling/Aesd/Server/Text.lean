import Aesd.Driver.Device

/-!
# Text in C buffers

The functions of the C library that `aesdsocket` applies to the contents of its
buffers: what `strlen`, `strncmp`, `sscanf` and `fgets` make of a sequence of
bytes.
-/

namespace Aesd.Server

open Aesd.Driver

/-- `buffer_size` -/
def bufferSize : Nat := 1024

/-- The bytes `AESDCHAR_IOCSEEKTO`. -/
def seekCommand : Bytes :=
  [65, 69, 83, 68, 67, 72, 65, 82, 95, 73, 79, 67, 83, 69, 69, 75, 84, 79]

/-- The string a buffer contains: the bytes in front of the first NUL.  `strlen`
is its length. -/
def cString (buffer : Bytes) : Bytes :=
  buffer.takeWhile (· ≠ 0)

theorem nul_not_mem_cString (buffer : Bytes) : 0 ∉ cString buffer := by
  intro member
  simpa using List.mem_takeWhile_imp member

/-- Bytes without a NUL are part of the string they begin. -/
theorem cString_append {bytes rest : Bytes} (nulFree : 0 ∉ bytes) :
    cString (bytes ++ rest) = bytes ++ cString rest := by
  rw [cString, cString, List.takeWhile_append_of_pos]
  intro byte member
  have nonzero : byte ≠ 0 := by
    rintro rfl
    exact nulFree member
  simpa using nonzero

/-- Behind a NUL nothing matters. -/
theorem cString_append_of_mem {bytes : Bytes} (nul : 0 ∈ bytes) (rest : Bytes) :
    cString (bytes ++ rest) = cString bytes := by
  rw [cString, cString, List.takeWhile_append, if_neg]
  intro whole
  have all : bytes.takeWhile (· ≠ 0) = bytes :=
    (List.takeWhile_prefix _).eq_of_length whole
  rw [← all] at nul
  exact nul_not_mem_cString bytes nul

theorem cString_zeros (count : Nat) : cString (List.replicate count 0) = [] := by
  cases count with
  | zero => rfl
  | succ count => simp [cString, List.replicate_succ]

/-- A NUL-free sequence of bytes is a string as a whole. -/
theorem cString_of_nulFree {bytes : Bytes} (nulFree : 0 ∉ bytes) : cString bytes = bytes := by
  rw [← List.append_nil bytes, cString_append nulFree]
  rfl

theorem cString_append_nul (bytes rest : Bytes) :
    cString (bytes ++ 0 :: rest) = cString bytes := by
  by_cases nul : 0 ∈ bytes
  · exact cString_append_of_mem nul _
  · rw [cString_append nul, cString_of_nulFree nul]
    exact List.append_nil bytes

/-- A buffer after bytes were stored at its start. -/
def overwrite (buffer bytes : Bytes) : Bytes :=
  bytes ++ buffer.drop bytes.length

/-- The bytes `send(fd, buffer, strlen(buffer), 0)` transmits; without a NUL in
the buffer `strlen` reads behind its end. -/
def sendString (buffer : Bytes) : Except Stop Bytes :=
  if 0 ∈ buffer then
    .ok (cString buffer)
  else
    .error .badAccess

/-- `strncmp(left, right, count) == 0`: the strings agree as far as `count` bytes
reach. -/
def strncmpIsZero (left right : Bytes) (count : Nat) : Bool :=
  (cString left).take count == (cString right).take count

/-- The `int` that `ioctl` returns for the return value of the driver: the C
library turns error numbers into `-1`. -/
def ioctlResult (retval : Int) : Int :=
  if -4095 ≤ retval ∧ retval < 0 then -1 else toInt32 retval

/-! ## `sscanf` -/

/-- The bytes `isspace` accepts. -/
def isSpace (byte : UInt8) : Bool :=
  byte = 32 || (9 ≤ byte && byte ≤ 13)

/-- The bytes `isdigit` accepts. -/
def isDigit (byte : UInt8) : Bool :=
  48 ≤ byte && byte ≤ 57

/-- The number a sequence of digits denotes. -/
def decimal (digits : Bytes) : Nat :=
  digits.foldl (fun value digit => 10 * value + (digit.toNat - 48)) 0

/-- The directive `%u`: skip white space, read an optional sign and at least one
digit, convert like `strtoul` and keep the low 32 bits.  The rest of the input
follows. -/
def scanUnsigned (input : Bytes) : Option (UInt32 × Bytes) :=
  let (negative, unsigned) := match input.dropWhile isSpace with
    | 45 :: rest => (true, rest)
    | 43 :: rest => (false, rest)
    | other => (false, other)
  let value := decimal (unsigned.takeWhile isDigit)
  let strtoul :=
    if value < 2 ^ 64 then
      if negative then (2 ^ 64 - value) % 2 ^ 64 else value
    else
      2 ^ 64 - 1
  if unsigned.takeWhile isDigit = [] then
    none
  else
    some (UInt32.ofNat strtoul, unsigned.dropWhile isDigit)

/-- A literal part of a format. -/
def scanLiteral : Bytes → Bytes → Option Bytes
  | [], input => some input
  | _ :: _, [] => none
  | letter :: literal, byte :: input =>
      if byte = letter then scanLiteral literal input else none

/-- `get_ioctl_command` once it has memory for the command: the format is
`AESDCHAR_IOCSEEKTO:%u,%u`. -/
def getIoctlCommand (cmdBuffer : Bytes) : Option AesdSeekto := do
  let input ← scanLiteral (seekCommand ++ [58]) (cString cmdBuffer)
  let (writeCmd, input) ← scanUnsigned input
  let input ← scanLiteral [44] input
  let (writeCmdOffset, _) ← scanUnsigned input
  pure ⟨writeCmd, writeCmdOffset⟩

end Aesd.Server
