import Aesd.Server.Receive
import Aesd.Server.SeekText

/-!
# Bytes behind the received ones

`get_ioctl_command` scans the receive buffer as a string, although `recv` does not
terminate it.  Since `%u` skips newlines, a scan that has not come to its end
inside the chunk continues in the bytes an earlier chunk or `malloc` has left
behind.
-/

namespace Aesd.Server

open Aesd.Driver
open Aesd.Word

/-! ## Numerals that run out -/

/-- The text ends before or within the digits of the numeral it starts with. -/
def RunsOut (input : Bytes) : Prop :=
  (splitSign (input.dropWhile isSpace)).2.dropWhile isDigit = []

instance (input : Bytes) : Decidable (RunsOut input) :=
  inferInstanceAs (Decidable (_ = []))

/-- A text that runs out is white space, a sign and digits, each possibly missing. -/
theorem runsOut_parts {input : Bytes} (runsOut : RunsOut input) :
    ∃ spaces sign digits negative, input = spaces ++ (sign ++ digits) ∧
      (∀ byte ∈ spaces, isSpace byte = true) ∧ IsSign sign negative ∧
      ∀ byte ∈ digits, isDigit byte = true := by
  obtain ⟨sign, isSign, signEq⟩ := isSign_splitSign (input.dropWhile isSpace)
  refine ⟨input.takeWhile isSpace, sign, _, _, ?_, fun byte => List.mem_takeWhile_imp, isSign,
    List.dropWhile_eq_nil_iff.mp runsOut⟩
  rw [← signEq, List.takeWhile_append_dropWhile]

/-- A numeral that ends inside the text is not affected by what follows. -/
theorem scanNumeral_append_of_not_runsOut {input : Bytes} (ends : ¬ RunsOut input)
    (later : Bytes) :
    scanNumeral (input ++ later) =
      (scanNumeral input).map fun scanned => (scanned.1, scanned.2 ++ later) := by
  have behindSpaces : input.dropWhile isSpace ≠ [] := by
    intro nothing
    rw [RunsOut, nothing] at ends
    exact ends rfl
  have behindSign : splitSign (input.dropWhile isSpace ++ later) =
      ((splitSign (input.dropWhile isSpace)).1,
        (splitSign (input.dropWhile isSpace)).2 ++ later) := by
    generalize input.dropWhile isSpace = text at behindSpaces
    cases text with
    | nil => contradiction
    | cons byte text =>
        simp only [List.cons_append]
        unfold splitSign
        split <;> simp_all
  unfold RunsOut at ends
  simp only [scanNumeral, dropWhile_append_of_ne_nil behindSpaces, behindSign,
    takeWhile_append_of_ne_nil ends, dropWhile_append_of_ne_nil ends]
  split <;> rfl

/-- A numeral runs out if there is nothing behind it. -/
theorem runsOut_iff {input rest : Bytes} {value : Int}
    (scanned : scanNumeral input = some (value, rest)) : RunsOut input ↔ rest = [] := by
  simp only [scanNumeral] at scanned
  split at scanned
  · contradiction
  · rw [RunsOut, (Prod.mk.inj (Option.some.inj scanned)).2]

/-- A digit completes the numeral of a text that has run out. -/
theorem scanNumeral_of_runsOut {input : Bytes} (runsOut : RunsOut input) {digit : UInt8}
    (digitIs : isDigit digit = true) {rest : Bytes} (stops : Stops isDigit rest) :
    ∃ value, scanNumeral (input ++ digit :: rest) = some (value, rest) := by
  obtain ⟨spaces, sign, digits, negative, rfl, areSpaces, isSign, areDigits⟩ :=
    runsOut_parts runsOut
  have allDigits : ∀ byte ∈ digits ++ [digit], isDigit byte = true := by
    intro byte member
    rcases List.mem_append.mp member with early | last
    · exact areDigits byte early
    · rwa [List.mem_singleton.mp last]
  have scanned := scanNumeral_append areSpaces isSign (by simp) allDigits stops
  exact ⟨_, by simpa [List.append_assoc] using scanned⟩

/-- More digits behind a numeral make a longer one. -/
theorem IsNumeral.scan_append {numeral : Bytes} {value : Int}
    (isNumeral : IsNumeral numeral value) :
    ∃ negative digits, value = signed negative (decimal digits) ∧
      ∀ more rest, (∀ byte ∈ more, isDigit byte = true) → Stops isDigit rest →
        scanNumeral (numeral ++ (more ++ rest)) =
          some (signed negative (decimal (digits ++ more)), rest) := by
  cases isNumeral with
  | intro areSpaces isSign nonempty areDigits =>
      refine ⟨_, _, rfl, ?_⟩
      intro more rest moreDigits stops
      have allDigits := List.forall_mem_append.mpr ⟨areDigits, moreDigits⟩
      have scanned := scanNumeral_append areSpaces isSign (by simp [nonempty]) allDigits stops
      simpa [List.append_assoc] using scanned

/-! ## Numbers that more digits do not change -/

theorem narrow_of_large {value : Int} (large : 2 ^ 64 ≤ value.natAbs) :
    narrow value = 4294967295 := by
  rw [narrow, if_neg (by omega)]
  rfl

theorem toNat_narrow {value : Int} (small : value.natAbs < 2 ^ 64) :
    ((narrow value).toNat : Int) = value % 2 ^ 32 := by
  rw [narrow, if_pos small, UInt32.toNat_ofNat']
  omega

/-- `strtoul` saturates with the next digit, and the number is already stored as the
saturated one is. -/
def Settled (value : Int) : Prop :=
  2 ^ 64 ≤ 10 * value.natAbs ∧ narrow value = 4294967295

/-- Behind a settled numeral anything may follow. -/
theorem scanNumeral_of_settled {numeral : Bytes} {value : Int}
    (isNumeral : IsNumeral numeral value) (settled : Settled value) (later : Bytes) :
    ∃ value' rest, scanNumeral (numeral ++ later) = some (value', rest) ∧
      narrow value' = 4294967295 := by
  obtain ⟨negative, digits, rfl, scans⟩ := isNumeral.scan_append
  have scanned := scans (later.takeWhile isDigit) (later.dropWhile isDigit)
    (fun byte => List.mem_takeWhile_imp) (stops_dropWhile isDigit later)
  rw [List.takeWhile_append_dropWhile] at scanned
  refine ⟨_, _, scanned, ?_⟩
  by_cases none : later.takeWhile isDigit = []
  · rw [none, List.append_nil]
    exact settled.2
  · have large := settled.1
    have grows := decimal_append_ge digits none
    rw [natAbs_signed] at large
    apply narrow_of_large
    rw [natAbs_signed]
    exact large.trans grows

/-- Behind any other numeral a digit matters. -/
theorem settled_of_scanNumeral {numeral : Bytes} {value : Int}
    (isNumeral : IsNumeral numeral value)
    (same : ∀ digit, isDigit digit = true →
      ∀ value', scanNumeral (numeral ++ [digit]) = some (value', []) →
        narrow value' = narrow value) : Settled value := by
  obtain ⟨negative, digits, rfl, scans⟩ := isNumeral.scan_append
  have digitSame (digit : UInt8) (digitIs : isDigit digit = true) :
      narrow (signed negative (10 * decimal digits + (digit.toNat - 48))) =
        narrow (signed negative (decimal digits)) := by
    rw [← decimal_append]
    exact same digit digitIs _ (scans [digit] [] (by simpa using digitIs) (stops_nil _))
  have zero : narrow (signed negative (10 * decimal digits)) =
      narrow (signed negative (decimal digits)) := digitSame 48 rfl
  have one : narrow (signed negative (10 * decimal digits + 1)) =
      narrow (signed negative (decimal digits)) := digitSame 49 rfl
  generalize decimal digits = number at zero one ⊢
  by_cases large : 2 ^ 64 ≤ 10 * number
  · refine ⟨by simpa only [natAbs_signed] using large, ?_⟩
    rw [← zero]
    apply narrow_of_large
    rwa [natAbs_signed]
  · -- the two digits are stored differently
    have left := toNat_narrow (show (signed negative (10 * number)).natAbs < 2 ^ 64 by
      rw [natAbs_signed]
      omega)
    have right := toNat_narrow (show (signed negative (10 * number + 1)).natAbs < 2 ^ 64 by
      rw [natAbs_signed]
      omega)
    rw [zero, ← one, right] at left
    cases negative <;> simp only [signed, if_true, Bool.false_eq_true, if_false] at left <;> omega

/-! ## The two conversions -/

/-- The scan behind `AESDCHAR_IOCSEEKTO:`. -/
def scanPair (input : Bytes) : Option AesdSeekto :=
  match scanNumeral input with
  | some (first, 44 :: input) =>
      (scanNumeral input).map fun second => ⟨narrow first, narrow second.1⟩
  | _ => none

theorem getIoctlCommand_eq_scanPair {cmdBuffer input : Bytes}
    (text : cString cmdBuffer = seekCommand ++ 58 :: input) :
    getIoctlCommand cmdBuffer = scanPair input := by
  have begins : scanLiteral (seekCommand ++ [58]) (cString cmdBuffer) = some input := by
    rw [scanLiteral_eq_some_iff, text]
    simp
  simp only [getIoctlCommand, begins, bind, Option.bind, scanUnsigned_eq, scanPair]
  cases scanNumeral input with
  | none => rfl
  | some scanned =>
      obtain ⟨first, rest⟩ := scanned
      cases rest with
      | nil => rfl
      | cons byte rest =>
          by_cases comma : byte = 44
          · subst comma
            simp only [Option.map_some, scanLiteral, if_true]
            cases scanNumeral rest <;> rfl
          · simp [scanLiteral, comma]

/-- The scan of the numbers comes to its end inside the text, or nothing behind the
text changes its result. -/
structure ScanEnds (input : Bytes) : Prop where
  first : ¬ RunsOut input
  second : ∀ first rest, scanNumeral input = some (first, 44 :: rest) → RunsOut rest →
    ∃ second, scanNumeral rest = some (second, []) ∧ Settled second

theorem scanPair_append {input : Bytes} (ends : ScanEnds input) (later : Bytes) :
    scanPair (input ++ later) = scanPair input := by
  have appended := scanNumeral_append_of_not_runsOut ends.first later
  cases scanned : scanNumeral input with
  | none => simp [scanPair, appended, scanned]
  | some parts =>
      obtain ⟨first, rest⟩ := parts
      cases rest with
      | nil => exact absurd ((runsOut_iff scanned).mpr rfl) ends.first
      | cons byte rest =>
          by_cases comma : byte = 44
          · subst comma
            simp only [scanPair, appended, scanned, Option.map_some, List.cons_append]
            by_cases runsOut : RunsOut rest
            · obtain ⟨second, scanned', settled⟩ := ends.second first rest scanned runsOut
              obtain ⟨numeral, textEq, isNumeral, _⟩ := scanNumeral_eq_some_iff.mp scanned'
              rw [List.append_nil] at textEq
              subst textEq
              obtain ⟨value, rest', longer, stored⟩ :=
                scanNumeral_of_settled isNumeral settled later
              simp [longer, scanned', stored, settled.2]
            · rw [scanNumeral_append_of_not_runsOut runsOut, Option.map_map]
              rfl
          · have rejected : ∀ later, scanPair (input ++ later) = none := by
              intro later
              have appended := scanNumeral_append_of_not_runsOut ends.first later
              simp only [scanPair, appended, scanned, Option.map_some, List.cons_append]
              split
              · rename_i equal
                simp only [Option.some.injEq, Prod.mk.injEq, List.cons.injEq] at equal
                exact absurd equal.2.1 comma
              · rfl
            rw [rejected, ← List.append_nil input, rejected]

/-- A digit behind the second numeral. -/
theorem scanPair_append_digit {input rest : Bytes} {first value : Int} (ends : ¬ RunsOut input)
    (scanned : scanNumeral input = some (first, 44 :: rest)) {digit : UInt8}
    (scanned' : scanNumeral (rest ++ [digit]) = some (value, [])) :
    scanPair (input ++ [digit]) = some ⟨narrow first, narrow value⟩ := by
  simp [scanPair, scanNumeral_append_of_not_runsOut ends, scanned, scanned']

/-- Where the scan does not end, `1,2` or a digit makes a difference. -/
theorem scanEnds_of_same {input : Bytes}
    (same : ∀ later, 0 ∉ later → scanPair (input ++ later) = scanPair input) :
    ScanEnds input := by
  have ends : ¬ RunsOut input := by
    intro runsOut
    obtain ⟨value, scanned⟩ := scanNumeral_of_runsOut runsOut (show isDigit 49 = true from rfl)
      (show Stops isDigit [44, 50] from stops_cons.mpr rfl)
    have nothing : scanPair input = none := by
      unfold scanPair
      split
      · rename_i scanned'
        exact absurd ((runsOut_iff scanned').mp runsOut) (by simp)
      · rfl
    have extended := same [49, 44, 50] (by decide)
    rw [nothing, scanPair, scanned] at extended
    contradiction
  refine ⟨ends, ?_⟩
  intro first rest scanned runsOut
  have digitSame (digit : UInt8) (digitIs : isDigit digit = true) :
      scanPair (input ++ [digit]) = scanPair input := by
    apply same
    intro nul
    rw [← List.mem_singleton.mp nul] at digitIs
    contradiction
  obtain ⟨value, one⟩ := scanNumeral_of_runsOut runsOut (show isDigit 49 = true from rfl)
    (stops_nil _)
  have whole := digitSame 49 rfl
  rw [scanPair_append_digit ends scanned one] at whole
  simp only [scanPair, scanned] at whole
  obtain ⟨⟨second, behind⟩, scanned', _⟩ := Option.map_eq_some_iff.mp whole.symm
  obtain rfl := (runsOut_iff scanned').mp runsOut
  obtain ⟨numeral, textEq, isNumeral, _⟩ := scanNumeral_eq_some_iff.mp scanned'
  rw [List.append_nil] at textEq
  subst textEq
  refine ⟨second, scanned', settled_of_scanNumeral isNumeral ?_⟩
  intro digit digitIs value' longer
  have stored := digitSame digit digitIs
  rw [scanPair_append_digit ends scanned longer] at stored
  simp only [scanPair, scanned, scanned', Option.map_some, Option.some.injEq,
    AesdSeekto.mk.injEq, true_and] at stored
  exact stored

/-! ## Chunks -/

/-- Whatever the rest of the receive buffer and the memory behind it contain,
`get_ioctl_command` returns the same. -/
def DecodedFromChunk (chunk : Bytes) : Prop :=
  ∀ rest rest' behind behind' : Bytes, rest.length = bufferSize - chunk.length →
    rest'.length = bufferSize - chunk.length →
      getIoctlCommand (chunk ++ rest ++ behind) = getIoctlCommand (chunk ++ rest' ++ behind')

/-- The scan stays inside the chunk: a NUL terminates it, or the scan of the numbers
ends. -/
def ScanStaysInside (chunk : Bytes) : Prop :=
  0 ∈ chunk ∨ ∀ input, chunk = seekCommand ++ 58 :: input → ScanEnds input

theorem getIoctlCommand_congr {cmdBuffer cmdBuffer' : Bytes}
    (same : cString cmdBuffer = cString cmdBuffer') :
    getIoctlCommand cmdBuffer = getIoctlCommand cmdBuffer' := by
  rw [getIoctlCommand, getIoctlCommand, same]

/-- A memory without NUL, padded to any size, can follow the chunk. -/
theorem DecodedFromChunk.same {chunk : Bytes} (decoded : DecodedFromChunk chunk)
    (nulFree : 0 ∉ chunk) {later : Bytes} (laterNulFree : 0 ∉ later) :
    getIoctlCommand (chunk ++ later) = getIoctlCommand chunk := by
  have padded (memory : Bytes) (memoryNulFree : 0 ∉ memory) :
      ∃ rest behind : Bytes, rest.length = bufferSize - chunk.length ∧
        cString (chunk ++ rest ++ behind) = cString (chunk ++ memory) := by
    let whole := memory ++ List.replicate (bufferSize - chunk.length) 0
    refine ⟨whole.take (bufferSize - chunk.length), whole.drop (bufferSize - chunk.length),
      by simp [whole], ?_⟩
    rw [List.append_assoc, List.take_append_drop, cString_append nulFree, cString_append nulFree,
      cString_append memoryNulFree, cString_zeros, cString_of_nulFree memoryNulFree,
      List.append_nil]
  obtain ⟨rest, behind, size, same⟩ := padded later laterNulFree
  obtain ⟨rest', behind', size', same'⟩ := padded [] (by simp)
  rw [← List.append_nil chunk, List.append_assoc, List.nil_append,
    ← getIoctlCommand_congr same, ← getIoctlCommand_congr same']
  exact decoded rest rest' behind behind' size size'

/-- For every chunk that contains a newline and starts with the command: the pair is
decoded from the received bytes alone if and only if the scan stays inside the
chunk. -/
theorem getIoctlCommand_decoded_iff {chunk : Bytes} (present : newline ∈ chunk)
    (starts : seekCommand <+: chunk) : DecodedFromChunk chunk ↔ ScanStaysInside chunk := by
  constructor
  · intro decoded
    by_cases nul : 0 ∈ chunk
    · exact Or.inl nul
    · refine Or.inr ?_
      rintro input rfl
      apply scanEnds_of_same
      intro later nulFree
      have text : cString (seekCommand ++ 58 :: input ++ later) =
          seekCommand ++ 58 :: (input ++ later) := by
        rw [cString_append nul, cString_of_nulFree nulFree]
        simp
      rw [← getIoctlCommand_eq_scanPair text,
        ← getIoctlCommand_eq_scanPair (cString_of_nulFree nul)]
      exact decoded.same nul nulFree
  · intro inside rest rest' behind behind' _ _
    rw [List.append_assoc, List.append_assoc]
    by_cases nul : 0 ∈ chunk
    · apply getIoctlCommand_congr
      rw [cString_append_of_mem nul, cString_append_of_mem nul]
    · have ends := inside.resolve_left nul
      obtain ⟨tail, rfl⟩ := starts
      cases tail with
      | nil =>
          rw [List.append_nil] at present
          exact absurd present (by decide)
      | cons byte input =>
          by_cases colon : byte = 58
          · subst colon
            have decodes (memory : Bytes) :
                getIoctlCommand (seekCommand ++ 58 :: input ++ memory) = scanPair input := by
              rw [← scanPair_append (ends input rfl) (cString memory)]
              apply getIoctlCommand_eq_scanPair
              rw [cString_append nul]
              simp
            rw [decodes, decodes]
          · have rejects (memory : Bytes) :
                getIoctlCommand (seekCommand ++ byte :: input ++ memory) = none := by
              rw [Option.eq_none_iff_forall_ne_some]
              intro cmd parsed
              obtain ⟨_, _, ⟨_, _, _, textEq, _⟩, _⟩ := getIoctlCommand_eq_some_iff.mp parsed
              rw [cString_append nul, List.append_assoc] at textEq
              exact colon (List.cons.inj (List.append_cancel_left textEq)).1
            rw [rejects, rejects]

/-- The chunk `AESDCHAR_IOCSEEKTO:0,0` with its newline. -/
theorem getIoctlCommand_decoded_iff_zeros :
    DecodedFromChunk (commandLine ⟨0, 0⟩) ↔ ScanStaysInside (commandLine ⟨0, 0⟩) :=
  getIoctlCommand_decoded_iff (by simp [commandLine]) (List.prefix_append _ _)

/-- After a chunk that leaves `1,2` in the buffer, the chunk `AESDCHAR_IOCSEEKTO:` with
its newline is taken for a seek to `1,2`; in a cleared buffer it is no command. -/
theorem getIoctlCommand_uses_leftover :
    let chunk := seekCommand ++ [58, 10]
    let earlier := List.replicate 20 120 ++ [49, 44, 50]
    (∃ buffer, receiveLoop (List.replicate bufferSize 0) [earlier, chunk] = .seek buffer ∧
        getIoctlCommand buffer = some ⟨1, 2⟩) ∧
      (∃ buffer, receiveLoop (List.replicate bufferSize 0) [chunk] = .seek buffer ∧
        getIoctlCommand buffer = none) ∧
      ¬ DecodedFromChunk chunk := by
  intro chunk earlier
  refine ⟨⟨_, rfl, by decide +kernel⟩, ⟨_, rfl, by decide +kernel⟩, ?_⟩
  intro decoded
  have same := decoded.same (show 0 ∉ chunk by decide) (show 0 ∉ [49, 44, 50] by decide)
  exact absurd same (by decide)

end Aesd.Server
