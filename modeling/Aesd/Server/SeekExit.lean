import Aesd.Driver.Indices
import Aesd.Server.SeekReply

/-!
# What counts as a successful seek

`aesd_ioctl` returns the new position, and `handle_ioctl` passes it on as an
`int`.  `message_handler_thread` takes every result but zero for a failure.  A
seek to the start is the only one both sides call a success.
-/

namespace Aesd.Server

open Aesd.Driver
open Aesd.Transition
open Aesd.Word

/-! ## Positions -/

/-- The entry the walk of `aesd_ioctl` comes to in a given iteration, the ring taken
round and round. -/
def wordAt (driver : AesdDev) (index : Nat) : Bytes :=
  (driver.held[index % 10]?).getD []

/-- The bytes it passes in `iterations` iterations. -/
def walkLength (driver : AesdDev) (iterations : Nat) : Nat :=
  ((List.range iterations).map fun index => (wordAt driver index).length).sum

/-- The command leads to a position: its index passes the checks, its offset is not
behind the end of the entry, and the position is the sum of both parts. -/
structure SeeksTo (driver : AesdDev) (cmd : AesdSeekto) (position : Nat) : Prop where
  index_lt : driver.cBuffer.full = false → cmd.writeCmd.toNat < driver.held.length
  fits : driver.cBuffer.outOffs + cmd.writeCmd.toNat ≤ 2 ^ 31
  offset_le : cmd.writeCmdOffset.toNat ≤ (wordAt driver cmd.writeCmd.toNat).length
  position_eq : position = walkLength driver cmd.writeCmd.toNat + cmd.writeCmdOffset.toNat

theorem walkLength_succ (driver : AesdDev) (iterations : Nat) :
    walkLength driver (iterations + 1) =
      walkLength driver iterations + (wordAt driver iterations).length := by
  simp [walkLength, List.range_succ]

section Walk

variable {driver : AesdDev} {log : Log} {held leaked : List (Nat × Bytes)}

theorem length_wordAt_lt (rep : driver.Represents log held leaked)
    (allocator : driver.KmallocBounded) (index : Nat) : (wordAt driver index).length < 2 ^ 32 := by
  unfold wordAt
  cases found : driver.held[index % 10]? with
  | none => simp
  | some word => exact rep.length_held_lt allocator (List.mem_of_getElem? found)

theorem walkLength_le (rep : driver.Represents log held leaked)
    (allocator : driver.KmallocBounded) (iterations : Nat) :
    walkLength driver iterations ≤ iterations * 2 ^ 32 := by
  induction iterations with
  | zero => simp [walkLength]
  | succ iterations ih =>
      have short := length_wordAt_lt rep allocator iterations
      rw [walkLength_succ, Nat.succ_mul]
      omega

/-- The array holds the length of the entry. -/
theorem entryAt_wordAt (rep : driver.Represents log held leaked) {index : Nat}
    (inside : driver.cBuffer.full = false → index < driver.held.length) :
    ∃ ptr, driver.cBuffer.entryAt ((driver.cBuffer.outOffs + index) % 10 : Nat) =
      .ok ⟨some ptr, (wordAt driver index).length⟩ := by
  cases full : driver.cBuffer.full with
  | true =>
      obtain ⟨word, ptr, wordEq, slot⟩ := rep.entryAt_full full index
      exact ⟨ptr, by rw [slot, wordAt, wordEq]; rfl⟩
  | false =>
      have lengthEq := rep.length_held
      have indexLt := inside full
      have wordEq : driver.held[index]? = some driver.held[index] :=
        List.getElem?_eq_getElem indexLt
      obtain ⟨ptr, _, entryEq⟩ := rep.entry_of_held wordEq
      refine ⟨ptr, ?_⟩
      rw [rep.ring.entryAt_held index entryEq, wordAt, Nat.mod_eq_of_lt (by omega), wordEq]
      rfl

/-- The loop adds up the entries it passes. -/
theorem seekSum_eq_walkLength (rep : driver.Represents log held leaked) {iterations : Nat}
    (fits : driver.cBuffer.outOffs + iterations ≤ 2 ^ 31)
    (inside : driver.cBuffer.full = false → iterations ≤ driver.held.length) :
    seekSum driver.cBuffer iterations = .ok (toInt64 (walkLength driver iterations)) := by
  induction iterations with
  | zero => simp [seekSum, walkLength, toInt64]
  | succ iterations ih =>
      obtain ⟨ptr, slot⟩ := entryAt_wordAt rep inside
      rw [seekSum_succ, ih (by omega) fun room => Nat.le_of_succ_le (inside room),
        driver.cBuffer.walkIndex_of_lt (by omega), walkLength_succ]
      simp only [bind, Except.bind, slot, pure, Except.pure, toInt64]
      rw [Int.bmod_add_bmod, Int.natCast_add]

/-- The three answers of `aesd_ioctl`: a rejection, a walk out of the array, and the
position the command leads to. -/
theorem aesdIoctl_cases (rep : driver.Represents log held leaked)
    (unlocked : driver.bufferLock = false) (cmd : AesdSeekto) :
    (∀ position, ¬ SeeksTo driver cmd position) ∧
        (aesdIoctl ⟨true, 0⟩ aesdcharIocseekto cmd 0 driver = .ok ⟨-einval, 0, driver⟩ ∨
          aesdIoctl ⟨true, 0⟩ aesdcharIocseekto cmd 0 driver = .error .badIndex) ∨
      ∃ position, SeeksTo driver cmd position ∧
        aesdIoctl ⟨true, 0⟩ aesdcharIocseekto cmd 0 driver =
          .ok ⟨toInt64 position, toInt64 position, driver⟩ := by
  rw [driver.aesdIoctl_eq unlocked, rep.ioctlSeek_eq]
  by_cases rejected : driver.cBuffer.full = false ∧ driver.held.length ≤ cmd.writeCmd.toNat
  · rw [if_pos rejected]
    refine Or.inl ⟨fun position seeks => ?_, Or.inl rfl⟩
    exact absurd (seeks.index_lt rejected.1) (Nat.not_lt.mpr rejected.2)
  · rw [if_neg rejected]
    have inside : driver.cBuffer.full = false → cmd.writeCmd.toNat < driver.held.length :=
      fun room => Nat.lt_of_not_le fun behind => rejected ⟨room, behind⟩
    by_cases fits : driver.cBuffer.outOffs + cmd.writeCmd.toNat ≤ 2 ^ 31
    · obtain ⟨ptr, slot⟩ := entryAt_wordAt rep inside
      have summed := seekSum_eq_walkLength rep fits fun room => Nat.le_of_lt (inside room)
      rw [AesdDev.Represents.ioctlWalk_of_slot cmd 0 summed (by omega) slot]
      by_cases behind : cmd.writeCmdOffset.toNat > (wordAt driver cmd.writeCmd.toNat).length
      · rw [if_pos behind]
        refine Or.inl ⟨fun position seeks => ?_, Or.inl rfl⟩
        exact absurd seeks.offset_le (Nat.not_le.mpr behind)
      · rw [if_neg behind]
        refine Or.inr ⟨_, ⟨inside, fits, Nat.not_lt.mp behind, rfl⟩, ?_⟩
        simp only [toInt64, Except.map, Int.bmod_add_bmod, Int.natCast_add]
    · rw [rep.ioctlWalk_of_overflow cmd 0 (Nat.not_le.mp fits)]
      exact Or.inl ⟨fun position seeks => fits seeks.fits, Or.inr rfl⟩

end Walk

/-! ## The results of the server -/

/-- `thread_complete_success` behind `handle_ioctl`. -/
def threadCompleteSuccess (ioctlResult : Int) : Bool :=
  if ioctlResult ≠ 0 then false else true

/-- `message_handler_thread` comes to its success exit, or to its failure exit, behind
`handle_ioctl`. -/
def TakesExit (driver : AesdDev) (cmdBuffer : Bytes) (success : Bool) : Prop :=
  ∃ fuel retval sent, handleIoctl fuel cmdBuffer driver = .ok (some (retval, sent)) ∧
    threadCompleteSuccess retval = success

/-- The driver stores the position it returns. -/
def AcceptsSeek (driver : AesdDev) (cmd : AesdSeekto) : Prop :=
  ∃ position, aesdIoctl ⟨true, 0⟩ aesdcharIocseekto cmd 0 driver = .ok ⟨position, position, driver⟩

/-- It returns an error and leaves the position alone. -/
def RejectsSeek (driver : AesdDev) (cmd : AesdSeekto) : Prop :=
  aesdIoctl ⟨true, 0⟩ aesdcharIocseekto cmd 0 driver = .ok ⟨-einval, 0, driver⟩

/-- Server and driver agree on the command.  A walk out of the array leads to no exit. -/
structure AgreesWithDriver (driver : AesdDev) (cmdBuffer : Bytes) (cmd : AesdSeekto) : Prop where
  exits : ∃ success, TakesExit driver cmdBuffer success
  success_iff : TakesExit driver cmdBuffer true ↔ AcceptsSeek driver cmd
  failure_iff : TakesExit driver cmdBuffer false ↔ RejectsSeek driver cmd
  silent : RejectsSeek driver cmd → ∀ fuel retval sent,
    handleIoctl fuel cmdBuffer driver = .ok (some (retval, sent)) → sent = []

/-- Each read from the position on leaves a NUL in the buffer, which keeps the
`strlen` of the read-back loop inside the buffer. -/
inductive ReadsToEnd (driver : AesdDev) : Bytes → Nat → Prop
  | atEnd {cmdBuffer : Bytes} {position : Nat} : driver.content.length ≤ position →
      ReadsToEnd driver cmdBuffer position
  | more {cmdBuffer : Bytes} {position : Nat} : position < driver.content.length →
      0 ∈ overwrite cmdBuffer (slice driver.held bufferSize position) →
      ReadsToEnd driver (overwrite cmdBuffer (slice driver.held bufferSize position))
        (position + (slice driver.held bufferSize position).length) →
      ReadsToEnd driver cmdBuffer position

section ReadBack

variable {driver : AesdDev} {log : Log} {held leaked : List (Nat × Bytes)}

/-- The loop ends if and only if the reads do. -/
theorem readBack_ends_iff (rep : driver.Represents log held leaked)
    (unlocked : driver.bufferLock = false) (small : driver.content.length < 2 ^ 63)
    {position : Nat} (positionBound : position < 2 ^ 63) (cmdBuffer : Bytes) :
    (∃ fuel sent, readBack fuel cmdBuffer ⟨position, driver⟩ = .ok (some sent)) ↔
      ReadsToEnd driver cmdBuffer position := by
  have read (position : Nat) (positionBound : position < 2 ^ 63) :=
    rep.aesdRead unlocked small (show 0 < (⟨⟨true, 0⟩, bufferSize⟩ : ReadCall).count by decide)
      positionBound
  have readAtEnd {position : Nat} (positionBound : position < 2 ^ 63)
      (atEnd : driver.content.length ≤ position) :
      aesdRead ⟨true, 0⟩ false bufferSize position driver = .ok ⟨0, [], position, driver⟩ := by
    simpa [AesdDev.readReply, atEnd] using read position positionBound
  have readMore {position : Nat} (positionBound : position < 2 ^ 63)
      (inside : position < driver.content.length) :
      aesdRead ⟨true, 0⟩ false bufferSize position driver =
        .ok ⟨(slice driver.held bufferSize position).length, slice driver.held bufferSize position,
          (position + (slice driver.held bufferSize position).length : Nat), driver⟩ := by
    simpa [AesdDev.readReply, Nat.not_le.mpr inside] using read position positionBound
  have within {position : Nat} (inside : position < driver.content.length) :
      0 < (slice driver.held bufferSize position).length ∧
        position + (slice driver.held bufferSize position).length ≤ driver.content.length := by
    have nonempty : slice driver.held bufferSize position ≠ [] := fun empty =>
      absurd ((slice_eq_nil_iff (by decide)).mp empty) (Nat.not_le.mpr inside)
    have lengths := congrArg List.length (slice_eq_take driver.held bufferSize position)
    rw [List.length_take, List.length_drop] at lengths
    have upTo := Nat.min_le_right (slice driver.held bufferSize position).length
      (driver.held.flatten.length - position)
    have contentEq : driver.content.length = driver.held.flatten.length := rfl
    exact ⟨List.length_pos_iff.mpr nonempty, by omega⟩
  constructor
  · rintro ⟨fuel, sent, finished⟩
    induction fuel generalizing position cmdBuffer sent with
    | zero => simp [readBack] at finished
    | succ fuel ih =>
        by_cases atEnd : driver.content.length ≤ position
        · exact .atEnd atEnd
        · have inside := Nat.lt_of_not_le atEnd
          obtain ⟨positive, upTo⟩ := within inside
          rw [readBack_succ_iff (readMore positionBound inside), if_pos (by simp; omega)]
            at finished
          obtain ⟨text, rest, sent', finished', rfl⟩ := finished
          refine .more inside ?_ (ih (by omega) _ _ finished')
          by_contra absent
          simp [sendString, absent] at sent'
  · intro reads
    induction reads with
    | atEnd atEnd =>
        refine ⟨1, [], ?_⟩
        rw [readBack_succ_iff (readAtEnd positionBound atEnd)]
        simp
    | more inside nul _ ih =>
        obtain ⟨positive, upTo⟩ := within inside
        rename_i cmdBuffer position _
        obtain ⟨fuel, sent, finished⟩ := ih (by omega)
        refine ⟨fuel + 1,
          cString (overwrite cmdBuffer (slice driver.held bufferSize position)) ++ sent, ?_⟩
        rw [readBack_succ_iff (readMore positionBound inside), if_pos (by simp; omega)]
        exact ⟨_, sent, if_pos nul, finished, rfl⟩

/-- A position of at least 2^63 is negative as a `loff_t`, and the first read fails. -/
theorem readBack_sought_iff (rep : driver.Represents log held leaked)
    (unlocked : driver.bufferLock = false) (small : driver.content.length < 2 ^ 63)
    {position : Nat} (positionBound : position ≤ 2 ^ 63 + 2 ^ 32) (cmdBuffer : Bytes) :
    (∃ fuel sent, readBack fuel cmdBuffer ⟨toInt64 position, driver⟩ = .ok (some sent)) ↔
      ReadsToEnd driver cmdBuffer position := by
  by_cases fits : position < 2 ^ 63
  · rw [toInt64_of_lt (by omega) (by omega)]
    exact readBack_ends_iff rep unlocked small fits cmdBuffer
  · have negative : toInt64 position < 0 :=
      (toInt64_neg_iff (by omega) (by omega)).mpr (.inr (by omega))
    generalize toInt64 position = fPos at negative ⊢
    have read : aesdRead ⟨true, 0⟩ false bufferSize fPos driver =
        .ok ⟨-einval, [], fPos, driver⟩ := by
      rw [aesdRead, if_pos (.inr (.inl negative))]
    constructor
    · intro _
      exact .atEnd (by omega)
    · intro _
      refine ⟨1, [], ?_⟩
      rw [readBack_succ_iff read]
      simp [einval]

end ReadBack

/-! ## Agreement -/

section Agreement

variable {driver : AesdDev} {log : Log} {held leaked : List (Nat × Bytes)}
  {cmdBuffer : Bytes} {cmd : AesdSeekto} {position : Nat}

/-- Ten entries of at most 2^32 bytes, passed at most 2^31 times over. -/
theorem SeeksTo.position_le (rep : driver.Represents log held leaked)
    (allocator : driver.KmallocBounded) (seeks : SeeksTo driver cmd position) :
    position ≤ 2 ^ 63 + 2 ^ 32 := by
  have passed := walkLength_le rep allocator cmd.writeCmd.toNat
  have last := length_wordAt_lt rep allocator cmd.writeCmd.toNat
  have fits := seeks.fits
  have offsetLe := seeks.offset_le
  have positionEq := seeks.position_eq
  omega

/-- The `int` the server gets for an accepted position. -/
theorem ioctlResult_position (bound : position ≤ 2 ^ 63 + 2 ^ 32) :
    ioctlResult (toInt64 position) = toInt32 position := by
  have noError : ¬ (-4095 ≤ toInt64 position ∧ toInt64 position < 0) := by
    by_cases small : position < 2 ^ 63
    · rw [toInt64_of_lt (by omega) (by omega)]
      omega
    · rw [toInt64_of_ge (by omega) (by omega)]
      omega
  rw [ioctlResult, if_neg noError, toInt32, toInt64, Int.bmod_bmod_of_dvd (by decide)]
  rfl

/-- The driver stores the position it returns, or 0 with an error. -/
theorem not_accepts_of_rejects (rejects : RejectsSeek driver cmd) : ¬ AcceptsSeek driver cmd := by
  rintro ⟨position, accepted⟩
  rw [rejects] at accepted
  simp only [Except.ok.injEq, SeekResult.mk.injEq] at accepted
  have retval := accepted.1
  have stored := accepted.2.1
  simp only [einval] at retval
  omega

/-- A rejection reaches the server as -1, and it returns 1. -/
theorem handleIoctl_of_rejects (parsed : getIoctlCommand cmdBuffer = some cmd)
    (rejects : RejectsSeek driver cmd) (fuel : Nat) :
    handleIoctl fuel cmdBuffer driver = .ok (some (1, [])) := by
  have result : ioctlResult (-einval) = -1 := by decide
  simp only [handleIoctl, parsed]
  rw [rejects]
  simp [bind, Except.bind, result, pure, Except.pure]

theorem handleIoctl_of_seeksTo (rep : driver.Represents log held leaked)
    (allocator : driver.KmallocBounded) (parsed : getIoctlCommand cmdBuffer = some cmd)
    (seeks : SeeksTo driver cmd position)
    (accepted : aesdIoctl ⟨true, 0⟩ aesdcharIocseekto cmd 0 driver =
      .ok ⟨toInt64 position, toInt64 position, driver⟩) (fuel : Nat) :
    handleIoctl fuel cmdBuffer driver =
      if toInt32 position < 0 then
        .ok (some (-toInt32 position, []))
      else
        (readBack fuel (List.replicate bufferSize 0) ⟨toInt64 position, driver⟩).map
          fun sent => sent.map fun sent => (toInt32 position, sent) := by
  rw [handleIoctl_of_accepted parsed accepted,
    ioctlResult_position (seeks.position_le rep allocator)]

/-- The success exit: the position is 0 as an `int` and the read-back loop ends. -/
theorem takesExit_true_iff (rep : driver.Represents log held leaked)
    (unlocked : driver.bufferLock = false) (allocator : driver.KmallocBounded)
    (parsed : getIoctlCommand cmdBuffer = some cmd) (seeks : SeeksTo driver cmd position)
    (accepted : aesdIoctl ⟨true, 0⟩ aesdcharIocseekto cmd 0 driver =
      .ok ⟨toInt64 position, toInt64 position, driver⟩) :
    TakesExit driver cmdBuffer true ↔
      toInt32 position = 0 ∧ ReadsToEnd driver (List.replicate bufferSize 0) position := by
  rw [← readBack_sought_iff rep unlocked (rep.length_content_lt allocator)
    (seeks.position_le rep allocator)]
  have returns := handleIoctl_of_seeksTo rep allocator parsed seeks accepted
  constructor
  · rintro ⟨fuel, retval, sent, returned, success⟩
    have zero : retval = 0 := by
      by_contra nonzero
      simp [threadCompleteSuccess, nonzero] at success
    subst zero
    rw [returns] at returned
    by_cases negative : toInt32 position < 0
    · rw [if_pos negative] at returned
      simp only [Except.ok.injEq, Option.some.injEq, Prod.mk.injEq] at returned
      omega
    · rw [if_neg negative] at returned
      obtain ⟨zero, looped⟩ := returns_iff.mp returned
      exact ⟨zero, fuel, sent, looped⟩
  · rintro ⟨zero, fuel, sent, finished⟩
    refine ⟨fuel, 0, sent, ?_, rfl⟩
    rw [returns, zero, if_neg (Int.lt_irrefl 0), finished]
    rfl

/-- A return value of 0 does not lead to the failure exit. -/
theorem not_takesExit_false (rep : driver.Represents log held leaked)
    (allocator : driver.KmallocBounded) (parsed : getIoctlCommand cmdBuffer = some cmd)
    (seeks : SeeksTo driver cmd position)
    (accepted : aesdIoctl ⟨true, 0⟩ aesdcharIocseekto cmd 0 driver =
      .ok ⟨toInt64 position, toInt64 position, driver⟩)
    (zero : toInt32 position = 0) : ¬ TakesExit driver cmdBuffer false := by
  rintro ⟨fuel, retval, sent, returned, failure⟩
  rw [handleIoctl_of_seeksTo rep allocator parsed seeks accepted, zero,
    if_neg (Int.lt_irrefl 0)] at returned
  obtain ⟨rfl, _⟩ := returns_iff.mp returned
  simp [threadCompleteSuccess] at failure

/-- On a rejected command both sides agree. -/
theorem agreesWithDriver_of_rejects (parsed : getIoctlCommand cmdBuffer = some cmd)
    (rejects : RejectsSeek driver cmd) : AgreesWithDriver driver cmdBuffer cmd := by
  have returns := handleIoctl_of_rejects parsed rejects
  have fails : TakesExit driver cmdBuffer false := ⟨0, 1, [], returns 0, rfl⟩
  refine ⟨⟨false, fails⟩, ⟨?_, fun accepts => absurd accepts (not_accepts_of_rejects rejects)⟩,
    ⟨fun _ => rejects, fun _ => fails⟩, ?_⟩
  · rintro ⟨fuel, retval, sent, returned, success⟩
    rw [returns] at returned
    simp only [Except.ok.injEq, Option.some.injEq, Prod.mk.injEq] at returned
    rw [← returned.1] at success
    contradiction
  · intro _ fuel retval sent returned
    rw [returns] at returned
    simp only [Except.ok.injEq, Option.some.injEq, Prod.mk.injEq] at returned
    exact returned.2.symm

/-- Behind a walk out of the array no exit is taken. -/
theorem not_takesExit_of_badIndex (parsed : getIoctlCommand cmdBuffer = some cmd)
    (stopped : aesdIoctl ⟨true, 0⟩ aesdcharIocseekto cmd 0 driver = .error .badIndex)
    (success : Bool) : ¬ TakesExit driver cmdBuffer success := by
  rintro ⟨fuel, retval, sent, returned, _⟩
  simp [handleIoctl, parsed, stopped, bind, Except.bind] at returned

end Agreement

/-- For every device reached by writes and left idle, and every well-formed seek
command: server and driver agree on it if and only if the walk stays inside the array, and
any position it leads to is 0 as an `int` and the reads from there on leave a NUL in the
buffer each time. -/
theorem agreesWithDriver_iff {driver : AesdDev}
    (reachable : Reachable AesdDev.write aesdInitModule driver)
    (unlocked : driver.bufferLock = false) (allocator : driver.KmallocBounded)
    {cmdBuffer : Bytes} {cmd : AesdSeekto} (parsed : getIoctlCommand cmdBuffer = some cmd) :
    AgreesWithDriver driver cmdBuffer cmd ↔
      (DriverCall.ioctl ⟨true, 0⟩ aesdcharIocseekto cmd 0).StaysInArray driver ∧
        ∀ position, SeeksTo driver cmd position →
          toInt32 position = 0 ∧ ReadsToEnd driver (List.replicate bufferSize 0) position := by
  obtain ⟨log, held, leaked, rep⟩ := AesdDev.represents_of_reachable reachable
  have stays_iff := rep.aesdIoctl_avoids_iff ⟨true, 0⟩ aesdcharIocseekto cmd 0
  rw [← stays_iff]
  obtain ⟨nowhere, rejected | stopped⟩ | ⟨position, seeks, accepted⟩ :=
    aesdIoctl_cases rep unlocked cmd
  · refine iff_of_true (agreesWithDriver_of_rejects parsed rejected) ⟨?_, ?_⟩
    · rw [rejected]
      exact Avoids.ok _
    · exact fun position seeks => absurd seeks (nowhere position)
  · refine iff_of_false (fun agrees => ?_) fun stays => stays.1 stopped
    obtain ⟨success, takes⟩ := agrees.exits
    exact not_takesExit_of_badIndex parsed stopped success takes
  · have accepts : AcceptsSeek driver cmd := ⟨_, accepted⟩
    have notRejected : ¬ RejectsSeek driver cmd :=
      fun rejects => not_accepts_of_rejects rejects accepts
    have success := takesExit_true_iff rep unlocked allocator parsed seeks accepted
    constructor
    · intro agrees
      refine ⟨by rw [accepted]; exact Avoids.ok _, fun other seeks' => ?_⟩
      rw [seeks'.position_eq, ← seeks.position_eq]
      exact success.mp (agrees.success_iff.mpr accepts)
    · rintro ⟨_, returnsZero⟩
      obtain ⟨zero, reads⟩ := returnsZero position seeks
      have takes := success.mpr ⟨zero, reads⟩
      exact ⟨⟨true, takes⟩, iff_of_true takes accepts,
        iff_of_false (not_takesExit_false rep allocator parsed seeks accepted zero) notRejected,
        fun rejects => absurd rejects notRejected⟩

/-- The seek to the start of the device that holds `a\n` and `b\n`. -/
theorem agreesWithDriver_iff_start :
    AgreesWithDriver (AesdDev.ofWrites [[97, 10], [98, 10]]) seekToStart ⟨0, 0⟩ ↔
      (DriverCall.ioctl ⟨true, 0⟩ aesdcharIocseekto ⟨0, 0⟩ 0).StaysInArray
          (AesdDev.ofWrites [[97, 10], [98, 10]]) ∧
        ∀ position, SeeksTo (AesdDev.ofWrites [[97, 10], [98, 10]]) ⟨0, 0⟩ position →
          toInt32 position = 0 ∧ ReadsToEnd (AesdDev.ofWrites [[97, 10], [98, 10]])
            (List.replicate bufferSize 0) position :=
  agreesWithDriver_iff (AesdDev.reachable_ofWrites [[97, 10], [98, 10]]) rfl
    (by unfold AesdDev.KmallocBounded; decide) (by decide)

/-- The seek to `b\n` on the same device: the driver accepts it at position 2, the server
sends the rest of the content and takes the failure exit. -/
theorem handleIoctl_accepted_failure :
    let driver := AesdDev.ofWrites [[97, 10], [98, 10]]
    let cmdBuffer : Bytes := seekCommand ++ [58, 49, 44, 48, 10, 0]
    Reachable AesdDev.write aesdInitModule driver ∧
      getIoctlCommand cmdBuffer = some ⟨1, 0⟩ ∧ AcceptsSeek driver ⟨1, 0⟩ ∧
      handleIoctl 2 cmdBuffer driver = .ok (some (2, [98, 10])) ∧
      threadCompleteSuccess 2 = false ∧ ¬ AgreesWithDriver driver cmdBuffer ⟨1, 0⟩ := by
  intro driver cmdBuffer
  have reachable := AesdDev.reachable_ofWrites [[97, 10], [98, 10]]
  have accepts : AcceptsSeek driver ⟨1, 0⟩ := by
    obtain ⟨log, held, leaked, rep⟩ := AesdDev.represents_of_reachable reachable
    exact ⟨_, aesdIoctl_of_names rep rfl (by unfold AesdDev.KmallocBounded; decide)
      ⟨[98, 10], by decide, by decide⟩⟩
  have returned : handleIoctl 2 cmdBuffer driver = .ok (some (2, [98, 10])) := by decide +kernel
  refine ⟨reachable, by decide, accepts, returned, rfl, fun agrees => ?_⟩
  have rejects := agrees.failure_iff.mp ⟨2, 2, _, returned, rfl⟩
  exact not_accepts_of_rejects rejects accepts

end Aesd.Server
