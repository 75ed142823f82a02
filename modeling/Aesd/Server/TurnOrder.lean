import Aesd.Server.FileMutex

/-!
# The record of the order

The model records the order in which the handlers obtain `file_mutex`.  No step depends on
the record, so that a part of the handlers can be looked at alone.
-/

namespace Aesd.Server

open Aesd.Driver
open Aesd.Mutex

section Order

variable {δ χ : Type} {device : Device δ χ} {index : Nat} {returned : Nat → Bool}
  {outcomes : Outcomes χ} {file : DeviceFile δ} {clients : Clients}

/-- The points at which `pthread_mutex_lock` is called for `file_mutex`. -/
def Pc.locksFile : Pc → Bool
  | .lockFile _ | .handleIoctl (.lock _) => true
  | _ => false

theorem Pc.not_inFileSection_of_locksFile {pc : Pc} (locks : pc.locksFile = true) :
    pc.inFileSection = false := by
  cases pc with
  | lockFile bytes => rfl
  | handleIoctl point =>
      cases point with
      | lock cmd => rfl
      | _ => contradiction
  | _ => contradiction

/-- What a step from `pc` adds to the record of the order: nothing, and outside of the
section the file stays as it is, or the handler that obtains the mutex. -/
inductive OrderStep (index : Nat) (pc : Pc) (file : DeviceFile δ) :
    DeviceFile δ → List Nat → Prop
  | works {file' : DeviceFile δ} : file'.order = file.order →
      (pc.inFileSection = false → file' = file) → OrderStep index pc file file' []
  | obtains : file.mutex = none → pc.locksFile = true → OrderStep index pc file
      { file with mutex := some (.handler index), order := file.order ++ [index] } [index]

/-- A file whose record is another one. -/
def DeviceFile.withOrder (file : DeviceFile δ) (order : List Nat) : DeviceFile δ :=
  { file with order := order }

theorem DeviceFile.lockThen_withOrder {γ : Type} {ok : Bool} {success failure next : Control γ}
    {file' : DeviceFile δ} {pc : Pc} (locks : pc.locksFile = true)
    (called : file.lockThen index ok success failure = some (next, file')) (order : List Nat) :
    ∃ added, OrderStep index pc file file' added ∧
      (file.withOrder order).lockThen index ok success failure =
        some (next, file'.withOrder (order ++ added)) := by
  unfold lockThen at called
  split at called
  · contradiction
  · rename_i obtained
    obtain ⟨rfl, free, rfl⟩ := lock_obtains_iff.mp obtained
    cases called
    exact ⟨[index], .obtains free locks, by simp [lockThen, withOrder, obtained]⟩
  · rename_i failed
    obtain ⟨rfl, rfl⟩ := lock_fails_iff.mp failed
    cases called
    exact ⟨[], .works rfl fun _ => rfl, by simp [lockThen, withOrder, failed]⟩

/-- A step of `handle_ioctl` that does not call `pthread_mutex_lock`. -/
theorem HandleIoctl.step_withOrder {point : HandleIoctl} (noLock : ∀ cmd, point ≠ .lock cmd)
    (order : List Nat) :
    point.step device index outcomes (file.withOrder order) =
      (point.step device index outcomes file).map fun (control, sent, file) =>
        (control, sent, file.withOrder order) := by
  cases point with
  | parse cmdBuffer =>
      simp only [step]
      split <;> rfl
  | lock cmd => exact absurd rfl (noLock cmd)
  | «open» cmd =>
      simp only [step]
      split <;> rfl
  | ioctl cmd =>
      simp only [step, DeviceFile.withOrder]
      cases device outcomes.device (.ioctl cmd) 0 file.device with
      | none => rfl
      | some reply =>
          simp only
          split <;> rfl
  | read cmdBuffer fPos =>
      simp only [step, DeviceFile.withOrder]
      cases device outcomes.device (.read bufferSize) fPos file.device with
      | none => rfl
      | some reply =>
          simp only
          split
          · split <;> rfl
          · rfl
  | unlock => rfl

/-- A step that does not call `pthread_mutex_lock` does not look at the record. -/
theorem Pc.step_withOrder {pc : Pc} (noLock : pc.locksFile = false) (order : List Nat) :
    pc.step device index returned outcomes (file.withOrder order) clients =
      (pc.step device index returned outcomes file clients).map fun effect =>
        { effect with file := effect.file.withOrder order } := by
  cases pc with
  | start | openFile bytes =>
      simp only [step]
      split <;> rfl
  | recv buffer =>
      simp only [step]
      split
      · rfl
      · cases receiveChunk (overwrite buffer (outcomes.chunk.take bufferSize))
            (outcomes.chunk.take bufferSize).length with
        | none => rfl
        | some received => cases received <;> rfl
  | handleIoctl point =>
      have noLock' : ∀ cmd, point ≠ .lock cmd := by
        rintro cmd rfl
        contradiction
      simp only [step, HandleIoctl.step_withOrder noLock' order]
      cases point.step device index outcomes file <;> rfl
  | lockFile bytes => contradiction
  | cleanup point =>
      simp only [step]
      cases point.step (.handler index) returned outcomes.ok clients <;> rfl
  | flush bytes fPos =>
      simp only [step, flushStep, DeviceFile.withOrder]
      cases device outcomes.device (.write bytes) fPos file.device with
      | none => rfl
      | some reply =>
          simp only
          split <;> rfl
  | seek fPos =>
      simp only [step, DeviceFile.withOrder]
      cases device outcomes.device (.llseek 0 0) fPos file.device <;> rfl
  | echo line ahead fPos =>
      cases ahead with
      | cons byte ahead =>
          simp only [step, echoStep]
          split <;> rfl
      | nil =>
          simp only [step, echoStep, DeviceFile.withOrder]
          cases device outcomes.device (.read outcomes.count) fPos file.device with
          | none => rfl
          | some reply =>
              simp only
              split
              · rfl
              · split <;> rfl
  | unlockFile => rfl
  | setComplete point =>
      simp only [step]
      cases point.step (.handler index) outcomes.clientThreadNode outcomes.ok clients <;> rfl
  | returned => rfl

/-- Outside of the section the file is not touched. -/
theorem Pc.file_of_outside {pc : Pc} {effect : Effect δ} (noLock : pc.locksFile = false)
    (outside : pc.inFileSection = false)
    (stepped : pc.step device index returned outcomes file clients = some effect) :
    effect.file = file := by
  cases pc with
  | start =>
      simp only [step] at stepped
      split at stepped <;> cases stepped <;> rfl
  | recv buffer =>
      simp only [step] at stepped
      split at stepped
      · cases stepped
        rfl
      · split at stepped <;> cases stepped <;> rfl
  | handleIoctl point =>
      obtain ⟨⟨control, sent, file'⟩, ioctlStep, rfl⟩ := Option.map_eq_some_iff.mp stepped
      cases point with
      | parse cmdBuffer =>
          simp only [HandleIoctl.step] at ioctlStep
          split at ioctlStep <;> cases ioctlStep <;> rfl
      | _ => contradiction
  | setComplete point =>
      obtain ⟨⟨control, clients'⟩, _, rfl⟩ := Option.map_eq_some_iff.mp stepped
      rfl
  | returned => contradiction
  | _ => contradiction

/-- What a step adds to the record it adds to any record. -/
theorem Pc.orderStep {pc : Pc} {effect : Effect δ}
    (stepped : pc.step device index returned outcomes file clients = some effect)
    (order : List Nat) :
    ∃ added, OrderStep index pc file effect.file added ∧
      pc.step device index returned outcomes (file.withOrder order) clients =
        some { effect with file := effect.file.withOrder (order ++ added) } := by
  cases locks : pc.locksFile with
  | false =>
      have same : effect = { effect with file := effect.file.withOrder file.order } := by
        have own : pc.step device index returned outcomes file clients =
            (pc.step device index returned outcomes file clients).map fun effect =>
              { effect with file := effect.file.withOrder file.order } :=
          Pc.step_withOrder locks file.order
        rw [stepped] at own
        exact Option.some.inj own
      refine ⟨[], .works ?_ fun outside => Pc.file_of_outside locks outside stepped, ?_⟩
      · rw [same]
        rfl
      · rw [Pc.step_withOrder locks, stepped, List.append_nil]
        rfl
  | true =>
      cases pc with
      | lockFile bytes =>
          obtain ⟨⟨next, file'⟩, called, rfl⟩ := Option.map_eq_some_iff.mp stepped
          obtain ⟨added, orderStep, called'⟩ := DeviceFile.lockThen_withOrder locks called order
          exact ⟨added, orderStep, by simp [step, called']⟩
      | handleIoctl point =>
          cases point with
          | lock cmd =>
              obtain ⟨⟨control, sent, file'⟩, ioctlStep, rfl⟩ :=
                Option.map_eq_some_iff.mp stepped
              obtain ⟨⟨next, file''⟩, called, equal⟩ := Option.map_eq_some_iff.mp ioctlStep
              cases equal
              obtain ⟨added, orderStep, called'⟩ := DeviceFile.lockThen_withOrder locks called order
              exact ⟨added, orderStep, by simp [step, HandleIoctl.step, called']⟩
          | _ => contradiction
      | _ => contradiction

end Order
end Aesd.Server
