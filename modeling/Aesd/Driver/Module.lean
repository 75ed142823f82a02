import Aesd.Driver.Llseek
import Aesd.Driver.Ownership
import Aesd.Driver.Unload

/-!
# Loading and unloading the module

The module is loaded and unloaded any number of times, and in between its device is
opened, used and released.  Loading may fail half-way.  The device number is registered
exactly while the module is loaded, every load starts with an empty device whose lock
is free, and of the kernel memory only the blocks that were pending when the module was
unloaded are never freed.
-/

namespace Aesd.Driver

open Aesd.Memory
open Aesd.Memory.Heap
open Aesd.Transition

/-! ## The module -/

/-- What the module keeps, and what it has asked of the kernel: the device with the
positions of the open files, `aesd_major`, the majors registered for it, and the major
under which its character device is live. -/
structure AesdModule where
  files : Files
  aesdMajor : Nat
  registered : List Nat
  cdev : Option Nat

/-- What the kernel decides while the module is loaded: the result of
`alloc_chrdev_region` with the major it hands out, and the error number of `cdev_add`,
zero for success. -/
structure LoadOutcomes where
  region : Int
  major : Nat
  cdevErrno : Nat

/-- The device zeroed, with its lock and buffer initialised; the kernel heap is that of
the whole kernel. -/
def AesdDev.reset (driver : AesdDev) : AesdDev :=
  { aesdInitModule with heap := driver.heap }

namespace AesdModule

/-- `alloc_chrdev_region`: the result, and the major of `dev`, which stays zero when the
call fails. -/
def allocChrdevRegion (outcomes : LoadOutcomes) (module : AesdModule) : Int × Nat × AesdModule :=
  if outcomes.region < 0 then
    (outcomes.region, 0, module)
  else
    (outcomes.region, outcomes.major,
      { module with registered := outcomes.major :: module.registered })

/-- `unregister_chrdev_region` -/
def unregisterChrdevRegion (major : Nat) (module : AesdModule) : AesdModule :=
  { module with registered := module.registered.erase major }

/-- `aesd_setup_cdev` -/
def aesdSetupCdev (outcomes : LoadOutcomes) (module : AesdModule) : Int × AesdModule :=
  if outcomes.cdevErrno ≠ 0 then
    (-outcomes.cdevErrno, module)
  else
    (0, { module with cdev := some module.aesdMajor })

/-- `aesd_init_module` -/
def aesdInitModule (outcomes : LoadOutcomes) (module : AesdModule) : Int × AesdModule :=
  let (result, major, module) := module.allocChrdevRegion outcomes
  let module := { module with aesdMajor := major }
  if result < 0 then
    (result, module)
  else
    let module := { module with files := ⟨module.files.driver.reset, module.files.fPos⟩ }
    let (result, module) := module.aesdSetupCdev outcomes
    if result ≠ 0 then
      (result, module.unregisterChrdevRegion major)
    else
      (result, module)

/-- `aesd_cleanup_module` -/
def aesdCleanupModule (module : AesdModule) : Except Stop AesdModule := do
  let module := { module with cdev := none }
  let driver ← Driver.aesdCleanupModule module.files.driver
  let module := { module with files := { module.files with driver := driver } }
  pure (module.unregisterChrdevRegion module.aesdMajor)

/-- The static data of a module that has just been brought into memory. -/
def image (module : AesdModule) : AesdModule where
  files := ⟨module.files.driver.reset, fun _ => 0⟩
  aesdMajor := 0
  registered := module.registered
  cdev := module.cdev

end AesdModule

/-! ## The system -/

/-- What happens around the module. -/
inductive ModuleEvent
  | insmod (outcomes : LoadOutcomes)
  | rmmod
  | openFile (file : Nat)
  | release (file : Nat)
  | call (fileCall : FileCall)

/-- The module, whether it is loaded, the open files, and the contents of the blocks
that were pending when it was unloaded. -/
structure ModuleState where
  module : AesdModule
  loaded : Bool
  opened : List Nat
  unfreed : List Bytes

/-- The file of a call. -/
def FileCall.file : FileCall → Nat
  | .read file .. | .write file .. | .llseek file .. | .ioctl file .. => file

/-- The block of the pending entry. -/
def AesdDev.pendingBlock (driver : AesdDev) : List Bytes :=
  driver.currentEntry.buffptr.toList.map fun ptr => (driver.heap.block ptr).getD []

namespace ModuleState

/-- The kernel before the module was ever loaded. -/
def start : ModuleState :=
  ⟨⟨Files.start, 0, [], none⟩, false, [], []⟩

/-- One event, if it is possible.  An open file keeps the module from being unloaded,
and can be called until it is released; `aesd_open` and `aesd_release` succeed and
change nothing of the device. -/
def step : Step ModuleEvent ModuleState := fun event state =>
  match event with
  | .insmod outcomes =>
      if state.loaded then
        none
      else
        let (result, module) := state.module.image.aesdInitModule outcomes
        some { state with module := module, loaded := decide (0 ≤ result) }
  | .rmmod =>
      if state.loaded ∧ state.opened = [] then
        match state.module.aesdCleanupModule with
        | .error _ => none
        | .ok module =>
            some { state with
              module := module
              loaded := false
              unfreed := state.unfreed ++ state.module.files.driver.pendingBlock }
      else
        none
  | .openFile file =>
      if state.module.cdev.isSome ∧ file ∉ state.opened then
        some { state with
          module := { state.module with
            files := state.module.files.move file state.module.files.driver 0 }
          opened := file :: state.opened }
      else
        none
  | .release file =>
      if file ∈ state.opened then
        some { state with opened := state.opened.erase file }
      else
        none
  | .call fileCall =>
      if fileCall.file ∈ state.opened then
        (Files.call fileCall state.module.files).map fun files =>
          { state with module := { state.module with files := files } }
      else
        none

/-- Grown by the event, if it is a call that grows the pending entry. -/
def Grows : ModuleEvent → Prop
  | .call (.write _ outcomes _) => outcomes.krealloc.isSome = true
  | .insmod .. | .rmmod | .openFile .. | .release .. | .call .. => True

/-- What the system keeps. -/
structure Accounted (state : ModuleState) : Prop where
  /-- The device number is registered, and the device live, while the module is loaded. -/
  registered : state.module.registered = if state.loaded then [state.module.aesdMajor] else []
  cdev : state.module.cdev = if state.loaded then some state.module.aesdMajor else none
  opened : state.loaded = false → state.opened = []
  /-- The live blocks are those of the held entries, of the pending one, and of the
  entries that were pending when the module was unloaded. -/
  live : state.module.files.driver.heap.live.Perm
    ((if state.loaded then
      state.module.files.driver.held ++ state.module.files.driver.pendingBlock else []) ++
      state.unfreed)
  /-- Unloading frees live blocks only. -/
  unloads : state.loaded = true → state.opened = [] → ∃ state', step .rmmod state = some state'
  /-- A load that succeeds starts with nothing, and with a free lock. -/
  startsEmpty : ∀ outcomes state', step (.insmod outcomes) state = some state' →
    state'.loaded = true → state'.module.files.driver.content = [] ∧
      state'.module.files.driver.pending = [] ∧ state'.module.files.driver.bufferLock = false

/-- What holds between events. -/
structure Sound (state : ModuleState) : Prop where
  registered : state.module.registered = if state.loaded then [state.module.aesdMajor] else []
  cdev : state.module.cdev = if state.loaded then some state.module.aesdMajor else none
  opened : state.loaded = false → state.opened = []
  memory : ∃ leaked : List (Nat × Bytes), leaked.map Prod.snd = state.unfreed ∧
    if state.loaded then
      ∃ log held, state.module.files.driver.Represents log held leaked
    else
      Owns state.module.files.driver.heap leaked

theorem sound_start : start.Sound where
  registered := rfl
  cdev := rfl
  opened _ := rfl
  memory := ⟨[], rfl, Owns.empty⟩

variable {state state' : ModuleState}

/-- The pending entry owns its block, if it has one. -/
theorem pendingBlock_eq {driver : AesdDev} {log : Log} {held leaked current : List (Nat × Bytes)}
    (is : CurrentEntry driver.currentEntry log.pending current)
    (owns : Owns driver.heap (held ++ current ++ leaked)) :
    driver.pendingBlock = current.map Prod.snd := by
  have blocks : ∀ cell ∈ current, driver.heap.block cell.1 = some cell.2 :=
    fun cell member => owns.block_of_mem (by simp [member])
  unfold AesdDev.pendingBlock
  rw [is.toList_buffptr, List.map_map]
  exact List.map_congr_left fun cell member => by simp [blocks cell member]

/-- An entry determines its block. -/
theorem current_unique {entry : BufferEntry} {pending : Pending}
    {current current' : List (Nat × Bytes)} (is : CurrentEntry entry pending current)
    (is' : CurrentEntry entry pending current') : current = current' := by
  cases is with
  | empty => exact is'.cells_eq_nil.symm
  | held ptr bytes _ =>
      generalize entryEq : (⟨some ptr, bytes.length⟩ : BufferEntry) = entry at is'
      generalize pendingEq : Pending.held bytes = pending at is'
      cases is' with
      | empty => cases entryEq
      | held ptr' bytes' _ =>
          cases pendingEq
          cases entryEq
          rfl
      | lost size => cases pendingEq
  | lost size =>
      cases is'
      rfl

/-- A device without entries, whatever is left in the heap. -/
theorem represents_reset {driver : AesdDev} {leaked : List (Nat × Bytes)}
    (owns : Owns driver.heap leaked) : driver.reset.Represents Log.empty [] leaked where
  ring := AesdDev.represents_init.ring
  held_eq := rfl
  memory := ⟨[], CurrentEntry.empty, owns⟩

/-- Loading succeeds, or leaves nothing registered. -/
theorem aesdInitModule_cases (outcomes : LoadOutcomes) (module : AesdModule)
    {loads : Int × AesdModule} (loadsEq : module.image.aesdInitModule outcomes = loads) :
    loads.2.files.driver = module.files.driver.reset ∧
      (loads.1 < 0 ∧ loads.2.registered = module.registered ∧ loads.2.cdev = module.cdev ∨
        loads.1 = 0 ∧ loads.2.registered = loads.2.aesdMajor :: module.registered ∧
          loads.2.cdev = some loads.2.aesdMajor) := by
  subst loadsEq
  unfold AesdModule.aesdInitModule AesdModule.allocChrdevRegion AesdModule.aesdSetupCdev
  by_cases refused : outcomes.region < 0
  · simp only [if_pos refused]
    exact ⟨rfl, Or.inl ⟨refused, rfl, rfl⟩⟩
  · by_cases fails : outcomes.cdevErrno ≠ 0
    · have nonzero : -(outcomes.cdevErrno : Int) ≠ 0 := by omega
      simp only [if_neg refused, if_pos fails, if_pos nonzero]
      exact ⟨rfl, Or.inl ⟨by omega, List.erase_cons_head _ _, rfl⟩⟩
    · simp only [if_neg refused, if_neg fails]
      exact ⟨rfl, Or.inr ⟨rfl, rfl, rfl⟩⟩

/-- `insmod`. -/
theorem Sound.insmod (sound : state.Sound) {outcomes : LoadOutcomes}
    (stepped : step (.insmod outcomes) state = some state') :
    state'.Sound ∧ state'.module.files.driver = state.module.files.driver.reset := by
  have unloaded : state.loaded = false := by
    by_contra loaded
    simp [step, loaded] at stepped
  obtain ⟨loads, loadsEq⟩ : ∃ loads, state.module.image.aesdInitModule outcomes = loads :=
    ⟨_, rfl⟩
  obtain ⟨result, module⟩ := loads
  obtain ⟨driverEq, outcome⟩ := aesdInitModule_cases outcomes state.module loadsEq
  simp only [step, unloaded, loadsEq, Bool.false_eq_true, if_false, Option.some.injEq] at stepped
  subst stepped
  have registered := sound.registered
  have cdev := sound.cdev
  have opened := sound.opened unloaded
  obtain ⟨leaked, leakedEq, owns⟩ := sound.memory
  simp only [unloaded, Bool.false_eq_true, if_false] at registered cdev owns
  refine ⟨?_, driverEq⟩
  rcases outcome with ⟨negative, sameRegistered, sameCdev⟩ | ⟨isZero, newRegistered, newCdev⟩
  · have notLoaded : decide (0 ≤ result) = false := by simpa using negative
    constructor
    · simpa [notLoaded, registered] using sameRegistered
    · simpa [notLoaded, cdev] using sameCdev
    · exact fun _ => opened
    · refine ⟨leaked, leakedEq, ?_⟩
      rw [notLoaded, if_neg (by simp), driverEq]
      exact owns
  · have isLoaded : decide (0 ≤ result) = true := by simpa using isZero.ge
    constructor
    · simpa [isLoaded, registered] using newRegistered
    · simpa [isLoaded] using newCdev
    · exact fun _ => opened
    · refine ⟨leaked, leakedEq, ?_⟩
      rw [isLoaded, if_pos rfl, driverEq]
      exact ⟨Log.empty, [], represents_reset owns⟩

/-- `rmmod`: it is possible when no file is open, and leaves the pending block behind. -/
theorem Sound.rmmod (sound : state.Sound) (loaded : state.loaded = true)
    (nothingOpen : state.opened = []) :
    ∃ state', step .rmmod state = some state' ∧ state'.Sound := by
  obtain ⟨leaked, leakedEq, represents⟩ := sound.memory
  rw [if_pos loaded] at represents
  obtain ⟨log, held, rep⟩ := represents
  obtain ⟨current, is, ownsBefore⟩ := rep.memory
  obtain ⟨current', heap', is', cleaned, owns⟩ := rep.aesdCleanupModule
  have registered := sound.registered
  rw [if_pos loaded] at registered
  have pendingEq := pendingBlock_eq is ownsBefore
  obtain rfl := current_unique is is'
  let module' : AesdModule := {
    files := ⟨{ state.module.files.driver with heap := heap' }, state.module.files.fPos⟩
    aesdMajor := state.module.aesdMajor
    registered := state.module.registered.erase state.module.aesdMajor
    cdev := none }
  have unloads : state.module.aesdCleanupModule = .ok module' := by
    simp only [AesdModule.aesdCleanupModule, cleaned]
    rfl
  refine ⟨⟨module', false, state.opened, state.unfreed ++ state.module.files.driver.pendingBlock⟩,
    ?_, ?_⟩
  · simp only [step, if_pos (And.intro loaded nothingOpen), unloads]
  · constructor
    · simp [module', registered]
    · rfl
    · exact fun _ => nothingOpen
    · refine ⟨leaked ++ current, by rw [List.map_append, leakedEq, pendingEq], ?_⟩
      rw [if_neg (by simp)]
      exact owns.perm List.perm_append_comm

/-- A device with other positions of its files. -/
theorem Sound.withFiles (sound : state.Sound) {files : Files} {opened : List Nat}
    (loaded : state.loaded = true)
    (represents : ∀ log held leaked, state.module.files.driver.Represents log held leaked →
      ∃ log' held', files.driver.Represents log' held' leaked) :
    Sound { state with module := { state.module with files := files }, opened := opened } := by
  obtain ⟨leaked, leakedEq, rep⟩ := sound.memory
  rw [if_pos loaded] at rep
  obtain ⟨log, held, rep⟩ := rep
  refine ⟨sound.registered, sound.cdev, ?_, leaked, leakedEq, ?_⟩
  · intro unloaded
    rw [loaded] at unloaded
    contradiction
  · rw [if_pos loaded]
    exact represents log held leaked rep

/-- A call that grows the pending entry leaks nothing. -/
theorem call_represents {files files' : Files} {fileCall : FileCall}
    (grows : Grows (.call fileCall))
    (called : Files.call fileCall files = some files') {log : Log}
    {held leaked : List (Nat × Bytes)} (rep : files.driver.Represents log held leaked) :
    ∃ log' held', files'.driver.Represents log' held' leaked := by
  have performed : files.perform fileCall = .ok files' := by
    unfold Files.call at called
    split at called
    · contradiction
    · next performed => rw [performed, Option.some.inj called]
  cases fileCall with
  | read file outcomes bufIsNull count =>
      obtain ⟨result, returned, rfl⟩ := map_eq_ok_iff.mp performed
      exact ⟨log, held, (aesdRead_sameMemory returned).represents rep⟩
  | write file outcomes buf =>
      obtain ⟨⟨retval, driver'⟩, written, rfl⟩ := map_eq_ok_iff.mp performed
      have returned : files.driver.perform (.write outcomes buf (files.fPos file)) = .ok driver' :=
        map_eq_ok_iff.mpr ⟨_, written, rfl⟩
      obtain ⟨log', held', leaked', rep', noLeak⟩ := rep.of_perform returned
      rw [noLeak grows] at rep'
      exact ⟨log', held', rep'⟩
  | llseek file lock off whence =>
      obtain ⟨result, returned, rfl⟩ := map_eq_ok_iff.mp performed
      exact ⟨log, held, (aesdLlseek_sameMemory returned).represents rep⟩
  | ioctl file outcomes cmd arg =>
      obtain ⟨result, returned, rfl⟩ := map_eq_ok_iff.mp performed
      exact ⟨log, held, (aesdIoctl_sameMemory returned).represents rep⟩

/-- One event. -/
theorem Sound.step (sound : state.Sound) {event : ModuleEvent} (grows : Grows event)
    (stepped : ModuleState.step event state = some state') : state'.Sound := by
  cases event with
  | insmod outcomes => exact (sound.insmod stepped).1
  | rmmod =>
      by_cases possible : state.loaded = true ∧ state.opened = []
      · obtain ⟨other, unloads, sound'⟩ := sound.rmmod possible.1 possible.2
        rw [stepped] at unloads
        cases unloads
        exact sound'
      · simp [ModuleState.step, possible] at stepped
  | openFile file =>
      simp only [ModuleState.step] at stepped
      split at stepped
      · next possible =>
          cases stepped
          have loaded : state.loaded = true := by
            by_contra unloaded
            simp [sound.cdev, unloaded] at possible
          exact sound.withFiles loaded fun log held leaked rep => ⟨log, held, rep⟩
      · contradiction
  | release file =>
      simp only [ModuleState.step] at stepped
      split at stepped
      · next isOpen =>
          cases stepped
          have loaded : state.loaded = true := by
            by_contra unloaded
            simp [sound.opened (by simpa using unloaded)] at isOpen
          exact sound.withFiles loaded fun log held leaked rep => ⟨log, held, rep⟩
      · contradiction
  | call fileCall =>
      simp only [ModuleState.step] at stepped
      split at stepped
      · next isOpen =>
          obtain ⟨files', called, rfl⟩ := Option.map_eq_some_iff.mp stepped
          have loaded : state.loaded = true := by
            by_contra unloaded
            simp [sound.opened (by simpa using unloaded)] at isOpen
          exact sound.withFiles loaded fun log held leaked rep => call_represents grows called rep
      · contradiction

/-- Between events everything is accounted for. -/
theorem Sound.accounted (sound : state.Sound) : state.Accounted where
  registered := sound.registered
  cdev := sound.cdev
  opened := sound.opened
  live := by
    obtain ⟨leaked, leakedEq, memory⟩ := sound.memory
    cases loaded : state.loaded with
    | false =>
        rw [if_neg (by simp [loaded])] at memory
        have live := memory.live_perm
        rw [leakedEq] at live
        simpa using live
    | true =>
        rw [if_pos loaded] at memory
        obtain ⟨log, held, rep⟩ := memory
        obtain ⟨current, is, owns⟩ := rep.memory
        have live := owns.live_perm
        rw [List.map_append, List.map_append, leakedEq, ← rep.held_eq_map,
          ← pendingBlock_eq is owns] at live
        simpa using live
  unloads := by
    intro loaded nothingOpen
    obtain ⟨state', unloads, _⟩ := sound.rmmod loaded nothingOpen
    exact ⟨state', unloads⟩
  startsEmpty := by
    intro outcomes state' stepped _
    obtain ⟨_, driverEq⟩ := sound.insmod stepped
    have noEntries : aesdCircularBufferInit.heldEntries = [] := by decide
    rw [driverEq]
    refine ⟨?_, rfl, rfl⟩
    change (List.map _ aesdCircularBufferInit.heldEntries).flatten = []
    rw [noEntries]
    rfl

end ModuleState

/-- In every run of loads, some of which fail, of unloads, and of calls on open files that
leak nothing, the device number is registered exactly while the module is loaded, the
live kernel memory is that of the entries and of those that were pending when the module
was unloaded, unloading never frees a block twice, and every load starts with an empty
device, also when the lock was held at the end of the one before. -/
theorem module_accounted {events : List ModuleEvent} {state : ModuleState}
    (run : Run ModuleState.step (fun _ event => ModuleState.Grows event) ModuleState.start events
      state) :
    state.Accounted := by
  refine ModuleState.Sound.accounted (run.invariant (fun _ state => state.Sound)
    ModuleState.sound_start ?_)
  intro labels middle event target sound grows stepped
  exact sound.step grows stepped

/-- A load that fails in `cdev_add`, one that succeeds, an unterminated command, a seek
that keeps the lock, and another load. -/
def loadTwice : List ModuleEvent :=
  [.insmod ⟨0, 240, 12⟩, .insmod ⟨0, 241, 0⟩, .openFile 3,
    .call (.write 3 WriteOutcomes.success (some [97, 10, 98])), .call (.llseek 3 true 0 7),
    .release 3, .rmmod, .insmod ⟨0, 242, 0⟩]

theorem module_accounted_twice : ∃ state,
    exec ModuleState.step loadTwice ModuleState.start = some state ∧
      state.unfreed = [[98]] ∧ state.module.registered = [242] ∧ state.Accounted := by
  have observed : (exec ModuleState.step loadTwice ModuleState.start).map (fun state =>
      (state.unfreed, state.module.registered)) = some ([[98]], [242]) := by
    decide +kernel
  obtain ⟨state, executed, same⟩ := Option.map_eq_some_iff.mp observed
  refine ⟨state, executed, congrArg Prod.fst same, congrArg Prod.snd same,
    module_accounted (run_of_forall executed ?_)⟩
  intro event member _
  simp only [loadTwice, List.mem_cons, List.not_mem_nil, or_false] at member
  rcases member with rfl | rfl | rfl | rfl | rfl | rfl | rfl | rfl <;> trivial

end Aesd.Driver
