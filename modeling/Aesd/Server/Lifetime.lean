import Aesd.Server.LastNode

/-!
# The lifetime of a `thread_data` block

`main` allocates a block for each connection and passes it to the new thread,
which uses it until it returns.  From then on the block belongs to whoever joins
the thread.  The later failure exits of the accept loop free it all the same,
while the thread runs, and leave the thread out of the list.
-/

namespace Aesd.Server

open Aesd.Driver
open Aesd.Mutex
open Aesd.Transition

variable {δ χ : Type}

/-! ## Nodes a loop is going to use -/

/-- The nodes a thread in `check_completed_threads` has still to visit or to join. -/
def Check.pending : Check → List Nat
  | .visit rest => rest
  | .join node rest => node :: rest
  | .lock | .unlock => []

/-- The node a thread in `clean_threads` is about to join. -/
def Clean.pending : Clean → List Nat
  | .join node => [node]
  | .lock | .first | .unlock => []

def Cleanup.pending : Cleanup → List Nat
  | .check point => point.pending
  | .clean point => point.pending
  | .start | .unlink => []

def Pc.pending : Pc → List Nat
  | .cleanup point => point.pending
  | _ => []

def MainPc.pending : MainPc → List Nat
  | .check point => point.pending
  | .cleanup point => point.pending
  | .loop | .accept | .addNode _ | .lockInsert _ | .insert _ | .unlockInsert _ => []

def Process.pending (process : Process δ) : Thread → List Nat
  | .main => process.main.pending
  | .handler index => (process.handlers index).pc.pending

/-- Each of them is linked, and comes once. -/
structure Pending (nodes : List Nat) (clients : Clients) : Prop where
  nodup : nodes.Nodup
  linked : ∀ node ∈ nodes, node ∈ clients.linked

theorem Pending.nil (clients : Clients) : Pending [] clients where
  nodup := List.nodup_nil
  linked node member := by contradiction

/-- A list that has not changed. -/
theorem Pending.of_linked {nodes : List Nat} {clients clients' : Clients}
    (pending : Pending nodes clients) (same : clients'.linked = clients.linked) :
    Pending nodes clients' where
  nodup := pending.nodup
  linked := same ▸ pending.linked

/-- The first of them is joined and removed. -/
theorem Pending.remove {node : Nat} {rest : List Nat} {clients : Clients}
    (pending : Pending (node :: rest) clients) : Pending rest (clients.remove node) where
  nodup := (List.nodup_cons.mp pending.nodup).2
  linked other member := by
    have differs : other ≠ node := by
      rintro rfl
      exact (List.nodup_cons.mp pending.nodup).1 member
    exact (List.mem_erase_of_ne differs).mpr (pending.linked other (List.mem_cons_of_mem _ member))

section Pending

variable {thread : Thread} {returned : Nat → Bool} {ok : Bool} {clients clients' : Clients}

theorem Check.pending_step {point : Check} {control : Control Check}
    (pending : Pending point.pending clients) (nodup : clients.linked.Nodup)
    (stepped : point.step thread returned ok clients = some (control, clients')) :
    Pending (control.point point).pending clients' := by
  cases point with
  | lock =>
      rcases Clients.lockThen_cases stepped with ⟨_, _, rfl, rfl⟩ | ⟨_, rfl, rfl⟩
      · exact ⟨nodup, fun node member => member⟩
      · exact Pending.nil _
  | visit rest =>
      cases rest with
      | nil =>
          cases stepped
          exact Pending.nil _
      | cons node rest =>
          simp only [Check.step] at stepped
          split at stepped <;> cases stepped
          · exact pending
          · exact ⟨(List.nodup_cons.mp pending.nodup).2,
              fun other member => pending.linked other (List.mem_cons_of_mem _ member)⟩
  | join node rest =>
      rcases Clients.join_cases stepped with ⟨_, rfl, rfl⟩ | ⟨_, _, rfl, rfl⟩
      · exact pending
      · exact pending.remove
  | unlock =>
      cases stepped
      exact Pending.nil _

theorem Clean.pending_step {point : Clean} {control : Control Clean}
    (pending : Pending point.pending clients)
    (stepped : point.step thread returned ok clients = some (control, clients')) :
    Pending (control.point point).pending clients' := by
  cases point with
  | lock =>
      rcases Clients.lockThen_cases stepped with ⟨_, _, rfl, rfl⟩ | ⟨_, rfl, rfl⟩ <;>
        exact Pending.nil _
  | first =>
      cases linked : clients.linked with
      | nil =>
          simp only [Clean.step, linked] at stepped
          cases stepped
          exact Pending.nil _
      | cons node rest =>
          simp only [Clean.step, linked] at stepped
          cases stepped
          refine ⟨List.nodup_singleton _, ?_⟩
          intro other member
          rw [List.mem_singleton.mp member, linked]
          exact List.mem_cons_self
  | join node =>
      rcases Clients.join_cases stepped with ⟨_, rfl, rfl⟩ | ⟨_, _, rfl, rfl⟩
      · exact pending
      · exact Pending.nil _
  | unlock =>
      cases stepped
      exact Pending.nil _

theorem Cleanup.pending_step {point : Cleanup} {control : Control Cleanup}
    (pending : Pending point.pending clients) (nodup : clients.linked.Nodup)
    (stepped : point.step thread returned ok clients = some (control, clients')) :
    Pending (control.point point).pending clients' := by
  cases point with
  | start =>
      simp only [Cleanup.step] at stepped
      split at stepped <;> cases stepped <;> exact Pending.nil _
  | check point =>
      obtain ⟨⟨control, _⟩, checkStep, equal⟩ := Option.map_eq_some_iff.mp stepped
      cases equal
      have next := Check.pending_step pending nodup checkStep
      cases control with
      | done => exact Pending.nil _
      | _ => exact next
  | clean point =>
      obtain ⟨⟨control, _⟩, cleanStep, equal⟩ := Option.map_eq_some_iff.mp stepped
      cases equal
      have next := Clean.pending_step pending cleanStep
      cases control with
      | done => exact Pending.nil _
      | _ => exact next
  | unlink =>
      cases stepped
      exact Pending.nil _

/-- Nodes are pending inside the section of the thread only. -/
theorem Cleanup.inSection_of_pending {point : Cleanup} (uses : point.pending ≠ []) :
    point.listUse.inSection = true := by
  cases point with
  | check point => cases point <;> first | rfl | contradiction
  | clean point => cases point <;> first | rfl | contradiction
  | _ => contradiction

theorem Pc.inSection_of_pending {pc : Pc} (uses : pc.pending ≠ []) :
    pc.listUse.inSection = true := by
  cases pc with
  | cleanup point => exact Cleanup.inSection_of_pending uses
  | _ => contradiction

theorem MainPc.inSection_of_pending {pc : MainPc} (uses : pc.pending ≠ []) :
    pc.listUse.inSection = true := by
  cases pc with
  | check point =>
      have inCheck : (Cleanup.check point).pending ≠ [] := uses
      exact Cleanup.inSection_of_pending inCheck
  | cleanup point => exact Cleanup.inSection_of_pending uses
  | _ => contradiction

/-- The loops remove a node they have pending. -/
theorem Cleanup.mem_pending_of_event {point : Cleanup} {node : Nat}
    (removes : point.event ok = .remove node) : node ∈ point.pending := by
  cases point with
  | check point =>
      cases point with
      | join other rest =>
          cases ok <;> cases removes
          exact List.mem_cons_self
      | _ => contradiction
  | clean point =>
      cases point with
      | join other =>
          cases ok <;> cases removes
          exact List.mem_cons_self
      | _ => contradiction
  | _ => contradiction

theorem Pc.pending_step {device : Device δ χ} {index : Nat} {outcomes : Outcomes χ}
    {file : DeviceFile δ} {pc : Pc} {effect : Effect δ} (pending : Pending pc.pending clients)
    (nodup : clients.linked.Nodup)
    (stepped : pc.step device index returned outcomes file clients = some effect) :
    Pending (effect.control.point pc).pending effect.clients := by
  cases uses : pc.usesList with
  | false =>
      obtain ⟨_, outside, _⟩ := Pc.step_plain uses stepped
      have none : (effect.control.point pc).pending = [] := by
        by_contra some
        have inside := Pc.inSection_of_pending some
        rw [outside] at inside
        contradiction
      rw [none]
      exact Pending.nil _
  | true =>
      cases pc with
      | cleanup point =>
          obtain ⟨⟨control, clients'⟩, cleanupStep, rfl⟩ := Option.map_eq_some_iff.mp stepped
          have next := Cleanup.pending_step pending nodup cleanupStep
          cases control with
          | done => exact Pending.nil _
          | _ => exact next
      | setComplete point =>
          obtain ⟨⟨control, clients'⟩, completeStep, rfl⟩ := Option.map_eq_some_iff.mp stepped
          cases control <;> exact Pending.nil _
      | _ => contradiction

theorem Process.MainMove.pending_step {process : Process δ} {pc : MainPc}
    {effect : Process.MainEffect} (pending : Pending pc.pending process.clients)
    (nodup : process.clients.linked.Nodup) (move : Process.MainMove process ok pc effect) :
    Pending (effect.control.point pc).pending effect.clients := by
  cases move with
  | check checkStep =>
      rename_i point control clients
      have next := Check.pending_step pending nodup checkStep
      cases control with
      | done => exact Pending.nil _
      | _ => exact next
  | cleanup cleanupStep =>
      rename_i point control clients
      have next := Cleanup.pending_step pending nodup cleanupStep
      cases control with
      | done =>
          rw [Cleanup.eq_unlink_of_done cleanupStep]
          exact Pending.nil _
      | _ => exact next
  | _ => exact Pending.nil _

end Pending

namespace Process

variable {device : Device δ χ} {process target : Process δ} {label : Label χ} {thread : Thread}
  {node : Nat}

theorem pending_step (orderly : process.Orderly)
    (pending : ∀ thread, Pending (process.pending thread) process.clients)
    (stepped : Process.step device label process = some target) (thread : Thread) :
    Pending (target.pending thread) target.clients := by
  by_cases takes : label.thread = some thread
  · rcases step_cases stepped with
      ⟨rfl, rfl⟩ | ⟨ok, effect, rfl, made, rfl⟩ | ⟨index, outcomes, effect, rfl, _, made, rfl⟩
    · contradiction
    · cases takes
      exact (mainMove made).pending_step (pending .main) orderly.nodup
    · cases takes
      have next := Pc.pending_step (pending (.handler index)) orderly.nodup made
      simpa only [Process.pending, applyHandler_self, applyHandler_clients] using next
  · have same : target.pending thread = process.pending thread := by
      cases thread with
      | main => rw [Process.pending, Process.pending, (main_of_ne stepped takes).1]
      | handler index => rw [Process.pending, Process.pending, handlers_of_ne stepped takes]
    rw [same]
    by_cases none : process.pending thread = []
    · rw [none]
      exact Pending.nil _
    · -- the other threads leave the list alone
      have inside : process.InListSection thread := by
        cases thread with
        | main => exact MainPc.inSection_of_pending none
        | handler index => exact Pc.inSection_of_pending none
      have quiet := event_of_inListSection orderly.guarded inside takes
      apply (pending thread).of_linked
      rw [(Process.happens stepped).linked, quiet]
      rfl

/-- A node is removed by a thread that has it pending. -/
theorem pending_of_remove (removes : process.event label = .remove node) :
    ∃ thread, node ∈ process.pending thread := by
  cases label with
  | signal => contradiction
  | main ok =>
      refine ⟨.main, ?_⟩
      rw [event] at removes
      rw [Process.pending]
      cases pc : process.main with
      | check point =>
          rw [pc] at removes
          have inCheck : (Cleanup.check point).event ok = .remove node := removes
          exact Cleanup.mem_pending_of_event inCheck
      | cleanup point =>
          rw [pc] at removes
          exact Cleanup.mem_pending_of_event removes
      | _ =>
          rw [pc] at removes
          contradiction
  | handler index outcomes =>
      refine ⟨.handler index, ?_⟩
      rw [event] at removes
      rw [Process.pending]
      cases pc : (process.handlers index).pc with
      | cleanup point =>
          rw [pc] at removes
          exact Cleanup.mem_pending_of_event removes
      | setComplete point =>
          rw [pc] at removes
          cases point <;> contradiction
      | _ =>
          rw [pc] at removes
          contradiction

/-! ## The failure exits of the accept loop -/

/-- The new thread leaves the hands of `main` when its node is linked, or in one of
these exits. -/
theorem creates_step (stepped : Process.step device label process = some target) {index : Nat}
    (creates : process.main.creates = some index) :
    target.main.creates = some index ∨ process.event label = .insert index ∨
      index ∈ process.abandoned label := by
  by_cases takes : label.thread = some .main
  · rcases step_cases stepped with
      ⟨rfl, rfl⟩ | ⟨ok, effect, rfl, made, rfl⟩ | ⟨other, outcomes, effect, rfl, _, made, rfl⟩
    · contradiction
    · cases pc : process.main with
      | addNode other =>
          rw [pc] at creates
          cases creates
          cases ok with
          | false => exact Or.inr (Or.inr (by simp [abandoned, pc]))
          | true =>
              simp only [mainEffect, pc] at made
              cases made
              exact Or.inl rfl
      | lockInsert other =>
          rw [pc] at creates
          cases creates
          cases ok with
          | false => exact Or.inr (Or.inr (by simp [abandoned, pc]))
          | true =>
              simp only [mainEffect, pc] at made
              obtain ⟨⟨next, clients⟩, called, rfl⟩ := Option.map_eq_some_iff.mp made
              rcases Clients.lockThen_cases called with ⟨_, _, rfl, _⟩ | ⟨refused, _⟩
              · exact Or.inl rfl
              · contradiction
      | insert other =>
          rw [pc] at creates
          cases creates
          exact Or.inr (Or.inl (by simp [event, pc, MainPc.event]))
      | _ =>
          rw [pc] at creates
          contradiction
    · cases takes
  · rw [(main_of_ne stepped takes).1]
    exact Or.inl creates

theorem MainMove.created {pc : MainPc} {ok : Bool} {effect : MainEffect}
    (move : MainMove process ok pc effect) {index : Nat} (created : index < effect.created) :
    index < process.created ∨ (effect.control.point pc).creates = some index := by
  cases move with
  | create =>
      rcases Nat.lt_succ_iff_lt_or_eq.mp created with before | rfl
      · exact Or.inl before
      · exact Or.inr rfl
  | _ => exact Or.inl created

/-- A new thread is in the hands of `main`. -/
theorem created_step (stepped : Process.step device label process = some target) {index : Nat}
    (created : index < target.created) :
    index < process.created ∨ target.main.creates = some index := by
  rcases step_cases stepped with
    ⟨rfl, rfl⟩ | ⟨ok, effect, rfl, made, rfl⟩ | ⟨other, outcomes, effect, rfl, _, made, rfl⟩
  · exact Or.inl created
  · exact (mainMove made).created created
  · exact Or.inl created

/-- What the failure exits come to. -/
theorem abandoned_step (stepped : Process.step device label process = some target) {index : Nat}
    (abandons : index ∈ process.abandoned label) :
    process.main.creates = some index ∧ target.main.creates = none ∧
      target.created = process.created ∧ process.event label = .quiet := by
  rcases step_cases stepped with
    ⟨rfl, rfl⟩ | ⟨ok, effect, rfl, made, rfl⟩ | ⟨other, outcomes, effect, rfl, _, made, rfl⟩
  · contradiction
  · cases ok with
    | true => contradiction
    | false =>
        cases pc : process.main with
        | addNode other =>
            simp only [abandoned, pc, List.mem_singleton] at abandons
            simp only [mainEffect, pc] at made
            cases made
            exact ⟨by rw [abandons]; rfl, rfl, rfl, by simp [event, pc, MainPc.event]⟩
        | lockInsert other =>
            simp only [abandoned, pc, List.mem_singleton] at abandons
            simp only [mainEffect, pc] at made
            obtain ⟨⟨next, clients⟩, called, rfl⟩ := Option.map_eq_some_iff.mp made
            rcases Clients.lockThen_cases called with ⟨obtained, _⟩ | ⟨_, rfl, _⟩
            · contradiction
            · exact ⟨by rw [abandons]; rfl, rfl, rfl, by simp [event, pc, MainPc.event]⟩
        | _ =>
            simp only [abandoned, pc] at abandons
            contradiction
  · contradiction

/-- `main` has linked the node. -/
theorem insert_step (stepped : Process.step device label process = some target)
    (inserts : process.event label = .insert node) :
    process.main.creates = some node ∧ target.main.creates = none ∧
      target.created = process.created := by
  obtain ⟨takes, pc⟩ := main_of_insert inserts
  rcases step_cases stepped with
    ⟨rfl, rfl⟩ | ⟨ok, effect, rfl, made, rfl⟩ | ⟨other, outcomes, effect, rfl, _, made, rfl⟩
  · cases takes
  · simp only [mainEffect, pc] at made
    cases made
    exact ⟨by rw [pc]; rfl, rfl, rfl⟩
  · cases takes

end Process

/-! ## Blocks -/

/-- A `thread_data` block: the one passed to a handler, or one of an iteration that
creates no thread, by its number among them. -/
inductive Block
  | passed (index : Nat)
  | unused (number : Nat)
  deriving DecidableEq

/-- The call that fails in an iteration that creates no thread. -/
inductive Setup
  | createThreadData
  | accept
  | pthreadCreate
  deriving DecidableEq

/-- Whether `main` frees a block in this step that it has not passed on, and closes its
descriptor before.  After the signal the descriptor stays open. -/
def Process.discards (process : Process δ) (setup : Setup) : Label χ → Option Bool
  | .main ok =>
      match process.main with
      | .accept =>
          if process.keepRunning = false then
            if setup = .createThreadData then none else some false
          else if ok then
            none
          else
            match setup with
            | .createThreadData => none
            | .accept => some false
            | .pthreadCreate => some true
      | _ => none
  | _ => none

/-- The process with the number of blocks that were not passed on, the blocks whose
descriptor has been closed, the blocks that have been freed, and the handlers that have
been joined. -/
structure Ledger (δ : Type) where
  process : Process δ
  unused : Nat
  closed : List Block
  freed : List Block
  joined : List Nat

namespace Ledger

/-- No block exists when `main` reaches the accept loop. -/
def start (device : δ) : Ledger δ :=
  ⟨Process.start device, 0, [], [], []⟩

/-- What is recorded of a step of the process: who removes a node has joined its thread,
and closes and frees the block the thread returned; so does `main` in its failure
exits. -/
def record (ledger : Ledger δ) (label : Label χ) (setup : Setup) (process : Process δ) :
    Ledger δ :=
  let discards := ledger.process.discards setup label
  let removed := (ledger.process.event label).removed
  let released := (ledger.process.abandoned label ++ removed).map Block.passed
  { process := process
    unused := ledger.unused + if discards = none then 0 else 1
    closed := ledger.closed ++
      (if discards = some true then [Block.unused ledger.unused] else []) ++ released
    freed := ledger.freed ++
      (if discards = none then [] else [Block.unused ledger.unused]) ++ released
    joined := ledger.joined ++ removed }

/-- One step of the process, with the call that fails if no thread is created. -/
def step (device : Device δ χ) : Step (Label χ × Setup) (Ledger δ) := fun (label, setup) ledger =>
  (Process.step device label ledger.process).map (ledger.record label setup)

/-- The blocks outlive their threads. -/
structure Outlives (ledger : Ledger δ) : Prop where
  freed_once : ledger.freed.Nodup
  closed_once : ledger.closed.Nodup
  /-- A block that has been passed on is left alone until the handler has returned. -/
  returned : ∀ index, .passed index ∈ ledger.freed ∨ .passed index ∈ ledger.closed →
    ledger.process.returned index = true
  /-- A thread that has been created, and is not in the hands of `main` any more, is in the
  list or has been joined. -/
  listed : ∀ index < ledger.process.created, ledger.process.main.creates ≠ some index →
    index ∈ ledger.process.clients.linked ∨ index ∈ ledger.joined

/-- The step does not take a failure exit behind `pthread_create`, and `main` does not
put a node behind one that is not linked. -/
def KeepsThread (ledger : Ledger δ) (label : Label χ × Setup) : Prop :=
  ledger.process.abandoned label.1 = [] ∧
    ∀ node ∈ (ledger.process.event label.1).inserted, ∀ before ∈ ledger.process.last,
      before ∈ ledger.process.clients.linked

instance (ledger : Ledger δ) (label : Label χ × Setup) : Decidable (ledger.KeepsThread label) :=
  inferInstanceAs (Decidable (_ ∧ ∀ node ∈ _, _))

/-- Where a block that has been closed or freed comes from. -/
def Known (ledger : Ledger δ) : Block → Prop
  | .passed index => index ∈ ledger.joined
  | .unused number => number < ledger.unused

/-- What holds in every state of a run that keeps its threads. -/
structure Sound (ledger : Ledger δ) : Prop where
  orderly : ledger.process.Orderly
  pending : ∀ thread, Pending (ledger.process.pending thread) ledger.process.clients
  freed_once : ledger.freed.Nodup
  closed_once : ledger.closed.Nodup
  freed_known : ∀ block ∈ ledger.freed, ledger.Known block
  closed_known : ∀ block ∈ ledger.closed, ledger.Known block
  returned : ∀ index ∈ ledger.joined, ledger.process.returned index = true
  joined_old : ∀ index ∈ ledger.joined, ¬ ledger.process.IsNew index
  joined_unlinked : ∀ index ∈ ledger.joined, index ∉ ledger.process.clients.linked
  listed : ∀ index < ledger.process.created, ledger.process.main.creates ≠ some index →
    index ∈ ledger.process.clients.linked ∨ index ∈ ledger.joined

theorem sound_start (device : δ) : (start device).Sound where
  orderly := Process.orderly_start device
  pending thread := by cases thread <;> exact Pending.nil _
  freed_once := List.nodup_nil
  closed_once := List.nodup_nil
  freed_known block member := by contradiction
  closed_known block member := by contradiction
  returned index member := by contradiction
  joined_old index member := by contradiction
  joined_unlinked index member := by contradiction
  listed index before := by contradiction

theorem Sound.outlives {ledger : Ledger δ} (sound : ledger.Sound) : ledger.Outlives where
  freed_once := sound.freed_once
  closed_once := sound.closed_once
  returned index released := by
    rcases released with freed | closed
    · exact sound.returned index (sound.freed_known _ freed)
    · exact sound.returned index (sound.closed_known _ closed)
  listed := sound.listed

section Step

variable {device : Device δ χ} {ledger : Ledger δ} {label : Label χ} {setup : Setup}
  {process : Process δ} {blocks fresh : List Block} {node : Nat}

theorem nodup_removed (event : ListEvent) : event.removed.Nodup := by
  cases event <;> simp [ListEvent.removed]

/-- A thread that is joined has a linked node. -/
theorem Sound.linked_of_removed (sound : ledger.Sound)
    (removed : node ∈ (ledger.process.event label).removed) :
    node ∈ ledger.process.clients.linked := by
  obtain ⟨thread, pending⟩ := Process.pending_of_remove (ListEvent.mem_removed_iff.mp removed)
  exact (sound.pending thread).linked node pending

/-- No block is released again. -/
theorem Sound.nodup_release (sound : ledger.Sound) (nodup : blocks.Nodup)
    (known : ∀ block ∈ blocks, ledger.Known block)
    (isFresh : fresh = [] ∨ fresh = [Block.unused ledger.unused]) :
    (blocks ++ fresh ++ (ledger.process.event label).removed.map Block.passed).Nodup := by
  have freshNodup : fresh.Nodup := by rcases isFresh with rfl | rfl <;> simp
  have released : ((ledger.process.event label).removed.map Block.passed).Nodup :=
    (nodup_removed _).map fun _ _ same => Block.passed.inj same
  rw [List.append_assoc, List.nodup_append]
  refine ⟨nodup, List.nodup_append.mpr ⟨freshNodup, released, ?_⟩, ?_⟩
  · rintro block isNew _ member rfl
    obtain ⟨index, _, rfl⟩ := List.mem_map.mp member
    rcases isFresh with rfl | rfl <;> simp at isNew
  · rintro block old _ member rfl
    have isKnown := known block old
    rcases List.mem_append.mp member with isNew | isReleased
    · rcases isFresh with rfl | rfl
      · contradiction
      · rw [List.mem_singleton.mp isNew] at isKnown
        exact Nat.lt_irrefl _ isKnown
    · obtain ⟨index, removed, rfl⟩ := List.mem_map.mp isReleased
      exact sound.joined_unlinked index isKnown (sound.linked_of_removed removed)

/-- A released block is known from then on. -/
theorem known_release (keeps : ledger.process.abandoned label = [])
    (known : ∀ block ∈ blocks, ledger.Known block)
    (isFresh : fresh = [] ∨ fresh = [Block.unused ledger.unused] ∧
      ledger.process.discards setup label ≠ none) :
    ∀ block ∈ blocks ++ fresh ++
        (ledger.process.abandoned label ++ (ledger.process.event label).removed).map Block.passed,
      (ledger.record label setup process).Known block := by
  rw [keeps, List.nil_append]
  intro block member
  rcases List.mem_append.mp member with before | released
  · rcases List.mem_append.mp before with old | isNew
    · have isKnown := known block old
      cases block with
      | passed index => exact List.mem_append_left _ isKnown
      | unused number => exact Nat.lt_of_lt_of_le isKnown (Nat.le_add_right _ _)
    · rcases isFresh with rfl | ⟨rfl, discards⟩
      · contradiction
      · rw [List.mem_singleton.mp isNew]
        simp [Known, record, discards]
  · obtain ⟨index, removed, rfl⟩ := List.mem_map.mp released
    exact List.mem_append_right _ removed

/-- A step that keeps its threads. -/
theorem Sound.next (sound : ledger.Sound) (keeps : ledger.KeepsThread (label, setup))
    (stepped : Process.step device label ledger.process = some process) :
    (ledger.record label setup process).Sound := by
  obtain ⟨keeps, linksBehind⟩ := keeps
  have orderly := sound.orderly
  have joinedOld (index : Nat) (member : index ∈ ledger.joined) :=
    orderly.not_linked_next stepped (sound.joined_old index member)
      (sound.joined_unlinked index member)
  have joinedNew (index : Nat) (removed : index ∈ (ledger.process.event label).removed) :
      ¬ process.IsNew index ∧ index ∉ process.clients.linked := by
    have linked := sound.linked_of_removed removed
    refine ⟨fun isNew => ?_, ?_⟩
    · exact orderly.not_linked index ((orderly.isNew stepped).2 index isNew).1 linked
    · rw [(Process.happens stepped).linked, ListEvent.mem_removed_iff.mp removed]
      exact orderly.nodup.not_mem_erase
  have joinedAll (index : Nat) (member : index ∈ (ledger.record label setup process).joined) :
      ¬ process.IsNew index ∧ index ∉ process.clients.linked := by
    rcases List.mem_append.mp member with old | removed
    · exact joinedOld index old
    · exact joinedNew index removed
  constructor
  case orderly => exact orderly.next stepped
  case pending => exact Process.pending_step orderly sound.pending stepped
  case freed_once =>
    simp only [record, keeps, List.nil_append]
    apply sound.nodup_release sound.freed_once sound.freed_known
    split <;> simp
  case closed_once =>
    simp only [record, keeps, List.nil_append]
    apply sound.nodup_release sound.closed_once sound.closed_known
    split <;> simp
  case freed_known =>
    apply known_release keeps sound.freed_known
    split
    · exact Or.inl rfl
    · exact Or.inr ⟨rfl, ‹_›⟩
  case closed_known =>
    apply known_release keeps sound.closed_known
    split
    · rename_i closes
      exact Or.inr ⟨rfl, by simp [closes]⟩
    · exact Or.inl rfl
  case returned =>
    intro index member
    apply Process.returned_of_returned stepped
    rcases List.mem_append.mp member with old | removed
    · exact sound.returned index old
    · exact (Process.happens stepped).joined index (ListEvent.mem_removed_iff.mp removed)
  case joined_old => exact fun index member => (joinedAll index member).1
  case joined_unlinked => exact fun index member => (joinedAll index member).2
  case listed =>
    intro index before outOfHands
    rcases Process.created_step stepped before with old | creates
    · by_cases creates : ledger.process.main.creates = some index
      · rcases Process.creates_step stepped creates with still | inserts | abandons
        · exact absurd still outOfHands
        · refine Or.inl ?_
          rw [record, (Process.happens stepped).linked, inserts]
          refine Clients.mem_insert_iff.mpr (Or.inr ⟨rfl, ?_⟩)
          exact linksBehind index (ListEvent.mem_inserted_iff.mpr inserts)
        · rw [keeps] at abandons
          contradiction
      · rcases sound.listed index old creates with linked | joined
        · by_cases removed : index ∈ (ledger.process.event label).removed
          · exact Or.inr (List.mem_append_right _ removed)
          · refine Or.inl ?_
            rw [record, (Process.happens stepped).linked]
            exact Clients.mem_after linked removed
        · exact Or.inr (List.mem_append_left _ joined)
    · exact absurd creates outOfHands

/-- The thread `main` creates is in the list behind any step after which it is out of its
hands and the blocks still outlive their threads. -/
theorem Sound.linked_of_outlives (sound : ledger.Sound)
    (outlives : (ledger.record label setup process).Outlives)
    (creates : ledger.process.main.creates = some node) (outOfHands : process.main.creates = none)
    (sameCreated : process.created = ledger.process.created) : node ∈ process.clients.linked := by
  have isNew : ledger.process.IsNew node := Or.inr creates
  have created : node < process.created := sameCreated ▸ sound.orderly.creates_lt node creates
  have differs : process.main.creates ≠ some node := by
    rw [outOfHands]
    simp
  rcases outlives.listed node created differs with linked | joined
  · exact linked
  · rcases List.mem_append.mp joined with old | removed
    · exact absurd isNew (sound.joined_old node old)
    · exact absurd (sound.linked_of_removed removed) (sound.orderly.not_linked node isNew)

/-- Any other step loses a thread. -/
theorem Sound.keepsThread (sound : ledger.Sound)
    (stepped : Process.step device label ledger.process = some process)
    (outlives : (ledger.record label setup process).Outlives) :
    ledger.KeepsThread (label, setup) := by
  constructor
  · rw [List.eq_nil_iff_forall_not_mem]
    intro index abandons
    obtain ⟨creates, outOfHands, sameCreated, quiet⟩ := Process.abandoned_step stepped abandons
    have linked := sound.linked_of_outlives outlives creates outOfHands sameCreated
    rw [(Process.happens stepped).linked, quiet] at linked
    exact sound.orderly.not_linked index (Or.inr creates) linked
  · intro index inserted
    have inserts := ListEvent.mem_inserted_iff.mp inserted
    obtain ⟨creates, outOfHands, sameCreated⟩ := Process.insert_step stepped inserts
    have linked := sound.linked_of_outlives outlives creates outOfHands sameCreated
    rw [(Process.happens stepped).linked, inserts] at linked
    rcases Clients.mem_insert_iff.mp linked with old | ⟨_, behind⟩
    · exact absurd old (sound.orderly.not_linked index (Or.inr creates))
    · exact behind

end Step

end Ledger

/-- In a run that keeps its threads, all of them have returned when `main` is done with
`clean_threads`: nobody is left between the `unlink` and the end of the process. -/
theorem handlers_returned_of_cleaned {device : Device δ χ} {initial : δ}
    {labels : List (Label χ × Setup)} {ledger : Ledger δ}
    (run : Run (Ledger.step device) Ledger.KeepsThread (Ledger.start initial) labels ledger)
    (atUnlock : ledger.process.main = .cleanup (.clean .unlock)) :
    ∀ index < ledger.process.created, ledger.process.returned index = true := by
  have sound : ledger.Sound ∧ (ledger.process.main = .cleanup (.clean .unlock) →
      ledger.process.clients.linked = []) := by
    refine run.invariant (fun _ ledger => ledger.Sound ∧
      (ledger.process.main = .cleanup (.clean .unlock) → ledger.process.clients.linked = []))
      ⟨Ledger.sound_start initial, fun atUnlock => by contradiction⟩ ?_
    rintro _ middle label target ⟨sound, cleaned⟩ keeps stepped
    obtain ⟨process, made, rfl⟩ := Option.map_eq_some_iff.mp stepped
    exact ⟨sound.next keeps made, sound.orderly.cleaned_step made cleaned⟩
  obtain ⟨sound, cleaned⟩ := sound
  intro index created
  have outOfHands : ledger.process.main.creates ≠ some index := by
    simp [atUnlock, MainPc.creates]
  rcases sound.listed index created outOfHands with linked | joined
  · rw [cleaned atUnlock] at linked
    contradiction
  · exact sound.returned index joined

/-- For every execution of the process, any failures and any interleaving: the blocks
outlive their threads in every state if and only if no step takes a failure exit behind
`pthread_create`, or links a node behind one that is not linked. -/
theorem threadData_outlives_iff (device : Device δ χ) (initial : δ)
    {labels : List (Label χ × Setup)} {ledger : Ledger δ}
    (executed : exec (Ledger.step device) labels (Ledger.start initial) = some ledger) :
    (∀ before after state, labels = before ++ after →
        exec (Ledger.step device) before (Ledger.start initial) = some state → state.Outlives) ↔
      Run (Ledger.step device) Ledger.KeepsThread (Ledger.start initial) labels ledger := by
  refine (run_iff_forall executed (Ledger.sound_start initial) Ledger.Sound.outlives ?_ ?_).symm
  · intro middle label target sound keeps stepped
    obtain ⟨process, made, rfl⟩ := Option.map_eq_some_iff.mp stepped
    exact sound.next keeps made
  · intro middle label target sound stepped outlives
    obtain ⟨process, made, rfl⟩ := Option.map_eq_some_iff.mp stepped
    exact sound.keepsThread made outlives

/-- Of two clients the first one is reaped, and its block is freed. -/
theorem threadData_outlives_iff_two_clients :
    let labels := reapsFirst.map fun label => (label, Setup.accept)
    ∃ ledger, exec (Ledger.step aesdchar) labels (Ledger.start aesdInitModule) = some ledger ∧
      ledger.freed = [.passed 0] ∧ ledger.joined = [0] ∧
      ∀ before after state, labels = before ++ after →
        exec (Ledger.step aesdchar) before (Ledger.start aesdInitModule) = some state →
        state.Outlives := by
  intro labels
  have run : Run (Ledger.step aesdchar) Ledger.KeepsThread (Ledger.start aesdInitModule)
      labels _ :=
    run_iff_exec_admitted.mpr rfl
  exact ⟨_, run.exec_eq_some, rfl, rfl,
    (threadData_outlives_iff aesdchar aesdInitModule run.exec_eq_some).mpr run⟩

/-- There is no memory for the first node: the block is closed and freed before the new
thread has made a step, and the thread is not in the list. -/
theorem main_frees_block_of_running_thread :
    ∃ ledger,
      exec (Ledger.step aesdchar)
          [(.main true, .accept), (.main true, .accept), (.main false, .accept)]
          (Ledger.start aesdInitModule) = some ledger ∧
        ledger.process.created = 1 ∧ ledger.process.returned 0 = false ∧
        ledger.closed = [.passed 0] ∧ ledger.freed = [.passed 0] ∧
        ledger.process.clients.linked = [] ∧ ledger.joined = [] ∧ ¬ ledger.Outlives := by
  refine ⟨_, rfl, rfl, rfl, rfl, rfl, rfl, rfl, ?_⟩
  intro outlives
  have returned := outlives.returned 0 (Or.inl (by decide))
  contradiction

end Aesd.Server
