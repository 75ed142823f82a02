import Aesd.Server.ListEvents

/-!
# The last node

`main` links a new node behind the one it linked last, and remembers that one in
`last`.  It never forgets it: when `check_completed_threads` has reaped and freed
the node, the next one is put behind a node that is not in the list, and lost.
As long as the last node is not reaped inside the accept loop, no node is lost.
-/

namespace Aesd.Server

open Aesd.Driver
open Aesd.Mutex
open Aesd.Transition

variable {δ χ : Type}

/-! ## The accept loop -/

/-- `main` has not left the accept loop. -/
def MainPc.inLoop : MainPc → Bool
  | .cleanup _ => false
  | .loop | .accept | .addNode _ | .lockInsert _ | .insert _ | .unlockInsert _ | .check _ => true

/-- `clean_threads` comes to its end when nothing is linked. -/
theorem Clean.linked_of_unlock {thread : Thread} {returned : Nat → Bool} {ok : Bool}
    {clients clients' : Clients} {point : Clean}
    (stepped : point.step thread returned ok clients = some (.goto .unlock, clients')) :
    clients'.linked = [] := by
  cases point with
  | lock =>
      rcases Clients.lockThen_cases stepped with ⟨_, _, control, _⟩ | ⟨_, control, _⟩ <;>
        cases control
  | first =>
      cases linked : clients.linked with
      | nil =>
          simp only [Clean.step, linked] at stepped
          cases stepped
          exact linked
      | cons node rest =>
          simp only [Clean.step, linked] at stepped
          cases stepped
  | join node =>
      rcases Clients.join_cases stepped with ⟨_, control, _⟩ | ⟨_, _, control, _⟩ <;> cases control
  | unlock => cases stepped

/-- In `cleanup` nothing else leads there. -/
theorem Cleanup.linked_of_unlock {thread : Thread} {returned : Nat → Bool} {ok : Bool}
    {clients clients' : Clients} {point : Cleanup} {control : Control Cleanup}
    (stepped : point.step thread returned ok clients = some (control, clients'))
    (atUnlock : control.point point = .clean .unlock) : clients'.linked = [] := by
  cases point with
  | start =>
      simp only [Cleanup.step] at stepped
      split at stepped <;> cases stepped <;> cases atUnlock
  | check point =>
      obtain ⟨⟨control, _⟩, _, equal⟩ := Option.map_eq_some_iff.mp stepped
      cases equal
      cases control <;> cases atUnlock
  | clean point =>
      obtain ⟨⟨control, _⟩, cleanStep, equal⟩ := Option.map_eq_some_iff.mp stepped
      cases equal
      cases control with
      | goto next =>
          cases atUnlock
          exact Clean.linked_of_unlock cleanStep
      | done => cases atUnlock
      | crash =>
          cases atUnlock
          cases cleanStep
  | unlink =>
      cases stepped
      cases atUnlock

/-- The nodes an event links. -/
def ListEvent.inserted : ListEvent → List Nat
  | .insert node => [node]
  | .quiet | .remove _ | .mark _ => []

/-- The nodes an event unlinks. -/
def ListEvent.removed : ListEvent → List Nat
  | .remove node => [node]
  | .quiet | .insert _ | .mark _ => []

theorem ListEvent.mem_inserted_iff {event : ListEvent} {node : Nat} :
    node ∈ event.inserted ↔ event = .insert node := by
  cases event <;> simp [ListEvent.inserted, eq_comm]

theorem ListEvent.mem_removed_iff {event : ListEvent} {node : Nat} :
    node ∈ event.removed ↔ event = .remove node := by
  cases event <;> simp [ListEvent.removed, eq_comm]

/-- A node stays in the list until it is removed. -/
theorem Clients.mem_after {clients : Clients} {last : Option Nat} {event : ListEvent} {node : Nat}
    (member : node ∈ clients.linked) (kept : node ∉ event.removed) :
    node ∈ (clients.after last event).linked := by
  cases event with
  | quiet => exact member
  | insert other => exact Clients.mem_insert_iff.mpr (Or.inl member)
  | remove other =>
      have differs : node ≠ other := by
        rintro rfl
        exact kept List.mem_cons_self
      exact (List.mem_erase_of_ne differs).mpr member
  | mark other =>
      rw [Clients.after, Clients.mark_linked]
      exact member

namespace Process

variable {device : Device δ χ} {process target : Process δ} {label : Label χ} {ok : Bool}
  {effect : MainEffect}

/-- What a step of `main` from the point `pc` to `pc'` does to `last`, and what it
comes from. -/
structure LastStep (pc pc' : MainPc) (last last' : Option Nat) (clients' : Clients) : Prop where
  last_eq : last' = last ∨ ∃ node, pc = .unlockInsert node ∧ last' = some node
  inLoop : pc'.inLoop = true → pc.inLoop = true
  inserted : ∀ node, pc' = .unlockInsert node → pc = .insert node
  cleaned : pc' = .cleanup (.clean .unlock) → clients'.linked = []

/-- A step that keeps `last`, and neither links a node nor ends `clean_threads`. -/
theorem LastStep.keeps {pc pc' : MainPc} {last : Option Nat} {clients' : Clients}
    (inLoop : pc'.inLoop = true → pc.inLoop = true) (outside : pc'.listUse.inSection = false) :
    LastStep pc pc' last last clients' where
  last_eq := Or.inl rfl
  inLoop := inLoop
  inserted node atUnlock := by
    rw [atUnlock] at outside
    contradiction
  cleaned atUnlock := by
    rw [atUnlock] at outside
    contradiction

theorem MainMove.lastStep {pc : MainPc} (move : MainMove process ok pc effect) :
    LastStep pc (effect.control.point pc) process.last effect.last effect.clients := by
  cases move with
  | run => exact LastStep.keeps (fun _ => rfl) rfl
  | stop from' => exact LastStep.keeps (fun inLoop => by contradiction) rfl
  | retry => exact LastStep.keeps (fun _ => rfl) rfl
  | create => exact LastStep.keeps (fun _ => rfl) rfl
  | allocate index _ => exact LastStep.keeps (fun _ => rfl) rfl
  | abandon index _ atExit =>
      refine LastStep.keeps (fun _ => ?_) rfl
      rcases atExit with rfl | rfl <;> rfl
  | lock index _ free =>
      exact ⟨Or.inl rfl, fun _ => rfl, fun node atUnlock => by contradiction,
        fun atUnlock => by contradiction⟩
  | insert index =>
      refine ⟨Or.inl rfl, fun _ => rfl, ?_, fun atUnlock => by contradiction⟩
      intro node atUnlock
      cases atUnlock
      rfl
  | unlock index =>
      exact ⟨Or.inr ⟨index, rfl, rfl⟩, fun _ => rfl, fun node atUnlock => by contradiction,
        fun atUnlock => by contradiction⟩
  | unlockFails index => exact LastStep.keeps (fun _ => rfl) rfl
  | check checkStep =>
      rename_i point control clients
      refine ⟨Or.inl rfl, fun _ => rfl, fun node atUnlock => ?_, fun atUnlock => ?_⟩ <;>
        cases control <;> contradiction
  | cleanup cleanupStep =>
      rename_i point control clients
      refine ⟨Or.inl rfl, fun inLoop => ?_, fun node atUnlock => ?_, fun atUnlock => ?_⟩
      · cases control <;> contradiction
      · cases control <;> contradiction
      · apply Cleanup.linked_of_unlock cleanupStep
        cases control <;> cases atUnlock <;> rfl

theorem event_of_main (takes : label.thread = some .main) :
    process.event label = process.main.event label.ok := by
  cases label with
  | main ok => rfl
  | _ => cases takes

theorem lastStep_of_main (stepped : Process.step device label process = some target)
    (takes : label.thread = some .main) :
    LastStep process.main target.main process.last target.last target.clients := by
  rcases step_cases stepped with
    ⟨rfl, rfl⟩ | ⟨ok, effect, rfl, made, rfl⟩ | ⟨index, outcomes, effect, rfl, _, made, rfl⟩
  · cases takes
  · exact (mainMove made).lastStep
  · cases takes

/-- While `main` is inside its section, the other threads leave the list alone. -/
theorem Orderly.linked_of_inSection (orderly : process.Orderly)
    (stepped : Process.step device label process = some target)
    (inside : process.InListSection .main) (other : label.thread ≠ some .main) :
    target.clients.linked = process.clients.linked := by
  have quiet := Process.event_of_inListSection orderly.guarded inside other
  rw [(Process.happens stepped).linked, quiet]
  rfl

/-- Nothing is linked when `main` is done with `clean_threads`. -/
theorem Orderly.cleaned_step (orderly : process.Orderly)
    (stepped : Process.step device label process = some target)
    (cleaned : process.main = .cleanup (.clean .unlock) → process.clients.linked = [])
    (atPoint : target.main = .cleanup (.clean .unlock)) : target.clients.linked = [] := by
  by_cases takes : label.thread = some .main
  · exact (Process.lastStep_of_main stepped takes).cleaned atPoint
  · have before : process.main = .cleanup (.clean .unlock) :=
      (Process.main_of_ne stepped takes).1 ▸ atPoint
    have inside : process.InListSection .main := by
      rw [Process.InListSection, Process.listUse, before]
      rfl
    rw [orderly.linked_of_inSection stepped inside takes]
    exact cleaned before

/-- Nothing happens to a handler that has returned. -/
theorem returned_of_returned (stepped : Process.step device label process = some target)
    {index : Nat} (returned : process.returned index = true) : target.returned index = true := by
  rcases step_cases stepped with
    ⟨rfl, rfl⟩ | ⟨ok, effect, rfl, made, rfl⟩ | ⟨other, outcomes, effect, rfl, _, made, rfl⟩
  · exact returned
  · exact returned
  · have differs : index ≠ other := by
      rintro rfl
      unfold Process.returned at returned
      cases pc : (process.handlers index).pc with
      | returned =>
          rw [pc] at made
          cases made
      | _ =>
          rw [pc] at returned
          contradiction
    rwa [Process.returned, process.applyHandler_of_ne other effect differs]

end Process

/-! ## Inserted and removed nodes -/

/-- The process with the nodes that have been inserted and removed so far. -/
structure Roster (δ : Type) where
  process : Process δ
  inserted : List Nat
  removed : List Nat

namespace Roster

/-- Nothing has been inserted when `main` reaches the accept loop. -/
def start (device : δ) : Roster δ :=
  ⟨Process.start device, [], []⟩

/-- What is recorded of a step of the process. -/
def record (roster : Roster δ) (label : Label χ) (process : Process δ) : Roster δ where
  process := process
  inserted := roster.inserted ++ (roster.process.event label).inserted
  removed := roster.removed ++ (roster.process.event label).removed

/-- One step of the process. -/
def step (device : Device δ χ) : Step (Label χ) (Roster δ) := fun label roster =>
  (Process.step device label roster.process).map (roster.record label)

/-- While `main` is in the accept loop, the step does not reap the node `last` points
to. -/
def KeepsLast (roster : Roster δ) (label : Label χ) : Prop :=
  ∀ node ∈ (roster.process.event label).removed, roster.process.main.inLoop = true →
    roster.process.last ≠ some node

instance (roster : Roster δ) (label : Label χ) : Decidable (roster.KeepsLast label) :=
  List.decidableBAll _ _

/-- What holds in every state of a run that does not reap the last node. -/
structure Sound (roster : Roster δ) : Prop where
  orderly : roster.process.Orderly
  last_linked : roster.process.main.inLoop = true → ∀ node, roster.process.last = some node →
    node ∈ roster.process.clients.linked
  linked : ∀ node ∈ roster.inserted, node ∉ roster.removed → node ∈ roster.process.clients.linked
  joined : ∀ node ∈ roster.removed, roster.process.returned node = true
  atUnlock : ∀ node, roster.process.main = .unlockInsert node →
    node ∈ roster.process.clients.linked
  cleaned : roster.process.main = .cleanup (.clean .unlock) → roster.process.clients.linked = []

theorem sound_start (device : δ) : (start device).Sound where
  orderly := Process.orderly_start device
  last_linked inLoop node points := by contradiction
  linked node member := by contradiction
  joined node member := by contradiction
  atUnlock node atPoint := by contradiction
  cleaned atPoint := by contradiction

section Step

variable {device : Device δ χ} {roster : Roster δ} {label : Label χ} {process : Process δ}
  {node : Nat}

/-- A linked node that is not reaped stays linked. -/
theorem linked_of_linked (stepped : Process.step device label roster.process = some process)
    (member : node ∈ roster.process.clients.linked)
    (kept : node ∉ (roster.process.event label).removed) : node ∈ process.clients.linked := by
  rw [(Process.happens stepped).linked]
  exact Clients.mem_after member kept

/-- The node `main` inserts is linked, since it is put behind a node that is. -/
theorem Sound.linked_of_insert (sound : roster.Sound)
    (stepped : Process.step device label roster.process = some process)
    (inserts : roster.process.event label = .insert node) : node ∈ process.clients.linked := by
  have inLoop : roster.process.main.inLoop = true := by
    rw [(Process.main_of_insert inserts).2]
    rfl
  rw [(Process.happens stepped).linked, inserts]
  exact Clients.mem_insert_iff.mpr (Or.inr ⟨rfl, sound.last_linked inLoop⟩)

theorem Sound.next (sound : roster.Sound) (keepsLast : roster.KeepsLast label)
    (stepped : Process.step device label roster.process = some process) :
    (roster.record label process).Sound := by
  constructor
  case orderly => exact sound.orderly.next stepped
  case last_linked =>
    intro inLoop node points
    have stays (before : roster.process.main.inLoop = true)
        (same : roster.process.last = some node) : node ∈ process.clients.linked :=
      linked_of_linked stepped (sound.last_linked before node same)
        fun removed => keepsLast node removed before same
    by_cases takes : label.thread = some .main
    · have main := Process.lastStep_of_main stepped takes
      rcases main.last_eq with sameLast | ⟨unlocked, atUnlock, isUnlocked⟩
      · exact stays (main.inLoop inLoop) (sameLast ▸ points)
      · rw [record, isUnlocked] at points
        cases points
        apply linked_of_linked stepped (sound.atUnlock node atUnlock)
        rw [Process.event_of_main takes, atUnlock]
        exact List.not_mem_nil
    · obtain ⟨sameMain, sameLast⟩ := Process.main_of_ne stepped takes
      exact stays (sameMain ▸ inLoop) (sameLast ▸ points)
  case linked =>
    intro node member kept
    rcases List.mem_append.mp member with old | inserted
    · apply linked_of_linked stepped
      · exact sound.linked node old fun removed => kept (List.mem_append_left _ removed)
      · exact fun removed => kept (List.mem_append_right _ removed)
    · exact sound.linked_of_insert stepped (ListEvent.mem_inserted_iff.mp inserted)
  case joined =>
    intro node member
    apply Process.returned_of_returned stepped
    rcases List.mem_append.mp member with old | removed
    · exact sound.joined node old
    · exact (Process.happens stepped).joined node (ListEvent.mem_removed_iff.mp removed)
  case atUnlock =>
    intro node atPoint
    by_cases takes : label.thread = some .main
    · apply sound.linked_of_insert stepped
      rw [Process.event_of_main takes,
        (Process.lastStep_of_main stepped takes).inserted node atPoint]
      rfl
    · have before : roster.process.main = .unlockInsert node :=
        (Process.main_of_ne stepped takes).1 ▸ atPoint
      have inside : roster.process.InListSection .main := by
        rw [Process.InListSection, Process.listUse, before]
        rfl
      rw [record, sound.orderly.linked_of_inSection stepped inside takes]
      exact sound.atUnlock node before
  case cleaned => exact sound.orderly.cleaned_step stepped sound.cleaned

end Step

/-- No node is lost. -/
structure LosesNone (roster : Roster δ) : Prop where
  /-- In the accept loop `last` is null or points to a linked node. -/
  last_linked : roster.process.main.inLoop = true → ∀ node, roster.process.last = some node →
    node ∈ roster.process.clients.linked
  /-- A node that has been inserted is linked until it is reaped. -/
  linked : ∀ node ∈ roster.inserted, node ∉ roster.removed → node ∈ roster.process.clients.linked
  /-- The handler of a reaped node has been joined. -/
  joined : ∀ node ∈ roster.removed, roster.process.returned node = true
  /-- When `main` is done with `clean_threads`, all of them have been. -/
  all_removed : roster.process.main = .cleanup (.clean .unlock) → ∀ node ∈ roster.inserted,
    node ∈ roster.removed

theorem Sound.losesNone {roster : Roster δ} (sound : roster.Sound) : roster.LosesNone where
  last_linked := sound.last_linked
  linked := sound.linked
  joined := sound.joined
  all_removed atUnlock node inserted := by
    by_contra kept
    have linked := sound.linked node inserted kept
    rw [sound.cleaned atUnlock] at linked
    contradiction

end Roster

/-- In every state of a run in which the node `last` points to is not reaped inside
the accept loop, no node is lost. -/
theorem main_losesNone (device : Device δ χ) (initial : δ) {labels : List (Label χ)}
    {roster : Roster δ}
    (run : Run (Roster.step device) Roster.KeepsLast (Roster.start initial) labels roster) :
    roster.LosesNone := by
  have sound : roster.Sound := by
    apply run.invariant (fun _ roster => roster.Sound) (Roster.sound_start initial)
    intro _ middle label target sound keepsLast stepped
    obtain ⟨process, made, rfl⟩ := Option.map_eq_some_iff.mp stepped
    exact sound.next keepsLast made
  exact sound.losesNone

/-- `main` links a node, its handler returns, and `main` goes on for `steps` steps. -/
def reapsLast (steps : Nat) : List (Label DriverOutcomes) :=
  List.replicate 6 (.main true) ++
    List.replicate 14 (.handler 0 (Outcomes.success [97, 10])) ++
    List.replicate steps (.main true)

/-- `main` links a second node before the handler of the first one returns, and reaps
the first. -/
def reapsFirst : List (Label DriverOutcomes) :=
  List.replicate 16 (.main true) ++
    List.replicate 14 (.handler 0 (Outcomes.success [97, 10])) ++
    List.replicate 6 (.main true)

/-- The second node stays. -/
theorem main_losesNone_two_clients :
    ∃ roster,
      exec (Roster.step aesdchar) reapsFirst (Roster.start aesdInitModule) = some roster ∧
        roster.inserted = [0, 1] ∧ roster.removed = [0] ∧ roster.process.clients.linked = [1] ∧
        roster.LosesNone := by
  have run : Run (Roster.step aesdchar) Roster.KeepsLast (Roster.start aesdInitModule)
      reapsFirst _ :=
    run_iff_exec_admitted.mpr rfl
  exact ⟨_, run.exec_eq_some, rfl, rfl, rfl, main_losesNone aesdchar aesdInitModule run⟩

/-- When the only node has been reaped, `last` still points to it, and the next node
is lost. -/
theorem main_loses_node :
    (∃ roster,
      exec (Roster.step aesdchar) (reapsLast 5) (Roster.start aesdInitModule) = some roster ∧
        roster.process.last = some 0 ∧ roster.process.clients.linked = [] ∧
        ¬ roster.LosesNone) ∧
      ∃ roster,
        exec (Roster.step aesdchar) (reapsLast 11) (Roster.start aesdInitModule) = some roster ∧
          roster.inserted = [0, 1] ∧ roster.removed = [0] ∧ roster.process.clients.linked = [] ∧
          ¬ roster.LosesNone := by
  constructor
  · refine ⟨_, rfl, rfl, rfl, ?_⟩
    intro losesNone
    exact absurd (losesNone.last_linked rfl 0 rfl) List.not_mem_nil
  · refine ⟨_, rfl, rfl, rfl, rfl, ?_⟩
    intro losesNone
    exact absurd (losesNone.linked 1 (by decide) (by decide)) List.not_mem_nil

end Aesd.Server
