import Aesd.Server.Shutdown

/-!
# Changes of the list of client threads

Only four things happen to the list: `main` links the node of the newest handler,
a thread in one of the two loops unlinks the node of a handler it has joined, a
handler marks a node, or nothing.  All changes happen inside the sections of
`linked_list_mutex`, and a node that has not been linked yet is unmarked.
-/

namespace Aesd.Server

open Aesd.Driver
open Aesd.Mutex
open Aesd.Transition

variable {δ χ : Type}

/-! ## Events -/

/-- What a step does to the list. -/
inductive ListEvent
  | quiet
  | insert (node : Nat)
  | remove (node : Nat)
  | mark (node : Nat)
  deriving DecidableEq

/-- The list after an event, when `main` remembers `last`. -/
def Clients.after (clients : Clients) (last : Option Nat) : ListEvent → Clients
  | .quiet => clients
  | .insert node => clients.insert last node
  | .remove node => clients.remove node
  | .mark node => clients.mark node

def Check.event (ok : Bool) : Check → ListEvent
  | .join node _ => if ok then .remove node else .quiet
  | .lock | .visit _ | .unlock => .quiet

def Clean.event (ok : Bool) : Clean → ListEvent
  | .join node => if ok then .remove node else .quiet
  | .lock | .first | .unlock => .quiet

def Cleanup.event (ok : Bool) : Cleanup → ListEvent
  | .check point => point.event ok
  | .clean point => point.event ok
  | .start | .unlink => .quiet

def SetComplete.event (node : Nat) : SetComplete → ListEvent
  | .mark => .mark node
  | .lock | .unlock => .quiet

def Pc.event (outcomes : Outcomes χ) : Pc → ListEvent
  | .cleanup point => point.event outcomes.ok
  | .setComplete point => point.event outcomes.clientThreadNode
  | _ => .quiet

def MainPc.event (ok : Bool) : MainPc → ListEvent
  | .insert index => .insert index
  | .check point => point.event ok
  | .cleanup point => point.event ok
  | .loop | .accept | .addNode _ | .lockInsert _ | .unlockInsert _ => .quiet

/-- What the step with the given label does to the list. -/
def Process.event (process : Process δ) : Label χ → ListEvent
  | .signal => .quiet
  | .main ok => process.main.event ok
  | .handler index outcomes => (process.handlers index).pc.event outcomes

/-- Whether the library call of the step succeeds. -/
def Label.ok : Label χ → Bool
  | .signal => true
  | .main ok => ok
  | .handler _ outcomes => outcomes.ok

/-- The list has changed as the event says, and a node was unlinked after a join
only. -/
structure Happens (event : ListEvent) (last : Option Nat) (returned : Nat → Bool)
    (clients clients' : Clients) : Prop where
  linked : clients'.linked = (clients.after last event).linked
  threadCompleteSuccess :
    clients'.threadCompleteSuccess = (clients.after last event).threadCompleteSuccess
  joined : ∀ node, event = .remove node → returned node = true

section Happens

variable {last : Option Nat} {returned : Nat → Bool} {clients clients' : Clients} {thread : Thread}
  {ok : Bool}

/-- The mutex is not part of the list. -/
theorem Happens.quiet (linked : clients'.linked = clients.linked)
    (same : clients'.threadCompleteSuccess = clients.threadCompleteSuccess) :
    Happens .quiet last returned clients clients' where
  linked := linked
  threadCompleteSuccess := same
  joined node removed := by contradiction

theorem Happens.of_lockThen {γ : Type} {success failure control : Control γ}
    (called : clients.lockThen thread ok success failure = some (control, clients')) :
    Happens .quiet last returned clients clients' := by
  rcases Clients.lockThen_cases called with ⟨_, _, _, rfl⟩ | ⟨_, _, rfl⟩ <;>
    exact Happens.quiet rfl rfl

/-- The end of a join: with `ok` false the process ends. -/
theorem Happens.of_join {γ : Type} {node : Nat} {next control : Control γ}
    (stepped : (if ok = false then some (Control.crash, clients)
        else if returned node then some (next, clients.remove node)
        else none) = some (control, clients')) :
    Happens (if ok then .remove node else .quiet) last returned clients clients' := by
  rcases Clients.join_cases stepped with ⟨rfl, _, rfl⟩ | ⟨rfl, hasReturned, _, rfl⟩
  · exact Happens.quiet rfl rfl
  · refine ⟨rfl, rfl, ?_⟩
    intro other removed
    cases removed
    exact hasReturned

theorem Check.happens {point : Check} {control : Control Check}
    (stepped : point.step thread returned ok clients = some (control, clients')) :
    Happens (point.event ok) last returned clients clients' := by
  cases point with
  | lock => exact Happens.of_lockThen stepped
  | visit rest =>
      cases rest with
      | nil =>
          cases stepped
          exact Happens.quiet rfl rfl
      | cons node rest =>
          simp only [Check.step] at stepped
          split at stepped <;> cases stepped <;> exact Happens.quiet rfl rfl
  | join node rest => exact Happens.of_join stepped
  | unlock =>
      cases stepped
      exact Happens.quiet rfl rfl

theorem Clean.happens {point : Clean} {control : Control Clean}
    (stepped : point.step thread returned ok clients = some (control, clients')) :
    Happens (point.event ok) last returned clients clients' := by
  cases point with
  | lock => exact Happens.of_lockThen stepped
  | first =>
      simp only [Clean.step] at stepped
      split at stepped <;> cases stepped <;> exact Happens.quiet rfl rfl
  | join node => exact Happens.of_join stepped
  | unlock =>
      cases stepped
      exact Happens.quiet rfl rfl

theorem Cleanup.happens {point : Cleanup} {control : Control Cleanup}
    (stepped : point.step thread returned ok clients = some (control, clients')) :
    Happens (point.event ok) last returned clients clients' := by
  cases point with
  | start =>
      simp only [Cleanup.step] at stepped
      split at stepped <;> cases stepped <;> exact Happens.quiet rfl rfl
  | check point =>
      obtain ⟨⟨control, _⟩, checkStep, equal⟩ := Option.map_eq_some_iff.mp stepped
      cases equal
      exact Check.happens checkStep
  | clean point =>
      obtain ⟨⟨control, _⟩, cleanStep, equal⟩ := Option.map_eq_some_iff.mp stepped
      cases equal
      exact Clean.happens cleanStep
  | unlink =>
      cases stepped
      exact Happens.quiet rfl rfl

theorem SetComplete.happens {point : SetComplete} {control : Control SetComplete} {node : Nat}
    (stepped : point.step thread node ok clients = some (control, clients')) :
    Happens (point.event node) last returned clients clients' := by
  cases point with
  | lock => exact Happens.of_lockThen stepped
  | mark =>
      cases stepped
      exact ⟨rfl, rfl, fun other removed => by contradiction⟩
  | unlock =>
      cases stepped
      exact Happens.quiet rfl rfl

end Happens

theorem Pc.happens {device : Device δ χ} {index : Nat} {returned : Nat → Bool}
    {outcomes : Outcomes χ} {file : DeviceFile δ} {clients : Clients} {pc : Pc} {effect : Effect δ}
    {last : Option Nat}
    (stepped : pc.step device index returned outcomes file clients = some effect) :
    Happens (pc.event outcomes) last returned clients effect.clients := by
  cases uses : pc.usesList with
  | false =>
      obtain ⟨same, _, _⟩ := Pc.step_plain uses stepped
      rw [same]
      cases pc with
      | cleanup point => contradiction
      | setComplete point => contradiction
      | _ => exact Happens.quiet rfl rfl
  | true =>
      cases pc with
      | cleanup point =>
          obtain ⟨⟨control, clients'⟩, cleanupStep, rfl⟩ := Option.map_eq_some_iff.mp stepped
          exact Cleanup.happens cleanupStep
      | setComplete point =>
          obtain ⟨⟨control, clients'⟩, completeStep, rfl⟩ := Option.map_eq_some_iff.mp stepped
          exact SetComplete.happens completeStep
      | _ => contradiction

namespace Process

variable {device : Device δ χ} {process target : Process δ} {label : Label χ} {ok : Bool}
  {effect : MainEffect}

theorem MainMove.happens {pc : MainPc} (move : MainMove process ok pc effect) :
    Happens (pc.event ok) process.last process.returned process.clients effect.clients := by
  cases move with
  | run => exact Happens.quiet rfl rfl
  | stop asked => rcases asked with rfl | rfl <;> exact Happens.quiet rfl rfl
  | retry => exact Happens.quiet rfl rfl
  | create => exact Happens.quiet rfl rfl
  | allocate index _ => exact Happens.quiet rfl rfl
  | abandon index _ atExit => rcases atExit with rfl | rfl <;> exact Happens.quiet rfl rfl
  | lock index _ free => exact Happens.quiet rfl rfl
  | insert index => exact ⟨rfl, rfl, fun node removed => by contradiction⟩
  | unlock index => exact Happens.quiet rfl rfl
  | unlockFails index => exact Happens.quiet rfl rfl
  | check checkStep => exact Check.happens checkStep
  | cleanup cleanupStep => exact Cleanup.happens cleanupStep

/-- Every step does to the list what its event says. -/
theorem happens (stepped : Process.step device label process = some target) :
    Happens (process.event label) process.last process.returned process.clients
      target.clients := by
  rcases step_cases stepped with
    ⟨rfl, rfl⟩ | ⟨ok, effect, rfl, made, rfl⟩ | ⟨index, outcomes, effect, rfl, _, made, rfl⟩
  · exact Happens.quiet rfl rfl
  · exact (mainMove made).happens
  · exact Pc.happens made

end Process

/-! ## Sections -/

/-- The loops unlink nodes, and do nothing else. -/
theorem Cleanup.event_cases (point : Cleanup) (ok : Bool) :
    point.event ok = .quiet ∨ ∃ node, point.event ok = .remove node := by
  cases point with
  | check point =>
      cases point with
      | join node rest => cases ok <;> simp [Cleanup.event, Check.event]
      | _ => exact Or.inl rfl
  | clean point =>
      cases point with
      | join node => cases ok <;> simp [Cleanup.event, Clean.event]
      | _ => exact Or.inl rfl
  | _ => exact Or.inl rfl

theorem Cleanup.event_ne_insert (point : Cleanup) (ok : Bool) (node : Nat) :
    point.event ok ≠ .insert node := by
  rcases point.event_cases ok with quiet | ⟨_, removes⟩
  · simp [quiet]
  · simp [removes]

theorem Cleanup.event_ne_mark (point : Cleanup) (ok : Bool) (node : Nat) :
    point.event ok ≠ .mark node := by
  rcases point.event_cases ok with quiet | ⟨_, removes⟩
  · simp [quiet]
  · simp [removes]

/-- The thread is between its lock of `linked_list_mutex` and its unlock. -/
def Process.InListSection (process : Process δ) (thread : Thread) : Prop :=
  (process.listUse thread).inSection = true

theorem Pc.event_ne_insert (pc : Pc) (outcomes : Outcomes χ) (node : Nat) :
    pc.event outcomes ≠ .insert node := by
  cases pc with
  | cleanup point => exact point.event_ne_insert outcomes.ok node
  | setComplete point => cases point <;> simp [Pc.event, SetComplete.event]
  | _ => simp [Pc.event]

/-- Only handlers mark nodes, at the point where they do so. -/
theorem Pc.marks_of_event {pc : Pc} {outcomes : Outcomes χ} {node : Nat}
    (marksNode : pc.event outcomes = .mark node) :
    pc.marks = true ∧ outcomes.clientThreadNode = node := by
  cases pc with
  | cleanup point => exact absurd marksNode (point.event_ne_mark outcomes.ok node)
  | setComplete point =>
      cases point with
      | mark =>
          cases marksNode
          exact ⟨rfl, rfl⟩
      | _ => contradiction
  | _ => contradiction

theorem MainPc.event_ne_mark (pc : MainPc) (ok : Bool) (node : Nat) : pc.event ok ≠ .mark node := by
  cases pc with
  | check point => exact (Cleanup.check point).event_ne_mark ok node
  | cleanup point => exact point.event_ne_mark ok node
  | _ => simp [MainPc.event]

/-- Only `main` links nodes, at the point where it does so. -/
theorem MainPc.eq_insert_of_event {pc : MainPc} {ok : Bool} {node : Nat}
    (inserts : pc.event ok = .insert node) : pc = .insert node := by
  cases pc with
  | insert index =>
      cases inserts
      rfl
  | check point => exact absurd inserts ((Cleanup.check point).event_ne_insert ok node)
  | cleanup point => exact absurd inserts (point.event_ne_insert ok node)
  | _ => contradiction

theorem Process.main_of_insert {process : Process δ} {label : Label χ} {node : Nat}
    (inserts : process.event label = .insert node) :
    label.thread = some .main ∧ process.main = .insert node := by
  cases label with
  | signal => contradiction
  | main ok => exact ⟨rfl, MainPc.eq_insert_of_event inserts⟩
  | handler index outcomes => exact absurd inserts (Pc.event_ne_insert _ outcomes node)

theorem Check.inSection_of_event {point : Check} {ok : Bool} (changes : point.event ok ≠ .quiet) :
    point.listUse.inSection = true := by
  cases point with
  | join node rest => rfl
  | _ => contradiction

theorem Clean.inSection_of_event {point : Clean} {ok : Bool} (changes : point.event ok ≠ .quiet) :
    point.listUse.inSection = true := by
  cases point with
  | join node => rfl
  | _ => contradiction

theorem Cleanup.inSection_of_event {point : Cleanup} {ok : Bool}
    (changes : point.event ok ≠ .quiet) : point.listUse.inSection = true := by
  cases point with
  | check point => exact Check.inSection_of_event changes
  | clean point => exact Clean.inSection_of_event changes
  | _ => contradiction

theorem SetComplete.inSection_of_event {point : SetComplete} {node : Nat}
    (changes : point.event node ≠ .quiet) : point.listUse.inSection = true := by
  cases point with
  | mark => rfl
  | _ => contradiction

theorem Pc.inSection_of_event {pc : Pc} {outcomes : Outcomes χ}
    (changes : pc.event outcomes ≠ .quiet) : pc.listUse.inSection = true := by
  cases pc with
  | cleanup point => exact Cleanup.inSection_of_event changes
  | setComplete point => exact SetComplete.inSection_of_event changes
  | _ => contradiction

theorem MainPc.inSection_of_event {pc : MainPc} {ok : Bool} (changes : pc.event ok ≠ .quiet) :
    pc.listUse.inSection = true := by
  cases pc with
  | insert index => rfl
  | check point => exact Check.inSection_of_event changes
  | cleanup point => exact Cleanup.inSection_of_event changes
  | _ => contradiction

namespace Process

variable {device : Device δ χ} {process target : Process δ} {label : Label χ} {thread : Thread}

/-- The list changes inside the section of the thread that takes the step. -/
theorem inListSection_of_event (changes : process.event label ≠ .quiet) :
    ∃ thread, label.thread = some thread ∧ process.InListSection thread := by
  cases label with
  | signal => contradiction
  | main ok => exact ⟨.main, rfl, MainPc.inSection_of_event changes⟩
  | handler index outcomes => exact ⟨.handler index, rfl, Pc.inSection_of_event changes⟩

/-- `linked_list_mutex` protects the sections. -/
theorem guardedList_step (guarded : Guarded process.clients.mutex process.InListSection)
    (stepped : Process.step device label process = some target) :
    Guarded target.clients.mutex target.InListSection := by
  have others : ∀ other, label.thread ≠ some other → target.InListSection other →
      process.InListSection other := by
    intro other differs inside
    unfold InListSection at inside ⊢
    rwa [← listUse_of_ne stepped differs]
  rcases step_cases stepped with
    ⟨rfl, rfl⟩ | ⟨ok, effect, rfl, made, rfl⟩ | ⟨index, outcomes, effect, rfl, _, made, rfl⟩
  · exact guarded
  · have listStep := (mainMove made).listStep fun _ _ _ _ => trivial
    refine guarded.move .main listStep.move fun other differs => others other ?_
    exact fun same => differs (Option.some.inj same).symm
  · have listStep := Pc.listStep (fun _ _ _ _ => trivial) (fun _ _ => trivial) made
    refine guarded.move (.handler index) ?_ fun other differs => others other ?_
    · unfold InListSection
      simpa only [listUse, applyHandler_self, applyHandler_clients] using listStep.move
    · exact fun same => differs (Option.some.inj same).symm

/-- While a thread is inside its section, the others leave the list alone. -/
theorem event_of_inListSection (guarded : Guarded process.clients.mutex process.InListSection)
    (inside : process.InListSection thread) (differs : label.thread ≠ some thread) :
    process.event label = .quiet := by
  by_contra changes
  obtain ⟨other, takes, otherInside⟩ := inListSection_of_event changes
  rw [guarded.unique inside otherInside] at takes
  exact differs takes

end Process

/-! ## Nodes that have not been linked -/

namespace Clients

variable {clients : Clients} {last : Option Nat} {node other : Nat}

/-- The new node is linked unless it was put behind a node that is not. -/
theorem mem_insert_iff :
    other ∈ (clients.insert last node).linked ↔
      other ∈ clients.linked ∨
        other = node ∧ ∀ before, last = some before → before ∈ clients.linked := by
  cases last with
  | none =>
      simp [insert]
      exact or_comm
  | some before =>
      simp only [insert, List.mem_flatMap, Option.some.injEq, forall_eq']
      constructor
      · rintro ⟨linked, member, inPiece⟩
        split at inPiece
        · rename_i same
          subst linked
          rcases List.mem_pair.mp inPiece with rfl | rfl
          · exact Or.inl member
          · exact Or.inr ⟨rfl, member⟩
        · rw [List.mem_singleton.mp inPiece]
          exact Or.inl member
      · rintro (member | ⟨rfl, member⟩)
        · refine ⟨other, member, ?_⟩
          split <;> simp
        · exact ⟨before, member, by simp⟩

theorem nodup_insert (nodup : clients.linked.Nodup) (fresh : node ∉ clients.linked) :
    (clients.insert last node).linked.Nodup := by
  cases last with
  | none => exact List.nodup_cons.mpr ⟨fresh, nodup⟩
  | some before =>
      simp only [insert]
      rw [List.nodup_flatMap]
      constructor
      · intro linked member
        split
        · have differs : linked ≠ node := fun same => fresh (same ▸ member)
          simp [differs]
        · exact List.nodup_singleton _
      · apply nodup.imp_of_mem
        intro left right leftMem rightMem differs
        have leftNe : left ≠ node := fun same => fresh (same ▸ leftMem)
        have rightNe : right ≠ node := fun same => fresh (same ▸ rightMem)
        intro shared inLeft inRight
        simp only at inLeft inRight
        split at inLeft <;> split at inRight <;>
          simp only [List.mem_cons, List.not_mem_nil, or_false] at inLeft inRight <;> omega

theorem mark_linked : (clients.mark node).linked = clients.linked := by
  unfold mark
  split <;> rfl

theorem insert_threadCompleteSuccess :
    (clients.insert last node).threadCompleteSuccess = clients.threadCompleteSuccess := by
  cases last <;> rfl

theorem mark_threadCompleteSuccess_iff :
    (clients.mark node).threadCompleteSuccess other = true ↔
      clients.threadCompleteSuccess other = true ∨ other = node ∧ node ∈ clients.linked := by
  unfold mark
  by_cases present : node ∈ clients.linked
  · rw [if_pos present]
    by_cases same : other = node
    · simp [same, present]
    · simp [same]
  · simp [present]

end Clients

/-- The node `main` is about to link. -/
def MainPc.creates : MainPc → Option Nat
  | .addNode index | .lockInsert index | .insert index => some index
  | .loop | .accept | .unlockInsert _ | .check _ | .cleanup _ => none

namespace Process

variable {device : Device δ χ} {process target : Process δ} {label : Label χ} {ok : Bool}
  {effect : MainEffect}

/-- The node does not exist yet, or has not been linked yet. -/
def IsNew (process : Process δ) (node : Nat) : Prop :=
  process.created ≤ node ∨ process.main.creates = some node

/-- What holds of the list in every reachable state. -/
structure Orderly (process : Process δ) : Prop where
  guarded : Guarded process.clients.mutex process.InListSection
  nodup : process.clients.linked.Nodup
  creates_lt : ∀ node, process.main.creates = some node → node < process.created
  not_linked : ∀ node, process.IsNew node → node ∉ process.clients.linked
  not_marked : ∀ node, process.IsNew node → process.clients.threadCompleteSuccess node = false

theorem orderly_start (device : δ) : (start device).Orderly where
  guarded thread inside := by cases thread <;> contradiction
  nodup := List.nodup_nil
  creates_lt node creates := by contradiction
  not_linked node _ := List.not_mem_nil
  not_marked node _ := rfl

/-- A step of `main` makes no node new again, and a node it links is not new
afterwards. -/
theorem MainMove.isNew {pc : MainPc} (move : MainMove process ok pc effect)
    (creates_lt : ∀ node, pc.creates = some node → node < process.created) :
    (∀ node, (effect.control.point pc).creates = some node → node < effect.created) ∧
      ∀ node, effect.created ≤ node ∨ (effect.control.point pc).creates = some node →
        (process.created ≤ node ∨ pc.creates = some node) ∧ pc.event ok ≠ .insert node := by
  -- all steps but `create` and `insert`
  have keeps (created : effect.created = process.created)
      (fewer : ∀ node, (effect.control.point pc).creates = some node → pc.creates = some node)
      (noInsert : ∀ node, pc.event ok ≠ .insert node) :
      (∀ node, (effect.control.point pc).creates = some node → node < effect.created) ∧
        ∀ node, effect.created ≤ node ∨ (effect.control.point pc).creates = some node →
          (process.created ≤ node ∨ pc.creates = some node) ∧ pc.event ok ≠ .insert node := by
    rw [created]
    constructor
    · exact fun node creates => creates_lt node (fewer node creates)
    · rintro node (above | creates)
      · exact ⟨Or.inl above, noInsert node⟩
      · exact ⟨Or.inr (fewer node creates), noInsert node⟩
  cases move with
  | run => exact keeps rfl (fun _ creates => by contradiction) fun _ insertion => by contradiction
  | stop asked =>
      apply keeps rfl fun _ creates => by contradiction
      rcases asked with rfl | rfl <;> exact fun _ insertion => by contradiction
  | retry => exact keeps rfl (fun _ creates => by contradiction) fun _ insertion => by contradiction
  | create =>
      constructor
      · intro node creates
        rw [← Option.some.inj creates]
        exact Nat.lt_succ_self _
      · rintro node (above | creates)
        · exact ⟨Or.inl (Nat.le_of_succ_le above), fun insertion => by contradiction⟩
        · rw [← Option.some.inj creates]
          exact ⟨Or.inl (Nat.le_refl _), fun insertion => by contradiction⟩
  | allocate index _ =>
      exact keeps rfl (fun _ creates => creates) fun _ insertion => by contradiction
  | abandon index _ atExit =>
      apply keeps rfl fun _ creates => by contradiction
      rcases atExit with rfl | rfl <;> exact fun _ insertion => by contradiction
  | lock index _ free =>
      exact keeps rfl (fun _ creates => creates) fun _ insertion => by contradiction
  | insert index =>
      have before : index < process.created := creates_lt index rfl
      constructor
      · intro node creates
        contradiction
      · rintro node (above | creates)
        · refine ⟨Or.inl above, ?_⟩
          intro insertion
          cases insertion
          exact absurd before (Nat.not_lt.mpr above)
        · contradiction
  | unlock index =>
      exact keeps rfl (fun _ creates => by contradiction) fun _ insertion => by contradiction
  | unlockFails index =>
      exact keeps rfl (fun _ creates => by contradiction) fun _ insertion => by contradiction
  | check checkStep =>
      rename_i point control clients
      refine keeps rfl ?_ ((Cleanup.check point).event_ne_insert ok)
      cases control <;> exact fun _ creates => by contradiction
  | cleanup cleanupStep =>
      rename_i point control clients
      refine keeps rfl ?_ (point.event_ne_insert ok)
      cases control <;> exact fun _ creates => by contradiction

/-- No step makes a node new again, and a node that is linked is not new afterwards. -/
theorem Orderly.isNew (orderly : process.Orderly)
    (stepped : Process.step device label process = some target) :
    (∀ node, target.main.creates = some node → node < target.created) ∧
      ∀ node, target.IsNew node → process.IsNew node ∧ process.event label ≠ .insert node := by
  rcases step_cases stepped with
    ⟨rfl, rfl⟩ | ⟨ok, effect, rfl, made, rfl⟩ | ⟨index, outcomes, effect, rfl, _, made, rfl⟩
  · exact ⟨orderly.creates_lt, fun node isNew => ⟨isNew, fun inserts => by contradiction⟩⟩
  · exact (mainMove made).isNew orderly.creates_lt
  · exact ⟨orderly.creates_lt, fun node isNew => ⟨isNew, Pc.event_ne_insert _ outcomes node⟩⟩

/-- A node that has been linked once, and is not linked any more, is not linked again. -/
theorem Orderly.not_linked_next (orderly : process.Orderly)
    (stepped : Process.step device label process = some target) {node : Nat}
    (old : ¬ process.IsNew node) (absent : node ∉ process.clients.linked) :
    ¬ target.IsNew node ∧ node ∉ target.clients.linked := by
  refine ⟨fun isNew => old ((orderly.isNew stepped).2 node isNew).1, ?_⟩
  rw [(Process.happens stepped).linked]
  cases event : process.event label with
  | quiet => exact absent
  | insert other =>
      rw [Clients.after, Clients.mem_insert_iff]
      rintro (member | ⟨rfl, _⟩)
      · exact absent member
      · apply old
        refine Or.inr ?_
        rw [(main_of_insert event).2]
        rfl
  | remove other => exact fun member => absent (List.mem_of_mem_erase member)
  | mark other =>
      rw [Clients.after, Clients.mark_linked]
      exact absent

/-- Every step keeps the list in order. -/
theorem Orderly.next (orderly : process.Orderly)
    (stepped : Process.step device label process = some target) : target.Orderly := by
  have happens := Process.happens stepped
  obtain ⟨creates_lt, notNew⟩ := orderly.isNew stepped
  have linkedEq := happens.linked
  have flagEq := happens.threadCompleteSuccess
  constructor
  case guarded => exact guardedList_step orderly.guarded stepped
  case creates_lt => exact creates_lt
  case nodup =>
    rw [linkedEq]
    cases event : process.event label with
    | quiet => exact orderly.nodup
    | insert node =>
        have creates : process.main.creates = some node := by
          rw [(main_of_insert event).2]
          rfl
        exact Clients.nodup_insert orderly.nodup (orderly.not_linked node (Or.inr creates))
    | remove node => exact orderly.nodup.erase node
    | mark node =>
        rw [Clients.after, Clients.mark_linked]
        exact orderly.nodup
  case not_linked =>
    intro node isNew
    obtain ⟨wasNew, notInserted⟩ := notNew node isNew
    have notLinked := orderly.not_linked node wasNew
    rw [linkedEq]
    cases event : process.event label with
    | quiet => exact notLinked
    | insert other =>
        rw [Clients.after, Clients.mem_insert_iff]
        rintro (member | ⟨rfl, _⟩)
        · exact notLinked member
        · exact notInserted event
    | remove other => exact fun member => notLinked (List.mem_of_mem_erase member)
    | mark other =>
        rw [Clients.after, Clients.mark_linked]
        exact notLinked
  case not_marked =>
    intro node isNew
    obtain ⟨wasNew, _⟩ := notNew node isNew
    have notMarked := orderly.not_marked node wasNew
    rw [flagEq]
    cases event : process.event label with
    | quiet => exact notMarked
    | insert other =>
        rw [Clients.after, Clients.insert_threadCompleteSuccess]
        exact notMarked
    | remove other => exact notMarked
    | mark other =>
        rw [← Bool.not_eq_true] at notMarked ⊢
        rw [Clients.after, Clients.mark_threadCompleteSuccess_iff]
        rintro (marked | ⟨rfl, linked⟩)
        · exact notMarked marked
        · exact orderly.not_linked _ wasNew linked

end Process

end Aesd.Server
