import Aesd.Server.ListEvents

/-!
# Completion flags

`check_completed_threads` reaps the nodes whose flag `thread_complete_success` is
set, and trusts that the flag is set exactly when the handler has performed its
final call of `set_thread_complete_success`.  The handler finds its node through
`client_thread_node`, which is never assigned, and may be done before `main` has
linked the node.  The flags are right as long as chance makes up for both.
-/

namespace Aesd.Server

open Aesd.Driver
open Aesd.Mutex
open Aesd.Transition

variable {δ χ : Type}

/-! ## The final call -/

/-- The handler has searched the list for its node, or failed to lock it. -/
def Pc.hasMarked : Pc → Bool
  | .setComplete .unlock | .returned => true
  | _ => false

/-- The handler is about to lock the list for its final call. -/
def Pc.beginsFinalCall : Pc → Bool
  | .setComplete .lock => true
  | _ => false

theorem Pc.hasMarked_of_hasReturned {pc : Pc} (hasReturned : pc.hasReturned = true) :
    pc.hasMarked = true := by
  cases pc with
  | returned => rfl
  | _ => contradiction

/-- Between the mark and the return lies the unlock. -/
theorem Pc.hasReturned_of_hasMarked {pc : Pc} (marked : pc.hasMarked = true) :
    pc.hasReturned = true ∨ pc = .setComplete .unlock := by
  cases pc with
  | setComplete point =>
      cases point with
      | unlock => exact Or.inr rfl
      | _ => contradiction
  | returned => exact Or.inl rfl
  | _ => contradiction

theorem Pc.not_hasMarked_of_not_pastListLock {pc : Pc} (before : pc.pastListLock = false) :
    pc.hasMarked = false := by
  cases pc with
  | setComplete point =>
      cases point with
      | unlock => contradiction
      | _ => rfl
  | returned => contradiction
  | _ => rfl

/-- A handler has performed the call after the mark and after a failed lock. -/
theorem Pc.hasMarked_step {device : Device δ χ} {index : Nat} {returned : Nat → Bool}
    {outcomes : Outcomes χ} {file : DeviceFile δ} {clients : Clients} {pc : Pc} {effect : Effect δ}
    (stepped : pc.step device index returned outcomes file clients = some effect) :
    (effect.control.point pc).hasMarked = true ↔
      pc.hasMarked = true ∨ pc.marks = true ∨
        pc.beginsFinalCall = true ∧ outcomes.ok = false := by
  cases uses : pc.usesList with
  | false =>
      obtain ⟨_, _, before⟩ := Pc.step_plain uses stepped
      have after := Pc.not_hasMarked_of_not_pastListLock before
      rw [after]
      cases pc with
      | returned => contradiction
      | cleanup point => contradiction
      | setComplete point => contradiction
      | _ => simp [Pc.hasMarked, Pc.marks, Pc.beginsFinalCall]
  | true =>
      cases pc with
      | cleanup point =>
          obtain ⟨⟨control, clients'⟩, _, rfl⟩ := Option.map_eq_some_iff.mp stepped
          cases control <;> simp [Pc.hasMarked, Pc.marks, Pc.beginsFinalCall, Control.point]
      | setComplete point =>
          obtain ⟨⟨control, clients'⟩, called, rfl⟩ := Option.map_eq_some_iff.mp stepped
          cases point with
          | lock =>
              rcases Clients.lockThen_cases called with ⟨obtained, _, rfl, _⟩ | ⟨failed, rfl, _⟩
              · simp [Pc.hasMarked, Pc.marks, Pc.beginsFinalCall, obtained]
              · simp [Pc.hasMarked, Pc.marks, Pc.beginsFinalCall, failed]
          | mark =>
              cases called
              simp [Pc.hasMarked, Pc.marks]
          | unlock =>
              cases called
              simp [Pc.hasMarked]
      | _ => contradiction

/-! ## Sweeps -/

/-- What `check_completed_threads` has done so far: `Marked` are the handlers that
have performed their final call. -/
def Check.Sweeps (Marked : Nat → Prop) (linked : List Nat) : Check → Prop
  | .lock => True
  | .visit rest => rest.Nodup ∧ rest ⊆ linked ∧ ∀ node ∈ linked, Marked node → node ∈ rest
  | .join node rest =>
      (node :: rest).Nodup ∧ node :: rest ⊆ linked ∧ Marked node ∧
        ∀ other ∈ linked, Marked other → other ∈ node :: rest
  | .unlock => ∀ node ∈ linked, ¬ Marked node

section Sweeps

variable {Marked Marked' : Nat → Prop} {linked : List Nat} {point : Check}

/-- Only the handlers of linked nodes matter. -/
theorem Check.Sweeps.congr (sweeps : point.Sweeps Marked linked)
    (same : ∀ node ∈ linked, (Marked' node ↔ Marked node)) : point.Sweeps Marked' linked := by
  cases point with
  | lock => trivial
  | visit rest =>
      obtain ⟨nodup, subset, all⟩ := sweeps
      exact ⟨nodup, subset,
        fun node member marked => all node member ((same node member).mp marked)⟩
  | join node rest =>
      obtain ⟨nodup, subset, marked, all⟩ := sweeps
      refine ⟨nodup, subset, (same node (subset List.mem_cons_self)).mpr marked, ?_⟩
      exact fun other member otherMarked => all other member ((same other member).mp otherMarked)
  | unlock => exact fun node member marked => sweeps node member ((same node member).mp marked)

/-- One step of the loop, when the flags of the linked nodes are right. -/
theorem Check.Sweeps.next {thread : Thread} {returned : Nat → Bool} {ok : Bool}
    {clients clients' : Clients} {next : Check} (sweeps : point.Sweeps Marked clients.linked)
    (nodup : clients.linked.Nodup)
    (flags : ∀ node ∈ clients.linked, clients.threadCompleteSuccess node = true ↔ Marked node)
    (stepped : point.step thread returned ok clients = some (.goto next, clients')) :
    next.Sweeps Marked clients'.linked := by
  cases point with
  | lock =>
      rcases Clients.lockThen_cases stepped with ⟨_, _, control, rfl⟩ | ⟨_, control, _⟩
      · cases control
        exact ⟨nodup, List.Subset.refl _, fun node member _ => member⟩
      · contradiction
  | visit rest =>
      obtain ⟨restNodup, subset, all⟩ := sweeps
      cases rest with
      | nil =>
          cases stepped
          exact fun node member marked => absurd (all node member marked) List.not_mem_nil
      | cons node rest =>
          have flag := flags node (subset List.mem_cons_self)
          simp only [Check.step] at stepped
          split at stepped
          · rename_i isSet
            cases stepped
            exact ⟨restNodup, subset, flag.mp isSet, all⟩
          · rename_i notSet
            cases stepped
            refine ⟨(List.nodup_cons.mp restNodup).2,
              fun other member => subset (List.mem_cons_of_mem _ member), ?_⟩
            intro other member marked
            rcases List.mem_cons.mp (all other member marked) with rfl | later
            · exact absurd (flag.mpr marked) notSet
            · exact later
  | join node rest =>
      obtain ⟨allNodup, subset, _, all⟩ := sweeps
      obtain ⟨notLater, restNodup⟩ := List.nodup_cons.mp allNodup
      rcases Clients.join_cases stepped with ⟨_, control, _⟩ | ⟨_, _, control, rfl⟩
      · contradiction
      · cases control
        refine ⟨restNodup, ?_, ?_⟩
        · intro other member
          have differs : other ≠ node := fun same => notLater (same ▸ member)
          exact (List.mem_erase_of_ne differs).mpr (subset (List.mem_cons_of_mem _ member))
        · intro other member marked
          obtain ⟨differs, wasLinked⟩ := nodup.mem_erase_iff.mp member
          exact List.mem_of_ne_of_mem differs (all other wasLinked marked)
  | unlock => cases stepped

end Sweeps

/-! ## Threads that sweep -/

/-- Where a thread is in `check_completed_threads`. -/
def Cleanup.checkPoint : Cleanup → Option Check
  | .check point => some point
  | .start | .clean _ | .unlink => none

def Pc.checkPoint : Pc → Option Check
  | .cleanup point => point.checkPoint
  | _ => none

def MainPc.checkPoint : MainPc → Option Check
  | .check point => some point
  | .cleanup point => point.checkPoint
  | _ => none

def Process.checkPoint (process : Process δ) : Thread → Option Check
  | .main => process.main.checkPoint
  | .handler index => (process.handlers index).pc.checkPoint

theorem Cleanup.eq_check_of_checkPoint {point : Cleanup} {check : Check}
    (checks : point.checkPoint = some check) : point = .check check := by
  cases point with
  | check point =>
      cases checks
      rfl
  | _ => contradiction

theorem Pc.eq_check_of_checkPoint {pc : Pc} {check : Check} (checks : pc.checkPoint = some check) :
    pc = .cleanup (.check check) := by
  cases pc with
  | cleanup point => rw [Cleanup.eq_check_of_checkPoint checks]
  | _ => contradiction

theorem MainPc.listUse_of_checkPoint {pc : MainPc} {check : Check}
    (checks : pc.checkPoint = some check) : pc.listUse = check.listUse := by
  cases pc with
  | check point =>
      cases checks
      rfl
  | cleanup point =>
      rw [Cleanup.eq_check_of_checkPoint checks]
      rfl
  | _ => contradiction

theorem Process.listUse_of_checkPoint {process : Process δ} {thread : Thread} {check : Check}
    (checks : process.checkPoint thread = some check) :
    process.listUse thread = check.listUse := by
  cases thread with
  | main => exact MainPc.listUse_of_checkPoint checks
  | handler index =>
      rw [Process.listUse, Pc.eq_check_of_checkPoint checks]
      rfl

theorem Check.eq_lock_of_listUse {point : Check} (outside : point.listUse = .outside) :
    point = .lock := by
  cases point with
  | lock => rfl
  | _ => contradiction

/-- How a thread gets to a point of `check_completed_threads`: it enters the function,
goes on in it, or stays where it is when the process ends. -/
def Check.ComesFrom (thread : Thread) (returned : Nat → Bool) (ok : Bool)
    (clients clients' : Clients) (before : Option Check) (point : Check) : Prop :=
  point = .lock ∨
    (∃ previous, before = some previous ∧
      previous.step thread returned ok clients = some (.goto point, clients')) ∨
    before = some point ∧ point.event ok = .quiet

section ComesFrom

variable {thread : Thread} {returned : Nat → Bool} {ok : Bool} {clients clients' : Clients}
  {check : Check}

theorem Check.event_of_crash {point : Check}
    (stepped : point.step thread returned ok clients = some (.crash, clients')) :
    point.event ok = .quiet := by
  cases point with
  | join node rest =>
      rcases Clients.join_cases stepped with ⟨rfl, _, _⟩ | ⟨_, _, control, _⟩
      · rfl
      · contradiction
  | _ => rfl

theorem Check.comesFrom {point : Check} {control : Control Check}
    (stepped : point.step thread returned ok clients = some (control, clients'))
    (goesOn : control = .goto check ∨ control = .crash ∧ point = check) :
    check.ComesFrom thread returned ok clients clients' (some point) := by
  rcases goesOn with rfl | ⟨rfl, rfl⟩
  · exact Or.inr (Or.inl ⟨point, rfl, stepped⟩)
  · exact Or.inr (Or.inr ⟨rfl, Check.event_of_crash stepped⟩)

theorem Cleanup.comesFrom {point : Cleanup} {control : Control Cleanup}
    (stepped : point.step thread returned ok clients = some (control, clients'))
    (goesOn : (control.point point).checkPoint = some check) :
    check.ComesFrom thread returned ok clients clients' point.checkPoint := by
  cases point with
  | start =>
      simp only [Cleanup.step] at stepped
      split at stepped <;> cases stepped <;> cases goesOn
      exact Or.inl rfl
  | check point =>
      obtain ⟨⟨control, _⟩, checkStep, equal⟩ := Option.map_eq_some_iff.mp stepped
      cases equal
      apply Check.comesFrom checkStep
      cases control <;> cases goesOn
      · exact Or.inl rfl
      · exact Or.inr ⟨rfl, rfl⟩
  | clean point =>
      obtain ⟨⟨control, _⟩, _, equal⟩ := Option.map_eq_some_iff.mp stepped
      cases equal
      cases control <;> cases goesOn
  | unlink =>
      cases stepped
      cases goesOn

theorem Pc.comesFrom {device : Device δ χ} {index : Nat} {outcomes : Outcomes χ}
    {file : DeviceFile δ} {pc : Pc} {effect : Effect δ}
    (stepped : pc.step device index returned outcomes file clients = some effect)
    (goesOn : (effect.control.point pc).checkPoint = some check) :
    check.ComesFrom (.handler index) returned outcomes.ok clients effect.clients
      pc.checkPoint := by
  cases uses : pc.usesList with
  | false =>
      obtain ⟨_, outside, _⟩ := Pc.step_plain uses stepped
      rw [Pc.eq_check_of_checkPoint goesOn] at outside
      exact Or.inl (Check.eq_lock_of_listUse outside)
  | true =>
      cases pc with
      | cleanup point =>
          obtain ⟨⟨control, clients'⟩, cleanupStep, rfl⟩ := Option.map_eq_some_iff.mp stepped
          apply Cleanup.comesFrom cleanupStep
          cases control with
          | goto next => exact goesOn
          | done => cases goesOn
          | crash => exact goesOn
      | setComplete point =>
          obtain ⟨⟨control, clients'⟩, _, rfl⟩ := Option.map_eq_some_iff.mp stepped
          cases control <;> cases goesOn
      | _ => contradiction

theorem Process.MainMove.comesFrom {process : Process δ} {pc : MainPc}
    {effect : Process.MainEffect} (move : Process.MainMove process ok pc effect)
    (goesOn : (effect.control.point pc).checkPoint = some check) :
    check.ComesFrom .main process.returned ok process.clients effect.clients pc.checkPoint := by
  cases move with
  | unlock index =>
      cases goesOn
      exact Or.inl rfl
  | check checkStep =>
      rename_i point control clients
      apply Check.comesFrom checkStep
      cases control <;> cases goesOn
      · exact Or.inl rfl
      · exact Or.inr ⟨rfl, rfl⟩
  | cleanup cleanupStep =>
      rename_i point control clients
      apply Cleanup.comesFrom cleanupStep
      cases control with
      | goto next => exact goesOn
      | done =>
          rw [Cleanup.eq_unlink_of_done cleanupStep] at goesOn
          cases goesOn
      | crash => exact goesOn
  | _ => cases goesOn

end ComesFrom

/-! ## Runs -/

/-- The point at which `main` links a node. -/
def MainPc.links : MainPc → Option Nat
  | .insert index => some index
  | _ => none

namespace Process

variable {device : Device δ χ} {process target : Process δ} {label : Label χ}

/-- The step does not make a flag wrong: `main` links a node only while its handler
runs, a lock fails in the final call of a handler only if its node is not linked,
and the mark hits the own node, if it is linked, and no other one whose handler
still runs. -/
def MarksOwnNode (process : Process δ) : Label χ → Prop
  | .signal => True
  | .main _ =>
      ∀ node ∈ process.main.links,
        (∀ before ∈ process.last, before ∈ process.clients.linked) →
          process.returned node = false
  | .handler index outcomes =>
      ((process.handlers index).pc.beginsFinalCall = true → outcomes.ok = false →
        index ∉ process.clients.linked) ∧
      ((process.handlers index).pc.marks = true →
        (index ∈ process.clients.linked → outcomes.clientThreadNode = index) ∧
        (outcomes.clientThreadNode ∈ process.clients.linked →
          outcomes.clientThreadNode = index ∨
            process.returned outcomes.clientThreadNode = true))

instance (process : Process δ) (label : Label χ) : Decidable (process.MarksOwnNode label) :=
  match label with
  | .signal => inferInstanceAs (Decidable True)
  | .main _ => inferInstanceAs (Decidable (∀ node ∈ process.main.links,
      (∀ before ∈ process.last, before ∈ process.clients.linked) →
        process.returned node = false))
  | .handler index outcomes => inferInstanceAs (Decidable
      (((process.handlers index).pc.beginsFinalCall = true → outcomes.ok = false →
        index ∉ process.clients.linked) ∧
      ((process.handlers index).pc.marks = true →
        (index ∈ process.clients.linked → outcomes.clientThreadNode = index) ∧
        (outcomes.clientThreadNode ∈ process.clients.linked →
          outcomes.clientThreadNode = index ∨
            process.returned outcomes.clientThreadNode = true))))

/-- The handler has performed its final call, up to the unlock. -/
def Marked (process : Process δ) (node : Nat) : Prop :=
  (process.handlers node).pc.hasMarked = true

/-- The handler performs its final call in this step, or fails to. -/
def Marks (process : Process δ) (label : Label χ) (node : Nat) : Prop :=
  ∃ outcomes, label = .handler node outcomes ∧
    ((process.handlers node).pc.marks = true ∨
      (process.handlers node).pc.beginsFinalCall = true ∧ outcomes.ok = false)

theorem marked_iff (stepped : Process.step device label process = some target) (node : Nat) :
    target.Marked node ↔ process.Marked node ∨ process.Marks label node := by
  rcases step_cases stepped with
    ⟨rfl, rfl⟩ | ⟨ok, effect, rfl, made, rfl⟩ | ⟨index, outcomes, effect, rfl, _, made, rfl⟩
  · simp [Marked, Marks]
  · simp [Marked, Marks]
  · unfold Marked
    by_cases same : node = index
    · subst node
      rw [applyHandler_self, Pc.hasMarked_step made]
      simp [Marks]
    · have differs : ∀ other, (Label.handler index outcomes : Label χ) ≠ .handler node other := by
        intro other equal
        cases equal
        contradiction
      simp [process.applyHandler_of_ne index effect same, Marks, differs]

/-- What such a step does to the list. -/
theorem Marks.cases {node : Nat} (marks : process.Marks label node) :
    ∃ outcomes, label = .handler node outcomes ∧
      ((process.handlers node).pc.marks = true ∧
          process.event label = .mark outcomes.clientThreadNode ∨
        (process.handlers node).pc.beginsFinalCall = true ∧ outcomes.ok = false ∧
          process.event label = .quiet) := by
  obtain ⟨outcomes, rfl, atPoint⟩ := marks
  refine ⟨outcomes, rfl, ?_⟩
  rw [event]
  cases pc : (process.handlers node).pc with
  | setComplete point =>
      rw [pc] at atPoint
      cases point with
      | lock =>
          rcases atPoint with marks | ⟨_, failed⟩
          · contradiction
          · exact Or.inr ⟨rfl, failed, rfl⟩
      | mark => exact Or.inl ⟨rfl, rfl⟩
      | unlock => rcases atPoint with marks | ⟨begins, _⟩ <;> contradiction
  | _ =>
      rw [pc] at atPoint
      rcases atPoint with marks | ⟨begins, _⟩ <;> contradiction

/-- A node is marked by a handler in its final call. -/
theorem marks_of_event {marked : Nat} (event : process.event label = .mark marked) :
    ∃ index outcomes, label = .handler index outcomes ∧
      (process.handlers index).pc.marks = true ∧ outcomes.clientThreadNode = marked := by
  cases label with
  | signal => contradiction
  | main ok => exact absurd event (process.main.event_ne_mark ok marked)
  | handler index outcomes => exact ⟨index, outcomes, rfl, Pc.marks_of_event event⟩

/-- In a step that leaves the list alone only handlers of nodes that are not linked
perform their final call. -/
theorem marked_iff_of_quiet (ownNode : process.MarksOwnNode label)
    (stepped : Process.step device label process = some target)
    (quiet : process.event label = .quiet) {node : Nat} (member : node ∈ process.clients.linked) :
    target.Marked node ↔ process.Marked node := by
  rw [marked_iff stepped, or_iff_left_iff_imp]
  intro marks
  obtain ⟨outcomes, rfl, ⟨_, marksNode⟩ | ⟨begins, failed, _⟩⟩ := marks.cases
  · rw [quiet] at marksNode
    contradiction
  · exact absurd member (ownNode.1 begins failed)

/-- No handler performs its final call while a node is linked or unlinked. -/
theorem marked_iff_of_change (stepped : Process.step device label process = some target)
    (changes : process.event label ≠ .quiet) (noMark : ∀ node, process.event label ≠ .mark node)
    (node : Nat) : target.Marked node ↔ process.Marked node := by
  rw [marked_iff stepped, or_iff_left_iff_imp]
  intro marks
  obtain ⟨outcomes, _, ⟨_, marksNode⟩ | ⟨_, _, quiet⟩⟩ := marks.cases
  · exact absurd marksNode (noMark _)
  · exact absurd quiet changes

/-- What holds in every state of a run that marks the right nodes. -/
structure Truthful (process : Process δ) : Prop where
  orderly : process.Orderly
  flags : ∀ node ∈ process.clients.linked,
    process.clients.threadCompleteSuccess node = true ↔ process.Marked node
  sweeps : ∀ thread check, process.checkPoint thread = some check →
    check.Sweeps process.Marked process.clients.linked

theorem truthful_start (device : δ) : (start device).Truthful where
  orderly := orderly_start device
  flags node member := absurd member List.not_mem_nil
  sweeps thread check checks := by cases thread <;> contradiction

/-- A handler that has performed its final call has returned, unless it is inside
its section. -/
theorem returned_of_marked {node : Nat} (marked : process.Marked node)
    (outside : ¬ process.InListSection (.handler node)) : process.returned node = true := by
  rcases Pc.hasReturned_of_hasMarked marked with hasReturned | atUnlock
  · exact hasReturned
  · refine absurd ?_ outside
    rw [InListSection, listUse, atUnlock]
    rfl

theorem marked_of_returned {node : Nat} (returned : process.returned node = true) :
    process.Marked node :=
  Pc.hasMarked_of_hasReturned returned

/-- The node `main` links is unmarked, and its handler still runs. -/
theorem Truthful.not_marked_of_insert (truthful : process.Truthful)
    (ownNode : process.MarksOwnNode label) {node : Nat}
    (inserts : process.event label = .insert node)
    (linked : ∀ before, process.last = some before → before ∈ process.clients.linked) :
    process.clients.threadCompleteSuccess node = false ∧ ¬ process.Marked node := by
  obtain ⟨takes, atInsert⟩ := main_of_insert inserts
  have isNew : process.IsNew node := by
    apply Or.inr
    rw [atInsert]
    rfl
  refine ⟨truthful.orderly.not_marked node isNew, ?_⟩
  intro marked
  have mainInside : process.InListSection .main := by
    rw [InListSection, listUse, atInsert]
    rfl
  have returned := returned_of_marked marked fun inside =>
    absurd (truthful.orderly.guarded.unique mainInside inside) (by simp)
  cases label with
  | main ok =>
      have runs := ownNode node (by rw [atInsert]; rfl) linked
      rw [runs] at returned
      contradiction
  | _ => cases takes

theorem Truthful.flags_next (truthful : process.Truthful) (ownNode : process.MarksOwnNode label)
    (stepped : Process.step device label process = some target) {node : Nat}
    (member : node ∈ target.clients.linked) :
    target.clients.threadCompleteSuccess node = true ↔ target.Marked node := by
  have happens := Process.happens stepped
  rw [happens.linked] at member
  rw [happens.threadCompleteSuccess]
  cases event : process.event label with
  | quiet =>
      rw [event] at member
      rw [marked_iff_of_quiet ownNode stepped event member]
      exact truthful.flags node member
  | insert linked =>
      rw [event] at member
      rw [marked_iff_of_change stepped (by simp [event]) (by simp [event]), Clients.after,
        Clients.insert_threadCompleteSuccess]
      rcases Clients.mem_insert_iff.mp member with old | ⟨rfl, behind⟩
      · exact truthful.flags node old
      · obtain ⟨unmarked, notMarked⟩ := truthful.not_marked_of_insert ownNode event behind
        simp [unmarked, notMarked]
  | remove removed =>
      rw [event] at member
      rw [marked_iff_of_change stepped (by simp [event]) (by simp [event])]
      exact truthful.flags node (List.mem_of_mem_erase member)
  | mark marked =>
      rw [event, Clients.after, Clients.mark_linked] at member
      rw [Clients.after, Clients.mark_threadCompleteSuccess_iff, marked_iff stepped,
        truthful.flags node member]
      obtain ⟨index, outcomes, rfl, marks, rfl⟩ := marks_of_event event
      obtain ⟨ownIfLinked, noOther⟩ := ownNode.2 marks
      constructor
      · rintro (before | ⟨rfl, linked⟩)
        · exact Or.inl before
        · rcases noOther linked with own | returned
          · refine Or.inr ⟨outcomes, ?_, Or.inl ?_⟩
            · rw [own]
            · rwa [own]
          · exact Or.inl (marked_of_returned returned)
      · rintro (before | ⟨_, equal, _⟩)
        · exact Or.inl before
        · cases equal
          have own := ownIfLinked member
          rw [own]
          exact Or.inr ⟨rfl, member⟩

/-- Only the thread that takes the step gets on in `check_completed_threads`. -/
theorem checkPoint_of_ne {thread : Thread}
    (stepped : Process.step device label process = some target)
    (differs : label.thread ≠ some thread) :
    target.checkPoint thread = process.checkPoint thread := by
  cases thread with
  | main => rw [checkPoint, checkPoint, (main_of_ne stepped differs).1]
  | handler index => rw [checkPoint, checkPoint, handlers_of_ne stepped differs]

theorem comesFrom {thread : Thread} {check : Check}
    (stepped : Process.step device label process = some target)
    (takes : label.thread = some thread) (checks : target.checkPoint thread = some check) :
    check.ComesFrom thread process.returned label.ok process.clients target.clients
      (process.checkPoint thread) := by
  rcases step_cases stepped with
    ⟨rfl, rfl⟩ | ⟨ok, effect, rfl, made, rfl⟩ | ⟨index, outcomes, effect, rfl, _, made, rfl⟩
  · contradiction
  · cases takes
    exact (mainMove made).comesFrom checks
  · cases takes
    rw [checkPoint, applyHandler_self] at checks
    exact Pc.comesFrom made checks

theorem event_of_checkPoint {thread : Thread} {check : Check} (takes : label.thread = some thread)
    (checks : process.checkPoint thread = some check) :
    process.event label = check.event label.ok := by
  cases label with
  | signal => contradiction
  | main ok =>
      cases takes
      rw [checkPoint] at checks
      rw [event]
      cases pc : process.main with
      | check point =>
          rw [pc] at checks
          cases checks
          rfl
      | cleanup point =>
          rw [pc] at checks
          rw [Cleanup.eq_check_of_checkPoint checks]
          rfl
      | _ =>
          rw [pc] at checks
          contradiction
  | handler index outcomes =>
      cases takes
      rw [event, Pc.eq_check_of_checkPoint checks]
      rfl

/-- A thread in `check_completed_threads` does not perform its final call. -/
theorem not_marks_of_checkPoint {thread : Thread} {check : Check}
    (takes : label.thread = some thread) (checks : process.checkPoint thread = some check)
    (node : Nat) : ¬ process.Marks label node := by
  rintro ⟨outcomes, rfl, atPoint⟩
  cases takes
  rw [Pc.eq_check_of_checkPoint checks] at atPoint
  rcases atPoint with marks | ⟨begins, _⟩ <;> contradiction

/-- A sweep gets on neither in steps that leave the list alone nor in those of other
threads. -/
theorem Truthful.sweeps_of_quiet (truthful : process.Truthful)
    (ownNode : process.MarksOwnNode label)
    (stepped : Process.step device label process = some target)
    (quiet : process.event label = .quiet) {thread : Thread} {check : Check}
    (checks : process.checkPoint thread = some check) :
    check.Sweeps target.Marked target.clients.linked := by
  have happens := Process.happens stepped
  rw [happens.linked, quiet]
  exact (truthful.sweeps thread check checks).congr fun node member =>
    marked_iff_of_quiet ownNode stepped quiet member

theorem Truthful.sweeps_next (truthful : process.Truthful) (ownNode : process.MarksOwnNode label)
    (stepped : Process.step device label process = some target) {thread : Thread} {check : Check}
    (checks : target.checkPoint thread = some check) :
    check.Sweeps target.Marked target.clients.linked := by
  by_cases takes : label.thread = some thread
  · rcases comesFrom stepped takes checks with
      rfl | ⟨previous, checked, goesOn⟩ | ⟨stays, noRemoval⟩
    · trivial
    · have swept := (truthful.sweeps thread previous checked).next truthful.orderly.nodup
        truthful.flags goesOn
      refine swept.congr fun node _ => ?_
      rw [marked_iff stepped]
      exact or_iff_left (not_marks_of_checkPoint takes checked node)
    · rw [← event_of_checkPoint takes stays] at noRemoval
      exact truthful.sweeps_of_quiet ownNode stepped noRemoval stays
  · rw [checkPoint_of_ne stepped takes] at checks
    by_cases outside : check = .lock
    · subst check
      trivial
    · have inside : process.InListSection thread := by
        rw [InListSection, listUse_of_checkPoint checks]
        cases check <;> first | rfl | contradiction
      have quiet := event_of_inListSection truthful.orderly.guarded inside takes
      exact truthful.sweeps_of_quiet ownNode stepped quiet checks

theorem Truthful.next (truthful : process.Truthful) (ownNode : process.MarksOwnNode label)
    (stepped : Process.step device label process = some target) : target.Truthful where
  orderly := truthful.orderly.next stepped
  flags _ member := truthful.flags_next ownNode stepped member
  sweeps _ _ checks := truthful.sweeps_next ownNode stepped checks

/-- The flags tell the truth. -/
structure FlagsTell (process : Process δ) : Prop where
  /-- Whenever the list is not locked, exactly the nodes whose handlers have
  performed their final call are marked. -/
  flag_iff : process.clients.mutex = none → ∀ node ∈ process.clients.linked,
    process.clients.threadCompleteSuccess node = true ↔ process.returned node = true
  /-- When `check_completed_threads` is done, it has reaped all of them. -/
  reaped : ∀ thread, process.checkPoint thread = some .unlock →
    ∀ node ∈ process.clients.linked, process.returned node = false
  /-- It joins no handler that still runs. -/
  joined : ∀ thread node rest, process.checkPoint thread = some (.join node rest) →
    process.returned node = true

theorem Truthful.flagsTell (truthful : process.Truthful) : process.FlagsTell where
  flag_iff free node member := by
    rw [truthful.flags node member]
    constructor
    · intro marked
      apply returned_of_marked marked
      intro inside
      rw [truthful.orderly.guarded _ inside] at free
      contradiction
    · exact marked_of_returned
  reaped thread checks node member := by
    rw [← Bool.not_eq_true]
    intro returned
    exact truthful.sweeps thread _ checks node member (marked_of_returned returned)
  joined thread node rest checks := by
    obtain ⟨_, _, marked, _⟩ := truthful.sweeps thread _ checks
    have inside : process.InListSection thread := by
      rw [InListSection, listUse_of_checkPoint checks]
      rfl
    apply returned_of_marked marked
    intro nodeInside
    have same := truthful.orderly.guarded.unique inside nodeInside
    subst thread
    rw [Marked, Pc.eq_check_of_checkPoint checks] at marked
    contradiction

end Process

/-- In every state of a run in which the final call of each handler happens to mark
the right node, the flags tell the truth. -/
theorem threadCompleteSuccess_tells (device : Device δ χ) (initial : δ) {labels : List (Label χ)}
    {process : Process δ}
    (run : Run (Process.step device) Process.MarksOwnNode (Process.start initial)
      labels process) : process.FlagsTell := by
  have truthful : process.Truthful :=
    run.invariant (fun _ process => process.Truthful) (Process.truthful_start initial)
      fun truthful ownNode stepped => truthful.next ownNode stepped
  exact truthful.flagsTell

/-- The run in which the handler of the only client returns after `main` has linked
its node; `client_thread_node` points to `node`. -/
def oneLinkedClient (node : Nat) : List (Label DriverOutcomes) :=
  List.replicate 10 (.main true) ++
    List.replicate 14 (.handler 0 { Outcomes.success [97, 10] with clientThreadNode := node })

/-- With the right node. -/
theorem threadCompleteSuccess_tells_one_client :
    ∃ process,
      exec (Process.step aesdchar) (oneLinkedClient 0) (Process.start aesdInitModule) =
          some process ∧
        process.returned 0 = true ∧ process.FlagsTell := by
  have run : Run (Process.step aesdchar) Process.MarksOwnNode (Process.start aesdInitModule)
      (oneLinkedClient 0) _ :=
    run_iff_exec_admitted.mpr rfl
  exact ⟨_, run.exec_eq_some, rfl, threadCompleteSuccess_tells aesdchar aesdInitModule run⟩

/-- With some other pointer, the handler has returned and its node is linked, but not
marked. -/
theorem threadCompleteSuccess_lies :
    ∃ process,
      exec (Process.step aesdchar) (oneLinkedClient 1) (Process.start aesdInitModule) =
          some process ∧
        process.clients.mutex = none ∧ process.clients.linked = [0] ∧
        process.clients.threadCompleteSuccess 0 = false ∧ process.returned 0 = true ∧
        ¬ process.FlagsTell := by
  refine ⟨_, rfl, rfl, rfl, rfl, rfl, ?_⟩
  intro tells
  exact absurd ((tells.flag_iff rfl 0 List.mem_cons_self).mpr rfl) (by decide)

end Aesd.Server
