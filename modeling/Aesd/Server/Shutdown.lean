import Aesd.Server.Aesdchar
import Aesd.Server.Core

/-!
# Joining threads

`check_completed_threads` and `clean_threads` join handlers while they hold
`linked_list_mutex`, and every handler takes this mutex before it returns.  A
join can therefore only succeed when the handler has come past its own lock of
the mutex.  The flag `thread_complete_success` tells this to the first function
if every handler marks its own node; the second one does not look at it.
-/

namespace Aesd.Server

open Aesd.Driver
open Aesd.Mutex
open Aesd.Transition

variable {δ χ : Type}

/-! ## What a thread does with the list -/

/-- The use a thread makes of the list: outside of the section between a lock of
`linked_list_mutex` and its unlock, or inside it, there perhaps in the loop of
`clean_threads` and perhaps waiting for the thread of a node. -/
inductive ListUse
  | outside
  | inside (cleans : Bool) (joins : Option Nat)

namespace ListUse

def inSection : ListUse → Bool
  | .outside => false
  | .inside .. => true

def cleans : ListUse → Bool
  | .outside => false
  | .inside cleans _ => cleans

def joins : ListUse → Option Nat
  | .outside => none
  | .inside _ joins => joins

/-- The loop of `clean_threads` lies inside the section. -/
theorem inSection_of_cleans {use : ListUse} (cleans : use.cleans = true) :
    use.inSection = true := by
  cases use with
  | outside => contradiction
  | inside => rfl

end ListUse

/-- The use after a step of a function from `current`, which is over with the
function. -/
def Control.listUse {γ : Type} (control : Control γ) (listUse : γ → ListUse) (current : γ) :
    ListUse :=
  match control with
  | .goto point => listUse point
  | .done => .outside
  | .crash => listUse current

def Check.listUse : Check → ListUse
  | .lock => .outside
  | .visit _ | .unlock => .inside false none
  | .join node _ => .inside false (some node)

def Clean.listUse : Clean → ListUse
  | .lock => .outside
  | .first => .inside true none
  | .join node => .inside true (some node)
  | .unlock => .inside false none

/-- The point at which `cleanup` is about to take the mutex for `clean_threads`. -/
def Cleanup.beginsClean : Cleanup → Bool
  | .clean .lock => true
  | _ => false

def Pc.beginsClean : Pc → Bool
  | .cleanup point => point.beginsClean
  | _ => false

def MainPc.beginsClean : MainPc → Bool
  | .cleanup point => point.beginsClean
  | _ => false

/-- The point at which a handler marks a node. -/
def Pc.marks : Pc → Bool
  | .setComplete .mark => true
  | _ => false

def Cleanup.listUse : Cleanup → ListUse
  | .start | .unlink => .outside
  | .check point => point.listUse
  | .clean point => point.listUse

def SetComplete.listUse : SetComplete → ListUse
  | .lock => .outside
  | .mark | .unlock => .inside false none

def Pc.listUse : Pc → ListUse
  | .cleanup point => point.listUse
  | .setComplete point => point.listUse
  | _ => .outside

def MainPc.listUse : MainPc → ListUse
  | .loop | .accept | .addNode _ | .lockInsert _ => .outside
  | .insert _ | .unlockInsert _ => .inside false none
  | .check point => point.listUse
  | .cleanup point => point.listUse

def Process.listUse (process : Process δ) : Thread → ListUse
  | .main => process.main.listUse
  | .handler index => (process.handlers index).pc.listUse

/-- The points inside `cleanup` and `set_thread_complete_success`. -/
def Pc.usesList : Pc → Bool
  | .cleanup _ | .setComplete _ => true
  | _ => false

/-- The handler has come past the lock in `set_thread_complete_success`. -/
def Pc.pastListLock : Pc → Bool
  | .setComplete .mark | .setComplete .unlock | .returned => true
  | _ => false

theorem Pc.pastListLock_iff {pc : Pc} :
    pc.pastListLock = true ↔
      pc = .setComplete .mark ∨ pc = .setComplete .unlock ∨ pc = .returned := by
  constructor
  · intro past
    cases pc with
    | setComplete point => cases point <;> simp_all [pastListLock]
    | returned => simp
    | _ => contradiction
  · rintro (rfl | rfl | rfl) <;> rfl

def Process.PastListLock (process : Process δ) (index : Nat) : Prop :=
  (process.handlers index).pc.pastListLock = true

/-- The two mutexes of the process. -/
inductive MutexName
  | file
  | list

/-- The thread that holds a mutex. -/
def Process.owner (process : Process δ) : MutexName → Option Thread
  | .file => process.file.mutex
  | .list => process.clients.mutex

/-- The points from which every way to the return leads through a lock of the
mutex. -/
def Pc.Needs (pc : Pc) : MutexName → Prop
  | .file =>
      match pc with
      | .lockFile _ | .handleIoctl (.lock _) => True
      | _ => False
  | .list => pc.pastListLock = false

/-! ## One step -/

/-- What a step of `thread` does to the list and to its use of it, when `Past` are
the handlers that have come past their lock. -/
structure ListStep (thread : Thread) (Past : Nat → Prop) (use use' : ListUse)
    (clients clients' : Clients) : Prop where
  move : Move thread (use.inSection = true) (use'.inSection = true) clients.mutex clients'.mutex
  linked : use.inSection = true ∨ clients'.linked = clients.linked
  marked : ∀ node, clients'.threadCompleteSuccess node = true →
    clients.threadCompleteSuccess node = true ∨ Past node
  cleans : use'.cleans = true →
    use.cleans = true ∧ clients'.linked ⊆ clients.linked ∨ ∀ node ∈ clients'.linked, Past node
  joins : ∀ node, use'.joins = some node →
    use.joins = some node ∨ clients.threadCompleteSuccess node = true ∨
      use.cleans = true ∧ node ∈ clients.linked

namespace ListStep

variable {thread : Thread} {Past : Nat → Prop} {use use' : ListUse} {clients : Clients} {ok : Bool}

/-- A step that does not touch the list and starts no join. -/
theorem quiet (enters : use'.inSection = true → use.inSection = true)
    (cleans : use'.cleans = true → use.cleans = true) (joins : use'.joins = none) :
    ListStep thread Past use use' clients clients where
  move := Move.stay enters
  linked := Or.inr rfl
  marked _ := Or.inl
  cleans cleaning := Or.inl ⟨cleans cleaning, List.Subset.refl _⟩
  joins node joined := by simp [joins] at joined

/-- A step that changes nothing. -/
theorem same : ListStep thread Past use use clients clients where
  move := Move.stay id
  linked := Or.inr rfl
  marked _ := Or.inl
  cleans cleaning := Or.inl ⟨cleaning, List.Subset.refl _⟩
  joins _ := Or.inl

/-- A step to a point outside the section. -/
theorem toOutside : ListStep thread Past use .outside clients clients :=
  quiet (fun inside => by contradiction) (fun cleaning => by contradiction) rfl

/-- The beginning of a join with the thread of a marked node or, in the loop of
`clean_threads`, of any linked one. -/
theorem startsJoin {cleans : Bool} {node : Nat}
    (finished : clients.threadCompleteSuccess node = true ∨
      cleans = true ∧ node ∈ clients.linked) :
    ListStep thread Past (.inside cleans none) (.inside cleans (some node)) clients clients where
  move := Move.stay id
  linked := Or.inr rfl
  marked _ := Or.inl
  cleans cleaning := Or.inl ⟨cleaning, List.Subset.refl _⟩
  joins other joined := by
    obtain rfl := Option.some.inj joined
    exact Or.inr finished

/-- A lock; when the loop of `clean_threads` follows, all handlers of linked nodes
are past theirs. -/
theorem locks (free : clients.mutex = none)
    (begins : use'.cleans = true → ∀ node ∈ clients.linked, Past node)
    (joins : use'.joins = none) :
    ListStep thread Past use use' clients { clients with mutex := some thread } where
  move := by
    rw [free]
    exact Move.acquire
  linked := Or.inr rfl
  marked _ := Or.inl
  cleans cleaning := Or.inr (begins cleaning)
  joins node joined := by simp [joins] at joined

theorem unlocks (inside : use.inSection = true) :
    ListStep thread Past use .outside clients (clients.unlock ok) where
  move := Move.of_unlock inside (by simp [ListUse.inSection])
  linked := Or.inr rfl
  marked _ := Or.inl
  cleans cleaning := by contradiction
  joins node joined := by contradiction

/-- The removal of a node after a join. -/
theorem removes (inside : use.inSection = true)
    (cleans : use'.cleans = true → use.cleans = true) (joins : use'.joins = none) (node : Nat) :
    ListStep thread Past use use' clients (clients.remove node) where
  move := Move.stay fun _ => inside
  linked := Or.inl inside
  marked _ := Or.inl
  cleans cleaning := Or.inl ⟨cleans cleaning, List.erase_subset⟩
  joins node joined := by simp [joins] at joined

/-- `main` links a node inside its section. -/
theorem inserts (last : Option Nat) (node : Nat) :
    ListStep thread Past (.inside false none) (.inside false none) clients
      (clients.insert last node) where
  move := by
    cases last <;> exact Move.stay id
  linked := Or.inl rfl
  marked other marked := by
    cases last <;> exact Or.inl marked
  cleans cleaning := by contradiction
  joins other joined := by contradiction

/-- A handler marks a node of a handler past its lock. -/
theorem marks {node : Nat} (finished : node ∈ clients.linked → Past node) :
    ListStep thread Past (.inside false none) (.inside false none) clients
      (clients.mark node) := by
  unfold Clients.mark
  by_cases present : node ∈ clients.linked
  · rw [if_pos present]
    refine ⟨Move.stay id, Or.inl rfl, ?_, fun cleaning => by contradiction,
      fun other joined => by contradiction⟩
    intro other marked
    by_cases same : other = node
    · exact Or.inr (same ▸ finished present)
    · exact Or.inl (by simpa [Function.update_of_ne same] using marked)
  · rw [if_neg present]
    exact same

end ListStep

section Steps

variable {thread : Thread} {Past : Nat → Prop} {returned : Nat → Bool} {ok : Bool}
  {clients clients' : Clients}

theorem Check.listStep (Past : Nat → Prop) {point : Check} {control : Control Check}
    (stepped : point.step thread returned ok clients = some (control, clients')) :
    ListStep thread Past point.listUse (control.listUse Check.listUse point) clients clients' := by
  cases point with
  | lock =>
      rcases Clients.lockThen_cases stepped with ⟨_, free, rfl, rfl⟩ | ⟨_, rfl, rfl⟩
      · exact ListStep.locks free (fun cleaning => by contradiction) rfl
      · exact ListStep.toOutside
  | visit rest =>
      cases rest with
      | nil =>
          cases stepped
          exact ListStep.same
      | cons node rest =>
          simp only [Check.step] at stepped
          by_cases marked : clients.threadCompleteSuccess node = true
          · rw [if_pos marked] at stepped
            cases stepped
            exact ListStep.startsJoin (Or.inl marked)
          · rw [if_neg marked] at stepped
            cases stepped
            exact ListStep.same
  | join node rest =>
      rcases Clients.join_cases stepped with ⟨_, rfl, rfl⟩ | ⟨_, _, rfl, rfl⟩
      · exact ListStep.same
      · refine ListStep.removes ?_ ?_ ?_ node
        · rfl
        · exact id
        · rfl
  | unlock =>
      cases stepped
      exact ListStep.unlocks rfl

/-- The loop of `clean_threads` joins whatever is linked; it is safe if all
handlers of linked nodes are past their lock when it begins. -/
theorem Clean.listStep {point : Clean} {control : Control Clean}
    (begins : point = .lock → ok = true → ∀ node ∈ clients.linked, Past node)
    (stepped : point.step thread returned ok clients = some (control, clients')) :
    ListStep thread Past point.listUse (control.listUse Clean.listUse point) clients clients' := by
  cases point with
  | lock =>
      rcases Clients.lockThen_cases stepped with ⟨obtained, free, rfl, rfl⟩ | ⟨_, rfl, rfl⟩
      · exact ListStep.locks free (fun _ => begins rfl obtained) rfl
      · exact ListStep.toOutside
  | first =>
      cases linked : clients.linked with
      | nil =>
          simp only [Clean.step, linked] at stepped
          cases stepped
          exact ListStep.quiet (fun _ => rfl) (fun _ => rfl) rfl
      | cons node rest =>
          simp only [Clean.step, linked] at stepped
          cases stepped
          exact ListStep.startsJoin (Or.inr ⟨rfl, by simp [linked]⟩)
  | join node =>
      rcases Clients.join_cases stepped with ⟨_, rfl, rfl⟩ | ⟨_, _, rfl, rfl⟩
      · exact ListStep.same
      · refine ListStep.removes ?_ ?_ ?_ node
        · rfl
        · exact id
        · rfl
  | unlock =>
      cases stepped
      exact ListStep.unlocks rfl

theorem Cleanup.listStep {point : Cleanup} {control : Control Cleanup}
    (begins : point.beginsClean = true → ok = true → ∀ node ∈ clients.linked, Past node)
    (stepped : point.step thread returned ok clients = some (control, clients')) :
    ListStep thread Past point.listUse (control.listUse Cleanup.listUse point)
      clients clients' := by
  cases point with
  | start =>
      simp only [Cleanup.step] at stepped
      split at stepped <;> cases stepped <;> exact ListStep.same
  | check point =>
      obtain ⟨⟨control, _⟩, checkStep, equal⟩ := Option.map_eq_some_iff.mp stepped
      cases equal
      have listStep := Check.listStep Past checkStep
      cases control <;> exact listStep
  | clean point =>
      obtain ⟨⟨control, _⟩, cleanStep, equal⟩ := Option.map_eq_some_iff.mp stepped
      cases equal
      have listStep := Clean.listStep (fun atLock => begins (by rw [atLock]; rfl)) cleanStep
      cases control <;> exact listStep
  | unlink =>
      cases stepped
      exact ListStep.same

theorem SetComplete.listStep {point : SetComplete} {control : Control SetComplete} {node : Nat}
    (finished : point = .mark → node ∈ clients.linked → Past node)
    (stepped : point.step thread node ok clients = some (control, clients')) :
    ListStep thread Past point.listUse (control.listUse SetComplete.listUse point)
      clients clients' := by
  cases point with
  | lock =>
      rcases Clients.lockThen_cases stepped with ⟨_, free, rfl, rfl⟩ | ⟨_, rfl, rfl⟩
      · exact ListStep.locks free (fun cleaning => by contradiction) rfl
      · exact ListStep.toOutside
  | mark =>
      cases stepped
      exact ListStep.marks (finished rfl)
  | unlock =>
      cases stepped
      exact ListStep.unlocks rfl

end Steps

section Handler

variable {device : Device δ χ} {index : Nat} {returned : Nat → Bool} {outcomes : Outcomes χ}
  {file : DeviceFile δ} {clients : Clients} {pc : Pc} {effect : Effect δ}

/-- Outside of `cleanup` and `set_thread_complete_success` a handler leaves the list
alone, and its next point lies in front of the lock of the latter. -/
theorem Pc.step_plain (plain : pc.usesList = false)
    (stepped : pc.step device index returned outcomes file clients = some effect) :
    effect.clients = clients ∧ (effect.control.point pc).listUse = .outside ∧
      (effect.control.point pc).pastListLock = false := by
  cases pc with
  | start =>
      simp only [Pc.step] at stepped
      split at stepped <;> cases stepped <;> exact ⟨rfl, rfl, rfl⟩
  | recv buffer =>
      simp only [Pc.step] at stepped
      split at stepped
      · cases stepped
        exact ⟨rfl, rfl, rfl⟩
      · split at stepped <;> cases stepped <;> exact ⟨rfl, rfl, rfl⟩
  | handleIoctl point =>
      obtain ⟨⟨control, sent, file'⟩, _, rfl⟩ := Option.map_eq_some_iff.mp stepped
      cases control <;> exact ⟨rfl, rfl, rfl⟩
  | lockFile bytes =>
      obtain ⟨⟨next, file'⟩, called, rfl⟩ := Option.map_eq_some_iff.mp stepped
      rcases DeviceFile.lockThen_cases called with ⟨_, _, rfl, _⟩ | ⟨_, rfl, _⟩ <;>
        exact ⟨rfl, rfl, rfl⟩
  | openFile bytes =>
      simp only [Pc.step] at stepped
      split at stepped <;> cases stepped <;> exact ⟨rfl, rfl, rfl⟩
  | cleanup point => contradiction
  | flush bytes fPos =>
      simp only [Pc.step, flushStep] at stepped
      split at stepped
      · contradiction
      · split at stepped <;> cases stepped <;> exact ⟨rfl, rfl, rfl⟩
  | seek fPos =>
      simp only [Pc.step] at stepped
      split at stepped
      · contradiction
      · cases stepped
        exact ⟨rfl, rfl, rfl⟩
  | echo line ahead fPos =>
      simp only [Pc.step, echoStep] at stepped
      split at stepped
      · split at stepped <;> cases stepped <;> exact ⟨rfl, rfl, rfl⟩
      · split at stepped
        · contradiction
        · split at stepped
          · cases stepped
            exact ⟨rfl, rfl, rfl⟩
          · split at stepped <;> cases stepped <;> exact ⟨rfl, rfl, rfl⟩
  | unlockFile =>
      cases stepped
      exact ⟨rfl, rfl, rfl⟩
  | setComplete point => contradiction
  | returned => contradiction

/-- A step of a handler. -/
theorem Pc.listStep {Past : Nat → Prop}
    (begins : pc.beginsClean = true → outcomes.ok = true →
      ∀ node ∈ clients.linked, Past node)
    (finished : pc.marks = true → outcomes.clientThreadNode ∈ clients.linked →
      Past outcomes.clientThreadNode)
    (stepped : pc.step device index returned outcomes file clients = some effect) :
    ListStep (.handler index) Past pc.listUse (effect.control.point pc).listUse
      clients effect.clients := by
  cases uses : pc.usesList with
  | false =>
      obtain ⟨same, outside, _⟩ := Pc.step_plain uses stepped
      rw [same, outside]
      exact ListStep.toOutside
  | true =>
      cases pc with
      | cleanup point =>
          obtain ⟨⟨control, clients'⟩, cleanupStep, rfl⟩ := Option.map_eq_some_iff.mp stepped
          have listStep := Cleanup.listStep begins cleanupStep
          cases control <;> exact listStep
      | setComplete point =>
          obtain ⟨⟨control, clients'⟩, completeStep, rfl⟩ := Option.map_eq_some_iff.mp stepped
          have listStep :=
            SetComplete.listStep (fun atMark => finished (by rw [atMark]; rfl)) completeStep
          cases control <;> exact listStep
      | _ => contradiction

/-- A handler past its lock stays past it. -/
theorem Pc.pastListLock_step (past : pc.pastListLock = true)
    (stepped : pc.step device index returned outcomes file clients = some effect) :
    (effect.control.point pc).pastListLock = true := by
  rcases Pc.pastListLock_iff.mp past with rfl | rfl | rfl
  · cases stepped
    rfl
  · cases stepped
    rfl
  · contradiction

end Handler

/-- A step of `main`. -/
theorem Process.MainMove.listStep {process : Process δ} {ok : Bool} {pc : MainPc}
    {effect : Process.MainEffect} {Past : Nat → Prop}
    (move : Process.MainMove process ok pc effect)
    (begins : pc.beginsClean = true → ok = true → ∀ node ∈ process.clients.linked, Past node) :
    ListStep .main Past pc.listUse (effect.control.point pc).listUse
      process.clients effect.clients := by
  cases move with
  | run => exact ListStep.same
  | stop asked => rcases asked with rfl | rfl <;> exact ListStep.same
  | retry => exact ListStep.same
  | create => exact ListStep.same
  | allocate index _ => exact ListStep.same
  | abandon index _ atExit => rcases atExit with rfl | rfl <;> exact ListStep.same
  | lock index _ free => exact ListStep.locks free (fun cleaning => by contradiction) rfl
  | insert index => exact ListStep.inserts process.last index
  | unlock index => exact ListStep.unlocks rfl
  | unlockFails index => exact ListStep.unlocks rfl
  | check checkStep =>
      rename_i point control clients
      have listStep := Check.listStep Past checkStep
      cases control <;> exact listStep
  | cleanup cleanupStep =>
      rename_i point control clients
      have listStep := Cleanup.listStep begins cleanupStep
      cases control with
      | goto next => exact listStep
      | done =>
          obtain rfl := Cleanup.eq_unlink_of_done cleanupStep
          exact listStep
      | crash => exact listStep

/-! ## Runs -/

namespace Process

variable {device : Device δ χ} {process target : Process δ} {label : Label χ}

/-- A step keeps to the rule if `clean_threads` takes the mutex only while all
handlers of linked nodes are past their lock, and `set_thread_complete_success`
marks only the node of such a handler. -/
def ReapsFinished (process : Process δ) : Label χ → Prop
  | .signal => True
  | .main ok =>
      process.main.beginsClean = true → ok = true →
        ∀ node ∈ process.clients.linked, process.PastListLock node
  | .handler index outcomes =>
      ((process.handlers index).pc.beginsClean = true → outcomes.ok = true →
        ∀ node ∈ process.clients.linked, process.PastListLock node) ∧
      ((process.handlers index).pc.marks = true →
        outcomes.clientThreadNode ∈ process.clients.linked →
        process.PastListLock outcomes.clientThreadNode)

instance (process : Process δ) (label : Label χ) : Decidable (process.ReapsFinished label) :=
  match label with
  | .signal => inferInstanceAs (Decidable True)
  | .main ok => inferInstanceAs (Decidable (process.main.beginsClean = true → ok = true →
      ∀ node ∈ process.clients.linked, (process.handlers node).pc.pastListLock = true))
  | .handler index outcomes => inferInstanceAs (Decidable
      (((process.handlers index).pc.beginsClean = true → outcomes.ok = true →
        ∀ node ∈ process.clients.linked, (process.handlers node).pc.pastListLock = true) ∧
      ((process.handlers index).pc.marks = true →
        outcomes.clientThreadNode ∈ process.clients.linked →
        (process.handlers outcomes.clientThreadNode).pc.pastListLock = true)))

/-- Only the thread that takes the step uses the list in another way. -/
theorem listUse_of_ne {thread : Thread} (stepped : Process.step device label process = some target)
    (differs : label.thread ≠ some thread) : target.listUse thread = process.listUse thread := by
  cases thread with
  | main => rw [listUse, listUse, (main_of_ne stepped differs).1]
  | handler index => rw [listUse, listUse, handlers_of_ne stepped differs]

/-- What holds in every state of a run that keeps to the rule. -/
structure JoinsFinished (process : Process δ) : Prop where
  guarded : Guarded process.clients.mutex fun thread => (process.listUse thread).inSection = true
  marked : ∀ node, process.clients.threadCompleteSuccess node = true → process.PastListLock node
  cleans : ∀ thread, (process.listUse thread).cleans = true →
    ∀ node ∈ process.clients.linked, process.PastListLock node
  joins : ∀ thread node, (process.listUse thread).joins = some node → process.PastListLock node

theorem joinsFinished_start (device : δ) : (start device).JoinsFinished where
  guarded thread inside := by cases thread <;> contradiction
  marked node marked := by contradiction
  cleans thread cleans := by cases thread <;> contradiction
  joins thread node joins := by cases thread <;> contradiction

/-- A step of one thread that keeps to the rule. -/
theorem JoinsFinished.move (finished : process.JoinsFinished) (thread : Thread)
    (listStep : ListStep thread process.PastListLock (process.listUse thread)
      (target.listUse thread) process.clients target.clients)
    (others : ∀ other, other ≠ thread → target.listUse other = process.listUse other)
    (stays : ∀ node, process.PastListLock node → target.PastListLock node) :
    target.JoinsFinished where
  guarded := by
    refine finished.guarded.move thread listStep.move ?_
    intro other differs inside
    rwa [others other differs] at inside
  marked node marked := by
    rcases listStep.marked node marked with before | past
    · exact stays node (finished.marked node before)
    · exact stays node past
  cleans other cleans node member := by
    by_cases same : other = thread
    · subst other
      rcases listStep.cleans cleans with ⟨cleaned, subset⟩ | past
      · exact stays node (finished.cleans thread cleaned node (subset member))
      · exact stays node (past node member)
    · rw [others other same] at cleans
      have inside := ListUse.inSection_of_cleans cleans
      rcases listStep.linked with insideThread | unchanged
      · exact absurd (finished.guarded.unique insideThread inside) same
      · rw [unchanged] at member
        exact stays node (finished.cleans other cleans node member)
  joins other node joins := by
    by_cases same : other = thread
    · subst other
      rcases listStep.joins node joins with joined | marked | ⟨cleaned, member⟩
      · exact stays node (finished.joins thread node joined)
      · exact stays node (finished.marked node marked)
      · exact stays node (finished.cleans thread cleaned node member)
    · rw [others other same] at joins
      exact stays node (finished.joins other node joins)

theorem JoinsFinished.next (finished : process.JoinsFinished)
    (reaps : process.ReapsFinished label)
    (stepped : Process.step device label process = some target) : target.JoinsFinished := by
  have others : ∀ other, label.thread ≠ some other →
      target.listUse other = process.listUse other :=
    fun other differs => listUse_of_ne stepped differs
  rcases step_cases stepped with
    ⟨_, rfl⟩ | ⟨ok, effect, rfl, made, rfl⟩ | ⟨index, outcomes, effect, rfl, _, made, rfl⟩
  · exact ⟨finished.guarded, finished.marked, finished.cleans, finished.joins⟩
  · refine finished.move .main ((mainMove made).listStep reaps) ?_ fun node past => past
    exact fun other differs => others other fun same => differs (Option.some.inj same).symm
  · have listStep := Pc.listStep reaps.1 reaps.2 made
    refine finished.move (.handler index) ?_ ?_ ?_
    · simpa only [listUse, applyHandler_self, applyHandler_clients] using listStep
    · exact fun other differs => others other fun same => differs (Option.some.inj same).symm
    · intro node past
      unfold PastListLock at past ⊢
      by_cases same : node = index
      · subst node
        rw [applyHandler_self]
        exact Pc.pastListLock_step past made
      · rwa [process.applyHandler_of_ne index effect same]

end Process

/-- In every state of a run that keeps to the rule, for any number of handlers and
wherever the signal comes, no thread waits in `pthread_join` for itself or for
a handler that still needs a mutex the thread holds. -/
theorem no_join_deadlock (device : Device δ χ) (initial : δ) {labels : List (Label χ)}
    {process : Process δ}
    (run : Run (Process.step device) Process.ReapsFinished (Process.start initial)
      labels process) (thread : Thread) (node : Nat)
    (joins : (process.listUse thread).joins = some node) :
    thread ≠ .handler node ∧
      ∀ mutex, process.owner mutex = some thread → ¬ (process.handlers node).pc.Needs mutex := by
  have finished : process.JoinsFinished :=
    run.invariant (fun _ process => process.JoinsFinished) (Process.joinsFinished_start initial)
      fun finished reaps stepped => finished.next reaps stepped
  have past := Pc.pastListLock_iff.mp (finished.joins thread node joins)
  constructor
  · rintro rfl
    rw [Process.listUse] at joins
    rcases past with atPoint | atPoint | atPoint <;> rw [atPoint] at joins <;> contradiction
  · intro mutex _ needs
    rcases past with atPoint | atPoint | atPoint <;> rw [atPoint] at needs <;>
      cases mutex <;> contradiction

/-- The run in which the signal comes after the handler of the only client has
returned. -/
def lateSignal : List (Label DriverOutcomes) :=
  List.replicate 10 (.main true) ++ List.replicate 14 (.handler 0 (Outcomes.success [97, 10])) ++
    [.signal] ++ List.replicate 4 (.main true)

/-- After the late signal `main` joins the handler. -/
theorem no_join_deadlock_late_signal :
    ∃ process,
      exec (Process.step aesdchar) lateSignal (Process.start aesdInitModule) = some process ∧
        (process.listUse .main).joins = some 0 ∧ process.owner .list = some .main ∧
        ¬ (process.handlers 0).pc.Needs .list := by
  have run : Run (Process.step aesdchar) Process.ReapsFinished (Process.start aesdInitModule)
      lateSignal _ :=
    run_iff_exec_admitted.mpr rfl
  exact ⟨_, run.exec_eq_some, rfl, rfl,
    (no_join_deadlock aesdchar aesdInitModule run .main 0 rfl).2 .list rfl⟩

/-- The run in which the signal comes while the handler of the only client has not
done anything yet. -/
def earlySignal : List (Label DriverOutcomes) :=
  List.replicate 10 (.main true) ++ [.signal] ++ List.replicate 8 (.main true)

/-- The run in which the handler of the only client cannot open the device file. -/
def failedOpen : List (Label DriverOutcomes) :=
  List.replicate 10 (.main true) ++
    List.replicate 3 (.handler 0 (Outcomes.success [97, 10])) ++
    [.handler 0 { Outcomes.success [] with ok := false }] ++
    List.replicate 7 (.handler 0 (Outcomes.success []))

/-- After the early signal `main` holds `linked_list_mutex` and joins a handler that
needs it; after the failed `fopen` the handler joins itself. -/
theorem join_deadlocks :
    (∃ process,
      exec (Process.step aesdchar) earlySignal (Process.start aesdInitModule) = some process ∧
        (process.listUse .main).joins = some 0 ∧ process.owner .list = some .main ∧
        (process.handlers 0).pc.Needs .list) ∧
      ∃ process,
        exec (Process.step aesdchar) failedOpen (Process.start aesdInitModule) = some process ∧
          (process.listUse (.handler 0)).joins = some 0 ∧
          process.owner .list = some (.handler 0) ∧ (process.handlers 0).pc.Needs .list :=
  ⟨⟨_, rfl, rfl, rfl, rfl⟩, _, rfl, rfl, rfl, rfl⟩

end Aesd.Server
