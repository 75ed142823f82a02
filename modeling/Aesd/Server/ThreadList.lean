import Aesd.Mutex.Core

/-!
# The list of client threads

The functions of `aesdsocket` that work on `client_threads_head`.  Each of them
is a small machine: its program points are those at which it calls something
that can block or fail, and a step performs the call and runs on to the next
point.  The node `main` allocates for a handler is named by the number of the
handler.
-/

namespace Aesd.Server

open Aesd.Mutex

/-- The threads of the process; handlers are numbered in the order of their
creation. -/
inductive Thread
  | main
  | handler (index : Nat)
  deriving DecidableEq

/-- `linked_list_mutex`, the nodes linked from `client_threads_head` and the
member `thread_complete_success` of each node. -/
structure Clients where
  mutex : Option Thread
  linked : List Nat
  threadCompleteSuccess : Nat → Bool

/-- What a step of a function comes to: another program point, a return, or the
end of the process by an access to memory it does not have. -/
inductive Control (γ : Type)
  | goto (point : γ)
  | done
  | crash

/-- The program point after a step from `current`; a process that ends stays where
it is. -/
def Control.point {γ : Type} (control : Control γ) (current : γ) : γ :=
  match control with
  | .goto point => point
  | .done => current
  | .crash => current

@[simp]
theorem Control.point_goto {γ : Type} (point current : γ) :
    (Control.goto point).point current = point :=
  rfl

@[simp]
theorem Control.point_crash {γ : Type} (current : γ) :
    (Control.crash : Control γ).point current = current :=
  rfl

/-- The thread has a next point. -/
def Control.goesOn {γ : Type} : Control γ → Bool
  | .goto _ => true
  | .done => false
  | .crash => false

/-- A function that runs as a part of another one, which goes on with `next` when
it returns. -/
def Control.embed {γ κ : Type} (control : Control γ) (part : γ → κ) (next : Control κ) :
    Control κ :=
  match control with
  | .goto point => .goto (part point)
  | .done => next
  | .crash => .crash

@[simp]
theorem Control.embed_goto {γ κ : Type} (point : γ) (part : γ → κ) (next : Control κ) :
    (Control.goto point).embed part next = .goto (part point) :=
  rfl

@[simp]
theorem Control.embed_done {γ κ : Type} (part : γ → κ) (next : Control κ) :
    Control.done.embed part next = next :=
  rfl

@[simp]
theorem Control.embed_crash {γ κ : Type} (part : γ → κ) (next : Control κ) :
    Control.crash.embed part next = .crash :=
  rfl

namespace Clients

/-- A call of `pthread_mutex_lock`, with what follows a success and a failure. -/
def lockThen {γ : Type} (clients : Clients) (thread : Thread) (ok : Bool)
    (success failure : Control γ) : Option (Control γ × Clients) :=
  match lock clients.mutex thread ok with
  | none => none
  | some (true, owner) => some (success, { clients with mutex := owner })
  | some (false, owner) => some (failure, { clients with mutex := owner })

/-- A call that returns has obtained the free mutex or failed. -/
theorem lockThen_cases {γ : Type} {clients clients' : Clients} {thread : Thread} {ok : Bool}
    {success failure control : Control γ}
    (called : clients.lockThen thread ok success failure = some (control, clients')) :
    ok = true ∧ clients.mutex = none ∧ control = success ∧
        clients' = { clients with mutex := some thread } ∨
      ok = false ∧ control = failure ∧ clients' = clients := by
  unfold lockThen at called
  split at called
  · contradiction
  · rename_i locks
    obtain ⟨rfl, free, rfl⟩ := lock_obtains_iff.mp locks
    cases called
    exact Or.inl ⟨rfl, free, rfl, rfl⟩
  · rename_i locks
    obtain ⟨rfl, rfl⟩ := lock_fails_iff.mp locks
    cases called
    exact Or.inr ⟨rfl, rfl, rfl⟩

/-- A call of `pthread_mutex_unlock`. -/
def unlock (clients : Clients) (ok : Bool) : Clients :=
  { clients with mutex := Mutex.unlock clients.mutex ok }

/-- `SLIST_REMOVE` and `free` -/
def remove (clients : Clients) (node : Nat) : Clients :=
  { clients with linked := clients.linked.erase node }

/-- `SLIST_INSERT_HEAD` without a last node, `SLIST_INSERT_AFTER` with one.  A
node inserted after one that has been removed is not linked from the head. -/
def insert (clients : Clients) (last : Option Nat) (node : Nat) : Clients :=
  match last with
  | none => { clients with linked := node :: clients.linked }
  | some last =>
      { clients with
        linked := clients.linked.flatMap fun linked =>
          if linked = last then [linked, node] else [linked] }

/-- The loop of `set_thread_complete_success`: the node is marked if the list
contains it. -/
def mark (clients : Clients) (node : Nat) : Clients :=
  if node ∈ clients.linked then
    { clients with
      threadCompleteSuccess := Function.update clients.threadCompleteSuccess node true }
  else
    clients

/-- A join that returns has ended the process, or the thread of the node has
returned and the node is removed. -/
theorem join_cases {γ : Type} {clients clients' : Clients} {returned : Nat → Bool} {ok : Bool}
    {node : Nat} {next control : Control γ}
    (joined : (if ok = false then some (Control.crash, clients)
        else if returned node then some (next, clients.remove node)
        else none) = some (control, clients')) :
    ok = false ∧ control = .crash ∧ clients' = clients ∨
      ok = true ∧ returned node = true ∧ control = next ∧ clients' = clients.remove node := by
  cases ok with
  | false =>
      cases joined
      exact Or.inl ⟨rfl, rfl, rfl⟩
  | true =>
      simp only [Bool.true_eq_false, if_false] at joined
      split at joined
      · rename_i hasReturned
        cases joined
        exact Or.inr ⟨rfl, hasReturned, rfl, rfl⟩
      · contradiction

end Clients

/-! ## `check_completed_threads` -/

/-- The program points of `check_completed_threads`; `rest` are the nodes the
loop has still to visit. -/
inductive Check
  | lock
  | visit (rest : List Nat)
  | join (node : Nat) (rest : List Nat)
  | unlock

/-- One step of `check_completed_threads`; `returned` tells which handlers have
returned.  When `pthread_join` fails, `temp_thread_data` is not initialised. -/
def Check.step (thread : Thread) (returned : Nat → Bool) (ok : Bool) (clients : Clients) :
    Check → Option (Control Check × Clients)
  | .lock => clients.lockThen thread ok (.goto (.visit clients.linked)) .done
  | .visit [] => some (.goto .unlock, clients)
  | .visit (node :: rest) =>
      if clients.threadCompleteSuccess node then
        some (.goto (.join node rest), clients)
      else
        some (.goto (.visit rest), clients)
  | .join node rest =>
      if ok = false then
        some (.crash, clients)
      else if returned node then
        some (.goto (.visit rest), clients.remove node)
      else
        none
  | .unlock => some (.done, clients.unlock ok)

/-! ## `clean_threads` -/

/-- The program points of `clean_threads`. -/
inductive Clean
  | lock
  | first
  | join (node : Nat)
  | unlock

/-- One step of `clean_threads`.  When `pthread_join` fails, `temp_thread_data`
is null. -/
def Clean.step (thread : Thread) (returned : Nat → Bool) (ok : Bool) (clients : Clients) :
    Clean → Option (Control Clean × Clients)
  | .lock => clients.lockThen thread ok (.goto .first) .done
  | .first =>
      match clients.linked with
      | [] => some (.goto .unlock, clients)
      | node :: _ => some (.goto (.join node), clients)
  | .join node =>
      if ok = false then
        some (.crash, clients)
      else if returned node then
        some (.goto .first, clients.remove node)
      else
        none
  | .unlock => some (.done, clients.unlock ok)

/-! ## `cleanup` -/

/-- The program points of `cleanup`. -/
inductive Cleanup
  | start
  | check (point : Check)
  | clean (point : Clean)
  | unlink

/-- One step of `cleanup`. -/
def Cleanup.step (thread : Thread) (returned : Nat → Bool) (ok : Bool) (clients : Clients) :
    Cleanup → Option (Control Cleanup × Clients)
  | .start =>
      if clients.linked = [] then
        some (.goto (.clean .lock), clients)
      else
        some (.goto (.check .lock), clients)
  | .check point =>
      (point.step thread returned ok clients).map fun (control, clients) =>
        (control.embed .check (.goto (.clean .lock)), clients)
  | .clean point =>
      (point.step thread returned ok clients).map fun (control, clients) =>
        (control.embed .clean (.goto .unlink), clients)
  | .unlink => some (.done, clients)

/-- `cleanup` returns after `unlink`. -/
theorem Cleanup.eq_unlink_of_done {thread : Thread} {returned : Nat → Bool} {ok : Bool}
    {clients clients' : Clients} {point : Cleanup}
    (stepped : point.step thread returned ok clients = some (.done, clients')) :
    point = .unlink := by
  cases point with
  | start =>
      simp only [Cleanup.step] at stepped
      split at stepped <;> cases stepped
  | check point =>
      obtain ⟨⟨control, _⟩, _, equal⟩ := Option.map_eq_some_iff.mp stepped
      cases control <;> cases equal
  | clean point =>
      obtain ⟨⟨control, _⟩, _, equal⟩ := Option.map_eq_some_iff.mp stepped
      cases control <;> cases equal
  | unlink => rfl

/-! ## `set_thread_complete_success` -/

/-- The program points of `set_thread_complete_success`. -/
inductive SetComplete
  | lock
  | mark
  | unlock

/-- One step of `set_thread_complete_success`, called with the address of
`node`. -/
def SetComplete.step (thread : Thread) (node : Nat) (ok : Bool) (clients : Clients) :
    SetComplete → Option (Control SetComplete × Clients)
  | .lock => clients.lockThen thread ok (.goto .mark) .done
  | .mark => some (.goto .unlock, clients.mark node)
  | .unlock => some (.done, clients.unlock ok)

end Aesd.Server
