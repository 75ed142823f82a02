import Aesd.Memory.Slist
import Aesd.Server.ThreadList

/-!
# Reaping

The loops of `check_completed_threads` and `clean_threads` with the memory they
work on: the nodes of the list, the `thread_data` blocks that `pthread_join`
delivers, and the calls that have been made.  `SLIST_FOREACH` advances through
the link of the node the body has just freed, and neither loop looks at the
result of `pthread_join` before it uses what was delivered.
-/

namespace Aesd.Server

open Aesd.Memory

/-! ## The memory of the loops -/

/-- `struct client_thread` without its link. -/
structure ClientThread where
  threadId : Nat
  clientfd : Int
  threadCompleteSuccess : Bool

/-- What the loops use of a `thread_data_t`; the address they log is in the same
block. -/
structure ThreadData where
  clientfd : Int

/-- How a loop goes wrong. -/
inductive Fault
  /-- It uses or frees a node that is not there. -/
  | badNode
  /-- It uses or frees a `thread_data` pointer that is not valid. -/
  | badThreadData
  /-- It has no end. -/
  | endless
  deriving DecidableEq

/-- The list, the `thread_data` blocks, the pointer each thread returns, the threads
joined so far and the descriptors closed so far. -/
structure Reaper where
  clientThreads : Slist ClientThread
  threadData : Heap ThreadData
  returns : Nat → Nat
  joined : List Nat
  closed : List Int

namespace Reaper

/-- Read a node. -/
def node (reaper : Reaper) (ptr : Nat) : Except Fault (Element ClientThread) :=
  match reaper.clientThreads.get ptr with
  | none => .error .badNode
  | some node => .ok node

/-- `pthread_join`: a call that fails delivers nothing. -/
def pthreadJoin (reaper : Reaper) (joins : Nat → Bool) (threadId : Nat) :
    Option Nat × Reaper :=
  if joins threadId then
    (some (reaper.returns threadId), { reaper with joined := reaper.joined ++ [threadId] })
  else
    (none, reaper)

/-- `SLIST_REMOVE` -/
def unlink (reaper : Reaper) (ptr : Nat) : Except Fault Reaper :=
  match reaper.clientThreads.remove ptr with
  | none => .error .badNode
  | some clientThreads => .ok { reaper with clientThreads := clientThreads }

/-- `free` of a node. -/
def freeNode (reaper : Reaper) (ptr : Nat) : Except Fault Reaper :=
  match reaper.clientThreads.free ptr with
  | none => .error .badNode
  | some clientThreads => .ok { reaper with clientThreads := clientThreads }

/-- Read through `temp_thread_data`. -/
def tempThreadData (reaper : Reaper) : Option Nat → Except Fault ThreadData
  | none => .error .badThreadData
  | some ptr =>
      match (reaper.threadData.load ptr 0 1).bind List.head? with
      | none => .error .badThreadData
      | some data => .ok data

/-- `close` of the descriptor in `temp_thread_data`. -/
def closeClientfd (reaper : Reaper) (ptr : Option Nat) : Except Fault Reaper := do
  let data ← reaper.tempThreadData ptr
  pure { reaper with closed := reaper.closed ++ [data.clientfd] }

/-- `syslog` reads the address in `temp_thread_data`. -/
def logClosed (reaper : Reaper) (ptr : Option Nat) : Except Fault Reaper := do
  let _ ← reaper.tempThreadData ptr
  pure reaper

/-- `free` of `temp_thread_data`. -/
def freeThreadData (reaper : Reaper) : Option Nat → Except Fault Reaper
  | none => .error .badThreadData
  | some ptr =>
      match reaper.threadData.free ptr with
      | none => .error .badThreadData
      | some threadData => .ok { reaper with threadData := threadData }

end Reaper

/-! ## `check_completed_threads` -/

/-- The body of the loop for a completed node; `temp_thread_data` is not initialised
when the join fails. -/
def checkBody (joins : Nat → Bool) (currentNode threadId : Nat) (reaper : Reaper) :
    Except Fault Reaper := do
  let (tempThreadData, reaper) := reaper.pthreadJoin joins threadId
  let reaper ← reaper.unlink currentNode
  let reaper ← reaper.freeNode currentNode
  let reaper ← reaper.closeClientfd tempThreadData
  let reaper ← reaper.logClosed tempThreadData
  reaper.freeThreadData tempThreadData

/-- `SLIST_FOREACH` -/
def checkLoop (joins : Nat → Bool) : Nat → Option Nat → Reaper → Except Fault Reaper
  | _, none, reaper => .ok reaper
  | 0, some _, _ => .error .endless
  | fuel + 1, some currentNode, reaper => do
      let node ← reaper.node currentNode
      let reaper ←
        if node.value.threadCompleteSuccess then
          checkBody joins currentNode node.value.threadId reaper
        else
          pure reaper
      -- the link is read behind the body
      let node ← reaper.node currentNode
      checkLoop joins fuel node.sleNext reaper

/-- `check_completed_threads` -/
def checkCompletedThreads (locks : Bool) (joins : Nat → Bool) (reaper : Reaper) :
    Except Fault Reaper :=
  if locks = false then
    .ok reaper
  else
    checkLoop joins reaper.clientThreads.heap.next reaper.clientThreads.slhFirst reaper

/-! ## `clean_threads` -/

/-- The body of the loop; `temp_thread_data` is null when the join fails. -/
def cleanBody (joins : Nat → Bool) (currentNode : Nat) (reaper : Reaper) :
    Except Fault Reaper := do
  let node ← reaper.node currentNode
  let (tempThreadData, reaper) := reaper.pthreadJoin joins node.value.threadId
  let reaper ← reaper.unlink currentNode
  let reaper ← reaper.freeNode currentNode
  let reaper ← reaper.logClosed tempThreadData
  let reaper ← reaper.closeClientfd tempThreadData
  reaper.freeThreadData tempThreadData

/-- The loop, as long as the list is not empty. -/
def cleanLoop (joins : Nat → Bool) : Nat → Reaper → Except Fault Reaper
  | 0, reaper => if reaper.clientThreads.slhFirst = none then .ok reaper else .error .endless
  | fuel + 1, reaper =>
      match reaper.clientThreads.slhFirst with
      | none => .ok reaper
      | some currentNode => do
          let reaper ← cleanBody joins currentNode reaper
          cleanLoop joins fuel reaper

/-- `clean_threads` -/
def cleanThreads (locks : Bool) (joins : Nat → Bool) (reaper : Reaper) : Except Fault Reaper :=
  if locks = false then
    .ok reaper
  else
    cleanLoop joins reaper.clientThreads.heap.next reaper

/-! ## Exact reaping -/

/-- A client on the list: its node and the block its thread returns. -/
structure Client where
  node : Nat
  thread : ClientThread
  data : Nat

/-- The pointer to the node and what is in it. -/
def Client.entry (client : Client) : Nat × ClientThread :=
  (client.node, client.thread)

/-- The `thread_data` block, which has the descriptor of the node. -/
def Client.block (client : Client) : Nat × List ThreadData :=
  (client.data, [⟨client.thread.clientfd⟩])

namespace Reaper

/-- The list consists of the nodes of `clients`, each thread returns its block, and the
heaps have the blocks `nodes` and `blocks` besides. -/
structure Represents (reaper : Reaper) (clients : List Client)
    (nodes : List (Nat × List (Element ClientThread)))
    (blocks : List (Nat × List ThreadData)) : Prop where
  list : reaper.clientThreads.Represents (clients.map Client.entry) nodes
  data : reaper.threadData.Owns (clients.map Client.block ++ blocks)
  returns : ∀ client ∈ clients, reaper.returns client.thread.threadId = client.data

/-- The calls made on the way from one state to another: the threads `joined` and the
descriptors `closed`. -/
structure Calls (reaper : Reaper) (joined : List Nat) (closed : List Int) (reaper' : Reaper) :
    Prop where
  joined_eq : reaper'.joined = reaper.joined ++ joined
  closed_eq : reaper'.closed = reaper.closed ++ closed

theorem Calls.trans {reaper middle reaper' : Reaper} {joined joined' : List Nat}
    {closed closed' : List Int} (first : reaper.Calls joined closed middle)
    (second : middle.Calls joined' closed' reaper') :
    reaper.Calls (joined ++ joined') (closed ++ closed') reaper' where
  joined_eq := by rw [second.joined_eq, first.joined_eq, List.append_assoc]
  closed_eq := by rw [second.closed_eq, first.closed_eq, List.append_assoc]

/-- Nothing has been joined or closed. -/
theorem Calls.none {reaper reaper' : Reaper} (joined : reaper'.joined = reaper.joined)
    (closed : reaper'.closed = reaper.closed) : reaper.Calls [] [] reaper' :=
  ⟨by rw [joined, List.append_nil], by rw [closed, List.append_nil]⟩

end Reaper

/-- The outcome of a loop that reaps `reaped`, leaves `kept` in the list, and touches
nothing it must not: it ends without a fault, it has joined and closed each of `reaped`
once, and of their blocks those of `kept` are left. -/
def ReapsExactly (reaper : Reaper) (nodes : List (Nat × List (Element ClientThread)))
    (blocks : List (Nat × List ThreadData)) (reaped kept : List Client)
    (outcome : Except Fault Reaper) : Prop :=
  ∃ reaper', outcome = .ok reaper' ∧ reaper'.Represents kept nodes blocks ∧
    reaper.Calls (reaped.map fun client => client.thread.threadId)
      (reaped.map fun client => client.thread.clientfd) reaper'

/-! ## One node -/

/-- The clients without the one in the middle. -/
theorem mem_of_mem_rest {before after : List Client} {client other : Client}
    (member : other ∈ before ++ after) : other ∈ before ++ client :: after :=
  ((List.sublist_cons_self client after).append_left before).subset member

namespace Reaper.Represents

variable {reaper : Reaper} {clients before after : List Client} {client : Client}
  {nodes : List (Nat × List (Element ClientThread))} {blocks : List (Nat × List ThreadData)}
  {element : Element ClientThread} {ptr : Nat} {data : ThreadData} {joins : Nat → Bool}

theorem node_middle (rep : reaper.Represents (before ++ client :: after) nodes blocks) :
    reaper.node client.node =
      .ok ⟨client.thread, Slist.firstOf (after.map Client.entry) none⟩ := by
  have list := rep.list
  rw [List.map_append, List.map_cons] at list
  have read := list.get_middle
  simp only [Reaper.node, read]

/-- A successful join delivers the block of the client. -/
theorem pthreadJoin (rep : reaper.Represents (before ++ client :: after) nodes blocks)
    (joined : joins client.thread.threadId = true) :
    ∃ reaper', reaper.pthreadJoin joins client.thread.threadId = (some client.data, reaper') ∧
      reaper'.Represents (before ++ client :: after) nodes blocks ∧
      reaper.Calls [client.thread.threadId] [] reaper' := by
  have returns := rep.returns client (by simp)
  refine ⟨{ reaper with joined := reaper.joined ++ [client.thread.threadId] }, ?_,
    ⟨rep.list, rep.data, rep.returns⟩, ⟨rfl, (List.append_nil _).symm⟩⟩
  simp [Reaper.pthreadJoin, joined, returns]

/-- `SLIST_REMOVE` leaves the node and the `thread_data` block of its thread. -/
theorem unlink (rep : reaper.Represents (before ++ client :: after) nodes blocks) :
    ∃ reaper' element, reaper.unlink client.node = .ok reaper' ∧
      reaper'.Represents (before ++ after) ((client.node, [element]) :: nodes)
        (client.block :: blocks) ∧
      reaper.Calls [] [] reaper' := by
  have list := rep.list
  rw [List.map_append, List.map_cons] at list
  obtain ⟨clientThreads, removed, list'⟩ := list.remove
  refine ⟨{ reaper with clientThreads := clientThreads },
    ⟨client.thread, Slist.firstOf (after.map Client.entry) none⟩, ?_, ⟨?_, ?_, ?_⟩, .none rfl rfl⟩
  · have removed' : reaper.clientThreads.remove client.node = some clientThreads := removed
    simp only [Reaper.unlink, removed']
  · rw [List.map_append]
    exact list'
  · have data := rep.data
    rw [List.map_append, List.map_cons, List.append_assoc] at data
    rw [List.map_append, List.append_assoc]
    exact data.perm (List.perm_middle.symm.append_left _)
  · exact fun other member => rep.returns other (mem_of_mem_rest member)

/-- A freed node cannot be read any more. -/
theorem freeNode (rep : reaper.Represents clients ((ptr, [element]) :: nodes) blocks) :
    ∃ reaper', reaper.freeNode ptr = .ok reaper' ∧ reaper'.Represents clients nodes blocks ∧
      reaper.Calls [] [] reaper' ∧ reaper'.clientThreads.get ptr = none := by
  obtain ⟨clientThreads, freed, list, dead⟩ := rep.list.free
  refine ⟨{ reaper with clientThreads := clientThreads }, ?_, ⟨list, rep.data, rep.returns⟩,
    .none rfl rfl, dead⟩
  simp only [Reaper.freeNode, freed]

theorem tempThreadData (rep : reaper.Represents clients nodes ((ptr, [data]) :: blocks)) :
    reaper.tempThreadData (some ptr) = .ok data := by
  have loaded : reaper.threadData.load ptr 0 1 = some [data] :=
    rep.data.load (List.mem_append_right _ List.mem_cons_self) (Nat.le_refl 1)
  simp [Reaper.tempThreadData, loaded]

theorem logClosed (rep : reaper.Represents clients nodes ((ptr, [data]) :: blocks)) :
    reaper.logClosed (some ptr) = .ok reaper := by
  rw [Reaper.logClosed, rep.tempThreadData]
  rfl

theorem closeClientfd (rep : reaper.Represents clients nodes ((ptr, [data]) :: blocks)) :
    ∃ reaper', reaper.closeClientfd (some ptr) = .ok reaper' ∧
      reaper'.Represents clients nodes ((ptr, [data]) :: blocks) ∧
      reaper.Calls [] [data.clientfd] reaper' ∧
      reaper'.clientThreads = reaper.clientThreads := by
  refine ⟨{ reaper with closed := reaper.closed ++ [data.clientfd] }, ?_,
    ⟨rep.list, rep.data, rep.returns⟩, ⟨(List.append_nil _).symm, rfl⟩, rfl⟩
  rw [Reaper.closeClientfd, rep.tempThreadData]
  rfl

theorem freeThreadData (rep : reaper.Represents clients nodes ((ptr, [data]) :: blocks)) :
    ∃ reaper', reaper.freeThreadData (some ptr) = .ok reaper' ∧
      reaper'.Represents clients nodes blocks ∧ reaper.Calls [] [] reaper' ∧
      reaper'.clientThreads = reaper.clientThreads := by
  obtain ⟨threadData, freed, owns⟩ := (rep.data.perm List.perm_middle).free
  refine ⟨{ reaper with threadData := threadData }, ?_, ⟨rep.list, owns, rep.returns⟩,
    .none rfl rfl, rfl⟩
  simp only [Reaper.freeThreadData, freed]

/-- The body of `check_completed_threads` reaps the node, whose link is out of reach
then. -/
theorem checkBody (rep : reaper.Represents (before ++ client :: after) nodes blocks)
    (joined : joins client.thread.threadId = true) :
    ∃ reaper', Server.checkBody joins client.node client.thread.threadId reaper = .ok reaper' ∧
      reaper'.Represents (before ++ after) nodes blocks ∧
      reaper.Calls [client.thread.threadId] [client.thread.clientfd] reaper' ∧
      reaper'.clientThreads.get client.node = none := by
  obtain ⟨_, joins', rep, joinCalls⟩ := rep.pthreadJoin joined
  obtain ⟨_, element, unlinks, rep, unlinkCalls⟩ := rep.unlink
  obtain ⟨_, frees, rep, freeCalls, dead⟩ := rep.freeNode
  obtain ⟨_, closes, rep, closeCalls, sameList⟩ := rep.closeClientfd
  have logs := rep.logClosed
  obtain ⟨reaper', freesData, rep, dataCalls, sameList'⟩ := rep.freeThreadData
  refine ⟨reaper', ?_, rep,
    joinCalls.trans (unlinkCalls.trans (freeCalls.trans (closeCalls.trans dataCalls))), ?_⟩
  · simp only [Server.checkBody, joins', unlinks, frees, closes, logs, freesData, bind,
      Except.bind]
  · rw [sameList', sameList]
    exact dead

/-- The body of `clean_threads` reaps the first node. -/
theorem cleanBody (rep : reaper.Represents (client :: clients) nodes blocks)
    (joined : joins client.thread.threadId = true) :
    ∃ reaper', Server.cleanBody joins client.node reaper = .ok reaper' ∧
      reaper'.Represents clients nodes blocks ∧
      reaper.Calls [client.thread.threadId] [client.thread.clientfd] reaper' := by
  have first : reaper.Represents ([] ++ client :: clients) nodes blocks := rep
  have read := first.node_middle
  obtain ⟨_, joins', rep, joinCalls⟩ := first.pthreadJoin joined
  obtain ⟨_, element, unlinks, rep, unlinkCalls⟩ := rep.unlink
  obtain ⟨_, frees, rep, freeCalls, _⟩ := rep.freeNode
  have logs := rep.logClosed
  obtain ⟨_, closes, rep, closeCalls, _⟩ := rep.closeClientfd
  obtain ⟨reaper', freesData, rep, dataCalls, _⟩ := rep.freeThreadData
  refine ⟨reaper', ?_, rep,
    joinCalls.trans (unlinkCalls.trans (freeCalls.trans (closeCalls.trans dataCalls)))⟩
  simp only [Server.cleanBody, read, joins', unlinks, frees, closes, logs, freesData, bind,
    Except.bind]

/-- When the join fails, the body of `check_completed_threads` uses a pointer that
has not been delivered. -/
theorem checkBody_of_failure (rep : reaper.Represents (before ++ client :: after) nodes blocks)
    (failed : joins client.thread.threadId = false) :
    Server.checkBody joins client.node client.thread.threadId reaper = .error .badThreadData := by
  have joins' : reaper.pthreadJoin joins client.thread.threadId = (none, reaper) := by
    simp [Reaper.pthreadJoin, failed]
  obtain ⟨_, element, unlinks, rep, _⟩ := rep.unlink
  obtain ⟨_, frees, rep, _, _⟩ := rep.freeNode
  simp only [Server.checkBody, joins', unlinks, frees, Reaper.closeClientfd,
    Reaper.tempThreadData, bind, Except.bind]

/-- The same in `clean_threads`, where it is a null pointer. -/
theorem cleanBody_of_failure (rep : reaper.Represents (client :: clients) nodes blocks)
    (failed : joins client.thread.threadId = false) :
    Server.cleanBody joins client.node reaper = .error .badThreadData := by
  have first : reaper.Represents ([] ++ client :: clients) nodes blocks := rep
  have read := first.node_middle
  have joins' : reaper.pthreadJoin joins client.thread.threadId = (none, reaper) := by
    simp [Reaper.pthreadJoin, failed]
  obtain ⟨_, element, unlinks, rep, _⟩ := first.unlink
  obtain ⟨_, frees, rep, _, _⟩ := rep.freeNode
  simp only [Server.cleanBody, read, joins', unlinks, frees, Reaper.logClosed,
    Reaper.tempThreadData, bind, Except.bind]

/-! ## The loops -/

/-- There is a turn for each node. -/
theorem length_le (rep : reaper.Represents clients nodes blocks) :
    clients.length ≤ reaper.clientThreads.heap.next := by
  simpa using rep.list.length_le

/-- `SLIST_FOREACH` passes nodes that are not completed and changes nothing. -/
theorem checkLoop_skip {skipped : List Client}
    (rep : reaper.Represents (before ++ (skipped ++ after)) nodes blocks)
    (running : ∀ client ∈ skipped, client.thread.threadCompleteSuccess = false) (fuel : Nat) :
    checkLoop joins (skipped.length + fuel)
        (Slist.firstOf ((skipped ++ after).map Client.entry) none) reaper =
      checkLoop joins fuel (Slist.firstOf (after.map Client.entry) none) reaper := by
  induction skipped generalizing before with
  | nil => simp
  | cons client skipped ih =>
      have read : reaper.node client.node =
          .ok ⟨client.thread, Slist.firstOf ((skipped ++ after).map Client.entry) none⟩ :=
        rep.node_middle
      have unflagged := running client List.mem_cons_self
      have later := ih (show reaper.Represents ((before ++ [client]) ++ (skipped ++ after))
          nodes blocks by simpa using rep)
        fun other member => running other (List.mem_cons_of_mem _ member)
      rw [List.length_cons, Nat.add_right_comm, ← later]
      simp [Client.entry, checkLoop, read, unflagged, bind, Except.bind, pure, Except.pure]

/-- At the first completed node the loop ends with a fault. -/
theorem checkLoop_of_completed {skipped : List Client}
    (rep : reaper.Represents (skipped ++ client :: after) nodes blocks)
    (running : ∀ client ∈ skipped, client.thread.threadCompleteSuccess = false)
    (completed : client.thread.threadCompleteSuccess = true) (fuel : Nat) :
    checkLoop joins (skipped.length + (fuel + 1)) reaper.clientThreads.slhFirst reaper =
      .error (if joins client.thread.threadId then .badNode else .badThreadData) := by
  have read := rep.node_middle
  rw [rep.list.slhFirst, checkLoop_skip (show reaper.Represents ([] ++ _) nodes blocks from rep)
    running]
  simp only [List.map_cons, Client.entry, Slist.firstOf_cons, checkLoop, read, completed,
    bind, Except.bind, if_true]
  cases joined : joins client.thread.threadId with
  | true =>
      obtain ⟨reaper', reaped, _, _, dead⟩ := rep.checkBody joined
      simp [reaped, Reaper.node, dead]
  | false => simp [rep.checkBody_of_failure joined]

/-- `clean_threads` empties the list if all joins succeed. -/
theorem cleanLoop_of_success (rep : reaper.Represents clients nodes blocks)
    (joined : ∀ client ∈ clients, joins client.thread.threadId = true) {fuel : Nat}
    (enough : clients.length ≤ fuel) :
    ReapsExactly reaper nodes blocks clients [] (cleanLoop joins fuel reaper) := by
  induction clients generalizing reaper fuel with
  | nil =>
      have empty : reaper.clientThreads.slhFirst = none := rep.list.slhFirst
      refine ⟨reaper, ?_, rep, .none rfl rfl⟩
      cases fuel <;> simp [cleanLoop, empty]
  | cons client clients ih =>
      obtain ⟨fuel, rfl⟩ := Nat.exists_eq_add_of_lt enough
      have first : reaper.clientThreads.slhFirst = some client.node := rep.list.slhFirst
      obtain ⟨middle, body, rep', calls⟩ := rep.cleanBody (joined client List.mem_cons_self)
      obtain ⟨reaper', loop, rep'', calls'⟩ := ih rep'
        (fun other member => joined other (List.mem_cons_of_mem _ member))
        (Nat.le_add_right _ fuel)
      refine ⟨reaper', ?_, rep'', calls.trans calls'⟩
      simpa [cleanLoop, first, body, bind, Except.bind] using loop

/-- At the first join that fails it uses a null pointer. -/
theorem cleanLoop_of_failure (rep : reaper.Represents clients nodes blocks)
    (failed : ∃ client ∈ clients, joins client.thread.threadId = false) {fuel : Nat}
    (enough : clients.length ≤ fuel) : cleanLoop joins fuel reaper = .error .badThreadData := by
  induction clients generalizing reaper fuel with
  | nil =>
      obtain ⟨_, member, _⟩ := failed
      contradiction
  | cons client clients ih =>
      obtain ⟨fuel, rfl⟩ := Nat.exists_eq_add_of_lt enough
      have first : reaper.clientThreads.slhFirst = some client.node := rep.list.slhFirst
      cases joined : joins client.thread.threadId with
      | false => simp [cleanLoop, first, rep.cleanBody_of_failure joined, bind, Except.bind]
      | true =>
          obtain ⟨middle, body, rep', _⟩ := rep.cleanBody joined
          have later : ∃ client ∈ clients, joins client.thread.threadId = false := by
            obtain ⟨other, member, fails⟩ := failed
            rcases List.mem_cons.mp member with rfl | member
            · rw [joined] at fails
              contradiction
            · exact ⟨other, member, fails⟩
          have loop := ih rep' later (Nat.le_add_right _ fuel)
          simpa [cleanLoop, first, body, bind, Except.bind] using loop

/-- `check_completed_threads` without a completed node. -/
theorem checkCompletedThreads_of_running (rep : reaper.Represents clients nodes blocks)
    (running : ∀ client ∈ clients, client.thread.threadCompleteSuccess = false) (locks : Bool)
    (joins : Nat → Bool) : checkCompletedThreads locks joins reaper = .ok reaper := by
  cases locks with
  | false => rfl
  | true =>
      obtain ⟨fuel, enough⟩ := Nat.exists_eq_add_of_le rep.length_le
      have rep' : reaper.Represents ([] ++ (clients ++ [])) nodes blocks := by simpa using rep
      have passes : checkLoop joins (clients.length + fuel)
            (Slist.firstOf ((clients ++ []).map Client.entry) none) reaper =
          checkLoop joins fuel none reaper := rep'.checkLoop_skip running fuel
      rw [List.append_nil, ← rep.list.slhFirst, ← enough] at passes
      rw [checkCompletedThreads, if_neg Bool.noConfusion, passes]
      cases fuel <;> rfl

/-- With the lock and a completed node it ends with a fault: it frees the first one and reads
its link, unless the join has failed before. -/
theorem checkCompletedThreads_of_completed
    (rep : reaper.Represents (before ++ client :: after) nodes blocks)
    (running : ∀ client ∈ before, client.thread.threadCompleteSuccess = false)
    (completed : client.thread.threadCompleteSuccess = true) (joins : Nat → Bool) :
    checkCompletedThreads true joins reaper =
      .error (if joins client.thread.threadId then .badNode else .badThreadData) := by
  have bound := rep.length_le
  rw [List.length_append, List.length_cons] at bound
  obtain ⟨fuel, enough⟩ := Nat.exists_eq_add_of_le bound
  rw [checkCompletedThreads, if_neg Bool.noConfusion, enough, Nat.add_assoc,
    Nat.add_right_comm]
  exact rep.checkLoop_of_completed running completed _

/-- A function that has called nothing has reaped nothing. -/
theorem reaped_eq_nil {reaped kept : List Client}
    (exact : ReapsExactly reaper nodes blocks reaped kept (.ok reaper)) : reaped = [] := by
  obtain ⟨reaper', same, _, calls⟩ := exact
  obtain rfl := Except.ok.inj same
  have joined := calls.joined_eq
  rw [List.self_eq_append_right, List.map_eq_nil_iff] at joined
  exact joined

theorem checkCompletedThreads_iff (rep : reaper.Represents clients nodes blocks) (locks : Bool)
    (joins : Nat → Bool) :
    ReapsExactly reaper nodes blocks
        (clients.filter fun client => client.thread.threadCompleteSuccess)
        (clients.filter fun client => !client.thread.threadCompleteSuccess)
        (checkCompletedThreads locks joins reaper) ↔
      ∀ client ∈ clients, client.thread.threadCompleteSuccess = false := by
  constructor
  · intro exact
    cases locks with
    | false =>
        have none := reaped_eq_nil exact
        simpa using none
    | true =>
        by_contra completed
        have found :
            (clients.find? fun client => client.thread.threadCompleteSuccess).isSome := by
          simpa using completed
        obtain ⟨client, first⟩ := Option.isSome_iff_exists.mp found
        obtain ⟨isCompleted, before, after, rfl, running⟩ :=
          List.find?_eq_some_iff_append.mp first
        obtain ⟨reaper', ended, _⟩ := exact
        rw [rep.checkCompletedThreads_of_completed (by simpa using running) isCompleted] at ended
        contradiction
  · intro running
    have none : (clients.filter fun client => client.thread.threadCompleteSuccess) = [] := by
      simpa using running
    have all : (clients.filter fun client => !client.thread.threadCompleteSuccess) = clients := by
      simpa using running
    rw [rep.checkCompletedThreads_of_running running, none, all]
    exact ⟨reaper, rfl, rep, .none rfl rfl⟩

theorem cleanThreads_iff (rep : reaper.Represents clients nodes blocks) (locks : Bool)
    (joins : Nat → Bool) :
    ReapsExactly reaper nodes blocks clients [] (cleanThreads locks joins reaper) ↔
      clients = [] ∨ locks = true ∧ ∀ client ∈ clients, joins client.thread.threadId = true := by
  cases locks with
  | false =>
      simp only [cleanThreads, if_true, Bool.false_eq_true, false_and, or_false]
      constructor
      · exact reaped_eq_nil
      · rintro rfl
        exact ⟨reaper, rfl, rep, .none rfl rfl⟩
  | true =>
      rw [cleanThreads, if_neg Bool.noConfusion]
      constructor
      · rintro ⟨reaper', ended, _⟩
        refine Or.inr ⟨rfl, ?_⟩
        by_contra failed
        rw [rep.cleanLoop_of_failure (by simpa using failed) rep.length_le] at ended
        contradiction
      · rintro (rfl | ⟨_, joined⟩)
        · exact rep.cleanLoop_of_success (fun client member => by contradiction) (Nat.zero_le _)
        · exact rep.cleanLoop_of_success joined rep.length_le

end Reaper.Represents

/-! ## The list of the process -/

/-- The memory behind the list the machines of `check_completed_threads` and
`clean_threads` work on, where a node is its number. -/
structure Reaper.Refines (reaper : Reaper) (list : Clients) (clients : List Client)
    (nodes : List (Nat × List (Element ClientThread))) (blocks : List (Nat × List ThreadData)) :
    Prop where
  rep : reaper.Represents clients nodes blocks
  linked : list.linked = clients.map Client.node
  threadCompleteSuccess : ∀ client ∈ clients,
    list.threadCompleteSuccess client.node = client.thread.threadCompleteSuccess

namespace Reaper.Refines

variable {reaper reaper' : Reaper} {list : Clients} {clients before after : List Client}
  {client : Client} {nodes : List (Nat × List (Element ClientThread))}
  {blocks : List (Nat × List ThreadData)} {joins : Nat → Bool}

/-- What is left of the list is the list after `Clients.remove`. -/
theorem remove (refines : reaper.Refines list (before ++ client :: after) nodes blocks)
    (rep' : reaper'.Represents (before ++ after) nodes blocks) :
    reaper'.Refines (list.remove client.node) (before ++ after) nodes blocks where
  rep := rep'
  linked := by
    have nodup := refines.rep.list.nodup
    rw [List.map_map] at nodup
    have absent : client.node ∉ before.map Client.node := by
      change ((before ++ client :: after).map Client.node).Nodup at nodup
      rw [List.map_append, List.map_cons] at nodup
      exact fun member => (List.nodup_append.mp nodup).2.2 _ member _ List.mem_cons_self rfl
    rw [Clients.remove, refines.linked, List.map_append, List.map_cons,
      List.erase_append_right _ absent, List.erase_cons_head, List.map_append]
  threadCompleteSuccess other member :=
    refines.threadCompleteSuccess other (mem_of_mem_rest member)

/-- With a successful join, the body of the first loop does to the memory what the
step of the machine does to the list. -/
theorem checkBody (refines : reaper.Refines list (before ++ client :: after) nodes blocks)
    (joined : joins client.thread.threadId = true) :
    ∃ reaper', Server.checkBody joins client.node client.thread.threadId reaper = .ok reaper' ∧
      reaper'.Refines (list.remove client.node) (before ++ after) nodes blocks := by
  obtain ⟨reaper', body, rep', _⟩ := refines.rep.checkBody joined
  exact ⟨reaper', body, refines.remove rep'⟩

/-- So does the body of the second loop, at the first node of the list. -/
theorem cleanBody (refines : reaper.Refines list (client :: clients) nodes blocks)
    (joined : joins client.thread.threadId = true) :
    ∃ reaper', Server.cleanBody joins client.node reaper = .ok reaper' ∧
      reaper'.Refines (list.remove client.node) clients nodes blocks := by
  obtain ⟨reaper', body, rep', _⟩ := refines.rep.cleanBody joined
  have refines' : reaper.Refines list ([] ++ client :: clients) nodes blocks := refines
  exact ⟨reaper', body, refines'.remove rep'⟩

end Reaper.Refines

/-- For every list of client threads, whatever the lock and the joins return:
`check_completed_threads` reaps the completed nodes exactly if and only if there are
none, and `clean_threads` reaps all of them if and only if the list is empty or the
lock is obtained and every join succeeds. -/
theorem reapsExactly_iff {reaper : Reaper} {clients : List Client}
    {nodes : List (Nat × List (Element ClientThread))} {blocks : List (Nat × List ThreadData)}
    (rep : reaper.Represents clients nodes blocks) (locks : Bool) (joins : Nat → Bool) :
    (ReapsExactly reaper nodes blocks
        (clients.filter fun client => client.thread.threadCompleteSuccess)
        (clients.filter fun client => !client.thread.threadCompleteSuccess)
        (checkCompletedThreads locks joins reaper) ↔
      ∀ client ∈ clients, client.thread.threadCompleteSuccess = false) ∧
    (ReapsExactly reaper nodes blocks clients [] (cleanThreads locks joins reaper) ↔
      clients = [] ∨ locks = true ∧ ∀ client ∈ clients, joins client.thread.threadId = true) :=
  ⟨rep.checkCompletedThreads_iff locks joins, rep.cleanThreads_iff locks joins⟩

/-- A list with the only node 0, whose thread returns the only block. -/
def Reaper.single (threadCompleteSuccess : Bool) : Reaper where
  clientThreads := ⟨Heap.empty.alloc [⟨⟨7, 4, threadCompleteSuccess⟩, none⟩], some 0⟩
  threadData := Heap.empty.alloc [⟨4⟩]
  returns _ := 0
  joined := []
  closed := []

theorem Reaper.represents_single (threadCompleteSuccess : Bool) :
    (Reaper.single threadCompleteSuccess).Represents [⟨0, ⟨7, 4, threadCompleteSuccess⟩, 0⟩]
      [] [] where
  list := ⟨rfl, Heap.Owns.empty.alloc _⟩
  data := Heap.Owns.empty.alloc _
  returns client member := by
    obtain rfl := List.mem_singleton.mp member
    rfl

/-- Three clients, of whom the second one is done. -/
def threeClients : List Client :=
  [⟨0, ⟨7, 4, false⟩, 0⟩, ⟨1, ⟨8, 5, true⟩, 1⟩, ⟨2, ⟨9, 6, false⟩, 2⟩]

/-- The list with their nodes. -/
def Reaper.three : Reaper where
  clientThreads := ⟨((Heap.empty.alloc [⟨⟨7, 4, false⟩, some 1⟩]).alloc
    [⟨⟨8, 5, true⟩, some 2⟩]).alloc [⟨⟨9, 6, false⟩, none⟩], some 0⟩
  threadData := ((Heap.empty.alloc [⟨4⟩]).alloc [⟨5⟩]).alloc [⟨6⟩]
  returns thread := thread - 7
  joined := []
  closed := []

theorem Reaper.represents_three : Reaper.three.Represents threeClients [] [] where
  list := ⟨rfl, (((Heap.Owns.empty.alloc _).alloc _).alloc _).perm (List.reverse_perm _).symm⟩
  data := (((Heap.Owns.empty.alloc _).alloc _).alloc _).perm (List.reverse_perm _).symm
  returns client member := by
    simp only [threeClients, List.mem_cons, List.not_mem_nil, or_false] at member
    rcases member with rfl | rfl | rfl <;> rfl

/-- Of these, `clean_threads` reaps all as it should, and `check_completed_threads` does
not. -/
theorem reapsExactly_iff_three :
    ¬ ReapsExactly Reaper.three [] []
        (threeClients.filter fun client => client.thread.threadCompleteSuccess)
        (threeClients.filter fun client => !client.thread.threadCompleteSuccess)
        (checkCompletedThreads true (fun _ => true) Reaper.three) ∧
      ReapsExactly Reaper.three [] [] threeClients []
        (cleanThreads true (fun _ => true) Reaper.three) := by
  obtain ⟨check, clean⟩ := reapsExactly_iff Reaper.represents_three true fun _ => true
  refine ⟨fun exact => ?_, clean.mpr (Or.inr ⟨rfl, fun _ _ => rfl⟩)⟩
  exact absurd (check.mp exact) (by decide)

/-- The same list once the handler is done: the node is freed and its link is read, or,
when the join fails, a pointer is used that has not been delivered.  The second happens
in `clean_threads` too. -/
theorem checkCompletedThreads_reads_freed_node :
    let reaper := Reaper.single true
    let client : Client := ⟨0, ⟨7, 4, true⟩, 0⟩
    reaper.Represents [client] [] [] ∧
      checkCompletedThreads true (fun _ => true) reaper = .error .badNode ∧
      ¬ ReapsExactly reaper [] [] [client] []
        (checkCompletedThreads true (fun _ => true) reaper) ∧
      checkCompletedThreads true (fun _ => false) reaper = .error .badThreadData ∧
      cleanThreads true (fun _ => false) reaper = .error .badThreadData := by
  intro reaper client
  have rep : reaper.Represents ([] ++ client :: []) [] [] := Reaper.represents_single true
  have freed := rep.checkCompletedThreads_of_completed (by simp) rfl fun _ => true
  refine ⟨rep, freed, ?_, rep.checkCompletedThreads_of_completed (by simp) rfl fun _ => false,
    rep.cleanLoop_of_failure ⟨client, by simp, rfl⟩ rep.length_le⟩
  rintro ⟨reaper', ended, _⟩
  have faulted : checkCompletedThreads true (fun _ => true) reaper = .error .badNode := freed
  rw [faulted] at ended
  contradiction

end Aesd.Server
