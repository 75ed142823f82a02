import Aesd.Atomic.Linearizable

/-!
# The order in which calls take effect

Served calls take effect one after the other.  This module reads the order off a
run: performed in it, each call gets the reply its thread hands out, every thread
finds its own calls in the order in which it was called, and a call that returned
before another one started comes before it.
-/

namespace Aesd.Atomic

open Aesd.Transition

variable {ι σ ε χ ρ : Type} [DecidableEq ι]

/-- A call with its thread and its reply. -/
structure Performed (ι χ ρ : Type) where
  thread : ι
  call : χ
  reply : ρ

/-- Perform a call, if this is its reply. -/
def inOrder [DecidableEq ρ] (serve : χ → σ → Except ε (ρ × σ)) : Step (Performed ι χ ρ) σ :=
  fun performed state =>
    match serve performed.call state with
    | .error _ => none
    | .ok (reply, state') => if reply = performed.reply then some state' else none

omit [DecidableEq ι] in
theorem inOrder_eq_some_iff [DecidableEq ρ] {serve : χ → σ → Except ε (ρ × σ)}
    {performed : Performed ι χ ρ} {state state' : σ} :
    inOrder serve performed state = some state' ↔
      serve performed.call state = .ok (performed.reply, state') := by
  unfold inOrder
  cases serve performed.call state with
  | error stop => simp
  | ok result =>
      obtain ⟨reply, after⟩ := result
      by_cases same : reply = performed.reply <;> simp [same]

/-- The calls a thread has got. -/
def callsOf (thread : ι) (events : List (Event ι χ ρ)) : List χ :=
  events.filterMap fun event =>
    match event with
    | .invoke other call => if other = thread then some call else none
    | _ => none

/-- The replies a thread has given. -/
def repliesOf (thread : ι) (events : List (Event ι χ ρ)) : List ρ :=
  events.filterMap fun event =>
    match event with
    | .respond other reply => if other = thread then some reply else none
    | _ => none

/-- The call that has not taken effect yet. -/
def Stage.waiting : Stage χ ρ → List χ
  | .invoked call => [call]
  | _ => []

/-- The reply that has not been given yet. -/
def Stage.unsent : Stage χ ρ → List ρ
  | .answered reply => [reply]
  | _ => []

/-- The calls of one thread. -/
def ofThread (thread : ι) (order : List (Performed ι χ ρ)) : List (Performed ι χ ρ) :=
  order.filter fun performed => decide (performed.thread = thread)

/-- The calls that have taken effect are those each thread has got, and the replies
are those it has given, up to what is under way. -/
structure Accounts (order : List (Performed ι χ ρ)) (events : List (Event ι χ ρ))
    (stage : ι → Stage χ ρ) : Prop where
  calls : ∀ thread, callsOf thread events =
    (ofThread thread order).map Performed.call ++ (stage thread).waiting
  replies : ∀ thread, (ofThread thread order).map Performed.reply =
    repliesOf thread events ++ (stage thread).unsent

/-- The order accounts for the events, and part of it for each beginning of them: what
has been answered by then is in this part, and what has not been called by then is
not. -/
structure Explains (order : List (Performed ι χ ρ)) (events : List (Event ι χ ρ))
    (stage : ι → Stage χ ρ) : Prop where
  accounts : Accounts order events stage
  cut : ∀ early late, events = early ++ late →
    ∃ first second stage', order = first ++ second ∧ Accounts first early stage'

/-- A call in the order has been made. -/
theorem Accounts.invoked {order : List (Performed ι χ ρ)} {events : List (Event ι χ ρ)}
    {stage : ι → Stage χ ρ} (accounts : Accounts order events stage)
    {performed : Performed ι χ ρ} (member : performed ∈ order) :
    .invoke performed.thread performed.call ∈ events := by
  have called : performed.call ∈ callsOf performed.thread events := by
    rw [accounts.calls]
    apply List.mem_append_left
    exact List.mem_map_of_mem (List.mem_filter.mpr ⟨member, by simp⟩)
  obtain ⟨event, inEvents, isCall⟩ := List.mem_filterMap.mp called
  cases event with
  | invoke thread call =>
      by_cases same : thread = performed.thread
      · simp only [same, if_true, Option.some.injEq] at isCall
        rw [← isCall, ← same]
        exact inEvents
      · simp [same] at isCall
  | advance thread => cases isCall
  | respond thread reply => cases isCall

/-- Only visible events count. -/
theorem callsOf_visible (thread : ι) (events : List (Event ι χ ρ)) :
    callsOf thread (events.filter Event.visible) = callsOf thread events := by
  unfold callsOf
  rw [List.filterMap_filter]
  congr 1
  funext event
  cases event <;> rfl

theorem repliesOf_visible (thread : ι) (events : List (Event ι χ ρ)) :
    repliesOf thread (events.filter Event.visible) = repliesOf thread events := by
  unfold repliesOf
  rw [List.filterMap_filter]
  congr 1
  funext event
  cases event <;> rfl

/-- What explains some events explains all that look like them. -/
theorem Explains.congr {order : List (Performed ι χ ρ)} {events events' : List (Event ι χ ρ)}
    {stage : ι → Stage χ ρ} (explains : Explains order events' stage)
    (visible : events'.filter Event.visible = events.filter Event.visible) :
    Explains order events stage := by
  have accountsCongr : ∀ {order : List (Performed ι χ ρ)} {first second : List (Event ι χ ρ)}
      {stage : ι → Stage χ ρ}, first.filter Event.visible = second.filter Event.visible →
      Accounts order first stage → Accounts order second stage := by
    intro order first second stage same accounts
    constructor
    · intro thread
      rw [← callsOf_visible, ← same, callsOf_visible]
      exact accounts.calls thread
    · intro thread
      rw [accounts.replies, ← repliesOf_visible, same, repliesOf_visible]
  refine ⟨accountsCongr visible explains.accounts, ?_⟩
  rintro early late rfl
  rw [List.filter_append, List.filter_eq_append_iff] at visible
  obtain ⟨early', late', split, sameEarly, _⟩ := visible
  obtain ⟨first, second, stage', orderEq, accounts⟩ := explains.cut early' late' split
  exact ⟨first, second, stage', orderEq, accountsCongr sameEarly accounts⟩

namespace Served

variable [DecidableEq ρ] {serve : χ → σ → Except ε (ρ × σ)} {shared : σ}
  {events : List (Event ι χ ρ)}
  {served : Served ι σ χ ρ}

/-- One event; a call that takes effect comes last in the order. -/
theorem accounts_step {order : List (Performed ι χ ρ)} {target : Served ι σ χ ρ}
    {event : Event ι χ ρ} (performed : exec (inOrder serve) order shared = some served.shared)
    (accounts : Accounts order events served.stage) (moves : Moves serve served event target) :
    ∃ added, exec (inOrder serve) (order ++ added) shared = some target.shared ∧
      Accounts (order ++ added) (events ++ [event]) target.stage := by
  have calls := accounts.calls
  have replies := accounts.replies
  cases moves with
  | invoke thread call idle =>
      rw [← List.append_nil order] at performed
      refine ⟨[], performed, ?_, ?_⟩
      · intro other
        by_cases same : other = thread
        · subst other
          have before := calls thread
          rw [idle] at before
          simpa [callsOf, withStage, Stage.waiting] using before
        · simpa [callsOf, withStage, same, Ne.symm same] using calls other
      · intro other
        by_cases same : other = thread
        · subst other
          have before := replies thread
          rw [idle] at before
          simpa [repliesOf, withStage, Stage.unsent] using before
        · simpa [repliesOf, withStage, same] using replies other
  | advance thread invoked serves =>
      rename_i call reply shared'
      refine ⟨[⟨thread, call, reply⟩], ?_, ?_, ?_⟩
      · rw [exec_concat_eq_some_iff]
        exact ⟨served.shared, performed, by simp [inOrder, serves, withStage]⟩
      · intro other
        by_cases same : other = thread
        · subst other
          have before := calls thread
          rw [invoked] at before
          simpa [callsOf, ofThread, withStage, Stage.waiting] using before
        · simpa [callsOf, ofThread, withStage, same, Ne.symm same] using calls other
      · intro other
        by_cases same : other = thread
        · subst other
          have before := replies thread
          rw [invoked] at before
          simpa [repliesOf, ofThread, withStage, Stage.unsent] using before
        · simpa [repliesOf, ofThread, withStage, same, Ne.symm same] using replies other
  | respond thread reply answered =>
      rw [← List.append_nil order] at performed
      refine ⟨[], performed, ?_, ?_⟩
      · intro other
        by_cases same : other = thread
        · subst other
          have before := calls thread
          rw [answered] at before
          simpa [callsOf, withStage, Stage.waiting] using before
        · simpa [callsOf, withStage, same] using calls other
      · intro other
        by_cases same : other = thread
        · subst other
          have before := replies thread
          rw [answered] at before
          simpa [repliesOf, withStage, Stage.unsent] using before
        · simpa [repliesOf, withStage, same, Ne.symm same] using replies other

/-- In every run of served calls, some order explains what has happened. -/
theorem exists_order (executed : exec (step serve) events (start shared) = some served) :
    ∃ order, exec (inOrder serve) order shared = some served.shared ∧
      Explains order events served.stage := by
  induction events using List.reverseRecOn generalizing served with
  | nil =>
      cases executed
      have accounts : Accounts ([] : List (Performed ι χ ρ)) [] fun _ => .idle :=
        ⟨fun _ => rfl, fun _ => rfl⟩
      refine ⟨[], rfl, accounts, ?_⟩
      intro early late split
      obtain ⟨rfl, rfl⟩ := List.append_eq_nil_iff.mp split.symm
      exact ⟨[], [], _, rfl, accounts⟩
  | append_singleton events event ih =>
      obtain ⟨middle, first, last⟩ := (exec_concat_eq_some_iff _ _ _ _ _).mp executed
      obtain ⟨order, performed, explains⟩ := ih first
      obtain ⟨added, performed', accounts'⟩ :=
        accounts_step performed explains.accounts (moves_of_step last)
      refine ⟨order ++ added, performed', accounts', ?_⟩
      intro early late split
      rcases List.eq_nil_or_concat late with rfl | ⟨late, final, rfl⟩
      · rw [List.append_nil] at split
        rw [← split]
        exact ⟨order ++ added, [], _, by simp, accounts'⟩
      · rw [List.concat_eq_append, ← List.append_assoc] at split
        obtain ⟨before, _⟩ := List.append_inj' split rfl
        obtain ⟨first, second, stage, rfl, accounts⟩ := explains.cut early late before
        exact ⟨first, second ++ added, stage, by simp, accounts⟩

end Served

/-! ## Orders of guarded programs -/

section Guarded

variable {Φ : Type} [AddCommMonoid Φ] [Fintype ι] [DecidableEq ρ] {rule : Discipline σ ε Φ}
  {program : χ → Program σ ε ρ} {serve : χ → σ → Except ε (ρ × σ)} {Sound : σ → Prop}
  {Admitted : χ → Prop} {shared : σ} {events : List (Event ι χ ρ)}
  {state : Interleaved ι σ ε ρ}

/-- Threads that run guarded programs behave like their calls in some order. -/
theorem Implements.exists_order (implements : Implements rule program serve Sound Admitted)
    (sound : Sound shared)
    (executed : exec (Interleaved.step program) events (Interleaved.start shared) = some state)
    (admitted : ∀ thread call, .invoke thread call ∈ events → Admitted call) :
    ∃ order served view, exec (inOrder serve) order shared = some served.shared ∧
      Explains order events served.stage ∧
      Corresponds rule serve Sound Admitted state served view := by
  obtain ⟨events', served, view, executed', visible, corresponds⟩ :=
    (Corresponds.start sound).run implements executed admitted
  obtain ⟨order, performed, explains⟩ := Served.exists_order executed'
  exact ⟨order, served, view, performed, explains.congr visible, corresponds⟩

omit [DecidableEq ι] [DecidableEq ρ] in
/-- A thread without a call is idle. -/
theorem Corresponds.stage_eq_idle {served : Served ι σ χ ρ} {view : View ι σ Φ}
    (corresponds : Corresponds rule serve Sound Admitted state served view) {thread : ι}
    (idle : state.thread thread = none) : served.stage thread = .idle := by
  have tracks := corresponds.tracks thread
  rw [idle] at tracks
  generalize served.stage thread = stage at tracks
  generalize view.frame thread = frame at tracks
  cases tracks with
  | idle _ => rfl

end Guarded

end Aesd.Atomic
