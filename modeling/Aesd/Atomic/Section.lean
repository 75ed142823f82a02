import Aesd.Atomic.Core
import Mathlib.Algebra.Group.Basic

/-!
# Programs with one critical section

A discipline says which states are locked and how resources that belong to single
threads are part of the shared state.  An action is local when it does the same
whether or not some resources of others are around; this is all a program has to
know about the other threads.

A guarded program touches nothing until it takes the lock, performs local actions
while it holds it, and after it has released the lock uses up resources of its own
only.  It may also return with the lock.
-/

namespace Aesd.Atomic

/-- A lock, and what it does not protect: `joins rest frame whole` says that the
state `whole` is `rest` together with the resources `frame`. -/
structure Discipline (σ ε Φ : Type) [AddCommMonoid Φ] where
  locked : σ → Bool
  /-- Why a thread cannot take the lock while it is held. -/
  wait : ε
  joins : σ → Φ → σ → Prop
  joins_zero : ∀ {rest whole}, joins rest 0 whole ↔ whole = rest
  joins_add : ∀ {rest whole first second}, joins rest (first + second) whole ↔
    ∃ middle, joins rest first middle ∧ joins middle second whole
  locked_eq : ∀ {rest frame whole}, joins rest frame whole → locked whole = locked rest

namespace Discipline

variable {σ ε Φ α β ρ : Type} [AddCommMonoid Φ] (rule : Discipline σ ε Φ)

/-! ## Actions -/

/-- The action does the same with resources of others around, and leaves them
alone. -/
def Local (action : σ → Except ε (β × σ)) : Prop :=
  ∀ {rest frame whole value rest'}, rule.joins rest frame whole →
    action rest = .ok (value, rest') →
      ∃ whole', action whole = .ok (value, whole') ∧ rule.joins rest' frame whole'

/-- The action leaves the lock as it is. -/
def Keeps (action : σ → Except ε (β × σ)) : Prop :=
  ∀ {state value state'}, action state = .ok (value, state') →
    rule.locked state' = rule.locked state

/-- The action takes the lock, or waits until it is free. -/
def Takes (action : σ → Except ε (β × σ)) : Prop :=
  ∀ state, if rule.locked state then action state = .error rule.wait else
    ∃ value state', action state = .ok (value, state') ∧ rule.locked state' = true

/-- The action gives the lock back. -/
def Frees (action : σ → Except ε (β × σ)) : Prop :=
  ∀ {state value state'}, action state = .ok (value, state') → rule.locked state' = false

/-! ## Programs -/

/-- On exactly the resources `frame`, whatever the rest of the state, the program
uses them up and returns `reply`. -/
inductive Settles : Program σ ε ρ → Φ → ρ → Prop
  | done (reply : ρ) : Settles (.done reply) 0 reply
  | act {β : Type} {action : σ → Except ε (β × σ)} {next : β → Program σ ε ρ} {frame : Φ}
      {reply : ρ} (value : β) (frame' : Φ) :
      (∀ {rest whole}, rule.joins rest frame whole → ∃ whole', action whole = .ok (value, whole') ∧
        rule.joins rest frame' whole') →
      Settles (next value) frame' reply → Settles (.act action next) frame reply

/-- All that the program does when run by itself is to use up some resources. -/
def Concludes (program : Program σ ε ρ) : Prop :=
  ∀ {rest reply final}, program.alone rest = .ok (reply, final) →
    ∃ frame, rule.joins final frame rest ∧ rule.Settles program frame reply

/-- What is left of a guarded program when the lock has been taken. -/
inductive Inside : Program σ ε ρ → Prop
  | done (reply : ρ) : Inside (.done reply)
  | act {β : Type} {action : σ → Except ε (β × σ)} {next : β → Program σ ε ρ} :
      rule.Local action → rule.Keeps action → (∀ value, Inside (next value)) →
      Inside (.act action next)
  | leave {β : Type} {action : σ → Except ε (β × σ)} {next : β → Program σ ε ρ} :
      rule.Local action → rule.Frees action → (∀ value, rule.Concludes (next value)) →
      Inside (.act action next)

/-- A program that accesses the shared state under the lock only. -/
inductive Guarded : Program σ ε ρ → Prop
  | done (reply : ρ) : Guarded (.done reply)
  | skip {β : Type} {action : σ → Except ε (β × σ)} {next : β → Program σ ε ρ} (value : β) :
      (∀ state, action state = .ok (value, state)) → Guarded (next value) →
      Guarded (.act action next)
  | enter {β : Type} {action : σ → Except ε (β × σ)} {next : β → Program σ ε ρ} :
      rule.Local action → rule.Takes action → (∀ value, rule.Inside (next value)) →
      Guarded (.act action next)

variable {rule}

/-! ## Composition -/

/-- Every action of the program is local and leaves the lock as it is. -/
inductive Steady (rule : Discipline σ ε Φ) : Program σ ε α → Prop
  | done (result : α) : Steady rule (.done result)
  | act {β : Type} {action : σ → Except ε (β × σ)} {next : β → Program σ ε α} :
      rule.Local action → rule.Keeps action → (∀ value, Steady rule (next value)) →
      Steady rule (.act action next)

theorem Steady.perform {action : σ → Except ε (β × σ)} (isLocal : rule.Local action)
    (keeps : rule.Keeps action) : rule.Steady (Program.perform action) :=
  .act isLocal keeps .done

/-- A look at what frames do not change. -/
theorem Steady.observe {query : σ → Except ε α}
    (same : ∀ {rest frame whole value}, rule.joins rest frame whole → query rest = .ok value →
      query whole = .ok value) : rule.Steady (Program.observe query) := by
  refine .perform ?_ ?_
  · intro rest frame whole value rest' joins performed
    cases queried : query rest with
    | error stop => simp [queried, Except.map] at performed
    | ok result =>
        simp only [queried, Except.map, Except.ok.injEq, Prod.mk.injEq] at performed
        obtain ⟨rfl, rfl⟩ := performed
        exact ⟨whole, by simp only [same joins queried, Except.map], joins⟩
  · intro state value state' performed
    cases queried : query state with
    | error stop => simp [queried, Except.map] at performed
    | ok result =>
        simp only [queried, Except.map, Except.ok.injEq, Prod.mk.injEq] at performed
        rw [performed.2]

/-- A change next to any frame, which leaves the lock alone. -/
theorem Steady.modify {update : σ → Except ε σ}
    (isLocal : ∀ {rest frame whole rest'}, rule.joins rest frame whole →
      update rest = .ok rest' → ∃ whole', update whole = .ok whole' ∧ rule.joins rest' frame whole')
    (keeps : ∀ {state state'}, update state = .ok state' → rule.locked state' = rule.locked state) :
    rule.Steady (Program.modify update) := by
  refine .perform ?_ ?_
  · intro rest frame whole value rest' joins performed
    cases updated : update rest with
    | error stop => simp [updated, Except.map] at performed
    | ok result =>
        simp only [updated, Except.map, Except.ok.injEq, Prod.mk.injEq, true_and] at performed
        obtain ⟨whole', updatedWhole, joins'⟩ := isLocal joins updated
        exact ⟨whole', by simp only [updatedWhole, Except.map], performed ▸ joins'⟩
  · intro state value state' performed
    cases updated : update state with
    | error stop => simp [updated, Except.map] at performed
    | ok result =>
        simp only [updated, Except.map, Except.ok.injEq, Prod.mk.injEq, true_and] at performed
        rw [← performed, keeps updated]

theorem Steady.bind {program : Program σ ε α} {rest : α → Program σ ε β}
    (first : rule.Steady program) (second : ∀ value, rule.Steady (rest value)) :
    rule.Steady (program >>= rest) := by
  induction first with
  | done result => exact second result
  | act isLocal keeps _ ih => exact .act isLocal keeps ih

theorem Steady.inside {program : Program σ ε ρ} (steady : rule.Steady program) :
    rule.Inside program := by
  induction steady with
  | done result => exact .done result
  | act isLocal keeps _ ih => exact .act isLocal keeps ih

/-- A steady program and then the rest of the section. -/
theorem Steady.bind_inside {program : Program σ ε α} {rest : α → Program σ ε ρ}
    (first : rule.Steady program) (second : ∀ value, rule.Inside (rest value)) :
    rule.Inside (program >>= rest) := by
  induction first with
  | done result => exact second result
  | act isLocal keeps _ ih => exact .act isLocal keeps ih

/-- A program that returns at once concludes. -/
theorem concludes_done (reply : ρ) : rule.Concludes (.done reply : Program σ ε ρ) := by
  intro rest result final finished
  cases finished
  exact ⟨0, rule.joins_zero.mpr rfl, .done reply⟩

/-! ## Results passed on -/

theorem Settles.map {program : Program σ ε α} {frame : Φ} {result : α}
    (settles : rule.Settles program frame result) (function : α → ρ) :
    rule.Settles (program >>= fun result => pure (function result)) frame (function result) := by
  induction settles with
  | done result => exact .done (function result)
  | act value frame' acts _ ih => exact .act value frame' acts ih

theorem Concludes.map {program : Program σ ε α} (concludes : rule.Concludes program)
    (function : α → ρ) :
    rule.Concludes (program >>= fun result => pure (function result)) := by
  intro rest reply final finished
  rw [Program.alone_bind] at finished
  cases alone : program.alone rest with
  | error stop =>
      rw [alone] at finished
      contradiction
  | ok outcome =>
      rw [alone] at finished
      cases finished
      obtain ⟨frame, joins, settles⟩ := concludes alone
      exact ⟨frame, joins, settles.map function⟩

theorem Inside.map {program : Program σ ε α} (inside : rule.Inside program) (function : α → ρ) :
    rule.Inside (program >>= fun result => pure (function result)) := by
  induction inside with
  | done result => exact .done (function result)
  | act isLocal keeps _ ih => exact .act isLocal keeps ih
  | leave isLocal frees concludes =>
      exact .leave isLocal frees fun value => Concludes.map (concludes value) function

/-- The result of a guarded program may be put into another form. -/
theorem Guarded.map {program : Program σ ε α} (guarded : rule.Guarded program)
    (function : α → ρ) :
    rule.Guarded (program >>= fun result => pure (function result)) := by
  induction guarded with
  | done result => exact .done (function result)
  | skip value skips _ ih => exact .skip value skips ih
  | enter isLocal takes inside =>
      exact .enter isLocal takes fun value => (inside value).map function

/-! ## Programs run by themselves -/

/-- What is joined last can be taken away first. -/
theorem joins_comm {rest middle whole : σ} {first second : Φ}
    (joinsFirst : rule.joins rest first middle) (joinsSecond : rule.joins middle second whole) :
    ∃ other, rule.joins rest second other ∧ rule.joins other first whole := by
  rw [← rule.joins_add, add_comm, rule.joins_add]
  exact ⟨middle, joinsFirst, joinsSecond⟩

theorem Settles.alone {program : Program σ ε ρ} {frame : Φ} {reply : ρ}
    (settles : rule.Settles program frame reply) {rest whole : σ}
    (joins : rule.joins rest frame whole) : program.alone whole = .ok (reply, rest) := by
  induction settles generalizing whole with
  | done reply => rw [rule.joins_zero.mp joins, Program.alone]
  | act value frame' acts _ ih =>
      obtain ⟨whole', performed, joins'⟩ := acts joins
      exact Program.alone_act_eq_ok_iff.mpr ⟨value, whole', performed, ih joins'⟩

theorem Concludes.alone_local {program : Program σ ε ρ} (concludes : rule.Concludes program) :
    rule.Local program.alone := by
  intro rest others whole reply final joins finished
  obtain ⟨frame, joinsFrame, settles⟩ := concludes finished
  obtain ⟨final', joins', joinsFrame'⟩ := joins_comm joinsFrame joins
  exact ⟨final', settles.alone joinsFrame', joins'⟩

/-- An action followed by programs that are local. -/
theorem alone_local_act {action : σ → Except ε (β × σ)} {next : β → Program σ ε ρ}
    (isLocal : rule.Local action) (nextLocal : ∀ value, rule.Local (next value).alone) :
    rule.Local (Program.act action next).alone := by
  intro rest frame whole reply final joins finished
  obtain ⟨value, middle, performed, finished⟩ := Program.alone_act_eq_ok_iff.mp finished
  obtain ⟨middle', performed', joins'⟩ := isLocal joins performed
  obtain ⟨final', finished', joinsFinal⟩ := nextLocal value joins' finished
  exact ⟨final', Program.alone_act_eq_ok_iff.mpr ⟨value, middle', performed', finished'⟩,
    joinsFinal⟩

theorem Inside.alone_local {program : Program σ ε ρ} (inside : rule.Inside program) :
    rule.Local program.alone := by
  induction inside with
  | done reply =>
      intro rest frame whole result final joins finished
      cases finished
      exact ⟨whole, rfl, joins⟩
  | act isLocal _ _ ih => exact alone_local_act isLocal ih
  | leave isLocal _ concludes =>
      exact alone_local_act isLocal fun value => Concludes.alone_local (concludes value)

theorem Guarded.alone_local {program : Program σ ε ρ} (guarded : rule.Guarded program) :
    rule.Local program.alone := by
  induction guarded with
  | done reply => exact (Inside.done reply).alone_local
  | skip value skips _ ih =>
      intro rest frame whole reply final joins finished
      obtain ⟨value', middle, performed, finished⟩ := Program.alone_act_eq_ok_iff.mp finished
      rw [skips] at performed
      cases performed
      obtain ⟨final', finished', joins'⟩ := ih joins finished
      exact ⟨final', Program.alone_act_eq_ok_iff.mpr ⟨value, whole, skips whole, finished'⟩, joins'⟩
  | enter isLocal _ inside =>
      exact alone_local_act isLocal fun value => Inside.alone_local (inside value)

end Discipline

end Aesd.Atomic
