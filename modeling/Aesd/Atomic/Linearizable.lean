import Aesd.Atomic.Section
import Mathlib.Algebra.BigOperators.Group.Finset.Basic

/-!
# Guarded programs are linearizable

Threads that run guarded programs look from outside as if each call took effect
at once.  The moment it does is the one at which its thread takes the lock: from
then on until the lock is released the shared state is on its way to the one the
call leaves behind, and what other threads do in the meantime concerns their own
resources only.

`Corresponds` relates the two machines.  Its step lemma answers every event of the
threads by events of the served calls with the same visible part.
-/

namespace Aesd.Atomic

open Aesd.Transition

variable {ι σ ε χ ρ Φ : Type} [AddCommMonoid Φ]

/-- The programs of a discipline implement the calls: from every sound state that
is not locked an admitted call returns and leaves a sound state behind. -/
structure Implements (rule : Discipline σ ε Φ) (program : χ → Program σ ε ρ)
    (serve : χ → σ → Except ε (ρ × σ)) (Sound : σ → Prop) (Admitted : χ → Prop) : Prop where
  guarded : ∀ call, rule.Guarded (program call)
  alone_eq : ∀ call state, (program call).alone state = serve call state
  serves : ∀ {call state}, Admitted call → Sound state → rule.locked state = false →
    ∃ reply state', serve call state = .ok (reply, state') ∧ Sound state'

/-! ## Correspondence -/

/-- How the shared state is made up: the state apart from the resources of the
threads that have left their section, these resources, and the thread inside. -/
structure View (ι σ Φ : Type) where
  rest : σ
  frame : ι → Φ
  holder : Option ι

/-- A thread, its stage, and its resources outside the section.  `final` is the
state the thread inside is going to leave behind. -/
inductive Tracks (rule : Discipline σ ε Φ) (serve : χ → σ → Except ε (ρ × σ))
    (Admitted : χ → Prop) (rest final : σ) (holds : Prop) :
    Option (Program σ ε ρ) → Stage χ ρ → Φ → Prop
  | idle : ¬ holds → Tracks rule serve Admitted rest final holds none .idle 0
  | before {call : χ} {program : Program σ ε ρ} : ¬ holds → Admitted call →
      rule.Guarded program → (∀ state, program.alone state = serve call state) →
      Tracks rule serve Admitted rest final holds (some program) (.invoked call) 0
  | inside {program : Program σ ε ρ} {reply : ρ} : holds → rule.locked rest = true →
      rule.Inside program → program.alone rest = .ok (reply, final) →
      Tracks rule serve Admitted rest final holds (some program) (.answered reply) 0
  | after {program : Program σ ε ρ} {reply : ρ} {frame : Φ} : ¬ holds →
      rule.Settles program frame reply →
      Tracks rule serve Admitted rest final holds (some program) (.answered reply) frame

/-- A thread outside its section does not depend on the state. -/
theorem Tracks.transfer {rule : Discipline σ ε Φ} {serve : χ → σ → Except ε (ρ × σ)}
    {Admitted : χ → Prop} {rest final rest' final' : σ} {holds holds' : Prop}
    {program : Option (Program σ ε ρ)} {stage : Stage χ ρ} {frame : Φ}
    (tracks : Tracks rule serve Admitted rest final holds program stage frame)
    (outside : ¬ holds) (outside' : ¬ holds') :
    Tracks rule serve Admitted rest' final' holds' program stage frame := by
  cases tracks with
  | idle _ => exact .idle outside'
  | before _ admitted guarded aloneEq => exact .before outside' admitted guarded aloneEq
  | inside holds _ _ _ => exact absurd holds outside
  | after _ settles => exact .after outside' settles

section Simulation

variable [Fintype ι] [DecidableEq ι]

/-- The threads of `state` are on the way that `served` is on. -/
structure Corresponds (rule : Discipline σ ε Φ) (serve : χ → σ → Except ε (ρ × σ))
    (Sound : σ → Prop) (Admitted : χ → Prop) (state : Interleaved ι σ ε ρ)
    (served : Served ι σ χ ρ) (view : View ι σ Φ) : Prop where
  joins : rule.joins view.rest (∑ thread, view.frame thread) state.shared
  free : view.holder = none → served.shared = view.rest
  sound : Sound served.shared
  tracks : ∀ thread, Tracks rule serve Admitted view.rest served.shared
    (view.holder = some thread) (state.thread thread) (served.stage thread) (view.frame thread)

variable {rule : Discipline σ ε Φ} {serve : χ → σ → Except ε (ρ × σ)} {Sound : σ → Prop}
  {Admitted : χ → Prop} {program : χ → Program σ ε ρ} {state : Interleaved ι σ ε ρ}
  {served : Served ι σ χ ρ} {view : View ι σ Φ}

/-- The resources of all threads, before and after those of one of them change. -/
theorem exists_sum_update (frame : ι → Φ) (thread : ι) :
    ∃ others, ∑ other, frame other = others + frame thread ∧
      ∀ frame', ∑ other, Function.update frame thread frame' other = others + frame' := by
  have splits (frame : ι → Φ) := Finset.sum_erase_add Finset.univ frame (Finset.mem_univ thread)
  refine ⟨∑ other ∈ Finset.univ.erase thread, frame other, (splits frame).symm, ?_⟩
  intro frame'
  rw [← splits, Function.update_self]
  congr 1
  apply Finset.sum_congr rfl
  intro other member
  exact Function.update_of_ne (Finset.ne_of_mem_erase member) _ _

namespace Corresponds

omit [DecidableEq ι] in
/-- While some thread is inside its section, the state is locked. -/
theorem holder_eq_none (corresponds : Corresponds rule serve Sound Admitted state served view)
    (unlocked : rule.locked view.rest = false) : view.holder = none := by
  cases holder : view.holder with
  | none => rfl
  | some thread =>
      have tracks := corresponds.tracks thread
      rw [holder] at tracks
      generalize state.thread thread = program at tracks
      generalize served.stage thread = stage at tracks
      generalize view.frame thread = frame at tracks
      cases tracks with
      | idle outside => exact absurd rfl outside
      | before outside _ _ _ => exact absurd rfl outside
      | inside _ locked _ _ =>
          rw [unlocked] at locked
          contradiction
      | after outside _ => exact absurd rfl outside

omit [DecidableEq ι] in
theorem locked_eq (corresponds : Corresponds rule serve Sound Admitted state served view) :
    rule.locked state.shared = rule.locked view.rest :=
  rule.locked_eq corresponds.joins

omit [DecidableEq ι] in
theorem start {shared : σ} (sound : Sound shared) :
    Corresponds rule serve Sound Admitted (Interleaved.start shared : Interleaved ι σ ε ρ)
      (Served.start shared) ⟨shared, fun _ => 0, none⟩ where
  joins := by
    rw [Finset.sum_const_zero]
    exact rule.joins_zero.mpr rfl
  free _ := rfl
  sound := sound
  tracks _ := .idle (by simp)

omit [DecidableEq ι] in
/-- When no call is in progress, both machines are in the same state. -/
theorem shared_eq (corresponds : Corresponds rule serve Sound Admitted state served view)
    (quiet : ∀ thread, state.thread thread = none) : state.shared = served.shared := by
  have frames : ∀ thread, view.holder ≠ some thread ∧ view.frame thread = 0 := by
    intro thread
    have tracks := corresponds.tracks thread
    rw [quiet] at tracks
    generalize served.stage thread = stage at tracks
    generalize frameEq : view.frame thread = frame at tracks
    cases tracks with
    | idle outside => exact ⟨outside, rfl⟩
  have nobody : view.holder = none := by
    cases holder : view.holder with
    | none => rfl
    | some thread => exact absurd holder (frames thread).1
  have joins := corresponds.joins
  rw [Finset.sum_eq_zero fun thread _ => (frames thread).2, rule.joins_zero] at joins
  rw [joins, corresponds.free nobody]

/-- One thread moves, and the threads inside are the same or at most this one. -/
theorem move (corresponds : Corresponds rule serve Sound Admitted state served view)
    (thread : ι) {shared' final' : σ} (program' : Option (Program σ ε ρ)) (stage' : Stage χ ρ)
    (rest' : σ) (frame' : Φ) (holder' : Option ι)
    (joins' : rule.joins rest' (∑ other, Function.update view.frame thread frame' other) shared')
    (free' : holder' = none → final' = rest') (sound' : Sound final')
    (self : Tracks rule serve Admitted rest' final' (holder' = some thread) program' stage' frame')
    (others : rest' = view.rest ∧ final' = served.shared ∧ holder' = view.holder ∨
      ∀ other, other ≠ thread → view.holder ≠ some other ∧ holder' ≠ some other) :
    Corresponds rule serve Sound Admitted
      ({ state with shared := shared' }.withThread thread program')
      ({ served with shared := final' }.withStage thread stage')
      ⟨rest', Function.update view.frame thread frame', holder'⟩ where
  joins := joins'
  free := free'
  sound := sound'
  tracks other := by
    by_cases same : other = thread
    · subst other
      simpa [Interleaved.withThread, Served.withStage] using self
    · simp only [Interleaved.withThread, Served.withStage, Function.update_of_ne same]
      have tracks := corresponds.tracks other
      rcases others with ⟨rfl, rfl, rfl⟩ | outside
      · exact tracks
      · exact tracks.transfer (outside other same).1 (outside other same).2

/-- What a step of the threads is answered by. -/
def Answered (rule : Discipline σ ε Φ) (serve : χ → σ → Except ε (ρ × σ)) (Sound : σ → Prop)
    (Admitted : χ → Prop) [DecidableEq ρ] (served : Served ι σ χ ρ) (event : Event ι χ ρ)
    (target : Interleaved ι σ ε ρ) : Prop :=
  ∃ events served' view', exec (Served.step serve) events served = some served' ∧
    events.filter Event.visible = [event].filter Event.visible ∧
    Corresponds rule serve Sound Admitted target served' view'

variable [DecidableEq ρ]

/-- A call. -/
theorem invoke (corresponds : Corresponds rule serve Sound Admitted state served view)
    (implements : Implements rule program serve Sound Admitted) {thread : ι} {call : χ}
    (admitted : Admitted call) (idle : state.thread thread = none) :
    Answered rule serve Sound Admitted served (.invoke thread call)
      (state.withThread thread (some (program call))) := by
  have tracks := corresponds.tracks thread
  rw [idle] at tracks
  generalize stageEq : served.stage thread = stage at tracks
  generalize frameEq : view.frame thread = frame at tracks
  cases tracks with
  | idle outside =>
      refine ⟨[.invoke thread call], _, _, ?_, rfl,
        corresponds.move thread _ _ _ _ _ ?_ corresponds.free corresponds.sound
          (.before outside admitted (implements.guarded call) (implements.alone_eq call))
          (Or.inl ⟨rfl, rfl, rfl⟩)⟩
      · simp only [exec_cons, exec_nil, Served.step, stageEq]
        rfl
      · rw [← frameEq, Function.update_eq_self]
        exact corresponds.joins

/-- One thread moves without being noticed. -/
theorem stay (corresponds : Corresponds rule serve Sound Admitted state served view)
    (thread : ι) {shared' : σ} (program' : Option (Program σ ε ρ)) (rest' : σ) (frame' : Φ)
    (holder' : Option ι) {event : Event ι χ ρ} (invisible : event.visible = false)
    (joins' : rule.joins rest' (∑ other, Function.update view.frame thread frame' other) shared')
    (free' : holder' = none → served.shared = rest')
    (self : Tracks rule serve Admitted rest' served.shared (holder' = some thread) program'
      (served.stage thread) frame')
    (others : rest' = view.rest ∧ holder' = view.holder ∨
      ∀ other, other ≠ thread → view.holder ≠ some other ∧ holder' ≠ some other) :
    Answered rule serve Sound Admitted served event
      ({ state with shared := shared' }.withThread thread program') := by
  have moved := corresponds.move thread program' _ rest' frame' holder' joins' free'
    corresponds.sound self
    (others.imp_left fun same => ⟨same.1, rfl, same.2⟩)
  have sameStage : { served with shared := served.shared }.withStage thread (served.stage thread) =
      served := by
    simp [Served.withStage]
  rw [sameStage] at moved
  exact ⟨[], served, _, rfl, by simp [invisible], moved⟩

/-- An action of a program before its section: nothing happens, or it takes the lock
and the call takes effect. -/
theorem advance_before (corresponds : Corresponds rule serve Sound Admitted state served view)
    (implements : Implements rule program serve Sound Admitted) {thread : ι} {β : Type}
    {action : σ → Except ε (β × σ)} {next : β → Program σ ε ρ} {value : β} {shared : σ} {call : χ}
    (performed : action state.shared = .ok (value, shared))
    (outside : view.holder ≠ some thread) (admitted : Admitted call)
    (guarded : rule.Guarded (.act action next))
    (aloneEq : ∀ state, (Program.act action next).alone state = serve call state)
    (stageEq : served.stage thread = .invoked call) (frameEq : view.frame thread = 0) :
    Answered rule serve Sound Admitted served (.advance thread)
      ({ state with shared := shared }.withThread thread (some (next value))) := by
  have sameFrame : Function.update view.frame thread 0 = view.frame := by
    rw [← frameEq, Function.update_eq_self]
  cases guarded with
  | skip value' skips guarded =>
      rw [skips] at performed
      cases performed
      refine corresponds.stay thread _ view.rest 0 view.holder rfl ?_ corresponds.free ?_
        (Or.inl ⟨rfl, rfl⟩)
      · rw [sameFrame]
        exact corresponds.joins
      · rw [stageEq]
        refine .before outside admitted guarded fun other => ?_
        rw [← aloneEq other]
        simp only [Program.alone, skips]
  | enter isLocal takes inside =>
      have unlocked : rule.locked state.shared = false := by
        by_contra isLocked
        have waits := takes state.shared
        rw [if_pos (by simpa using isLocked), performed] at waits
        contradiction
      have unlockedRest : rule.locked view.rest = false := by
        rw [← corresponds.locked_eq, unlocked]
      have nobody := corresponds.holder_eq_none unlockedRest
      have sharedEq := corresponds.free nobody
      -- the call performed by itself from here
      obtain ⟨reply, final, served_, sound⟩ :=
        implements.serves admitted corresponds.sound (by rw [sharedEq, unlockedRest])
      have alone := (aloneEq served.shared).trans served_
      rw [sharedEq] at alone
      obtain ⟨value', rest', onRest, finishes⟩ := Program.alone_act_eq_ok_iff.mp alone
      obtain ⟨shared', onShared, joins'⟩ := isLocal corresponds.joins onRest
      obtain ⟨rfl, rfl⟩ : value' = value ∧ shared' = shared := by
        rw [performed] at onShared
        cases onShared
        exact ⟨rfl, rfl⟩
      have lockedRest' : rule.locked rest' = true := by
        have taken := takes view.rest
        rw [if_neg (by simp [unlockedRest])] at taken
        obtain ⟨_, _, taken, isLocked⟩ := taken
        rw [onRest] at taken
        cases taken
        exact isLocked
      refine ⟨[.advance thread], _, _, ?_, rfl,
        corresponds.move thread _ (.answered reply) rest' 0 (some thread) ?_
          (fun none => by contradiction) sound
          (.inside rfl lockedRest' (inside value') finishes) (Or.inr ?_)⟩
      · simp only [exec_cons, exec_nil, Served.step, stageEq, served_]
        rfl
      · rw [sameFrame]
        exact joins'
      · intro other differs
        rw [nobody]
        exact ⟨by simp, fun same => differs (Option.some.inj same).symm⟩

/-- An action of the thread inside its section, which may be the last one there. -/
theorem advance_inside (corresponds : Corresponds rule serve Sound Admitted state served view)
    {thread : ι} {β : Type} {action : σ → Except ε (β × σ)} {next : β → Program σ ε ρ} {value : β}
    {shared : σ} {reply : ρ} (performed : action state.shared = .ok (value, shared))
    (holds : view.holder = some thread) (locked : rule.locked view.rest = true)
    (inside : rule.Inside (.act action next))
    (alone : (Program.act action next).alone view.rest = .ok (reply, served.shared))
    (stageEq : served.stage thread = .answered reply) (frameEq : view.frame thread = 0) :
    Answered rule serve Sound Admitted served (.advance thread)
      ({ state with shared := shared }.withThread thread (some (next value))) := by
  have sameFrame : Function.update view.frame thread 0 = view.frame := by
    rw [← frameEq, Function.update_eq_self]
  have onlyHolder (holder' : Option ι) (atMost : holder' = none ∨ holder' = some thread) :
      ∀ other, other ≠ thread → view.holder ≠ some other ∧ holder' ≠ some other := by
    intro other differs
    rw [holds]
    refine ⟨fun same => differs (Option.some.inj same).symm, ?_⟩
    rcases atMost with rfl | rfl
    · simp
    · exact fun same => differs (Option.some.inj same).symm
  obtain ⟨value', rest', onRest, finishes⟩ := Program.alone_act_eq_ok_iff.mp alone
  have sameStep (isLocal : rule.Local action) :
      value' = value ∧ rule.joins rest' (∑ other, view.frame other) shared := by
    obtain ⟨shared', onShared, joins'⟩ := isLocal corresponds.joins onRest
    rw [performed] at onShared
    cases onShared
    exact ⟨rfl, joins'⟩
  cases inside with
  | act isLocal keeps inside =>
      obtain ⟨rfl, joins'⟩ := sameStep isLocal
      refine corresponds.stay thread _ rest' 0 view.holder rfl ?_ ?_ ?_
        (Or.inr (onlyHolder _ (Or.inr holds)))
      · rw [sameFrame]
        exact joins'
      · intro nobody
        rw [holds] at nobody
        contradiction
      · rw [stageEq]
        exact .inside holds ((keeps onRest).trans locked) (inside value') finishes
  | leave isLocal frees concludes =>
      obtain ⟨rfl, joins'⟩ := sameStep isLocal
      obtain ⟨frame', joinsFrame, settles⟩ := concludes value' finishes
      obtain ⟨others, sumEq, updatedEq⟩ := exists_sum_update view.frame thread
      refine corresponds.stay thread _ served.shared frame' none rfl ?_ (fun _ => rfl) ?_
        (Or.inr (onlyHolder none (Or.inl rfl)))
      · rw [updatedEq, add_comm, rule.joins_add]
        rw [sumEq, frameEq, add_zero] at joins'
        exact ⟨rest', joinsFrame, joins'⟩
      · rw [stageEq]
        exact .after (by simp) settles

/-- An action of a thread that has left its section. -/
theorem advance_after (corresponds : Corresponds rule serve Sound Admitted state served view)
    {thread : ι} {β : Type} {action : σ → Except ε (β × σ)} {next : β → Program σ ε ρ} {value : β}
    {shared : σ} {reply : ρ} (performed : action state.shared = .ok (value, shared))
    (outside : view.holder ≠ some thread)
    (settles : rule.Settles (.act action next) (view.frame thread) reply)
    (stageEq : served.stage thread = .answered reply) :
    Answered rule serve Sound Admitted served (.advance thread)
      ({ state with shared := shared }.withThread thread (some (next value))) := by
  obtain ⟨others, sumEq, updatedEq⟩ := exists_sum_update view.frame thread
  have joins := corresponds.joins
  rw [sumEq, rule.joins_add] at joins
  obtain ⟨middle, joinsOthers, joinsOwn⟩ := joins
  generalize view.frame thread = frame at settles joinsOwn
  cases settles with
  | act value' frame' acts settles =>
      obtain ⟨shared', onShared, joins'⟩ := acts joinsOwn
      rw [performed] at onShared
      cases onShared
      refine corresponds.stay thread _ view.rest frame' view.holder rfl ?_ corresponds.free ?_
        (Or.inl ⟨rfl, rfl⟩)
      · rw [updatedEq, rule.joins_add]
        exact ⟨middle, joinsOthers, joins'⟩
      · rw [stageEq]
        exact .after outside settles

/-- A response. -/
theorem respond (corresponds : Corresponds rule serve Sound Admitted state served view)
    {thread : ι} {reply : ρ} (running : state.thread thread = some (.done reply)) :
    Answered rule serve Sound Admitted served (.respond thread reply)
      (state.withThread thread none) := by
  have tracks := corresponds.tracks thread
  rw [running] at tracks
  have sameFrame (frameEq : view.frame thread = 0) :
      rule.joins view.rest (∑ other, Function.update view.frame thread 0 other) state.shared := by
    rw [← frameEq, Function.update_eq_self]
    exact corresponds.joins
  generalize stageEq : served.stage thread = stage at tracks
  generalize frameEq : view.frame thread = frame at tracks
  cases tracks with
  | before outside admitted guarded aloneEq =>
      rename_i call
      -- the program has come to its end without taking the lock
      have unchanged : serve call served.shared = .ok (reply, served.shared) :=
        (aloneEq served.shared).symm
      refine ⟨[.advance thread, .respond thread reply], _, _, ?_, rfl,
        corresponds.move thread none .idle view.rest 0 view.holder (sameFrame frameEq)
          corresponds.free corresponds.sound (.idle outside) (Or.inl ⟨rfl, rfl, rfl⟩)⟩
      simp [exec_cons, Served.step, stageEq, unchanged, Served.withStage]
  | inside holds locked inside alone =>
      -- the lock stays behind
      obtain ⟨rfl, restEq⟩ := Prod.mk.inj (Except.ok.inj alone)
      refine ⟨[.respond thread reply], _, _, ?_, rfl,
        corresponds.move thread none .idle view.rest 0 none (sameFrame frameEq)
          (fun _ => restEq.symm) corresponds.sound (.idle (by simp)) (Or.inr ?_)⟩
      · simp [exec_cons, Served.step, stageEq, Served.withStage]
      · intro other differs
        rw [holds]
        exact ⟨fun same => differs (Option.some.inj same).symm, by simp⟩
  | after outside settles =>
      cases settles
      refine ⟨[.respond thread reply], _, _, ?_, rfl,
        corresponds.move thread none .idle view.rest 0 view.holder (sameFrame frameEq)
          corresponds.free corresponds.sound (.idle outside) (Or.inl ⟨rfl, rfl, rfl⟩)⟩
      simp [exec_cons, Served.step, stageEq, Served.withStage]

/-- Every step of the threads is answered. -/
theorem answered (corresponds : Corresponds rule serve Sound Admitted state served view)
    (implements : Implements rule program serve Sound Admitted) {event : Event ι χ ρ}
    {target : Interleaved ι σ ε ρ} (moves : Interleaved.Moves program state event target)
    (admitted : ∀ thread call, event = .invoke thread call → Admitted call) :
    Answered rule serve Sound Admitted served event target := by
  cases moves with
  | invoke thread call idle => exact corresponds.invoke implements (admitted _ _ rfl) idle
  | respond thread reply running => exact corresponds.respond running
  | advance thread running performed =>
      have tracks := corresponds.tracks thread
      rw [running] at tracks
      generalize stageEq : served.stage thread = stage at tracks
      generalize frameEq : view.frame thread = frame at tracks
      cases tracks with
      | before outside admitted guarded aloneEq =>
          exact corresponds.advance_before implements performed outside admitted guarded aloneEq
            stageEq frameEq
      | inside holds locked inside alone =>
          exact corresponds.advance_inside performed holds locked inside alone stageEq frameEq
      | after outside settles =>
          exact corresponds.advance_after performed outside (frameEq ▸ settles) stageEq

/-- Every run of the threads looks like a run of the served calls, and comes as far
as this one. -/
theorem run (corresponds : Corresponds rule serve Sound Admitted state served view)
    (implements : Implements rule program serve Sound Admitted) {events : List (Event ι χ ρ)}
    {target : Interleaved ι σ ε ρ}
    (executed : exec (Interleaved.step program) events state = some target)
    (admitted : ∀ thread call, .invoke thread call ∈ events → Admitted call) :
    ∃ events' served' view', exec (Served.step serve) events' served = some served' ∧
      events'.filter Event.visible = events.filter Event.visible ∧
      Corresponds rule serve Sound Admitted target served' view' := by
  induction events using List.reverseRecOn generalizing target with
  | nil =>
      cases executed
      exact ⟨[], served, view, rfl, rfl, corresponds⟩
  | append_singleton events event ih =>
      obtain ⟨middle, first, last⟩ := (exec_concat_eq_some_iff _ _ _ _ _).mp executed
      obtain ⟨events', served', view', executed', visible, middleCorresponds⟩ :=
        ih first fun thread call member => admitted thread call (List.mem_append_left _ member)
      obtain ⟨answer, served'', view'', answers, visible', corresponds'⟩ :=
        middleCorresponds.answered implements (Interleaved.moves_of_step last)
          fun thread call same => admitted thread call (by simp [same])
      refine ⟨events' ++ answer, served'', view'', ?_, ?_, corresponds'⟩
      · rw [exec_append, executed']
        exact answers
      · rw [List.filter_append, List.filter_append, visible, visible']

end Corresponds

end Simulation

end Aesd.Atomic
