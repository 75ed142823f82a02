import Aesd.Atomic.Linearizable
import Mathlib.Data.Fintype.Basic

/-!
# Guarded programs get done

The next action of a thread is defined in every state its program can find, or
waits for the lock.  As long as no call returns with the lock, the threads that
have been called can be brought to respond, whatever they have come to: first the
one inside its section, then the others in any order.
-/

namespace Aesd.Atomic

open Aesd.Transition

variable {ι σ ε χ ρ Φ : Type} [AddCommMonoid Φ] [Fintype ι] [DecidableEq ι]

section Safety

variable {rule : Discipline σ ε Φ} {serve : χ → σ → Except ε (ρ × σ)} {Sound : σ → Prop}
  {Admitted : χ → Prop} {program : χ → Program σ ε ρ} {state : Interleaved ι σ ε ρ}
  {served : Served ι σ χ ρ} {view : View ι σ Φ}

namespace Corresponds

omit [DecidableEq ι] in
/-- What one thread still owns is part of the shared state. -/
theorem joins_own (corresponds : Corresponds rule serve Sound Admitted state served view)
    (thread : ι) : ∃ others, rule.joins others (view.frame thread) state.shared := by
  classical
  obtain ⟨others, sumEq, _⟩ := exists_sum_update view.frame thread
  have joins := corresponds.joins
  rw [sumEq, rule.joins_add] at joins
  obtain ⟨middle, _, joinsOwn⟩ := joins
  exact ⟨middle, joinsOwn⟩

omit [DecidableEq ι] in
/-- The next action of a thread can be performed, or waits for the lock. -/
theorem performs_or_waits (corresponds : Corresponds rule serve Sound Admitted state served view)
    {thread : ι} {β : Type} {action : σ → Except ε (β × σ)} {next : β → Program σ ε ρ}
    (running : state.thread thread = some (.act action next)) :
    (∃ outcome, action state.shared = .ok outcome) ∨
      rule.locked state.shared = true ∧ action state.shared = .error rule.wait := by
  have tracks := corresponds.tracks thread
  rw [running] at tracks
  generalize served.stage thread = stage at tracks
  generalize frameEq : view.frame thread = frame at tracks
  cases tracks with
  | before outside admitted guarded aloneEq =>
      cases guarded with
      | skip value skips guarded => exact Or.inl ⟨_, skips _⟩
      | enter isLocal takes inside =>
          have taken := takes state.shared
          by_cases locked : rule.locked state.shared = true
          · rw [if_pos locked] at taken
            exact Or.inr ⟨locked, taken⟩
          · rw [if_neg locked] at taken
            obtain ⟨value, state', performed, _⟩ := taken
            exact Or.inl ⟨_, performed⟩
  | inside holds locked inside alone =>
      obtain ⟨value, rest', onRest, _⟩ := Program.alone_act_eq_ok_iff.mp alone
      cases inside with
      | act isLocal _ _ =>
          obtain ⟨shared', performed, _⟩ := isLocal corresponds.joins onRest
          exact Or.inl ⟨_, performed⟩
      | leave isLocal _ _ =>
          obtain ⟨shared', performed, _⟩ := isLocal corresponds.joins onRest
          exact Or.inl ⟨_, performed⟩
  | after outside settles =>
      obtain ⟨others, joinsOwn⟩ := corresponds.joins_own thread
      rw [frameEq] at joinsOwn
      cases settles with
      | act value frame' acts _ =>
          obtain ⟨shared', performed, _⟩ := acts joinsOwn
          exact Or.inl ⟨_, performed⟩

omit [DecidableEq ι] in
/-- If no call returns with the lock, one of the threads that have been called gets
to its end by itself. -/
theorem exists_able (corresponds : Corresponds rule serve Sound Admitted state served view)
    (implements : Implements rule program serve Sound Admitted)
    (unlocked : ∀ shared, Sound shared → rule.locked shared = false) {thread : ι}
    (busy : state.thread thread ≠ none) :
    ∃ able left reply final, state.thread able = some left ∧
      left.alone state.shared = .ok (reply, final) := by
  cases holder : view.holder with
  | some inside =>
      have tracks := corresponds.tracks inside
      rw [holder] at tracks
      generalize running : state.thread inside = left at tracks
      generalize served.stage inside = stage at tracks
      generalize view.frame inside = frame at tracks
      cases tracks with
      | idle outside => exact absurd rfl outside
      | before outside _ _ _ => exact absurd rfl outside
      | inside _ _ isInside alone =>
          obtain ⟨final, finishes, _⟩ := isInside.alone_local corresponds.joins alone
          exact ⟨inside, _, _, _, running, finishes⟩
      | after outside _ => exact absurd rfl outside
  | none =>
      have restEq := corresponds.free holder
      have tracks := corresponds.tracks thread
      generalize running : state.thread thread = left at tracks
      generalize served.stage thread = stage at tracks
      generalize frameEq : view.frame thread = frame at tracks
      cases tracks with
      | idle _ => exact absurd running busy
      | before _ admitted guarded aloneEq =>
          obtain ⟨reply, final, serves, _⟩ :=
            implements.serves admitted corresponds.sound (unlocked _ corresponds.sound)
          have alone := (aloneEq served.shared).trans serves
          rw [restEq] at alone
          obtain ⟨final', finishes, _⟩ := guarded.alone_local corresponds.joins alone
          exact ⟨thread, _, _, _, running, finishes⟩
      | inside holds _ _ _ =>
          rw [holder] at holds
          contradiction
      | after _ settles =>
          obtain ⟨others, joinsOwn⟩ := corresponds.joins_own thread
          rw [frameEq] at joinsOwn
          exact ⟨thread, _, _, _, running, settles.alone joinsOwn⟩

end Corresponds

end Safety

/-! ## Responses -/

/-- The caller does nothing. -/
def Event.isOwn {ι χ ρ : Type} : Event ι χ ρ → Bool
  | .invoke .. => false
  | .advance _ => true
  | .respond .. => true

variable [DecidableEq ρ] {program : χ → Program σ ε ρ}

omit [AddCommMonoid Φ] [Fintype ι] in
/-- A thread that is left to itself performs what is left of its program, and
responds. -/
theorem Interleaved.exec_alone {state : Interleaved ι σ ε ρ} {thread : ι}
    {left : Program σ ε ρ} {reply : ρ} {final : σ} (running : state.thread thread = some left)
    (alone : left.alone state.shared = .ok (reply, final)) :
    ∃ events : List (Event ι χ ρ), (∀ event ∈ events, event.isOwn = true) ∧
      exec (Interleaved.step program) events state =
        some ({ state with shared := final }.withThread thread none) := by
  induction left generalizing state with
  | done _ =>
      cases alone
      refine ⟨[.respond thread reply], by simp [Event.isOwn], ?_⟩
      rw [exec_cons, step_of_moves (.respond thread reply running)]
      rfl
  | act action next ih =>
      obtain ⟨value, shared, performed, finishes⟩ := Program.alone_act_eq_ok_iff.mp alone
      let advanced := ({ state with shared := shared } : Interleaved ι σ ε ρ).withThread thread
        (some (next value))
      have advances : Interleaved.step program (.advance thread) state = some advanced :=
        Interleaved.step_of_moves (.advance thread running performed)
      have ahead : advanced.thread thread = some (next value) :=
        by simp [advanced, Interleaved.withThread]
      obtain ⟨events, own, executed⟩ := ih value ahead finishes
      refine ⟨.advance thread :: events, ?_, ?_⟩
      · intro event member
        rcases List.mem_cons.mp member with rfl | later
        · rfl
        · exact own event later
      · rw [exec_cons, advances]
        refine Eq.trans executed ?_
        simp [advanced, Interleaved.withThread]

/-- The number of threads that have been called and have not responded. -/
def Interleaved.busy (state : Interleaved ι σ ε ρ) : Finset ι :=
  Finset.univ.filter fun thread => (state.thread thread).isSome

omit [DecidableEq ι] [DecidableEq ρ] in
theorem Interleaved.mem_busy_iff (state : Interleaved ι σ ε ρ) (thread : ι) :
    thread ∈ state.busy ↔ state.thread thread ≠ none := by
  rw [busy, Finset.mem_filter_univ, Option.isSome_iff_ne_none]

omit [DecidableEq ρ] in
/-- A response leaves one thread less. -/
theorem Interleaved.busy_withThread (state : Interleaved ι σ ε ρ) (thread : ι) :
    (state.withThread thread none).busy = state.busy.erase thread := by
  ext other
  rw [Finset.mem_erase, mem_busy_iff, mem_busy_iff]
  by_cases same : other = thread
  · subst other
    simp [withThread]
  · simp [withThread, same]

/-- If no call returns with the lock, the threads can all be brought to respond, from
any point of any run. -/
theorem Corresponds.finish {rule : Discipline σ ε Φ} {serve : χ → σ → Except ε (ρ × σ)}
    {Sound : σ → Prop} {Admitted : χ → Prop} {state : Interleaved ι σ ε ρ}
    {served : Served ι σ χ ρ} {view : View ι σ Φ}
    (corresponds : Corresponds rule serve Sound Admitted state served view)
    (implements : Implements rule program serve Sound Admitted)
    (unlocked : ∀ shared, Sound shared → rule.locked shared = false) :
    ∃ events target, exec (Interleaved.step program) events state = some target ∧
      (∀ event ∈ events, event.isOwn = true) ∧ ∀ thread, target.thread thread = none := by
  induction size : state.busy.card generalizing state served view with
  | zero =>
      refine ⟨[], state, rfl, by simp, fun thread => ?_⟩
      have notBusy : thread ∉ state.busy := by simp [Finset.card_eq_zero.mp size]
      rw [Interleaved.mem_busy_iff] at notBusy
      exact not_not.mp notBusy
  | succ count ih =>
      obtain ⟨thread, isBusy⟩ := Finset.card_pos.mp (show 0 < state.busy.card by omega)
      have called := (state.mem_busy_iff thread).mp isBusy
      obtain ⟨able, left, reply, final, running, alone⟩ :=
        corresponds.exists_able implements unlocked called
      obtain ⟨events, own, executed⟩ : ∃ events : List (Event ι χ ρ), _ ∧
          exec (Interleaved.step program) events state = _ :=
        Interleaved.exec_alone running alone
      obtain ⟨_, served', view', _, _, corresponds'⟩ :=
        corresponds.run implements executed fun other call member => by
          have isOwn := own _ member
          contradiction
      have ableBusy : able ∈ state.busy := by simp [Interleaved.mem_busy_iff, running]
      have fewer : (({ state with shared := final } : Interleaved ι σ ε ρ).withThread able
          none).busy.card = count := by
        have sameBusy : ({ state with shared := final } : Interleaved ι σ ε ρ).busy = state.busy :=
          rfl
        rw [Interleaved.busy_withThread, sameBusy, Finset.card_erase_of_mem ableBusy]
        omega
      obtain ⟨others, target, finishes, othersOwn, quiet⟩ := ih corresponds' fewer
      refine ⟨events ++ others, target, ?_, ?_, quiet⟩
      · rw [exec_append, executed]
        exact finishes
      · intro event member
        rcases List.mem_append.mp member with early | late
        · exact own event early
        · exact othersOwn event late

end Aesd.Atomic
