import Mathlib.Data.List.Forall2
import Mathlib.Data.List.Induction

/-!
# Labelled partial transitions

A step is an option-valued function of a label and a state.  The label carries
everything the system does not decide itself: the thread that is scheduled, the
outcome of a system call, the data a peer sends.  An undefined step is a step
that is not enabled; it is never totalized.

A `Run` is a finite execution all of whose steps are admitted by a condition on
the state before the step and on the label.  Its induction rule is the only way
the invariants of this development are carried along executions.
-/

namespace Aesd.Transition

universe u v

/-- A deterministic partial transition chosen by a label. -/
abbrev Step (ι : Type u) (σ : Type v) := ι → σ → Option σ

variable {ι : Type u} {σ : Type v}

/-- Execute a list of labels from left to right.  Failure of any step
propagates to the result. -/
def exec (next : Step ι σ) : List ι → σ → Option σ
  | [], state => some state
  | label :: rest, state => (next label state).bind (exec next rest)

@[simp]
theorem exec_nil (next : Step ι σ) (state : σ) : exec next [] state = some state :=
  rfl

theorem exec_cons (next : Step ι σ) (label : ι) (rest : List ι) (state : σ) :
    exec next (label :: rest) state = (next label state).bind (exec next rest) :=
  rfl

/-- Execution splits at any concatenation of label lists. -/
theorem exec_append (next : Step ι σ) (first second : List ι) (state : σ) :
    exec next (first ++ second) state =
      (exec next first state).bind (exec next second) := by
  induction first generalizing state with
  | nil => rfl
  | cons label rest ih =>
      rw [List.cons_append, exec_cons, exec_cons, Option.bind_assoc]
      congr 1
      funext middle
      exact ih middle

/-- The last label of a successful execution is a successful step. -/
theorem exec_concat_eq_some_iff (next : Step ι σ) (labels : List ι) (label : ι)
    (source target : σ) :
    exec next (labels ++ [label]) source = some target ↔
      ∃ middle, exec next labels source = some middle ∧
        next label middle = some target := by
  rw [exec_append, Option.bind_eq_some_iff]
  simp [exec_cons, Option.bind_eq_some_iff]

/-- Labels that change nothing can be left out. -/
theorem exec_filter (next : Step ι σ) (keep : ι → Bool)
    (idle : ∀ label, keep label = false → ∀ state, next label state = some state)
    (labels : List ι) (state : σ) :
    exec next (labels.filter keep) state = exec next labels state := by
  induction labels generalizing state with
  | nil => rfl
  | cons label rest ih =>
      cases kept : keep label with
      | false =>
          rw [List.filter_cons_of_neg (by simp [kept]), exec_cons, idle label kept, ih]
          rfl
      | true =>
          rw [List.filter_cons_of_pos kept, exec_cons, exec_cons]
          congr 1
          funext middle
          exact ih middle

/-- A finite execution from `start` each of whose steps satisfies `Admits`, a
condition on the state before the step and on its label. -/
inductive Run (next : Step ι σ) (Admits : σ → ι → Prop) (start : σ) :
    List ι → σ → Prop
  | refl : Run next Admits start [] start
  | tail {labels : List ι} {middle target : σ} {label : ι} :
      Run next Admits start labels middle →
      Admits middle label →
      next label middle = some target →
      Run next Admits start (labels ++ [label]) target

variable {next : Step ι σ} {Admits : σ → ι → Prop} {start target : σ}
  {labels : List ι}

/-- A run is an execution. -/
theorem Run.exec_eq_some (run : Run next Admits start labels target) :
    exec next labels start = some target := by
  induction run with
  | refl => rfl
  | tail _ _ step ih =>
      exact (exec_concat_eq_some_iff next _ _ _ _).mpr ⟨_, ih, step⟩

/-- An execution whose labels satisfy the condition in every state is a run. -/
theorem run_of_forall (executed : exec next labels start = some target)
    (admits : ∀ label ∈ labels, ∀ state, Admits state label) :
    Run next Admits start labels target := by
  induction labels using List.reverseRecOn generalizing target with
  | nil =>
      cases executed
      exact Run.refl
  | append_singleton labels label ih =>
      obtain ⟨middle, first, last⟩ :=
        (exec_concat_eq_some_iff next _ _ _ _).mp executed
      have earlier := ih first fun other member => admits other (List.mem_append_left _ member)
      exact Run.tail earlier (admits label (by simp) middle) last

/-- The transition restricted to the labels that satisfy `Admits`. -/
def admitted (next : Step ι σ) (Admits : σ → ι → Prop)
    [∀ state label, Decidable (Admits state label)] : Step ι σ := fun label state =>
  if Admits state label then next label state else none

/-- Runs are the executions of the restricted transition. -/
theorem run_iff_exec_admitted [∀ state label, Decidable (Admits state label)] :
    Run next Admits start labels target ↔
      exec (admitted next Admits) labels start = some target := by
  constructor
  · intro run
    induction run with
    | refl => rfl
    | tail _ admits step ih =>
        refine (exec_concat_eq_some_iff _ _ _ _ _).mpr ⟨_, ih, ?_⟩
        rw [admitted, if_pos admits, step]
  · intro executed
    induction labels using List.reverseRecOn generalizing target with
    | nil =>
        cases executed
        exact Run.refl
    | append_singleton labels label ih =>
        obtain ⟨middle, first, last⟩ := (exec_concat_eq_some_iff _ _ _ _ _).mp executed
        unfold admitted at last
        split at last
        · next admits => exact Run.tail (ih first) admits last
        · contradiction

/-- Induction over runs: an invariant of the labels performed so far and the
state reached holds initially and is preserved by every admitted step. -/
theorem Run.invariant (Inv : List ι → σ → Prop)
    (run : Run next Admits start labels target)
    (initial : Inv [] start)
    (preserved : ∀ {labels middle label target}, Inv labels middle →
      Admits middle label → next label middle = some target →
      Inv (labels ++ [label]) target) : Inv labels target := by
  induction run with
  | refl => exact initial
  | tail _ admitted step ih => exact preserved ih admitted step

/-- The last step of a run. -/
theorem run_concat_iff {label : ι} :
    Run next Admits start (labels ++ [label]) target ↔
      ∃ middle, Run next Admits start labels middle ∧ Admits middle label ∧
        next label middle = some target := by
  constructor
  · intro run
    generalize all : labels ++ [label] = extended at run
    cases run with
    | refl => simp at all
    | tail earlier admits step =>
        obtain ⟨rfl, same⟩ := List.append_inj' all rfl
        obtain rfl := List.singleton_inj.mp same
        exact ⟨_, earlier, admits, step⟩
  · rintro ⟨middle, earlier, admits, step⟩
    exact Run.tail earlier admits step

/-- The exact condition of a property of states.  When an invariant gives the property
and is kept by the admitted steps, and the property does not survive any other step,
then the runs are the executions with the property in every state. -/
theorem run_iff_forall {Sound Good : σ → Prop} (executed : exec next labels start = some target)
    (initial : Sound start) (good : ∀ {state}, Sound state → Good state)
    (preserved : ∀ {middle label target}, Sound middle → Admits middle label →
      next label middle = some target → Sound target)
    (necessary : ∀ {middle label target}, Sound middle → next label middle = some target →
      Good target → Admits middle label) :
    Run next Admits start labels target ↔
      ∀ before after state, labels = before ++ after → exec next before start = some state →
        Good state := by
  induction labels using List.reverseRecOn generalizing target with
  | nil =>
      cases executed
      refine iff_of_true Run.refl ?_
      intro before after state split reached
      obtain ⟨rfl, rfl⟩ := List.append_eq_nil_iff.mp split.symm
      cases reached
      exact good initial
  | append_singleton labels label ih =>
      obtain ⟨middle, first, last⟩ := (exec_concat_eq_some_iff _ _ _ _ _).mp executed
      have earlier := ih first
      have sound (run : Run next Admits start labels middle) : Sound middle :=
        run.invariant (fun _ state => Sound state) initial preserved
      constructor
      · intro run before after state split reached
        obtain ⟨_, run', admits, step⟩ := run_concat_iff.mp run
        obtain rfl := Option.some.inj (run'.exec_eq_some.symm.trans first)
        rcases List.eq_nil_or_concat after with rfl | ⟨rest, _, rfl⟩
        · rw [List.append_nil] at split
          rw [← split, executed] at reached
          cases reached
          exact good (preserved (sound run') admits step)
        · rw [List.concat_eq_append, ← List.append_assoc] at split
          exact earlier.mp run' before rest state (List.append_inj' split rfl).1 reached
      · intro always
        have run := earlier.mpr fun before after state split reached =>
          always before (after ++ [label]) state (by rw [split, List.append_assoc]) reached
        have isGood := always (labels ++ [label]) [] target (List.append_nil _).symm executed
        exact Run.tail run (necessary (sound run) last isGood) last

/-- Comparison of two executions: where related labels have the same step, a run and
a list of labels related to its own reach the same state. -/
theorem Run.exec_eq_some_of_forall₂ {Related : ι → ι → Prop} (Inv : σ → Prop)
    (run : Run next Admits start labels target) (initial : Inv start)
    (preserved : ∀ {middle label target}, Inv middle → Admits middle label →
      next label middle = some target → Inv target)
    (congr : ∀ {state label other}, Inv state → Related label other →
      next label state = next other state)
    {others : List ι} (related : List.Forall₂ Related labels others) :
    exec next others start = some target := by
  have both : Inv target ∧ ∀ others, List.Forall₂ Related labels others →
      exec next others start = some target := by
    refine run.invariant (fun labels state => Inv state ∧
      ∀ others, List.Forall₂ Related labels others → exec next others start = some state)
      ⟨initial, ?_⟩ ?_
    · intro others related
      rw [List.forall₂_nil_left_iff.mp related]
      rfl
    · rintro labels middle label target ⟨inv, executes⟩ admits step
      refine ⟨preserved inv admits step, ?_⟩
      intro others related
      have earlier := List.forall₂_take_append _ _ _ related.flip
      have last := List.forall₂_drop_append _ _ _ related.flip
      obtain ⟨other, _, labelRelated, nothing, dropEq⟩ := List.forall₂_cons_right_iff.mp last
      cases nothing
      rw [← List.take_append_drop labels.length others, dropEq, exec_concat_eq_some_iff]
      exact ⟨middle, executes _ earlier.flip, by rw [← congr inv labelRelated, step]⟩
  exact both.2 others related

/-- `target` is reached from `start` by some finite execution. -/
def Reachable (next : Step ι σ) (start target : σ) : Prop :=
  ∃ labels, exec next labels start = some target

/-- An invariant of the state holds in every reachable state. -/
theorem Reachable.invariant (Inv : σ → Prop) (reachable : Reachable next start target)
    (initial : Inv start)
    (preserved : ∀ {middle label target}, Inv middle →
      next label middle = some target → Inv target) : Inv target := by
  obtain ⟨labels, executed⟩ := reachable
  have run : Run next (fun _ _ => True) start labels target :=
    run_of_forall executed fun _ _ _ => trivial
  exact run.invariant (fun _ state => Inv state) initial
    (fun held _ step => preserved held step)

/-- A run in front of which a step is admitted. -/
theorem Run.cons {label : ι} {middle : σ} (run : Run next Admits middle labels target)
    (admits : Admits start label) (step : next label start = some middle) :
    Run next Admits start (label :: labels) target := by
  induction run with
  | refl => exact Run.tail Run.refl admits step
  | tail _ admits' step' ih => exact Run.tail ih admits' step'

/-- A run under a condition is one under a weaker condition. -/
theorem Run.mono {Weaker : σ → ι → Prop} (run : Run next Admits start labels target)
    (weaker : ∀ state label, Admits state label → Weaker state label) :
    Run next Weaker start labels target := by
  induction run with
  | refl => exact Run.refl
  | tail _ admits step ih => exact Run.tail ih (weaker _ _ admits) step

/-- A condition on the labels alone holds of every label of a run. -/
theorem Run.admits_of_mem {Allowed : ι → Prop}
    (run : Run next (fun _ label => Allowed label) start labels target) :
    ∀ label ∈ labels, Allowed label := by
  induction run with
  | refl => simp
  | tail _ admits _ ih =>
      intro label member
      rcases List.mem_append.mp member with earlier | last
      · exact ih label earlier
      · rwa [List.mem_singleton.mp last]

/-- If in every state that is not done some admitted step keeps the invariant and makes a
measure smaller, a run leads to a state that is done. -/
theorem exists_run_of_decreasing {Inv Done : σ → Prop} (measure : σ → Nat)
    (progress : ∀ {state}, Inv state → ¬ Done state → ∃ label target, Admits state label ∧
      next label state = some target ∧ Inv target ∧ measure target < measure state)
    (initial : Inv start) :
    ∃ labels target, Run next Admits start labels target ∧ Inv target ∧ Done target := by
  induction size : measure start using Nat.strongRecOn generalizing start with
  | ind size ih =>
      by_cases done : Done start
      · exact ⟨[], start, Run.refl, initial, done⟩
      · obtain ⟨label, middle, admits, step, inv, smaller⟩ := progress initial done
        obtain ⟨labels, target, run, finished⟩ := ih _ (size ▸ smaller) inv rfl
        exact ⟨label :: labels, target, run.cons admits step, finished⟩

end Aesd.Transition
