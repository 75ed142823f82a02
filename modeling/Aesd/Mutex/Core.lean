import Mathlib.Data.Option.Basic

/-!
# Mutexes

A mutex is the thread that owns it, if there is one.  This module says what the
two operations do, which moves a mutex can make while one thread takes a step,
and which relations between the owner and the critical sections such moves
preserve.  Threads and their sections are arbitrary.
-/

namespace Aesd.Mutex

universe u

variable {τ : Type u}

/-- A call of `lock`.  It waits while the mutex is owned, by whomever; with `ok`
false it fails.  The result says whether the mutex was obtained. -/
def lock (owner : Option τ) (thread : τ) (ok : Bool) : Option (Bool × Option τ) :=
  if ok = false then
    some (false, owner)
  else
    match owner with
    | none => some (true, some thread)
    | some _ => none

/-- A call of `unlock`, which fails with `ok` false. -/
def unlock (owner : Option τ) (ok : Bool) : Option τ :=
  if ok then none else owner

/-- The mutex was free and now belongs to the thread. -/
theorem lock_obtains_iff {owner owner' : Option τ} {thread : τ} {ok : Bool} :
    lock owner thread ok = some (true, owner') ↔
      ok = true ∧ owner = none ∧ owner' = some thread := by
  cases ok with
  | false => simp [lock]
  | true => cases owner <;> simp [lock, eq_comm]

/-- Nothing happens to it. -/
theorem lock_fails_iff {owner owner' : Option τ} {thread : τ} {ok : Bool} :
    lock owner thread ok = some (false, owner') ↔ ok = false ∧ owner' = owner := by
  cases ok with
  | false => simp [lock, eq_comm]
  | true => cases owner <;> simp [lock]

/-! ## Moves -/

/-- What a mutex can do while `thread` takes a step from inside its critical
section, if `Before` holds, to inside it, if `After` holds. -/
inductive Move (thread : τ) (Before After : Prop) : Option τ → Option τ → Prop
  | stay {owner : Option τ} : (After → Before) → Move thread Before After owner owner
  | acquire : Move thread Before After none (some thread)
  | release {owner : Option τ} : Before → ¬ After → Move thread Before After owner none

section Move

variable {thread : τ} {Before After : Prop} {owner owner' : Option τ} {ok locked : Bool}

/-- A thread unlocks at the end of its section. -/
theorem Move.of_unlock (inside : Before) (leaves : ¬ After) :
    Move thread Before After owner (unlock owner ok) := by
  cases ok with
  | false => exact Move.stay fun after => absurd after leaves
  | true => exact Move.release inside leaves

/-- A thread with two sections that is in one of them at most. -/
theorem Move.or_left {Other : Prop} (moves : Move thread Before After owner owner')
    (exclusive : Other → ¬ Before) : Move thread (Other ∨ Before) (Other ∨ After) owner owner' := by
  cases moves with
  | stay keeps => exact Move.stay (Or.imp_right keeps)
  | acquire => exact Move.acquire
  | release inside leaves =>
      exact Move.release (Or.inr inside) (not_or.mpr ⟨fun other => exclusive other inside, leaves⟩)

/-- Only a free mutex lets a thread in. -/
theorem Move.before_or_free (moves : Move thread Before After owner owner') (after : After) :
    Before ∨ owner = none := by
  cases moves with
  | stay keeps => exact Or.inl (keeps after)
  | acquire => exact Or.inr rfl
  | release _ leaves => exact absurd after leaves

end Move

/-- Every thread inside its section owns the mutex. -/
def Guarded (owner : Option τ) (Inside : τ → Prop) : Prop :=
  ∀ thread, Inside thread → owner = some thread

section Guarded

variable {owner owner' : Option τ} {Inside Inside' : τ → Prop} {thread : τ}

/-- At most one thread is inside. -/
theorem Guarded.unique (guarded : Guarded owner Inside) {other : τ} (inside : Inside thread)
    (otherInside : Inside other) : other = thread :=
  Option.some.inj ((guarded other otherInside).symm.trans (guarded thread inside))

/-- A move of one thread keeps the mutex guarded. -/
theorem Guarded.move (guarded : Guarded owner Inside) (thread : τ)
    (moves : Move thread (Inside thread) (Inside' thread) owner owner')
    (others : ∀ other, other ≠ thread → Inside' other → Inside other) :
    Guarded owner' Inside' := by
  intro other inside'
  by_cases same : other = thread
  · subst other
    cases moves with
    | stay keeps => exact guarded thread (keeps inside')
    | acquire => rfl
    | release _ leaves => exact absurd inside' leaves
  · have inside := others other same inside'
    cases moves with
    | stay keeps => exact guarded other inside
    | acquire => exact absurd (guarded other inside) (by simp)
    | release insideThread _ => exact absurd (guarded.unique insideThread inside) same

end Guarded

/-! ## Moves that lose nothing -/

/-- The moves after which the owner is still inside its section. -/
inductive ExactMove (thread : τ) (Before After : Prop) : Option τ → Option τ → Prop
  | stay {owner : Option τ} : (After ↔ Before) → ExactMove thread Before After owner owner
  | acquire : After → ExactMove thread Before After none (some thread)
  | release {owner : Option τ} : Before → ¬ After → ExactMove thread Before After owner none

/-- The owner is exactly the thread inside its section. -/
def Exact (owner : Option τ) (Inside : τ → Prop) : Prop :=
  ∀ thread, owner = some thread ↔ Inside thread

section Exact

variable {owner owner' : Option τ} {Inside Inside' : τ → Prop} {thread : τ}

/-- An exact move is a move. -/
theorem ExactMove.move {Before After : Prop}
    (moves : ExactMove thread Before After owner owner') :
    Move thread Before After owner owner' := by
  cases moves with
  | stay same => exact Move.stay same.mp
  | acquire _ => exact Move.acquire
  | release inside leaves => exact Move.release inside leaves

theorem Exact.guarded (exactly : Exact owner Inside) : Guarded owner Inside :=
  fun thread => (exactly thread).mpr

/-- An exact move of one thread keeps the owner inside its section. -/
theorem Exact.move (exactly : Exact owner Inside) (thread : τ)
    (moves : ExactMove thread (Inside thread) (Inside' thread) owner owner')
    (others : ∀ other, other ≠ thread → (Inside' other ↔ Inside other)) :
    Exact owner' Inside' := by
  intro other
  constructor
  · intro owns
    cases moves with
    | stay same =>
        by_cases this : other = thread
        · subst other
          exact same.mpr ((exactly thread).mp owns)
        · exact (others other this).mpr ((exactly other).mp owns)
    | acquire inside =>
        obtain rfl := Option.some.inj owns
        exact inside
    | release _ _ => contradiction
  · exact exactly.guarded.move thread moves.move (fun other this => (others other this).mp) other

end Exact

end Aesd.Mutex
