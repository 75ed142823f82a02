import Aesd.Transition.Core
import Mathlib.Logic.Function.Basic

/-!
# Running other programs

`do_system`, `do_exec` and `do_exec_redirect` run other programs while the caller has
output of its own in the buffer of `stdout`.  A child starts with the descriptors of its
parent and with a copy of that buffer, which `exit` writes out and `execv` discards.
-/

namespace Aesd.SystemCalls

open Aesd.Transition

/-! ## Processes -/

abbrev Bytes := List UInt8

/-- Where a descriptor leads: to the standard output that the caller was started with, or
to a file that was opened by its path. -/
inductive Sink
  | terminal
  | file (path : String)
  deriving DecidableEq

/-- What everything that can be written to contains. -/
abbrev Contents := Sink → Bytes

/-- How a child ended: `WIFEXITED` with `WEXITSTATUS`, or by a signal. -/
inductive WaitStatus
  | exited (code : Nat)
  | signaled
  deriving DecidableEq

/-- A process: its open descriptors, and the bytes in the buffer of `stdout`. -/
structure Process where
  descriptors : Nat → Option Sink
  stdout : Bytes

namespace Process

/-- `write` -/
def write (process : Process) (fd : Nat) (bytes : Bytes) (contents : Contents) : Contents :=
  match process.descriptors fd with
  | none => contents
  | some sink => Function.update contents sink (contents sink ++ bytes)

/-- `fflush(stdout)` -/
def fflush (process : Process) (contents : Contents) : Process × Contents :=
  ({ process with stdout := [] }, process.write 1 process.stdout contents)

/-- `dup2` -/
def dup2 (process : Process) (oldfd newfd : Nat) : Process :=
  { process with
    descriptors := Function.update process.descriptors newfd (process.descriptors oldfd) }

/-- `open`, when it returns `fd`. -/
def opened (process : Process) (fd : Nat) (sink : Sink) : Process :=
  { process with descriptors := Function.update process.descriptors fd (some sink) }

/-- `close` -/
def close (process : Process) (fd : Nat) : Process :=
  { process with descriptors := Function.update process.descriptors fd none }

/-- `exit` writes out what `stdout` holds. -/
def exit (process : Process) (code : Nat) (contents : Contents) : WaitStatus × Contents :=
  (.exited code, (process.fflush contents).2)

end Process

/-- What a program has done: what it wrote to its standard output, and how it ended. -/
structure Ran where
  written : Bytes
  status : WaitStatus

/-- A program runs in the place of the process, whose buffers are gone. -/
def Process.becomes (process : Process) (ran : Ran) (contents : Contents) :
    WaitStatus × Contents :=
  (ran.status, process.write 1 ran.written contents)

/-- What is decided outside during a call: whether `fork` and `dup2` succeed, the
descriptor `open` returns, and what the program does that `execv` starts. -/
structure Outcomes where
  fork : Bool
  execv : Option String → List String → Option Ran
  opens : Option Nat
  dup2 : Bool

/-! ## The functions -/

/-- `do_system`; `system` is what the shell does with the command, or that it could not
be started.  How the command ended is not looked at. -/
def doSystem (cmd : String) (system : String → Option Ran) (process : Process)
    (contents : Contents) : Bool × Process × Contents :=
  match system cmd with
  | none => (false, process, contents)
  | some ran => (true, process, (process.becomes ran contents).2)

/-- The check of the status in the parent. -/
def WaitStatus.succeeded : WaitStatus → Bool
  | .exited code => decide (code = 0)
  | .signaled => false

/-- `do_exec` -/
def doExec (command : List String) (outcomes : Outcomes) (process : Process)
    (contents : Contents) : Bool × Process × Contents :=
  let flushed := process.fflush contents
  if outcomes.fork = false then (false, flushed)
  else
    let child :=
      match outcomes.execv command.head? command with
      | some ran => flushed.1.becomes ran flushed.2
      | none => flushed.1.exit 1 flushed.2
    (child.1.succeeded, flushed.1, child.2)

/-- The child of `do_exec_redirect`; `fd` stays open in the program it becomes. -/
def redirectedChild (fd : Nat) (command : List String) (outcomes : Outcomes)
    (child : Process) (contents : Contents) : WaitStatus × Contents :=
  if outcomes.dup2 = false then (child.close fd).exit 1 contents
  else
    let redirected := child.dup2 fd 1
    match outcomes.execv command.head? command with
    | some ran => redirected.becomes ran contents
    | none => (redirected.close fd).exit 1 contents

/-- `do_exec_redirect` -/
def doExecRedirect (outputfile : String) (command : List String) (outcomes : Outcomes)
    (process : Process) (contents : Contents) : Bool × Process × Contents :=
  match outcomes.opens with
  | none => (false, process, contents)
  | some fd =>
      -- `O_TRUNC`
      let contents := Function.update contents (.file outputfile) []
      let process := process.opened fd (.file outputfile)
      if outcomes.fork = false then (false, process.close fd, contents)
      else
        let child := redirectedChild fd command outcomes process contents
        (child.1.succeeded, process.close fd, child.2)

/-! ## Callers -/

/-- What a caller does: it prints, `stdout` writes out the first bytes it holds, or one
of the functions is called. -/
inductive Call
  | print (text : Bytes)
  | flush (count : Nat)
  | system (cmd : String) (outcome : String → Option Ran)
  | exec (command : List String) (outcomes : Outcomes)
  | execRedirect (outputfile : String) (command : List String) (outcomes : Outcomes)

/-- The caller and everything that can be written to. -/
structure System where
  process : Process
  contents : Contents

namespace System

/-- The call is made.  `open` never returns a descriptor that is open. -/
def step : Step Call System
  | .print text, ⟨process, contents⟩ =>
      some ⟨{ process with stdout := process.stdout ++ text }, contents⟩
  | .flush count, ⟨process, contents⟩ =>
      some ⟨{ process with stdout := process.stdout.drop count },
        process.write 1 (process.stdout.take count) contents⟩
  | .system cmd outcome, ⟨process, contents⟩ =>
      let result := doSystem cmd outcome process contents
      some ⟨result.2.1, result.2.2⟩
  | .exec command outcomes, ⟨process, contents⟩ =>
      let result := doExec command outcomes process contents
      some ⟨result.2.1, result.2.2⟩
  | .execRedirect outputfile command outcomes, ⟨process, contents⟩ =>
      if ∀ fd, outcomes.opens = some fd → process.descriptors fd = none then
        let result := doExecRedirect outputfile command outcomes process contents
        some ⟨result.2.1, result.2.2⟩
      else none

end System

/-! ## What the calls are meant to do -/

/-- The program that the call has started, if it has. -/
def Outcomes.started (outcomes : Outcomes) (command : List String) : Option Ran :=
  if outcomes.fork then outcomes.execv command.head? command else none

/-- What a program wrote, if there was one. -/
def output (ran : Option Ran) : Bytes :=
  ran.elim [] Ran.written

/-- What a call adds to the standard output of its caller. -/
def Call.shows : Call → Bytes
  | .print text => text
  | .flush _ => []
  | .system cmd outcome => output (outcome cmd)
  | .exec command outcomes => output (outcomes.started command)
  | .execRedirect .. => []

/-- What a call leaves in a file that it opens. -/
def Call.leaves (path : String) : Call → Option Bytes
  | .execRedirect outputfile command outcomes =>
      if outputfile = path ∧ outcomes.opens.isSome then
        some (output (if outcomes.dup2 then outcomes.started command else none))
      else none
  | _ => none

/-- The output of the caller so far: what has been written, then what is in the buffer. -/
def System.shown (system : System) : Bytes :=
  system.contents .terminal ++ system.process.stdout

/-- The outputs stand in the order of the calls, a file has the output of the last
program that was redirected to it, and nothing else, and the descriptors are those of
the start. -/
structure InOrder (start : System) (calls : List Call) (system : System) : Prop where
  shown : system.shown = start.shown ++ calls.flatMap Call.shows
  files : ∀ path, system.contents (.file path) =
    (calls.reverse.findSome? (Call.leaves path)).getD (start.contents (.file path))
  descriptors : system.process.descriptors = start.process.descriptors

/-- A call that does not mix the buffer of the caller with the output of a program:
`do_system` does not write out the buffer first, and neither does `do_exec_redirect`,
whose child then writes its copy if it gets as far as `exit`. -/
def Call.Orderly (stdout : Bytes) : Call → Prop
  | .system cmd outcome => stdout ++ output (outcome cmd) = output (outcome cmd) ++ stdout
  | .execRedirect _ command outcomes =>
      outcomes.opens.isSome → outcomes.fork = true → stdout = [] ∨
        outcomes.dup2 = true ∧ (outcomes.execv command.head? command).isSome
  | _ => True

section Step

variable {process : Process} {contents : Contents}

theorem write_of_terminal (isOpen : process.descriptors 1 = some .terminal) (bytes : Bytes) :
    process.write 1 bytes contents =
      Function.update contents .terminal (contents .terminal ++ bytes) := by
  rw [Process.write, isOpen]

/-- What `do_exec` writes to the standard output is the buffer and then the output of the
program. -/
theorem doExec_spec (isOpen : process.descriptors 1 = some .terminal) (command : List String)
    (outcomes : Outcomes) :
    (doExec command outcomes process contents).2 =
      ({ process with stdout := [] },
        Function.update contents .terminal
          (contents .terminal ++ process.stdout ++ output (outcomes.started command))) := by
  cases forked : outcomes.fork with
  | false =>
      simp [doExec, Process.fflush, forked, Outcomes.started, output, write_of_terminal isOpen]
  | true =>
      cases ran : outcomes.execv command.head? command with
      | none =>
          simp [doExec, Process.fflush, Process.exit, forked, ran, Outcomes.started, output,
            write_of_terminal, isOpen]
      | some ran =>
          simp [doExec, Process.fflush, Process.becomes, forked, ran, Outcomes.started, output,
            write_of_terminal, isOpen]

/-- `do_exec_redirect` closes what it has opened. -/
theorem doExecRedirect_process {fd : Nat} {outputfile : String} {command : List String}
    {outcomes : Outcomes} (opens : outcomes.opens = some fd)
    (free : process.descriptors fd = none) :
    (doExecRedirect outputfile command outcomes process contents).2.1 = process := by
  have same : (process.opened fd (.file outputfile)).close fd = process := by
    simp [Process.opened, Process.close, ← free]
  unfold doExecRedirect
  simp only [opens]
  split
  · exact same
  · exact same

/-- A child that gets as far as `exit` writes its copy of the buffer, to the terminal if
it could not be redirected and else to the file. -/
theorem doExecRedirect_contents {fd : Nat} {outputfile : String} {command : List String}
    {outcomes : Outcomes} (isOpen : process.descriptors 1 = some .terminal)
    (opens : outcomes.opens = some fd) (free : process.descriptors fd = none) :
    (doExecRedirect outputfile command outcomes process contents).2.2 =
      let truncated := Function.update contents (.file outputfile) []
      if outcomes.fork = false then truncated
      else if outcomes.dup2 = false then
        Function.update truncated .terminal (contents .terminal ++ process.stdout)
      else
        Function.update contents (.file outputfile)
          ((outcomes.execv command.head? command).elim process.stdout Ran.written) := by
  have differs : fd ≠ 1 := by
    rintro rfl
    rw [isOpen] at free
    contradiction
  have differs' : (1 : Nat) ≠ fd := differs.symm
  cases forked : outcomes.fork with
  | false => simp [doExecRedirect, opens, forked]
  | true =>
      cases redirected : outcomes.dup2 with
      | false =>
          simp [doExecRedirect, redirectedChild, opens, forked, redirected, Process.exit,
            Process.fflush, Process.write, Process.close, Process.opened, differs', isOpen]
      | true =>
          cases ran : outcomes.execv command.head? command with
          | none =>
              simp [doExecRedirect, redirectedChild, opens, forked, redirected, ran,
                Process.exit, Process.fflush, Process.write, Process.close, Process.dup2,
                Process.opened, differs']
          | some ran =>
              simp [doExecRedirect, redirectedChild, opens, forked, redirected, ran,
                Process.becomes, Process.write, Process.dup2, Process.opened]

end Step

/-- Only the file at a path is meant to have changed. -/
theorem update_file_iff {contents : Contents} {outputfile : String} {left meant : Bytes} :
    (∀ path, Function.update contents (.file outputfile) left (.file path) =
      (if outputfile = path then some meant else none).getD (contents (.file path))) ↔
      left = meant := by
  constructor
  · intro each
    simpa using each outputfile
  · rintro rfl path
    by_cases same : outputfile = path
    · subst path
      simp
    · have differs : path ≠ outputfile := fun equal => same equal.symm
      simp [same, differs]

section Call

variable {system after : System} {call : Call}

/-- No call changes the descriptors. -/
theorem step_descriptors (stepped : System.step call system = some after) :
    after.process.descriptors = system.process.descriptors := by
  obtain ⟨process, contents⟩ := system
  cases call with
  | print text | flush count => cases stepped; rfl
  | system cmd outcome =>
      cases stepped
      cases ran : outcome cmd <;> simp [doSystem, ran]
  | exec command outcomes =>
      cases stepped
      simp only [doExec]
      split <;> rfl
  | execRedirect outputfile command outcomes =>
      simp only [System.step] at stepped
      split at stepped
      · rename_i free
        cases stepped
        cases opens : outcomes.opens with
        | none => simp [doExecRedirect, opens]
        | some fd => rw [doExecRedirect_process opens (free fd opens)]
      · contradiction

/-- A call does what it is meant to do exactly if it is orderly. -/
theorem step_inOrder_iff (isOpen : system.process.descriptors 1 = some .terminal)
    (stepped : System.step call system = some after) :
    InOrder system [call] after ↔ call.Orderly system.process.stdout := by
  have descriptors := step_descriptors stepped
  obtain ⟨process, contents⟩ := system
  have iff_of_meant
      (shownIff : after.shown = contents .terminal ++ process.stdout ++ call.shows ∧
        (∀ path, after.contents (.file path) =
          (call.leaves path).getD (contents (.file path))) ↔ call.Orderly process.stdout) :
      InOrder ⟨process, contents⟩ [call] after ↔ call.Orderly process.stdout := by
    rw [← shownIff]
    constructor
    · intro inOrder
      refine ⟨by simpa [System.shown] using inOrder.shown, fun path => ?_⟩
      have file := inOrder.files path
      cases leaves : call.leaves path <;> simpa [leaves] using file
    · rintro ⟨shown, files⟩
      refine ⟨by simpa [System.shown] using shown, fun path => ?_, descriptors⟩
      have file := files path
      cases leaves : call.leaves path <;> simpa [leaves] using file
  apply iff_of_meant
  cases call with
  | print text =>
      cases stepped
      simp [System.shown, Call.shows, Call.leaves, Call.Orderly]
  | flush count =>
      cases stepped
      simp [System.shown, Call.shows, Call.leaves, Call.Orderly, write_of_terminal isOpen]
  | system cmd outcome =>
      cases stepped
      cases ran : outcome cmd with
      | none =>
          simp [System.shown, Call.shows, Call.leaves, Call.Orderly, doSystem, ran, output]
      | some ran =>
          simp [System.shown, Call.shows, Call.leaves, Call.Orderly, doSystem, ran, output,
            Process.becomes, write_of_terminal isOpen, eq_comm]
  | exec command outcomes =>
      cases stepped
      simp [System.shown, Call.shows, Call.leaves, Call.Orderly, doExec_spec isOpen]
  | execRedirect outputfile command outcomes =>
      simp only [System.step] at stepped
      split at stepped
      · rename_i free
        cases stepped
        cases opens : outcomes.opens with
        | none =>
            simp [System.shown, Call.shows, Call.leaves, Call.Orderly, doExecRedirect, opens]
        | some fd =>
            simp only [System.shown, Call.shows, Call.leaves, Call.Orderly,
              doExecRedirect_process opens (free fd opens),
              doExecRedirect_contents isOpen opens (free fd opens), opens, Option.isSome_some,
              and_true, true_implies, List.append_nil]
            cases forked : outcomes.fork with
            | false => simp [Outcomes.started, forked, output, update_file_iff]
            | true =>
                cases redirected : outcomes.dup2 with
                | false => simp [output, update_file_iff]
                | true =>
                    cases ran : outcomes.execv command.head? command with
                    | none =>
                        simp [Outcomes.started, forked, ran, output, update_file_iff]
                    | some ran =>
                        simp [Outcomes.started, forked, ran, output, update_file_iff]
      · contradiction

end Call

/-! ## Runs -/

section Run

variable {start middle target : System} {calls : List Call}

theorem inOrder_nil (start : System) : InOrder start [] start where
  shown := by simp
  files _ := rfl
  descriptors := rfl

/-- Whether the outputs are still in order depends on the last call alone. -/
theorem InOrder.concat_iff (inOrder : InOrder start calls middle) (call : Call) :
    InOrder start (calls ++ [call]) target ↔ InOrder middle [call] target := by
  have files (path : String) :
      ((calls ++ [call]).reverse.findSome? (Call.leaves path)).getD
          (start.contents (.file path)) =
        ([call].reverse.findSome? (Call.leaves path)).getD (middle.contents (.file path)) := by
    rw [inOrder.files path]
    cases leaves : call.leaves path <;> simp [leaves]
  constructor
  · rintro ⟨shown, filesEq, descriptors⟩
    refine ⟨?_, fun path => (filesEq path).trans (files path),
      descriptors.trans inOrder.descriptors.symm⟩
    rw [shown, inOrder.shown]
    simp
  · rintro ⟨shown, filesEq, descriptors⟩
    refine ⟨?_, fun path => (filesEq path).trans (files path).symm,
      descriptors.trans inOrder.descriptors⟩
    rw [shown, inOrder.shown]
    simp

/-- In every run of calls from a caller whose standard output is open, whatever fails:
the outputs are in order after every call exactly if every call is orderly. -/
theorem calls_inOrder_iff (isOpen : start.process.descriptors 1 = some .terminal)
    (executed : exec System.step calls start = some target) :
    (∀ earlier later middle, calls = earlier ++ later →
      exec System.step earlier start = some middle → InOrder start earlier middle) ↔
    (∀ earlier call later middle, calls = earlier ++ call :: later →
      exec System.step earlier start = some middle → call.Orderly middle.process.stdout) := by
  constructor
  · intro always earlier call later middle split reached
    have before := always earlier (call :: later) middle split reached
    -- the call is made, so that there is a state after it
    have made := executed
    rw [split, exec_append, reached, Option.bind_some, exec_cons,
      Option.bind_eq_some_iff] at made
    obtain ⟨after, stepped, _⟩ := made
    have reached' := (exec_concat_eq_some_iff System.step earlier call start after).mpr
      ⟨middle, reached, stepped⟩
    have inOrder := always (earlier ++ [call]) later after (by simp [split]) reached'
    have stillOpen : middle.process.descriptors 1 = some .terminal := by
      rw [before.descriptors, isOpen]
    exact (step_inOrder_iff stillOpen stepped).mp ((before.concat_iff call).mp inOrder)
  · intro orderly earlier
    induction earlier using List.reverseRecOn with
    | nil =>
        intro later middle _ reached
        cases reached
        exact inOrder_nil start
    | append_singleton earlier call ih =>
        intro later after split reached
        obtain ⟨middle, reached', stepped⟩ :=
          (exec_concat_eq_some_iff System.step earlier call start after).mp reached
        have split' : calls = earlier ++ call :: later := by simp [split]
        have before := ih (call :: later) middle split' reached'
        have stillOpen : middle.process.descriptors 1 = some .terminal := by
          rw [before.descriptors, isOpen]
        exact (before.concat_iff call).mpr
          ((step_inOrder_iff stillOpen stepped).mpr
            (orderly earlier call later middle split' reached'))

/-- A caller that has printed `a` without writing it out. -/
def printed : List Call :=
  [.print [97], .execRedirect "out" ["/bin/missing"] ⟨true, fun _ _ => none, some 3, true⟩]

/-- The caller with its standard streams. -/
def caller : System :=
  ⟨⟨fun fd => if fd < 3 then some .terminal else none, []⟩, fun _ => []⟩

/-- The file of a command that could not be executed has the output of the caller. -/
theorem calls_inOrder_iff_printed :
    ∃ target, exec System.step printed caller = some target ∧
      ¬ ∀ earlier later middle, printed = earlier ++ later →
        exec System.step earlier caller = some middle → InOrder caller earlier middle := by
  obtain ⟨target, executed⟩ : ∃ target, exec System.step printed caller = some target :=
    Option.isSome_iff_exists.mp (by decide)
  refine ⟨target, executed, fun always => ?_⟩
  have isOpen : caller.process.descriptors 1 = some .terminal := rfl
  have orderly := (calls_inOrder_iff isOpen executed).mp always
    [.print [97]] _ [] _ rfl rfl rfl rfl
  simp at orderly

end Run

end Aesd.SystemCalls
