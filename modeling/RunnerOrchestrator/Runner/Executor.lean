import RunnerOrchestrator.Foundation.Descriptors
import RunnerOrchestrator.Runner.Parser

/-! # The pipeline executor

The parent's loop and the body of each child, with the descriptor table of every
process as explicit state. A descriptor variable that holds -1 is `none`. A failing
`close` still releases its descriptor, and the program looks at its result nowhere.
-/

namespace RunnerOrchestrator

open Descriptors (Fd closeIf)

/-! ## The environment -/

inductive OpenMode
  /-- `O_RDONLY`. -/
  | readOnly
  /-- `O_WRONLY | O_CREAT | O_TRUNC`. -/
  | truncate
deriving Repr, DecidableEq

/-- What a descriptor refers to. The pipe of a stage is the one behind it. -/
inductive OpenFile
  | inherited (description : Nat)
  | readEnd (stage : Nat)
  | writeEnd (stage : Nat)
  | file (path : CString) (mode : OpenMode)
deriving Repr, DecidableEq

abbrev FdTable := Descriptors.Table OpenFile

inductive ExitStatus
  | exited (code : Nat)
  | signaled (signal : Nat)
deriving Repr, DecidableEq

/-- The answers to the calls of the parent and of the child of each stage. New
descriptors may be any that are free. -/
structure Kernel where
  /-- The read end and the write end of the pipe behind a stage. -/
  pipe : Nat → FdTable → Option (Fd × Fd)
  pipe_free : ∀ {stage : Nat} {t : FdTable} {fds : Fd × Fd},
    pipe stage t = some fds → fds.1 ∉ t ∧ fds.2 ∉ t ∧ fds.1 ≠ fds.2
  fork : Nat → Bool
  /-- Does the n-th `dup2` in the child of a stage succeed? -/
  dup2 : Nat → Nat → Bool
  /-- The descriptor of a file that the child of a stage opens. -/
  openFd : Nat → RedirectTarget → FdTable → Option Fd
  openFd_free : ∀ {stage : Nat} {target : RedirectTarget} {t : FdTable} {fd : Fd},
    openFd stage target t = some fd → fd ∉ t
  /-- How the program of a stage ends; a failing `execvp` ends in `_exit(1)`. -/
  program : Nat → ExitStatus
  /-- The child that the n-th `wait` reaps among those left. -/
  wait : Nat → List Nat → Option Nat
  wait_mem : ∀ {n : Nat} {left : List Nat} {child : Nat}, wait n left = some child → child ∈ left

/-- `STDIN_FILENO`, `STDOUT_FILENO` and `STDERR_FILENO`. -/
def RedirectTarget.fileno : RedirectTarget → Fd
  | .inputFile => 0
  | .outputFile => 1
  | .errorFile => 2

def RedirectTarget.openMode : RedirectTarget → OpenMode
  | .inputFile => .readOnly
  | .outputFile => .truncate
  | .errorFile => .truncate

/-! ## A child -/

/-- `argv` and the descriptors at `execvp`. -/
structure Exec where
  argv : List (Option Token)
  table : FdTable

/-- A `dup2` whose source may be -1, with the kernel's answer where it could succeed. -/
def dup2 (ok : Bool) (old : Option Fd) (new : Fd) (t : FdTable) : Option FdTable :=
  if ok then old.bind fun fd => Descriptors.dup2 t fd new else none

/-- A `dup2` under a condition; `_exit(1)` when it is made and fails. -/
def dup2If (wanted ok : Bool) (old : Option Fd) (new : Fd) (t : FdTable) : Option FdTable :=
  if wanted then dup2 ok old new t else some t

/-- `open`, `dup2` and `close` for one redirection of the child of a stage. -/
def redirect (k : Kernel) (stage : Nat) (target : RedirectTarget) (file : Option Token)
    (t : FdTable) : Option FdTable :=
  match file with
  | none => some t
  | some path => do
      let fd ← k.openFd stage target t
      let t := t.insert fd (.file path.text target.openMode)
      let t ← dup2 (k.dup2 stage (target.fileno + 2)) (some fd) target.fileno t
      some (t.erase fd)

/-- The child of a stage up to its `execvp`; `none` is an earlier `_exit(1)`. -/
def childProcess (k : Kernel) (cmd : ParsedCommand) (numStages i : Nat) (prevReadFd : Option Fd)
    (pipefd : Option Fd × Option Fd) (t : FdTable) : Option Exec := do
  let t ← dup2If prevReadFd.isSome (k.dup2 i 0) prevReadFd 0 t
  let t ← dup2If (i < numStages - 1) (k.dup2 i 1) pipefd.2 1 t
  let t := closeIf pipefd.2 (closeIf pipefd.1 (closeIf prevReadFd t))
  let argv ← parserGetStageArgv cmd i
  if (argv.head?.join).isNone then none
  else
    let t ← redirect k i .inputFile (parserGetInputFile cmd i) t
    let t ← redirect k i .outputFile (parserGetOutputFile cmd i) t
    let t ← redirect k i .errorFile (parserGetErrorFile cmd i) t
    some ⟨argv, t⟩

/-- The status that `wait` reports for the child of a stage. -/
def exitStatus (k : Kernel) (children : List (Option Exec)) (stage : Nat) : ExitStatus :=
  match children[stage]? with
  | some (some _) => k.program stage
  | _ => .exited 1

/-! ## The parent -/

structure Parent where
  table : FdTable
  prevReadFd : Option Fd
  children : List (Option Exec)

/-- The pipe behind a stage, which the last stage does not need. -/
def openPipe (k : Kernel) (numStages i : Nat) (t : FdTable) :
    Option ((Option Fd × Option Fd) × FdTable) :=
  if i < numStages - 1 then
    (k.pipe i t).map fun fds =>
      ((some fds.1, some fds.2), (t.insert fds.1 (.readEnd i)).insert fds.2 (.writeEnd i))
  else some ((none, none), t)

/-- One round of the loop; the flag is false on its two early exits. -/
def executeStage (k : Kernel) (cmd : ParsedCommand) (numStages i : Nat) (p : Parent) :
    Bool × Parent :=
  match openPipe k numStages i p.table with
  | none => (false, { p with table := closeIf p.prevReadFd p.table })
  | some (pipefd, table) =>
      if k.fork i then
        let child := childProcess k cmd numStages i p.prevReadFd pipefd table
        let table := closeIf p.prevReadFd table
        if i < numStages - 1 then (true, ⟨closeIf pipefd.2 table, pipefd.1, p.children ++ [child]⟩)
        else (true, ⟨table, none, p.children ++ [child]⟩)
      else
        (false, { p with
          table := closeIf p.prevReadFd (closeIf pipefd.2 (closeIf pipefd.1 table)) })

/-- The loop from stage `i` on, with `left` stages to go. -/
def executeStages (k : Kernel) (cmd : ParsedCommand) (numStages : Nat) :
    Nat → Nat → Parent → Bool × Parent
  | 0, _, p => (true, p)
  | left + 1, i, p =>
      match executeStage k cmd numStages i p with
      | (false, p) => (false, p)
      | (true, p) => executeStages k cmd numStages left (i + 1) p

/-! ## Waiting -/

/-- The parent's table at each `wait` so far, and the children not yet reaped. -/
structure Waiting where
  calls : List FdTable
  left : List Nat

/-- One `wait`, with the status of the child it reaps. -/
def waitChild (k : Kernel) (p : Parent) (w : Waiting) : Option ExitStatus × Waiting :=
  match k.wait w.calls.length w.left with
  | none => (none, { w with calls := w.calls ++ [p.table] })
  | some child =>
      (some (exitStatus k p.children child), ⟨w.calls ++ [p.table], w.left.erase child⟩)

/-- The loop of the early exits, which ignores the answers. -/
def waitIgnoring (k : Kernel) (p : Parent) : Nat → Waiting → Waiting
  | 0, w => w
  | n + 1, w => waitIgnoring k p n (waitChild k p w).2

/-- The last loop, with `any_child_failed` so far and the value returned. -/
def waitAll (k : Kernel) (p : Parent) : Nat → Bool → Waiting → Int × Waiting
  | 0, anyChildFailed, w => (if anyChildFailed then -1 else 0, w)
  | n + 1, anyChildFailed, w =>
      match waitChild k p w with
      | (none, w) => (-1, w)
      | (some status, w) => waitAll k p n (anyChildFailed || status != .exited 0) w

structure Outcome where
  result : Int
  parent : Parent
  waiting : Waiting

/-- `none` in place of a command is NULL. -/
def executePipeline (k : Kernel) (cmd : Option ParsedCommand) (t : FdTable) : Outcome :=
  match cmd with
  | none => ⟨-1, ⟨t, none, []⟩, ⟨[], []⟩⟩
  | some cmd =>
      let numStages := parserGetStageCount cmd
      if numStages = 0 then ⟨-1, ⟨t, none, []⟩, ⟨[], []⟩⟩
      else
        match executeStages k cmd numStages numStages 0 ⟨t, none, []⟩ with
        | (false, p) =>
            ⟨-1, p, waitIgnoring k p p.children.length ⟨[], List.range p.children.length⟩⟩
        | (true, p) =>
            let r := waitAll k p p.children.length false ⟨[], List.range p.children.length⟩
            ⟨r.1, p, r.2⟩

end RunnerOrchestrator
