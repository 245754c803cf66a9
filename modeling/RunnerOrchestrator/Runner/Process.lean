import RunnerOrchestrator.Common.Ipc
import RunnerOrchestrator.Common.Numerals
import RunnerOrchestrator.Runner.Cleanup
import RunnerOrchestrator.Runner.Submission

/-! # One runner from its start to its exit

The three modes of the runner with every call that can fail. What the process does is the
list of its actions; messages on `stderr` and the usage text are left out, and printing
does not fail. Whatever else fails, the private FIFO is removed once it is there, and the
descriptor on it is closed, unless the process is killed while it writes to the controller.
-/

namespace RunnerOrchestrator

open Descriptors (Fd)

/-- The answers to the calls of a runner. -/
structure RunnerEnv where
  env : Env
  kernel : Kernel
  mkfifo : Mkfifo
  /-- The descriptor that `open` returns for the private FIFO. -/
  openFifo : FdTable → Option Fd
  openFifo_free : ∀ {t : FdTable} {fd : Fd}, openFifo t = some fd → fd ∉ t
  /-- The messages its reads return, up to one that is not a whole message. -/
  reads : List RpcMessage

inductive Action
  | created
  | printed (line : CString)
  | sent (send : Send)
  | opened (fd : Fd)
  | read (msg : RpcMessage)
  /-- `execute_pipeline` has returned; `none` stands for a NULL from the parser. -/
  | executed (cmd : Option ParsedCommand)
  | closed
  | destroyed
deriving DecidableEq

/-- The value of `main`, what was done on the way, and the descriptors left. A killed process
has no value, and the system closes its descriptors. -/
structure Exit where
  status : Option Nat
  actions : List Action
  table : FdTable

/-- PID 0, which no runner has, stands for `SERVER_FIFO_PATH`. -/
def serverFifo : Int32 := 0

def runnerFifoPath (pid : Int32) : CString := bounded 128 (text "/tmp/runner_" ++ decimal pid.toInt)

/-- The buffer of 128 bytes, here and in the controller, holds every path. -/
theorem runnerFifoPath_eq (pid : Int32) :
    runnerFifoPath pid = text "/tmp/runner_" ++ decimal pid.toInt := by
  have hfront : (text "/tmp/runner_").length = 12 := by decide
  have hpid := length_decimal_int32 pid
  apply List.take_of_length_le
  rw [List.length_append, hfront]
  omega

/-- A FIFO stands for one PID. -/
theorem runnerFifoPath_injective : Function.Injective runnerFifoPath := by
  intro p q h
  rw [runnerFifoPath_eq, runnerFifoPath_eq] at h
  apply Int32.toInt_inj.mp
  exact intFormat.write_injective endsNumber_nil (List.append_cancel_left h)

theorem runnerFifoPath_ne_server (pid : Int32) : runnerFifoPath pid ≠ text "/tmp/server_fifo" := by
  intro h
  rw [runnerFifoPath_eq] at h
  have hbyte := congrArg (fun path => path[5]?) h
  rw [List.getElem?_append_left (by decide)] at hbyte
  exact absurd hbyte (by decide)

/-! ## The modes -/

/-- The loop of `runner_run_status`. -/
def statusLoop : List RpcMessage → List Action
  | [] => []
  | statusMsg :: rest =>
      .read statusMsg :: (if statusMsg.type = .statusResp then [.printed statusMsg.payload] else []) ++
        if statusMsg.type = .statusEnd then [] else statusLoop rest

/-- The loop of `runner_run_shutdown`. -/
def shutdownLoop : List RpcMessage → List Action
  | [] => []
  | statusMsg :: rest =>
      .read statusMsg :: if statusMsg.type = .shutdownAck then [] else shutdownLoop rest

section

variable (e : RunnerEnv)

/-- How it goes on after an `ipc_send_atomic`: not at all in a process that it has killed. -/
def afterSend (send : Send) (before : List Action) (t : FdTable) (failed sent : Exit) : Exit :=
  match send.result with
  | none => ⟨none, before, t⟩
  | some result => if result = -1 then failed else sent

/-- Opens the private FIFO and hands the table with it to the rest. -/
def withFifo (before : List Action) (t : FdTable) (rest : Fd → FdTable → Exit) : Exit :=
  match e.openFifo t with
  | none => ⟨some 1, before ++ [.destroyed], t⟩
  | some fd => rest fd (t.insert fd (.file (runnerFifoPath e.env.getpid) .readOnly))

def runnerRunStatus (t : FdTable) : Exit :=
  if ipcCreateFifo e.mkfifo = -1 then ⟨some 1, [], t⟩
  else
    let send := (ipcSendAtomic e.env 0 serverFifo (statusReq e.env.getpid)).1
    let before : List Action := [.created, .sent send]
    afterSend send before t ⟨some 1, before ++ [.destroyed], t⟩
      (withFifo e before t fun fd t =>
        ⟨some 0, before ++ [.opened fd] ++ statusLoop e.reads ++ [.closed, .destroyed], t.erase fd⟩)

def runnerRunShutdown (t : FdTable) : Exit :=
  if ipcCreateFifo e.mkfifo = -1 then ⟨some 1, [], t⟩
  else
    let send := (ipcSendAtomic e.env 0 serverFifo (shutdownReq e.env.getpid)).1
    let before : List Action := [.created, .sent send]
    let waiting := before ++ [.printed (text "[runner] sent shutdown notification\n"),
      .printed (text "[runner] waiting for controller to shutdown...\n")]
    afterSend send before t ⟨some 1, before ++ [.destroyed], t⟩
      (withFifo e waiting t fun fd t =>
        ⟨some 0, waiting ++ [.opened fd] ++ shutdownLoop e.reads ++
          [.printed (text "[runner] controller exited.\n"), .closed, .destroyed], t.erase fd⟩)

/-- `[runner] command <id><what>`. -/
def commandLine (id : Int64) (what : CString) : CString :=
  text "[runner] command " ++ decimal id.toInt ++ what

/-- After an ACK: what is done, and the table after `execute_pipeline`. -/
def runCommand (userId : Int32) (command : CString) (ackMsg : RpcMessage) (t : FdTable) :
    List Action × FdTable :=
  let executing : Action :=
    .printed (text "[runner] executing command " ++ decimal ackMsg.commandId.toInt ++ text "...\n")
  match pipelineToExecute e.env.malloc e.env.getpid userId command (some ackMsg) with
  | none => ([executing, .printed (text "parser_parse failed\n"), .executed none], t)
  | some cmd =>
      ([executing, .executed (some cmd)], (executePipeline e.kernel (some cmd) t).parent.table)

/-- Up to the exit, once the private FIFO has been opened as `fd`. -/
def awaitAck (userId : Int32) (command : CString) (ios : Nat) (before : List Action) (fd : Fd)
    (t : FdTable) : Exit :=
  let refused : List Action :=
    [.printed (text "runner did not receive ACK\n"), .closed, .destroyed]
  match e.reads with
  | [] => ⟨some 1, before ++ [.opened fd] ++ refused, t.erase fd⟩
  | ackMsg :: _ =>
      if isAuthorised ackMsg then
        let ran := runCommand e userId command ackMsg t
        let send := (ipcSendAtomic e.env ios serverFifo (msgDone e.env.getpid ackMsg)).1
        let before := before ++ [.opened fd, .read ackMsg] ++ ran.1 ++ [.sent send]
        afterSend send before ran.2 ⟨some 1, before ++ [.closed, .destroyed], ran.2.erase fd⟩
          ⟨some 0, before ++ [.printed (commandLine ackMsg.commandId (text " finished\n")), .closed,
            .destroyed], ran.2.erase fd⟩
      else ⟨some 1, before ++ [.opened fd, .read ackMsg] ++ refused, t.erase fd⟩

def runnerRunExecute (userId : Int32) (command : CString) (t : FdTable) : Exit :=
  if ipcCreateFifo e.mkfifo = -1 then ⟨some 1, [], t⟩
  else
    let submit := submitMsg e.env.getpid userId command
    let send := ipcSendAtomic e.env 0 serverFifo submit
    let before : List Action :=
      [.created, .printed (commandLine submit.commandId (text " submitted\n")), .sent send.1]
    afterSend send.1 before t ⟨some 1, before ++ [.destroyed], t⟩
      (withFifo e before t fun fd t => awaitAck e userId command send.2 before fd t)

def runnerRun (request : RunnerRequest) (t : FdTable) : Exit :=
  match request.mode with
  | .status => runnerRunStatus e t
  | .shutdown => runnerRunShutdown e t
  | .execute => runnerRunExecute e request.userId request.command t

/-- `main` of the runner. -/
def runnerMain (argv : List CString) (t : FdTable) : Exit :=
  match runnerParseArgs argv with
  | none => ⟨some 1, [], t⟩
  | some request => runnerRun e request t

end

/-! ## What a runner holds -/

/-- The private FIFO in `/tmp`, and a descriptor on it. -/
structure Held where
  fifo : Bool
  fd : Option Fd
deriving DecidableEq

def Held.nothing : Held := ⟨false, none⟩

/-- `none` when the action comes at the wrong time: a request that is sent before its answer
could arrive, a read without a descriptor, a FIFO removed twice or while it is open. -/
def Held.after (h : Held) : Action → Option Held
  | .created => if h.fifo then none else some { h with fifo := true }
  | .printed _ => some h
  | .sent _ => if h.fifo then some h else none
  | .opened fd => if h.fifo && h.fd.isNone then some { h with fd := some fd } else none
  | .read _ | .executed _ => if h.fd.isSome then some h else none
  | .closed => if h.fd.isSome then some { h with fd := none } else none
  | .destroyed => if h.fifo && h.fd.isNone then some { h with fifo := false } else none

def Held.afterAll (h : Held) (actions : List Action) : Option Held := actions.foldlM Held.after h

@[simp] theorem Held.afterAll_nil (h : Held) : h.afterAll [] = some h := rfl

@[simp] theorem Held.afterAll_cons (h : Held) (a : Action) (actions : List Action) :
    h.afterAll (a :: actions) = (h.after a).bind fun h => h.afterAll actions := rfl

@[simp] theorem Held.afterAll_append (h : Held) (a b : List Action) :
    h.afterAll (a ++ b) = (h.afterAll a).bind fun h => h.afterAll b := by
  simp [Held.afterAll, List.foldlM_append]

/-- SIGPIPE was raised by the write. -/
def Action.kills : Action → Bool
  | .sent send => send.result.isNone
  | .created | .printed _ | .opened _ | .read _ | .executed _ | .closed | .destroyed => false

/-- What a process leaves behind, after actions that were all in order: nothing if it returns
from `main`, and its FIFO if it has been killed, which is then the last thing that happens. -/
inductive Exit.Leaves (x : Exit) (t : FdTable) : Prop
  | nothing (hstatus : x.status ≠ none) (halive : ∀ a ∈ x.actions, a.kills = false)
      (hheld : Held.nothing.afterAll x.actions = some .nothing) (htable : x.table = t)
  | fifo (hstatus : x.status = none) (past : List Action) (last : Action)
      (hactions : x.actions = past ++ [last]) (halive : ∀ a ∈ past, a.kills = false)
      (hkilled : last.kills = true) (fd : Option Fd)
      (hheld : Held.nothing.afterAll x.actions = some ⟨true, fd⟩)

theorem afterAll_statusLoop (fd : Fd) (msgs : List RpcMessage) :
    Held.afterAll ⟨true, some fd⟩ (statusLoop msgs) = some ⟨true, some fd⟩ := by
  induction msgs with
  | nil => rfl
  | cons msg msgs ih =>
      unfold statusLoop
      by_cases hresp : msg.type = .statusResp
      · simp [hresp, Held.after, ih]
      · by_cases hend : msg.type = .statusEnd
        · simp [hend, Held.after]
        · simp [hresp, hend, Held.after, ih]

theorem afterAll_shutdownLoop (fd : Fd) (msgs : List RpcMessage) :
    Held.afterAll ⟨true, some fd⟩ (shutdownLoop msgs) = some ⟨true, some fd⟩ := by
  induction msgs with
  | nil => rfl
  | cons msg msgs ih =>
      unfold shutdownLoop
      by_cases hack : msg.type = .shutdownAck
      · simp [hack, Held.after]
      · simp [hack, Held.after, ih]

/-- The parent is back at its table whatever the pipeline came to. -/
theorem executePipeline_table (k : Kernel) (cmd : ParsedCommand) (t : FdTable) :
    (executePipeline k (some cmd) t).parent.table = t := by
  by_cases hnone : parserGetStageCount cmd = 0
  · simp only [executePipeline, hnone, if_true]
  · obtain ⟨ok, p, hrun, hended⟩ :=
      executeStages_ended k cmd (Nat.zero_add (parserGetStageCount cmd)) (AtRound.start t _) rfl
    rw [executePipeline_parent k hnone, hrun]
    exact hended.table

theorem runCommand_clean (e : RunnerEnv) (userId : Int32) (command : CString) (ackMsg : RpcMessage)
    (fd : Fd) (t : FdTable) :
    Held.afterAll ⟨true, some fd⟩ (runCommand e userId command ackMsg t).1 =
        some ⟨true, some fd⟩ ∧
      (runCommand e userId command ackMsg t).2 = t := by
  unfold runCommand
  cases pipelineToExecute e.env.malloc e.env.getpid userId command (some ackMsg) with
  | none => simp [Held.after]
  | some cmd => simp [Held.after, executePipeline_table]

theorem kills_statusLoop (msgs : List RpcMessage) : ∀ a ∈ statusLoop msgs, a.kills = false := by
  induction msgs with
  | nil => simp [statusLoop]
  | cons msg msgs ih =>
      refine List.forall_mem_append.mpr ⟨?_, ?_⟩
      · split <;> simp [Action.kills]
      · split
        · simp
        · exact ih

theorem kills_shutdownLoop (msgs : List RpcMessage) : ∀ a ∈ shutdownLoop msgs, a.kills = false := by
  induction msgs with
  | nil => simp [shutdownLoop]
  | cons msg msgs ih =>
      refine List.forall_mem_cons.mpr ⟨rfl, ?_⟩
      split
      · simp
      · exact ih

theorem kills_runCommand (e : RunnerEnv) (userId : Int32) (command : CString) (ackMsg : RpcMessage)
    (t : FdTable) : ∀ a ∈ (runCommand e userId command ackMsg t).1, a.kills = false := by
  unfold runCommand
  split <;> simp [Action.kills]

section Leaves

variable {e : RunnerEnv} {t : FdTable}

/-- A write that kills leaves the FIFO behind; otherwise it depends on what follows. -/
theorem afterSend_leaves (send : Send) {past : List Action} (halive : ∀ a ∈ past, a.kills = false)
    {fd : Option Fd} {u : FdTable} {failed sent : Exit}
    (hheld : Held.nothing.afterAll (past ++ [.sent send]) = some ⟨true, fd⟩)
    (hfailed : send.result.isNone = false → failed.Leaves t)
    (hsent : send.result.isNone = false → sent.Leaves t) :
    (afterSend send (past ++ [.sent send]) u failed sent).Leaves t := by
  unfold afterSend
  cases hresult : send.result with
  | none =>
      have hkilled : (Action.sent send).kills = true := by simp [Action.kills, hresult]
      exact .fifo rfl past (.sent send) rfl halive hkilled fd hheld
  | some result =>
      rw [hresult] at hfailed hsent
      dsimp only
      split
      · exact hfailed rfl
      · exact hsent rfl

/-- The descriptor of the private FIFO is one that was free. -/
theorem withFifo_leaves {before : List Action} {rest : Fd → FdTable → Exit}
    (halive : ∀ a ∈ before, a.kills = false)
    (hbefore : Held.nothing.afterAll before = some ⟨true, none⟩)
    (hrest : ∀ fd t', t'.erase fd = t → (rest fd t').Leaves t) :
    (withFifo e before t rest).Leaves t := by
  unfold withFifo
  split
  · refine .nothing (by simp) ?_ (by rw [Held.afterAll_append, hbefore]; rfl) rfl
    exact List.forall_mem_append.mpr ⟨halive, by simp [Action.kills]⟩
  · rename_i fd hopen
    exact hrest fd _ (Descriptors.erase_insert_of_notMem (e.openFifo_free hopen) _)

theorem runnerRunStatus_leaves (e : RunnerEnv) (t : FdTable) : (runnerRunStatus e t).Leaves t := by
  unfold runnerRunStatus
  split
  · exact .nothing (by simp) (by simp) rfl rfl
  · have hpast : ∀ a ∈ [Action.created], a.kills = false := by simp [Action.kills]
    refine afterSend_leaves _ hpast rfl (fun halive => ?_) fun halive => ?_
    · exact .nothing (by simp) (by simp [Action.kills, halive]) rfl rfl
    · apply withFifo_leaves (by simp [Action.kills, halive]) rfl
      intro fd t' ht'
      refine .nothing (by simp) ?_ ?_ ht'
      · refine List.forall_mem_append.mpr
          ⟨List.forall_mem_append.mpr ⟨?_, kills_statusLoop e.reads⟩, by simp [Action.kills]⟩
        simp [Action.kills, halive]
      · simp [Held.after, Held.nothing, afterAll_statusLoop]

theorem runnerRunShutdown_leaves (e : RunnerEnv) (t : FdTable) :
    (runnerRunShutdown e t).Leaves t := by
  unfold runnerRunShutdown
  split
  · exact .nothing (by simp) (by simp) rfl rfl
  · have hpast : ∀ a ∈ [Action.created], a.kills = false := by simp [Action.kills]
    refine afterSend_leaves _ hpast rfl (fun halive => ?_) fun halive => ?_
    · exact .nothing (by simp) (by simp [Action.kills, halive]) rfl rfl
    · apply withFifo_leaves (by simp [Action.kills, halive]) rfl
      intro fd t' ht'
      refine .nothing (by simp) ?_ ?_ ht'
      · refine List.forall_mem_append.mpr
          ⟨List.forall_mem_append.mpr ⟨?_, kills_shutdownLoop e.reads⟩, by simp [Action.kills]⟩
        simp [Action.kills, halive]
      · simp [Held.after, Held.nothing, afterAll_shutdownLoop]

/-- The part of an execution behind the submission. -/
theorem awaitAck_leaves (e : RunnerEnv) (userId : Int32) (command : CString) (ios : Nat)
    {before : List Action} (halive : ∀ a ∈ before, a.kills = false)
    (hbefore : Held.nothing.afterAll before = some ⟨true, none⟩) {fd : Fd} {t' : FdTable}
    (ht' : t'.erase fd = t) : (awaitAck e userId command ios before fd t').Leaves t := by
  unfold awaitAck
  dsimp only
  split
  · refine .nothing (by simp) ?_ ?_ ht'
    · rw [List.append_assoc]
      exact List.forall_mem_append.mpr ⟨halive, by simp [Action.kills]⟩
    · rw [List.append_assoc, Held.afterAll_append, hbefore]
      rfl
  · rename_i ackMsg _ _
    have hopened : ∀ a ∈ before ++ [.opened fd, .read ackMsg], a.kills = false :=
      List.forall_mem_append.mpr ⟨halive, by simp [Action.kills]⟩
    have hread : Held.nothing.afterAll (before ++ [.opened fd, .read ackMsg]) =
        some ⟨true, some fd⟩ := by
      rw [Held.afterAll_append, hbefore]
      rfl
    split
    · obtain ⟨hran, htable⟩ := runCommand_clean e userId command ackMsg fd t'
      have hkills := kills_runCommand e userId command ackMsg t'
      have hexecuted := List.forall_mem_append.mpr ⟨hopened, hkills⟩
      have hheld : Held.nothing.afterAll (before ++ [.opened fd, .read ackMsg] ++
          (runCommand e userId command ackMsg t').1) = some ⟨true, some fd⟩ := by
        rw [Held.afterAll_append, hread]
        exact hran
      have hsent : Held.nothing.afterAll (before ++ [.opened fd, .read ackMsg] ++
          (runCommand e userId command ackMsg t').1 ++
          [.sent (ipcSendAtomic e.env ios serverFifo (msgDone e.env.getpid ackMsg)).1]) =
          some ⟨true, some fd⟩ := by
        rw [Held.afterAll_append, hheld]
        rfl
      refine afterSend_leaves _ hexecuted hsent (fun hsend => ?_) fun hsend => ?_
      · refine .nothing (by simp) ?_ ?_ (by rw [htable]; exact ht')
        · rw [List.append_assoc]
          exact List.forall_mem_append.mpr ⟨hexecuted, by simp [Action.kills, hsend]⟩
        · rw [List.append_assoc, Held.afterAll_append, hheld]
          rfl
      · refine .nothing (by simp) ?_ ?_ (by rw [htable]; exact ht')
        · rw [List.append_assoc]
          exact List.forall_mem_append.mpr ⟨hexecuted, by simp [Action.kills, hsend]⟩
        · rw [List.append_assoc, Held.afterAll_append, hheld]
          rfl
    · refine .nothing (by simp) ?_ ?_ ht'
      · exact List.forall_mem_append.mpr ⟨hopened, by simp [Action.kills]⟩
      · rw [Held.afterAll_append, hread]
        rfl

theorem runnerRunExecute_leaves (e : RunnerEnv) (userId : Int32) (command : CString) (t : FdTable) :
    (runnerRunExecute e userId command t).Leaves t := by
  unfold runnerRunExecute
  split
  · exact .nothing (by simp) (by simp) rfl rfl
  · let submit := submitMsg e.env.getpid userId command
    have hpast : ∀ a ∈ [Action.created, .printed (commandLine submit.commandId
        (text " submitted\n"))], a.kills = false := by
      simp [Action.kills]
    refine afterSend_leaves _ hpast rfl (fun halive => ?_) fun halive => ?_
    · exact .nothing (by simp) (by simp [Action.kills, halive]) rfl rfl
    · apply withFifo_leaves (by simp [Action.kills, halive]) rfl
      intro fd t' ht'
      exact awaitAck_leaves e userId command _ (by simp [Action.kills, halive]) rfl ht'

end Leaves

/-- Whichever of its calls fail and whatever it is answered, a runner that returns from `main`
leaves nothing behind: its private FIFO is there before it sends its request, is open at each
read and while the command runs, and is closed and removed, once each, before it exits; and the
descriptors at its exit are those at its start. It is killed exactly by a write to the public
FIFO that finds the controller gone, and then its own FIFO stays in `/tmp`. -/
theorem runnerMain_clean (e : RunnerEnv) (argv : List CString) (t : FdTable) :
    (runnerMain e argv t).Leaves t := by
  unfold runnerMain
  split
  · exact .nothing (by simp) (by simp) rfl rfl
  · rename_i request _
    unfold runnerRun
    split
    · exact runnerRunStatus_leaves e t
    · exact runnerRunShutdown_leaves e t
    · exact runnerRunExecute_leaves e request.userId request.command t

end RunnerOrchestrator
