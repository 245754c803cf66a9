import RunnerOrchestrator.Common.Protocol

/-! # The runner's side of the protocol

The messages a runner sends in each mode and what it does with those it reads. A
list of messages stands for what its FIFO delivers up to the end of file.
-/

namespace RunnerOrchestrator

inductive RunnerMode
  | execute | status | shutdown
deriving Repr, DecidableEq

structure RunnerRequest where
  mode : RunnerMode
  userId : Int32
  command : CString
deriving Repr, DecidableEq

/-- `argv` includes the program's name; `none` is the usage error. -/
def runnerParseArgs (argv : List CString) : Option RunnerRequest :=
  if argv.length = 2 ∧ argv.getD 1 [] = text "-c" then some ⟨.status, 0, []⟩
  else if argv.length = 2 ∧ argv.getD 1 [] = text "-s" then some ⟨.shutdown, 0, []⟩
  else if argv.length ≠ 4 ∨ argv.getD 1 [] ≠ text "-e" then none
  else some ⟨.execute, atoi (argv.getD 2 []), argv.getD 3 []⟩

/-! ## Messages sent -/

def statusReq (pid : Int32) : RpcMessage :=
  { RpcMessage.zero with type := .statusReq, senderPid := pid }

def shutdownReq (pid : Int32) : RpcMessage :=
  { RpcMessage.zero with type := .shutdownReq, senderPid := pid }

/-- The command id of a submission is the runner's own PID. -/
def submitMsg (pid userId : Int32) (command : CString) : RpcMessage :=
  { type := .submit, senderPid := pid, userId := userId, commandId := pid.toInt64,
    payload := bounded rpcPayloadSize command }

/-- DONE repeats the ids of the ACK, not those of the submission. -/
def msgDone (pid : Int32) (ackMsg : RpcMessage) : RpcMessage :=
  { RpcMessage.zero with
    type := .done, senderPid := pid, userId := ackMsg.userId, commandId := ackMsg.commandId }

/-! ## Messages read -/

/-- What `runner_run_status` prints. -/
def printStatus : List RpcMessage → CString
  | [] => []
  | statusMsg :: rest =>
      (if statusMsg.type = .statusResp then statusMsg.payload else []) ++
        if statusMsg.type = .statusEnd then [] else printStatus rest

/-- `runner_run_shutdown` reads on until a SHUTDOWN_ACK comes. -/
def releasedBy (replies : List RpcMessage) : Bool := replies.any fun msg => msg.type == .shutdownAck

/-- `runner_run_execute` goes on to its command on an ACK only. -/
def isAuthorised (ackMsg : RpcMessage) : Bool := ackMsg.type == .ack

end RunnerOrchestrator
