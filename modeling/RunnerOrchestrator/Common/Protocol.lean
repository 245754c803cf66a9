import RunnerOrchestrator.Common.Text

/-! # Messages exchanged through the FIFOs -/

namespace RunnerOrchestrator

/-- `RPC_PAYLOAD_SIZE`. -/
def rpcPayloadSize : Nat := 480

inductive MsgType
  | submit | status | shutdown | ack | done | statusReq | statusResp | statusEnd
  | shutdownReq | shutdownAck
deriving Repr, DecidableEq

/-- `int` and `pid_t` are 32 bits wide, `long` is 64 bits wide. The payload is the
C string it holds. -/
structure RpcMessage where
  type : MsgType
  senderPid : Int32
  userId : Int32
  commandId : Int64
  payload : CString
deriving Repr, DecidableEq

/-- `memset(&msg, 0, sizeof(msg))`. -/
def RpcMessage.zero : RpcMessage := ⟨.submit, 0, 0, 0, []⟩

/-- `sizeof(RpcMessage)`, padding included. -/
def sizeofRpcMessage : Int := 504

end RunnerOrchestrator
