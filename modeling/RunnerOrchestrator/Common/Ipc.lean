import RunnerOrchestrator.Common.Protocol

/-! # The operating system, call by call

Whatever the program cannot decide is an answer of the environment: each kind of
call has its own stream of answers, read in call order. No relation between the
answers is assumed, so a statement over every `Env` covers every stream of
`rand()` results and every pattern of failing calls.
-/

namespace RunnerOrchestrator

structure Timeval where
  tvSec : Int
  tvUsec : Int
deriving Repr, DecidableEq

structure Env where
  getpid : Int32
  /-- Did the n-th `malloc` or `realloc` succeed? -/
  malloc : Nat → Bool
  rand : Nat → Nat
  gettimeofday : Nat → Timeval
  /-- Did the n-th `open`, `write` or `close` of a FIFO succeed? -/
  io : Nat → Bool
  /-- Is the n-th of these calls made on a FIFO that nobody reads any more? -/
  readerGone : Nat → Bool
  /-- Did the n-th `open` or `write` of `log.txt` succeed? -/
  logIo : Nat → Bool

/-- A failing `write` that finds the reader gone raises SIGPIPE. Nothing in the program
ignores it, so the process is killed in this call. -/
def Env.sigpipe (env : Env) (n : Nat) : Bool := !env.io n && env.readerGone n

def Env.AllocsSucceed (env : Env) : Prop := ∀ n, env.malloc n = true

def Env.CallsSucceed (env : Env) : Prop := ∀ n, env.io n = true

def Env.LogsSucceed (env : Env) : Prop := ∀ n, env.logIo n = true

/-- A machine on which every call succeeds. -/
def Env.calm : Env :=
  { getpid := 100, malloc := fun _ => true, rand := fun n => n,
    gettimeofday := fun n => ⟨n, 0⟩, io := fun _ => true, readerGone := fun _ => false,
    logIo := fun _ => true }

theorem Env.calm_allocsSucceed : Env.calm.AllocsSucceed := fun _ => rfl

theorem Env.calm_callsSucceed : Env.calm.CallsSucceed := fun _ => rfl

theorem Env.calm_logsSucceed : Env.calm.LogsSucceed := fun _ => rfl

/-- `mkfifo` succeeds, or fails with `EEXIST`, or fails otherwise. -/
inductive Mkfifo
  | made
  | eexist
  | refused
deriving Repr, DecidableEq

def ipcCreateFifo : Mkfifo → Int
  | .made | .eexist => 0
  | .refused => -1

/-- One `ipc_send_atomic` to `/tmp/runner_<dest>`: whether the message entered the
FIFO, and the value returned, `none` when the process is killed on the way. -/
structure Send where
  dest : Int32
  msg : RpcMessage
  delivered : Bool
  result : Option Int
deriving Repr, DecidableEq

/-- `ipc_send_atomic`, with the number of calls made before and after it. A failing
`close` turns the result into -1 though the message is in the FIFO. -/
def ipcSendAtomic (env : Env) (ios : Nat) (dest : Int32) (msg : RpcMessage) : Send × Nat :=
  if env.io ios then
    if env.sigpipe (ios + 1) then (⟨dest, msg, false, none⟩, ios + 2)
    else
      let written : Int := if env.io (ios + 1) then sizeofRpcMessage else -1
      let result := if !env.io (ios + 2) && written != -1 then -1 else written
      (⟨dest, msg, env.io (ios + 1), some result⟩, ios + 3)
  else
    (⟨dest, msg, false, some (-1)⟩, ios + 1)

@[simp] theorem ipcSendAtomic_dest (env : Env) (ios : Nat) (dest : Int32) (msg : RpcMessage) :
    (ipcSendAtomic env ios dest msg).1.dest = dest := by
  unfold ipcSendAtomic
  split
  · split <;> rfl
  · rfl

@[simp] theorem ipcSendAtomic_msg (env : Env) (ios : Nat) (dest : Int32) (msg : RpcMessage) :
    (ipcSendAtomic env ios dest msg).1.msg = msg := by
  unfold ipcSendAtomic
  split
  · split <;> rfl
  · rfl

theorem sigpipe_of_result {env : Env} {ios : Nat} {dest : Int32} {msg : RpcMessage}
    (h : (ipcSendAtomic env ios dest msg).1.result = none) : env.sigpipe (ios + 1) = true := by
  unfold ipcSendAtomic at h
  split at h
  · split at h
    · assumption
    · cases h
  · cases h

/-- The message is in the FIFO exactly when its `open` and its `write` succeed. -/
theorem ipcSendAtomic_delivered_eq (env : Env) (ios : Nat) (dest : Int32) (msg : RpcMessage) :
    (ipcSendAtomic env ios dest msg).1.delivered = (env.io ios && env.io (ios + 1)) := by
  unfold ipcSendAtomic Env.sigpipe
  cases env.io ios with
  | false => rfl
  | true =>
      cases env.io (ios + 1) with
      | true => rfl
      | false => cases env.readerGone (ios + 1) <;> rfl

theorem ipcSendAtomic_delivered {env : Env} (h : env.CallsSucceed) (ios : Nat) (dest : Int32)
    (msg : RpcMessage) : (ipcSendAtomic env ios dest msg).1.delivered = true := by
  simp [ipcSendAtomic_delivered_eq, h ios, h (ios + 1)]

end RunnerOrchestrator
