import RunnerOrchestrator.Controller.Scheduler

/-! # The controller's message handlers

A `World` is the controller's state together with how many answers of each kind
the environment has given and what the controller has done so far. Diagnostics on
`stderr` are left out.
-/

namespace RunnerOrchestrator

open Removal

/-- The table `fair_users[0..fair_user_count)` is the list `fairUsers`. -/
structure ControllerState where
  parallelLimit : Nat
  runningCount : Nat
  keepRunning : Bool
  isShuttingDown : Bool
  shutdownRequesterPid : Int32
  lastScheduledUser : Int32
  fairUsers : List Int32
  fairUserCapacity : Nat
  waitingQueue : JobQueue
  runningQueue : JobQueue
  policy : CString
deriving Repr, DecidableEq

/-- What leaves the controller: each reply is kept with the job or the message it
answers, a status reply with whether one of its writes killed the process. -/
inductive Event
  | ack (job : JobInfo) (send : Send)
  | refusal (msg : RpcMessage) (send : Send)
  | farewell (send : Send)
  | log (job : JobInfo) (line : CString) (written : Bool)
  | status (dest : Int32) (replies : List RpcMessage) (killed : Bool)
deriving Repr, DecidableEq

/-- SIGPIPE was raised while this was sent. -/
def Event.killed : Event → Bool
  | .ack _ send | .refusal _ send | .farewell send => send.result.isNone
  | .log _ _ _ => false
  | .status _ _ killed => killed

structure World where
  state : ControllerState
  mallocs : Nat
  rands : Nat
  clocks : Nat
  ios : Nat
  logs : Nat
  trace : List Event

/-- A write has killed the controller. What the handlers append to the trace behind that
write is no longer done: see `untilKilled`. -/
def World.killed (w : World) : Bool := w.trace.any Event.killed

/-- What is done up to the write that kills the process. -/
def untilKilled : List Event → List Event
  | [] => []
  | e :: events => if e.killed then [e] else e :: untilKilled events

/-! ## Replies -/

def ackMessage (env : Env) (job : JobInfo) : RpcMessage :=
  { RpcMessage.zero with
    type := .ack, senderPid := env.getpid, userId := job.userId, commandId := job.commandId }

def sendAckToRunner (env : Env) (job : JobInfo) (w : World) : World :=
  let sent := ipcSendAtomic env w.ios job.runnerPid (ackMessage env job)
  { w with ios := sent.2, trace := w.trace ++ [.ack job sent.1] }

def shutdownAckMessage (env : Env) (msg : RpcMessage) : RpcMessage :=
  { RpcMessage.zero with
    type := .shutdownAck, senderPid := env.getpid, userId := msg.userId,
    commandId := msg.commandId }

def sendShutdownAckToRunner (env : Env) (msg : RpcMessage) (w : World) : World :=
  let sent := ipcSendAtomic env w.ios msg.senderPid (shutdownAckMessage env msg)
  { w with ios := sent.2, trace := w.trace ++ [.refusal msg sent.1] }

/-! ## Scheduling -/

def isFairPolicy (s : ControllerState) : Bool := s.policy == text "fair"

def isRandomPolicy (s : ControllerState) : Bool := s.policy == text "random"

/-- `fair_users[fair_user_count++] = user_id`. -/
def ControllerState.appendUser (s : ControllerState) (userId : Int32) : ControllerState :=
  { s with fairUsers := s.fairUsers ++ [userId] }

def rememberFairUser (env : Env) (userId : Int32) (w : World) : World :=
  if userExists w.state.fairUsers userId then w
  else if w.state.fairUsers.length = w.state.fairUserCapacity then
    let newCapacity := if w.state.fairUserCapacity = 0 then 8 else w.state.fairUserCapacity * 2
    if env.malloc w.mallocs then
      { w with
        state := { w.state with fairUserCapacity := newCapacity }.appendUser userId
        mallocs := w.mallocs + 1 }
    else { w with mallocs := w.mallocs + 1 }
  else { w with state := w.state.appendUser userId }

/-- The policy's dequeue. Under "fair" the last user moves with the removal. -/
def dequeueByPolicy (env : Env) (w : World) : Option (JobInfo × World) :=
  let s := w.state
  if isRandomPolicy s then
    (queueDequeueRandom (env.rand w.rands) s.waitingQueue).map fun out =>
      (out.1, { w with state := { s with waitingQueue := out.2 }, rands := w.rands + 1 })
  else if isFairPolicy s then
    (queueDequeueFair (env.malloc w.mallocs) s.fairUsers s.lastScheduledUser
        s.waitingQueue).map fun out =>
      (out.1, { w with
        state := { s with waitingQueue := out.2.1, lastScheduledUser := out.2.2 }
        mallocs := w.mallocs + 1 })
  else
    (queueDequeue s.waitingQueue).map fun out =>
      (out.1, { w with state := { s with waitingQueue := out.2 } })

/-- Puts a job into the running queue and authorises it; without memory for the
node nothing but the call is left of it. -/
def startJob (env : Env) (job : JobInfo) (w : World) : World :=
  match queueEnqueue (env.malloc w.mallocs) w.state.runningQueue job with
  | none => { w with mallocs := w.mallocs + 1 }
  | some running =>
      sendAckToRunner env job
        { w with
          state := { w.state with
            runningQueue := running
            runningCount := w.state.runningCount + 1
            lastScheduledUser := job.userId }
          mallocs := w.mallocs + 1 }

/-- The test of the promotion loop. -/
def ControllerState.canStart (s : ControllerState) : Bool :=
  s.runningCount < s.parallelLimit && !queueIsEmpty s.waitingQueue

/-- The promotion loop, for as many rounds as there are waiting jobs: every round
takes one of them or breaks. -/
def startWaitingRounds (env : Env) : Nat → World → World
  | 0, w => w
  | rounds + 1, w =>
      if w.state.canStart then
        match dequeueByPolicy env w with
        | none => w
        | some (nextJob, w') =>
            startWaitingRounds env rounds (startJob env { nextJob with state := .running } w')
      else w

def startWaitingJobs (env : Env) (w : World) : World :=
  startWaitingRounds env w.state.waitingQueue.length w

/-! ## Handlers -/

/-- The job of a submission, as filled in before the slot test. -/
def submittedJob (env : Env) (msg : RpcMessage) (w : World) : JobInfo :=
  { commandId := msg.commandId
    userId := msg.userId
    state := .queued
    runnerPid := msg.senderPid
    startTime := env.gettimeofday w.clocks }

def handleSubmit (env : Env) (msg : RpcMessage) (w : World) : World :=
  let job := submittedJob env msg w
  let w := rememberFairUser env job.userId { w with clocks := w.clocks + 1 }
  if w.state.runningCount < w.state.parallelLimit then
    startJob env { job with state := .running } w
  else
    match queueEnqueue (env.malloc w.mallocs) w.state.waitingQueue job with
    | none => { w with mallocs := w.mallocs + 1 }
    | some waiting =>
        { w with state := { w.state with waitingQueue := waiting }, mallocs := w.mallocs + 1 }

/-- In the range of `long`: outside of it the source overflows. -/
def elapsedMs (finish start : Timeval) : Int :=
  (finish.tvSec - start.tvSec) * 1000 + (finish.tvUsec - start.tvUsec).tdiv 1000

def logLine (job : JobInfo) (ms : Int) : CString :=
  bounded 256 (text "user-id " ++ decimal job.userId.toInt ++ text " - command-id " ++
    decimal job.commandId.toInt ++ text " - " ++ decimal ms ++ text " ms\n")

/-- One `open`, and with it one `write`. -/
def logFinishedJob (env : Env) (job : JobInfo) (w : World) : World :=
  let line := logLine job (elapsedMs (env.gettimeofday w.clocks) job.startTime)
  if env.logIo w.logs then
    { w with
      clocks := w.clocks + 1, logs := w.logs + 2
      trace := w.trace ++ [.log job line (env.logIo (w.logs + 1))] }
  else
    { w with
      clocks := w.clocks + 1, logs := w.logs + 1, trace := w.trace ++ [.log job line false] }

def handleDone (env : Env) (msg : RpcMessage) (w : World) : World :=
  match queueRemoveByCommandId w.state.runningQueue msg.commandId with
  | none => startWaitingJobs env w
  | some (finishedJob, running) =>
      let w := logFinishedJob env finishedJob
        { w with state := { w.state with runningQueue := running } }
      startWaitingJobs env
        { w with state := { w.state with runningCount := w.state.runningCount - 1 } }

/-! ## Status replies -/

/-- The calls made, the messages that entered the reply FIFO, and whether one of the
writes has killed the process. -/
structure Reply where
  ios : Nat
  sent : List RpcMessage
  killed : Bool

/-- One `write`; the flag says whether all of it succeeded. A killed process writes
nothing more. -/
def writeMessage (env : Env) (msg : RpcMessage) (r : Reply) : Bool × Reply :=
  if r.killed then (false, r)
  else if env.io r.ios then (true, ⟨r.ios + 1, r.sent ++ [msg], false⟩)
  else (false, ⟨r.ios + 1, r.sent, env.sigpipe r.ios⟩)

def statusResp (env : Env) (payload : CString) : RpcMessage :=
  { RpcMessage.zero with
    type := .statusResp, senderPid := env.getpid, payload := bounded rpcPayloadSize payload }

def statusEnd (env : Env) : RpcMessage :=
  { RpcMessage.zero with type := .statusEnd, senderPid := env.getpid }

def statusLine (job : JobInfo) : CString :=
  text "user-id " ++ decimal job.userId.toInt ++ text " - command-id " ++
    decimal job.commandId.toInt ++ text "\n"

def executingHeader : CString := text "---\nExecuting\n"

def scheduledHeader : CString := text "---\nScheduled\n"

/-- Stops at the first failing write. -/
def writeStatusJobs (env : Env) : List JobInfo → Reply → Reply
  | [], r => r
  | job :: jobs, r =>
      let out := writeMessage env (statusResp env (statusLine job)) r
      if out.1 then writeStatusJobs env jobs out.2 else out.2

/-- The writes of `handle_status_req` on the open FIFO. -/
def writeStatus (env : Env) (running waiting : List JobInfo) (r : Reply) : Reply :=
  let executing := writeMessage env (statusResp env executingHeader) r
  if !executing.1 then executing.2
  else
    let scheduled := writeMessage env (statusResp env scheduledHeader)
      (writeStatusJobs env running executing.2)
    if !scheduled.1 then scheduled.2
    else (writeMessage env (statusEnd env) (writeStatusJobs env waiting scheduled.2)).2

/-- The snapshot of the waiting queue, in the order the policy shows it. -/
def waitingSnapshot (env : Env) (mallocs : Nat) (s : ControllerState) : List JobInfo × Nat :=
  let waitSize := queueGetSize s.waitingQueue
  if isFairPolicy s then
    queueCopyFairToArray env.malloc mallocs s.waitingQueue waitSize s.lastScheduledUser s.fairUsers
  else (queueCopyToArray s.waitingQueue waitSize, mallocs)

/-- A snapshot array is allocated only for a non-empty queue. -/
def snapshotMallocs (size : Nat) : Nat := if 0 < size then 1 else 0

def snapshotFails (env : Env) (mallocs size : Nat) : Bool := 0 < size && !env.malloc mallocs

def handleStatusReq (env : Env) (msg : RpcMessage) (w : World) : World :=
  let s := w.state
  let runSize := queueGetSize s.runningQueue
  let runMallocs := w.mallocs + snapshotMallocs runSize
  if snapshotFails env w.mallocs runSize then { w with mallocs := runMallocs }
  else
    let waitSize := queueGetSize s.waitingQueue
    let waitMallocs := runMallocs + snapshotMallocs waitSize
    if snapshotFails env runMallocs waitSize then { w with mallocs := waitMallocs }
    else
      let waiting := waitingSnapshot env waitMallocs s
      if env.io w.ios then
        let reply := writeStatus env (queueCopyToArray s.runningQueue runSize) waiting.1
          ⟨w.ios + 1, [], false⟩
        { w with
          mallocs := waiting.2, ios := reply.ios + 1
          trace := w.trace ++ [.status msg.senderPid reply.sent reply.killed] }
      else { w with mallocs := waiting.2, ios := w.ios + 1 }

/-! ## Shutdown -/

def handleShutdownReq (msg : RpcMessage) (w : World) : World :=
  { w with state := { w.state with
      isShuttingDown := true, shutdownRequesterPid := msg.senderPid } }

/-- Nothing is left to run and a shutdown has been asked for. -/
def ControllerState.isFinished (s : ControllerState) : Bool :=
  s.isShuttingDown && s.runningCount == 0 && queueIsEmpty s.waitingQueue

def farewellMessage : RpcMessage := { RpcMessage.zero with type := .shutdownAck }

/-- The flag is the value returned: 1 when the main loop should stop. -/
def tryFinishShutdown (env : Env) (w : World) : Bool × World :=
  if !w.state.isFinished then (false, w)
  else
    let sent := ipcSendAtomic env w.ios w.state.shutdownRequesterPid farewellMessage
    (true, { w with
      state := { w.state with keepRunning := false }
      ios := sent.2
      trace := w.trace ++ [.farewell sent.1] })

/-! ## Dispatch -/

def controllerHandleMessage (env : Env) (msg : RpcMessage) (w : World) : Bool × World :=
  if msg.type = .submit ∧ w.state.isShuttingDown = true then
    (false, sendShutdownAckToRunner env msg w)
  else
    let w := if msg.type = .submit then handleSubmit env msg w else w
    let w := if msg.type = .done then handleDone env msg w else w
    let w := if msg.type = .statusReq then handleStatusReq env msg w else w
    let w := if msg.type = .shutdownReq then handleShutdownReq msg w else w
    tryFinishShutdown env w

/-! ## Start-up -/

/-- `argv` includes the program's name. Both queues are still `NULL`; they stand
as empty until `controllerInitQueues` has created them. -/
def controllerConfigure (argv : List CString) : ControllerState :=
  let parsedLimit := atoi (argv.getD 1 [])
  { parallelLimit := if 1 < argv.length ∧ 0 < parsedLimit then parsedLimit.toInt.toNat else 4
    runningCount := 0
    keepRunning := true
    isShuttingDown := false
    shutdownRequesterPid := -1
    lastScheduledUser := -1
    fairUsers := []
    fairUserCapacity := 0
    waitingQueue := []
    runningQueue := []
    policy := if 3 ≤ argv.length then bounded 32 (argv.getD 2 []) else text "fcfs" }

/-- Both `malloc`s of `queue_create` are passed in; `none` is the result -1. -/
def controllerInitQueues (waitingMalloc runningMalloc : Bool) (s : ControllerState) :
    Option ControllerState :=
  if waitingMalloc && runningMalloc then
    some { s with waitingQueue := queueCreate, runningQueue := queueCreate }
  else none

/-- The controller when its main loop begins: configured, both queues created. -/
def controllerStart (argv : List CString) : World :=
  { state := (controllerInitQueues true true (controllerConfigure argv)).getD
      (controllerConfigure argv)
    mallocs := 0, rands := 0, clocks := 0, ios := 0, logs := 0, trace := [] }

/-- The messages of `msgs` handled one after the other. -/
def runMessages (env : Env) (msgs : List RpcMessage) (w : World) : World :=
  msgs.foldl (fun w msg => (controllerHandleMessage env msg w).2) w

end RunnerOrchestrator
