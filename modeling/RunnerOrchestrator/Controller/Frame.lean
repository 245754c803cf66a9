import RunnerOrchestrator.Controller.Handlers

/-! # What the scheduling code leaves alone

Every routine of the controller except the two shutdown replies is `Quiet`: the
configuration and the shutdown fields stay, and what it adds to the trace are ACKs,
log lines and status replies that say what the source makes them say. This holds
with any pattern of failing calls.
-/

namespace RunnerOrchestrator

open Removal

/-- `send` is what some `ipc_send_atomic` of `msg` to `dest` came to. -/
def Send.IsOf (env : Env) (send : Send) (dest : Int32) (msg : RpcMessage) : Prop :=
  ∃ ios, send = (ipcSendAtomic env ios dest msg).1

theorem Send.IsOf.dest_eq {env : Env} {send : Send} {dest : Int32} {msg : RpcMessage}
    (h : send.IsOf env dest msg) : send.dest = dest := by
  obtain ⟨ios, rfl⟩ := h
  exact ipcSendAtomic_dest env ios dest msg

theorem Send.IsOf.msg_eq {env : Env} {send : Send} {dest : Int32} {msg : RpcMessage}
    (h : send.IsOf env dest msg) : send.msg = msg := by
  obtain ⟨ios, rfl⟩ := h
  exact ipcSendAtomic_msg env ios dest msg

theorem Send.IsOf.delivered {env : Env} {send : Send} {dest : Int32} {msg : RpcMessage}
    (h : send.IsOf env dest msg) (hio : env.CallsSucceed) : send.delivered = true := by
  obtain ⟨ios, rfl⟩ := h
  exact ipcSendAtomic_delivered hio ios dest msg

/-- The two kinds of message a status reply is made of. -/
def RpcMessage.IsStatusReply (msg : RpcMessage) : Prop :=
  msg.type = .statusResp ∨ msg.type = .statusEnd

/-- The events of the scheduling routines, each with the contents the source gives it. -/
def Event.Routine (env : Env) : Event → Prop
  | .ack job send => send.IsOf env job.runnerPid (ackMessage env job)
  | .log _ _ written => env.LogsSucceed → written = true
  | .status _ replies killed =>
      (∀ msg ∈ replies, msg.IsStatusReply) ∧ (killed = true → ∃ n, env.sigpipe n = true)
  | .refusal _ _ | .farewell _ => False

/-- `w'` comes from `w` by scheduling routines. -/
structure Quiet (env : Env) (w w' : World) : Prop where
  parallelLimit : w'.state.parallelLimit = w.state.parallelLimit
  policy : w'.state.policy = w.state.policy
  keepRunning : w'.state.keepRunning = w.state.keepRunning
  isShuttingDown : w'.state.isShuttingDown = w.state.isShuttingDown
  requester : w'.state.shutdownRequesterPid = w.state.shutdownRequesterPid
  trace : ∃ events, w'.trace = w.trace ++ events ∧ ∀ e ∈ events, e.Routine env

theorem Quiet.of_trace_eq {env : Env} {w w' : World}
    (hl : w'.state.parallelLimit = w.state.parallelLimit) (hp : w'.state.policy = w.state.policy)
    (hk : w'.state.keepRunning = w.state.keepRunning)
    (hs : w'.state.isShuttingDown = w.state.isShuttingDown)
    (hr : w'.state.shutdownRequesterPid = w.state.shutdownRequesterPid)
    (ht : w'.trace = w.trace) : Quiet env w w' :=
  ⟨hl, hp, hk, hs, hr, [], by simp [ht], by simp⟩

theorem Quiet.refl (env : Env) (w : World) : Quiet env w w :=
  .of_trace_eq rfl rfl rfl rfl rfl rfl

theorem Quiet.trans {env : Env} {w₁ w₂ w₃ : World} (h₁ : Quiet env w₁ w₂)
    (h₂ : Quiet env w₂ w₃) : Quiet env w₁ w₃ := by
  obtain ⟨e₁, ht₁, hr₁⟩ := h₁.trace
  obtain ⟨e₂, ht₂, hr₂⟩ := h₂.trace
  refine ⟨h₂.parallelLimit.trans h₁.parallelLimit, h₂.policy.trans h₁.policy,
    h₂.keepRunning.trans h₁.keepRunning, h₂.isShuttingDown.trans h₁.isShuttingDown,
    h₂.requester.trans h₁.requester, e₁ ++ e₂, ?_, ?_⟩
  · rw [ht₂, ht₁, List.append_assoc]
  · intro e he
    exact (List.mem_append.mp he).elim (hr₁ e) (hr₂ e)

/-! ## One routine at a time -/

@[simp] theorem sendAckToRunner_state (env : Env) (job : JobInfo) (w : World) :
    (sendAckToRunner env job w).state = w.state := rfl

theorem sendAckToRunner_quiet (env : Env) (job : JobInfo) (w : World) :
    Quiet env w (sendAckToRunner env job w) := by
  refine ⟨rfl, rfl, rfl, rfl, rfl, _, rfl, fun e he => ?_⟩
  rw [List.mem_singleton.mp he]
  exact ⟨w.ios, rfl⟩

@[simp] theorem logFinishedJob_state (env : Env) (job : JobInfo) (w : World) :
    (logFinishedJob env job w).state = w.state := by
  unfold logFinishedJob
  dsimp only
  split <;> rfl

@[simp] theorem logFinishedJob_rands (env : Env) (job : JobInfo) (w : World) :
    (logFinishedJob env job w).rands = w.rands := by
  unfold logFinishedJob
  dsimp only
  split <;> rfl

/-- One log event, written when the calls succeed. -/
theorem logFinishedJob_trace (env : Env) (job : JobInfo) (w : World) :
    ∃ line written, (logFinishedJob env job w).trace = w.trace ++ [.log job line written] ∧
      (env.LogsSucceed → written = true) := by
  unfold logFinishedJob
  dsimp only
  split
  · exact ⟨_, _, rfl, fun h => h _⟩
  · rename_i hfail
    exact ⟨_, _, rfl, fun h => absurd (h _) hfail⟩

theorem logFinishedJob_quiet (env : Env) (job : JobInfo) (w : World) :
    Quiet env w (logFinishedJob env job w) := by
  obtain ⟨line, written, ht, hw⟩ := logFinishedJob_trace env job w
  refine ⟨by simp, by simp, by simp, by simp, by simp, _, ht, ?_⟩
  simpa [Event.Routine] using hw

/-- Only the table, its capacity and the allocation count can change. -/
theorem rememberFairUser_frame (env : Env) (userId : Int32) (w : World) :
    ∃ users capacity mallocs, rememberFairUser env userId w =
      { w with
        state := { w.state with fairUsers := users, fairUserCapacity := capacity }
        mallocs := mallocs } := by
  unfold rememberFairUser ControllerState.appendUser
  dsimp only
  split
  · exact ⟨_, _, _, rfl⟩
  · split
    · split
      · exact ⟨_, _, _, rfl⟩
      · exact ⟨_, _, _, rfl⟩
    · exact ⟨_, _, _, rfl⟩

/-- The state with `job` put into the running queue. -/
def ControllerState.start (s : ControllerState) (job : JobInfo) : ControllerState :=
  { s with
    runningQueue := s.runningQueue ++ [job]
    runningCount := s.runningCount + 1
    lastScheduledUser := job.userId }

theorem startJob_of_malloc {env : Env} {job : JobInfo} {w : World}
    (h : env.malloc w.mallocs = true) :
    startJob env job w =
      sendAckToRunner env job { w with state := w.state.start job, mallocs := w.mallocs + 1 } := by
  simp [startJob, queueEnqueue, h, ControllerState.start]

theorem startJob_of_no_malloc {env : Env} {job : JobInfo} {w : World}
    (h : env.malloc w.mallocs = false) :
    startJob env job w = { w with mallocs := w.mallocs + 1 } := by
  simp [startJob, queueEnqueue, h]

theorem startJob_quiet (env : Env) (job : JobInfo) (w : World) :
    Quiet env w (startJob env job w) := by
  cases h : env.malloc w.mallocs with
  | true =>
      rw [startJob_of_malloc h]
      have hplace : Quiet env w { w with state := w.state.start job, mallocs := w.mallocs + 1 } :=
        .of_trace_eq rfl rfl rfl rfl rfl rfl
      exact hplace.trans (sendAckToRunner_quiet env job _)
  | false =>
      rw [startJob_of_no_malloc h]
      exact .of_trace_eq rfl rfl rfl rfl rfl rfl

/-- The calls of `rand` that one dequeue makes. -/
def ControllerState.draws (s : ControllerState) : Nat := if isRandomPolicy s then 1 else 0

/-- The user tables that one dequeue allocates. -/
def ControllerState.tables (s : ControllerState) : Nat :=
  if isRandomPolicy s then 0 else if isFairPolicy s then 1 else 0

/-- A dequeue takes one job out of the waiting queue; beside the queue only
`last_scheduled_user` and the counts of answers can move. -/
theorem dequeueByPolicy_frame {env : Env} {w w' : World} {job : JobInfo}
    (h : dequeueByPolicy env w = some (job, w')) :
    ∃ rest last, Removes w.state.waitingQueue job rest ∧
      w' = { w with
        state := { w.state with waitingQueue := rest, lastScheduledUser := last }
        mallocs := w.mallocs + w.state.tables, rands := w.rands + w.state.draws } := by
  unfold dequeueByPolicy at h
  unfold ControllerState.tables ControllerState.draws
  dsimp only at h
  split at h
  · rename_i hr
    obtain ⟨⟨j, r⟩, hout, heq⟩ := Option.map_eq_some_iff.mp h
    cases heq
    exact ⟨r, w.state.lastScheduledUser, queueDequeueRandom_removes hout, by simp [hr]⟩
  · rename_i hr
    split at h
    · rename_i hf
      obtain ⟨⟨j, r, l⟩, hout, heq⟩ := Option.map_eq_some_iff.mp h
      cases heq
      exact ⟨r, l, (queueDequeueFair_removes hout).1, by simp [hr, hf]⟩
    · rename_i hf
      obtain ⟨⟨j, r⟩, hout, heq⟩ := Option.map_eq_some_iff.mp h
      cases heq
      exact ⟨r, w.state.lastScheduledUser, queueDequeue_removes hout, by simp [hr, hf]⟩

/-- No policy fails on a non-empty queue: the `break` of the loop is never taken. -/
theorem exists_dequeueByPolicy (env : Env) {w : World} (hw : w.state.waitingQueue ≠ []) :
    ∃ job w', dequeueByPolicy env w = some (job, w') := by
  unfold dequeueByPolicy
  dsimp only
  split
  · obtain ⟨job, r, hout⟩ := exists_queueDequeueRandom (env.rand w.rands) hw
    exact ⟨_, _, by rw [hout]; rfl⟩
  · split
    · obtain ⟨job, r, hout⟩ := exists_queueDequeueFair (env.malloc w.mallocs) w.state.fairUsers
        w.state.lastScheduledUser hw
      exact ⟨_, _, by rw [hout]; rfl⟩
    · obtain ⟨job, r, hout⟩ := exists_queueDequeue hw
      exact ⟨_, _, by rw [hout]; rfl⟩

theorem startWaitingRounds_quiet (env : Env) (rounds : Nat) (w : World) :
    Quiet env w (startWaitingRounds env rounds w) := by
  induction rounds generalizing w with
  | zero => exact Quiet.refl env w
  | succ rounds ih =>
      unfold startWaitingRounds
      split
      · split
        · exact Quiet.refl env w
        · rename_i job w' hdeq
          obtain ⟨rest, last, -, rfl⟩ := dequeueByPolicy_frame hdeq
          have hdequeue : Quiet env w { w with
              state := { w.state with waitingQueue := rest, lastScheduledUser := last }
              mallocs := w.mallocs + w.state.tables, rands := w.rands + w.state.draws } :=
            .of_trace_eq rfl rfl rfl rfl rfl rfl
          exact (hdequeue.trans (startJob_quiet env _ _)).trans (ih _)
      · exact Quiet.refl env w

theorem startWaitingJobs_quiet (env : Env) (w : World) : Quiet env w (startWaitingJobs env w) :=
  startWaitingRounds_quiet env _ w

/-! ## The handlers -/

theorem handleSubmit_quiet (env : Env) (msg : RpcMessage) (w : World) :
    Quiet env w (handleSubmit env msg w) := by
  obtain ⟨users, capacity, mallocs, heq⟩ :=
    rememberFairUser_frame env msg.userId { w with clocks := w.clocks + 1 }
  have hremember : Quiet env w (rememberFairUser env msg.userId { w with clocks := w.clocks + 1 }) := by
    rw [heq]
    exact .of_trace_eq rfl rfl rfl rfl rfl rfl
  unfold handleSubmit
  dsimp only [submittedJob]
  split
  · exact hremember.trans (startJob_quiet env _ _)
  · refine hremember.trans ?_
    split
    · exact .of_trace_eq rfl rfl rfl rfl rfl rfl
    · exact .of_trace_eq rfl rfl rfl rfl rfl rfl

theorem handleDone_quiet (env : Env) (msg : RpcMessage) (w : World) :
    Quiet env w (handleDone env msg w) := by
  unfold handleDone
  split
  · exact startWaitingJobs_quiet env w
  · rename_i job running _
    dsimp only
    have hunlink : Quiet env w { w with state := { w.state with runningQueue := running } } :=
      .of_trace_eq rfl rfl rfl rfl rfl rfl
    have hcount : ∀ v : World, Quiet env v
        { v with state := { v.state with runningCount := v.state.runningCount - 1 } } :=
      fun v => .of_trace_eq rfl rfl rfl rfl rfl rfl
    exact ((hunlink.trans (logFinishedJob_quiet env job _)).trans (hcount _)).trans
      (startWaitingJobs_quiet env _)

@[simp] theorem handleStatusReq_state (env : Env) (msg : RpcMessage) (w : World) :
    (handleStatusReq env msg w).state = w.state := by
  unfold handleStatusReq
  dsimp only
  split
  · rfl
  · split
    · rfl
    · split <;> rfl

/-- What the writes of a status reply have done, however many of them fail. -/
structure Reply.Proper (env : Env) (r : Reply) : Prop where
  sent : ∀ m ∈ r.sent, m.IsStatusReply
  killed : r.killed = true → ∃ n, env.sigpipe n = true

theorem writeMessage_proper {env : Env} {msg : RpcMessage} {r : Reply} (hmsg : msg.IsStatusReply)
    (h : r.Proper env) : (writeMessage env msg r).2.Proper env := by
  unfold writeMessage
  split
  · exact h
  · split
    · refine ⟨fun m hm => ?_, by simp⟩
      rcases List.mem_append.mp hm with hm | hm
      · exact h.sent m hm
      · rw [List.mem_singleton.mp hm]
        exact hmsg
    · exact ⟨h.sent, fun hpipe => ⟨_, hpipe⟩⟩

theorem writeStatusJobs_proper {env : Env} (jobs : List JobInfo) {r : Reply} (h : r.Proper env) :
    (writeStatusJobs env jobs r).Proper env := by
  induction jobs generalizing r with
  | nil => exact h
  | cons job jobs ih =>
      have hresp : (statusResp env (statusLine job)).IsStatusReply := Or.inl rfl
      have hwrite := writeMessage_proper hresp h
      unfold writeStatusJobs
      dsimp only
      split
      · exact ih hwrite
      · exact hwrite

theorem writeStatus_proper {env : Env} {running waiting : List JobInfo} {r : Reply}
    (h : r.Proper env) : (writeStatus env running waiting r).Proper env := by
  have hresp : ∀ payload, (statusResp env payload).IsStatusReply := fun payload => Or.inl rfl
  have hend : (statusEnd env).IsStatusReply := Or.inr rfl
  have hexecuting := writeMessage_proper (hresp executingHeader) h
  unfold writeStatus
  dsimp only
  split
  · exact hexecuting
  · have hscheduled := writeMessage_proper (hresp scheduledHeader)
      (writeStatusJobs_proper running hexecuting)
    split
    · exact hscheduled
    · exact writeMessage_proper hend (writeStatusJobs_proper waiting hscheduled)

/-- At most one event is added: the status reply. -/
theorem handleStatusReq_trace (env : Env) (msg : RpcMessage) (w : World) :
    (handleStatusReq env msg w).trace = w.trace ∨
      ∃ replies killed, (handleStatusReq env msg w).trace =
          w.trace ++ [.status msg.senderPid replies killed] ∧
        (∀ m ∈ replies, m.IsStatusReply) ∧ (killed = true → ∃ n, env.sigpipe n = true) := by
  unfold handleStatusReq
  dsimp only
  split
  · exact Or.inl rfl
  · split
    · exact Or.inl rfl
    · split
      · have hopened : Reply.Proper env ⟨w.ios + 1, [], false⟩ := ⟨by simp, by simp⟩
        exact Or.inr ⟨_, _, rfl, (writeStatus_proper hopened).sent, (writeStatus_proper hopened).killed⟩
      · exact Or.inl rfl

theorem handleStatusReq_quiet (env : Env) (msg : RpcMessage) (w : World) :
    Quiet env w (handleStatusReq env msg w) := by
  refine ⟨by simp, by simp, by simp, by simp, by simp, ?_⟩
  rcases handleStatusReq_trace env msg w with h | ⟨replies, killed, h, hreplies⟩
  · exact ⟨[], by simp [h], by simp⟩
  · refine ⟨_, h, fun e he => ?_⟩
    rw [List.mem_singleton.mp he]
    exact hreplies

/-! ## Dispatch -/

/-- The handler of a message that is not refused. -/
def serve (env : Env) (msg : RpcMessage) (w : World) : World :=
  match msg.type with
  | .submit => handleSubmit env msg w
  | .done => handleDone env msg w
  | .statusReq => handleStatusReq env msg w
  | .shutdownReq => handleShutdownReq msg w
  | .status | .shutdown | .ack | .statusResp | .statusEnd | .shutdownAck => w

/-- A submission that arrives while the controller is shutting down. -/
def IsLate (msg : RpcMessage) (s : ControllerState) : Prop :=
  msg.type = .submit ∧ s.isShuttingDown = true

instance (msg : RpcMessage) (s : ControllerState) : Decidable (IsLate msg s) :=
  inferInstanceAs (Decidable (_ ∧ _))

theorem controllerHandleMessage_late {env : Env} {msg : RpcMessage} {w : World}
    (h : IsLate msg w.state) :
    controllerHandleMessage env msg w = (false, sendShutdownAckToRunner env msg w) :=
  if_pos h

theorem controllerHandleMessage_serve {env : Env} {msg : RpcMessage} {w : World}
    (h : ¬ IsLate msg w.state) :
    controllerHandleMessage env msg w = tryFinishShutdown env (serve env msg w) := by
  have hn : ¬ (msg.type = .submit ∧ w.state.isShuttingDown = true) := h
  unfold controllerHandleMessage
  rw [if_neg hn]
  unfold serve
  cases msg.type <;> rfl

theorem serve_quiet {env : Env} {msg : RpcMessage} {w : World} (h : msg.type ≠ .shutdownReq) :
    Quiet env w (serve env msg w) := by
  unfold serve
  split
  · exact handleSubmit_quiet env msg w
  · exact handleDone_quiet env msg w
  · exact handleStatusReq_quiet env msg w
  · rename_i ht
    exact absurd ht h
  all_goals exact Quiet.refl env w

theorem serve_shutdownReq {env : Env} {msg : RpcMessage} {w : World}
    (h : msg.type = .shutdownReq) : serve env msg w = handleShutdownReq msg w := by
  simp [serve, h]

/-! ## Messages -/

/-- What the program puts into an event of each kind. -/
def Event.Genuine (env : Env) : Event → Prop
  | .ack job send => send.IsOf env job.runnerPid (ackMessage env job)
  | .refusal msg send => send.IsOf env msg.senderPid (shutdownAckMessage env msg)
  | .farewell send => ∃ dest, send.IsOf env dest farewellMessage
  | .log _ _ written => env.LogsSucceed → written = true
  | .status _ replies killed =>
      (∀ msg ∈ replies, msg.IsStatusReply) ∧ (killed = true → ∃ n, env.sigpipe n = true)

theorem Event.Routine.genuine {env : Env} {e : Event} (h : e.Routine env) : e.Genuine env := by
  cases e with
  | ack job send => exact h
  | refusal msg send => exact absurd h id
  | farewell send => exact absurd h id
  | log job line written => exact h
  | status dest replies killed => exact h

theorem serve_trace (env : Env) (msg : RpcMessage) (w : World) :
    ∃ events, (serve env msg w).trace = w.trace ++ events ∧ ∀ e ∈ events, e.Routine env := by
  by_cases ht : msg.type = .shutdownReq
  · rw [serve_shutdownReq ht]
    exact ⟨[], by simp [handleShutdownReq], by simp⟩
  · exact (serve_quiet ht).trace

theorem controllerHandleMessage_genuine (env : Env) (msg : RpcMessage) (w : World) :
    ∃ events, (controllerHandleMessage env msg w).2.trace = w.trace ++ events ∧
      ∀ e ∈ events, e.Genuine env := by
  by_cases hlate : IsLate msg w.state
  · rw [controllerHandleMessage_late hlate]
    refine ⟨_, rfl, fun e he => ?_⟩
    rw [List.mem_singleton.mp he]
    exact ⟨w.ios, rfl⟩
  · rw [controllerHandleMessage_serve hlate]
    obtain ⟨events, htrace, hroutine⟩ := serve_trace env msg w
    unfold tryFinishShutdown
    split
    · exact ⟨events, htrace, fun e he => (hroutine e he).genuine⟩
    · refine ⟨_, by simp only [htrace, List.append_assoc]; rfl, fun e he => ?_⟩
      rcases List.mem_append.mp he with he | he
      · exact (hroutine e he).genuine
      · rw [List.mem_singleton.mp he]
        exact ⟨_, _, rfl⟩

/-- A write kills only where a FIFO has lost its reader. -/
theorem Event.Genuine.sigpipe {env : Env} {e : Event} (h : e.Genuine env) (hkilled : e.killed = true) :
    ∃ n, env.sigpipe n = true := by
  have hsend : ∀ {send : Send} {dest : Int32} {msg : RpcMessage}, send.IsOf env dest msg →
      send.result.isNone = true → ∃ n, env.sigpipe n = true := by
    rintro send dest msg ⟨ios, rfl⟩ hnone
    exact ⟨_, sigpipe_of_result (Option.isNone_iff_eq_none.mp hnone)⟩
  cases e with
  | ack job send => exact hsend h hkilled
  | refusal msg send => exact hsend h hkilled
  | farewell send =>
      obtain ⟨dest, hdest⟩ := h
      exact hsend hdest hkilled
  | log job line written => cases hkilled
  | status dest replies killed => exact h.2 hkilled

theorem run_killed {env : Env} {msgs : List RpcMessage} {w : World} (hw : w.killed = false)
    (hkilled : (runMessages env msgs w).killed = true) : ∃ n, env.sigpipe n = true := by
  induction msgs generalizing w with
  | nil =>
      rw [show (runMessages env [] w).killed = w.killed from rfl, hw] at hkilled
      cases hkilled
  | cons msg msgs ih =>
      obtain ⟨events, htrace, hgenuine⟩ := controllerHandleMessage_genuine env msg w
      by_cases hnow : (controllerHandleMessage env msg w).2.killed = true
      · rw [World.killed, htrace, List.any_append, Bool.or_eq_true] at hnow
        rcases hnow with hnow | hnow
        · rw [World.killed, hnow] at hw
          cases hw
        · obtain ⟨e, he, hkills⟩ := List.any_eq_true.mp hnow
          exact (hgenuine e he).sigpipe hkills
      · exact ih (Bool.not_eq_true _ ▸ hnow) hkilled

theorem tryFinishShutdown_state (env : Env) (w : World) :
    (tryFinishShutdown env w).2.state =
      { w.state with keepRunning := w.state.keepRunning && !w.state.isFinished } := by
  unfold tryFinishShutdown
  cases w.state.isFinished <;> simp

/-- Only a SHUTDOWN_REQ starts the shutdown, and nothing takes it back. -/
theorem controllerHandleMessage_isShuttingDown (env : Env) (msg : RpcMessage) (w : World) :
    (controllerHandleMessage env msg w).2.state.isShuttingDown =
      (w.state.isShuttingDown || msg.type == .shutdownReq) := by
  by_cases hlate : IsLate msg w.state
  · rw [controllerHandleMessage_late hlate]
    simp [sendShutdownAckToRunner, hlate.2]
  · rw [controllerHandleMessage_serve hlate, tryFinishShutdown_state]
    by_cases ht : msg.type = .shutdownReq
    · rw [serve_shutdownReq ht]
      simp [handleShutdownReq, ht]
    · rw [(serve_quiet ht).isShuttingDown]
      simp [ht]

theorem isFinished_iff {s : ControllerState} :
    s.isFinished = true ↔
      s.isShuttingDown = true ∧ s.runningCount = 0 ∧ s.waitingQueue = [] := by
  simp [ControllerState.isFinished, queueIsEmpty, and_assoc]

/-- The controller returns 1 on a message that is served and leaves nothing to do. -/
theorem controllerHandleMessage_returns {env : Env} {msg : RpcMessage} {w : World} :
    (controllerHandleMessage env msg w).1 = true ↔
      ¬ IsLate msg w.state ∧ (serve env msg w).state.isFinished = true := by
  by_cases hlate : IsLate msg w.state
  · simp [controllerHandleMessage_late hlate, hlate]
  · rw [controllerHandleMessage_serve hlate]
    unfold tryFinishShutdown
    cases (serve env msg w).state.isFinished <;> simp [hlate]

theorem controllerHandleMessage_finished {env : Env} {msg : RpcMessage} {w : World}
    (h : (controllerHandleMessage env msg w).1 = true) :
    (controllerHandleMessage env msg w).2.state =
      { (serve env msg w).state with keepRunning := false } := by
  obtain ⟨hlate, hstop⟩ := controllerHandleMessage_returns.mp h
  rw [controllerHandleMessage_serve hlate]
  simp [tryFinishShutdown, hstop]

end RunnerOrchestrator
