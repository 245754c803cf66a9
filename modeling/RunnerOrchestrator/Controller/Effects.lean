import RunnerOrchestrator.Controller.Slots

/-! # What one message can do

With memory available and the slots accounted for, a message does one of a few
things. `Served` lists them with the complete resulting state and every event, and
`Handled` adds the refusal of late submissions and the end of the shutdown. Every
invariant of whole runs is read off these two.
-/

namespace RunnerOrchestrator

open Removal

/-- `remember_fair_user` when `realloc` succeeds. -/
def ControllerState.remember (s : ControllerState) (userId : Int32) : ControllerState :=
  if userExists s.fairUsers userId then s
  else
    { s with
      fairUsers := s.fairUsers ++ [userId]
      fairUserCapacity :=
        if s.fairUsers.length = s.fairUserCapacity then
          (if s.fairUserCapacity = 0 then 8 else s.fairUserCapacity * 2)
        else s.fairUserCapacity }

@[simp] theorem ControllerState.remember_runningCount (s : ControllerState) (userId : Int32) :
    (s.remember userId).runningCount = s.runningCount := by
  unfold ControllerState.remember
  split <;> rfl

@[simp] theorem ControllerState.remember_parallelLimit (s : ControllerState) (userId : Int32) :
    (s.remember userId).parallelLimit = s.parallelLimit := by
  unfold ControllerState.remember
  split <;> rfl

@[simp] theorem ControllerState.remember_waitingQueue (s : ControllerState) (userId : Int32) :
    (s.remember userId).waitingQueue = s.waitingQueue := by
  unfold ControllerState.remember
  split <;> rfl

@[simp] theorem ControllerState.remember_runningQueue (s : ControllerState) (userId : Int32) :
    (s.remember userId).runningQueue = s.runningQueue := by
  unfold ControllerState.remember
  split <;> rfl

/-- The policy's choice from the waiting queue: the job and the queue left. -/
def ControllerState.pick (s : ControllerState) (rand : Nat) : Option (JobInfo × JobQueue) :=
  if isRandomPolicy s then queueDequeueRandom rand s.waitingQueue
  else if isFairPolicy s then
    (queueDequeueFair true s.fairUsers s.lastScheduledUser s.waitingQueue).map fun out =>
      (out.1, out.2.1)
  else queueDequeue s.waitingQueue

theorem ControllerState.pick_removes {s : ControllerState} {rand : Nat} {job : JobInfo}
    {rest : JobQueue} (h : s.pick rand = some (job, rest)) : Removes s.waitingQueue job rest := by
  unfold ControllerState.pick at h
  split at h
  · exact queueDequeueRandom_removes h
  · split at h
    · obtain ⟨⟨j, r, l⟩, hout, heq⟩ := Option.map_eq_some_iff.mp h
      cases heq
      exact (queueDequeueFair_removes hout).1
    · exact queueDequeue_removes h

theorem ControllerState.pick_fair_eq {s : ControllerState} (hpolicy : s.policy = text "fair")
    {rand : Nat} {job : JobInfo} {rest : JobQueue} (h : s.pick rand = some (job, rest)) :
    ∃ last, queueDequeueFair true s.fairUsers s.lastScheduledUser s.waitingQueue =
      some (job, rest, last) := by
  have hr : isRandomPolicy s = false := by rw [isRandomPolicy, hpolicy]; decide
  have hf : isFairPolicy s = true := by rw [isFairPolicy, hpolicy]; decide
  rw [ControllerState.pick, hr, hf] at h
  obtain ⟨⟨next, r, last⟩, hout, heq⟩ := Option.map_eq_some_iff.mp h
  cases heq
  exact ⟨last, hout⟩

theorem ControllerState.pick_fcfs_eq {s : ControllerState} (hrandom : s.policy ≠ text "random")
    (hfair : s.policy ≠ text "fair") (rand : Nat) : s.pick rand = queueDequeue s.waitingQueue := by
  have hr : isRandomPolicy s = false := by simpa [isRandomPolicy] using hrandom
  have hf : isFairPolicy s = false := by simpa [isFairPolicy] using hfair
  rw [ControllerState.pick, hr, hf]
  rfl

/-- The job as it stands in the running queue. -/
def JobInfo.started (job : JobInfo) : JobInfo := { job with state := .running }

/-- The state and the events after a message that is served. -/
inductive Served (env : Env) (msg : RpcMessage) (w : World) : ControllerState → List Event → Prop
  | started (ht : msg.type = .submit) (hfree : w.state.waitingQueue = [])
      (hslot : w.state.runningCount < w.state.parallelLimit) (send : Send)
      (hsend : send.IsOf env msg.senderPid (ackMessage env (submittedJob env msg w).started)) :
      Served env msg w ((w.state.remember msg.userId).start (submittedJob env msg w).started)
        [.ack (submittedJob env msg w).started send]
  | queued (ht : msg.type = .submit) (hfull : w.state.runningCount = w.state.parallelLimit) :
      Served env msg w
        { w.state.remember msg.userId with
          waitingQueue := w.state.waitingQueue ++ [submittedJob env msg w] } []
  | completed (ht : msg.type = .done) (job : JobInfo) (running : JobQueue)
      (hrem : queueRemoveByCommandId w.state.runningQueue msg.commandId = some (job, running))
      (hfree : w.state.waitingQueue = []) (line : CString) (written : Bool)
      (hlog : env.LogsSucceed → written = true) :
      Served env msg w
        { w.state with runningQueue := running, runningCount := w.state.runningCount - 1 }
        [.log job line written]
  | promoted (ht : msg.type = .done) (job : JobInfo) (running : JobQueue)
      (hrem : queueRemoveByCommandId w.state.runningQueue msg.commandId = some (job, running))
      (next : JobInfo) (rest : JobQueue)
      (hpick : w.state.pick (env.rand w.rands) = some (next, rest)) (line : CString)
      (written : Bool) (hlog : env.LogsSucceed → written = true) (send : Send)
      (hsend : send.IsOf env next.runnerPid (ackMessage env next.started)) :
      Served env msg w
        (ControllerState.start
          { w.state with
            runningQueue := running, runningCount := w.state.runningCount - 1
            waitingQueue := rest } next.started)
        [.log job line written, .ack next.started send]
  | stray (ht : msg.type = .done)
      (hrem : queueRemoveByCommandId w.state.runningQueue msg.commandId = none) :
      Served env msg w w.state []
  | answered (ht : msg.type = .statusReq) (replies : List (List RpcMessage × Bool))
      (hreplies : ∀ reply ∈ replies, ∀ m ∈ reply.1, m.IsStatusReply) :
      Served env msg w w.state
        (replies.map fun reply => .status msg.senderPid reply.1 reply.2)
  | asked (ht : msg.type = .shutdownReq) :
      Served env msg w
        { w.state with isShuttingDown := true, shutdownRequesterPid := msg.senderPid } []
  | ignored (ht : msg.type ≠ .submit ∧ msg.type ≠ .done ∧ msg.type ≠ .statusReq ∧
      msg.type ≠ .shutdownReq) : Served env msg w w.state []

/-- The value returned, the state and the events after any message. -/
inductive Handled (env : Env) (msg : RpcMessage) (w : World) :
    Bool → ControllerState → List Event → Prop
  | refused (hlate : IsLate msg w.state) (send : Send)
      (hsend : send.IsOf env msg.senderPid (shutdownAckMessage env msg)) :
      Handled env msg w false w.state [.refusal msg send]
  | served (hlate : ¬ IsLate msg w.state) {s : ControllerState} {events : List Event}
      (h : Served env msg w s events) (hgo : s.isFinished = false) :
      Handled env msg w false s events
  | finished (hlate : ¬ IsLate msg w.state) {s : ControllerState} {events : List Event}
      (h : Served env msg w s events) (hstop : s.isFinished = true) (send : Send)
      (hsend : send.IsOf env s.shutdownRequesterPid farewellMessage) :
      Handled env msg w true { s with keepRunning := false } (events ++ [.farewell send])

/-- The refusal leaves the state as it is, and the end of the shutdown clears one flag. -/
theorem Handled.keeps {P : ControllerState → Prop} {env : Env} {msg : RpcMessage} {w : World}
    {ret : Bool} {s : ControllerState} {events : List Event} (hs : Handled env msg w ret s events)
    (hserved : ∀ s events, Served env msg w s events → P s)
    (hstop : ∀ s, P s → P { s with keepRunning := false }) (h : P w.state) : P s := by
  cases hs with
  | refused hlate send hsend => exact h
  | served hlate hs hgo => exact hserved _ _ hs
  | finished hlate hs hfinished send hsend => exact hstop _ (hserved _ _ hs)

/-- A board with a job waiting has no slot free, so nothing can be started. -/
theorem canStart_eq_false {s : ControllerState} (h : SlotInv s) : s.canStart = false := by
  rw [← Bool.not_eq_true, canStart_iff]
  rintro ⟨hfree, hne⟩
  have := h.conserving hne
  omega

theorem startWaitingJobs_idle {env : Env} {w : World} (h : w.state.canStart = false) :
    startWaitingJobs env w = w := by
  rw [startWaitingJobs_eq, if_neg (by simp [h])]

section Allocs

variable {env : Env} (hm : env.AllocsSucceed)

include hm

theorem rememberFairUser_state (userId : Int32) (w : World) :
    (rememberFairUser env userId w).state = w.state.remember userId := by
  unfold rememberFairUser ControllerState.remember ControllerState.appendUser
  split
  · rfl
  · split
    · simp [hm w.mallocs]
    · rfl

theorem dequeueByPolicy_pick {w : World} (hw : w.state.waitingQueue ≠ []) :
    ∃ job rest w', w.state.pick (env.rand w.rands) = some (job, rest) ∧
      dequeueByPolicy env w = some (job, w') ∧ w'.state.waitingQueue = rest := by
  unfold ControllerState.pick dequeueByPolicy
  dsimp only
  split
  · obtain ⟨job, r, hout⟩ := exists_queueDequeueRandom (env.rand w.rands) hw
    exact ⟨job, r, _, hout, by rw [hout]; rfl, rfl⟩
  · split
    · obtain ⟨job, r, hout⟩ := exists_queueDequeueFair true w.state.fairUsers
        w.state.lastScheduledUser hw
      exact ⟨job, r, _, by rw [hout]; rfl, by rw [hm, hout]; rfl, rfl⟩
    · obtain ⟨job, r, hout⟩ := exists_queueDequeue hw
      exact ⟨job, r, _, hout, by rw [hout]; rfl, rfl⟩

/-- With exactly one slot free and a job waiting, the loop makes exactly one promotion. -/
theorem startWaitingJobs_promote {w : World} (hw : w.state.waitingQueue ≠ [])
    (hslot : w.state.runningCount + 1 = w.state.parallelLimit) :
    ∃ next rest, w.state.pick (env.rand w.rands) = some (next, rest) ∧
      startWaitingJobs env w = sendAckToRunner env next.started
        { w with
          state := ControllerState.start { w.state with waitingQueue := rest } next.started
          mallocs := w.mallocs + w.state.tables + 1, rands := w.rands + w.state.draws } := by
  obtain ⟨next, rest, w', hpick, hdeq, hrest⟩ := dequeueByPolicy_pick hm hw
  obtain ⟨rest', last, -, rfl⟩ := dequeueByPolicy_frame hdeq
  obtain rfl : rest' = rest := hrest
  have hcan : w.state.canStart = true := canStart_iff.mpr ⟨by omega, hw⟩
  refine ⟨next, rest', hpick, ?_⟩
  rw [startWaitingJobs_eq, if_pos hcan, hdeq]
  simp only [startJob_of_malloc (hm _)]
  rw [startWaitingJobs_idle]
  · rfl
  · rw [← Bool.not_eq_true, canStart_iff]
    simp only [sendAckToRunner_state, ControllerState.start]
    omega

theorem rememberFairUser_exact (userId : Int32) (w : World) :
    ∃ mallocs, rememberFairUser env userId w =
      { w with state := w.state.remember userId, mallocs := mallocs } := by
  obtain ⟨users, capacity, mallocs, heq⟩ := rememberFairUser_frame env userId w
  have hstate := rememberFairUser_state hm userId w
  rw [heq] at hstate ⊢
  exact ⟨mallocs, by rw [← hstate]⟩

omit hm in
/-- A submission after its user has been entered in the table of fair users. -/
theorem handleSubmit_of_remembered {msg : RpcMessage} {w v : World}
    (h : rememberFairUser env msg.userId { w with clocks := w.clocks + 1 } = v) :
    handleSubmit env msg w =
      if v.state.runningCount < v.state.parallelLimit then
        startJob env (submittedJob env msg w).started v
      else
        match queueEnqueue (env.malloc v.mallocs) v.state.waitingQueue (submittedJob env msg w) with
        | none => { v with mallocs := v.mallocs + 1 }
        | some waiting =>
            { v with state := { v.state with waitingQueue := waiting }, mallocs := v.mallocs + 1 } := by
  subst h
  rfl

theorem handleSubmit_start (msg : RpcMessage) {w : World}
    (hslot : w.state.runningCount < w.state.parallelLimit) :
    ∃ mallocs, handleSubmit env msg w = sendAckToRunner env (submittedJob env msg w).started
      { w with
        state := (w.state.remember msg.userId).start (submittedJob env msg w).started
        mallocs := mallocs, clocks := w.clocks + 1 } := by
  obtain ⟨mallocs, heq⟩ := rememberFairUser_exact hm msg.userId { w with clocks := w.clocks + 1 }
  refine ⟨mallocs + 1, ?_⟩
  rw [handleSubmit_of_remembered heq, if_pos (by simpa using hslot), startJob_of_malloc (hm _)]

theorem handleSubmit_queue (msg : RpcMessage) {w : World}
    (hfull : ¬ w.state.runningCount < w.state.parallelLimit) :
    ∃ mallocs, handleSubmit env msg w =
      { w with
        state := { w.state.remember msg.userId with
          waitingQueue := w.state.waitingQueue ++ [submittedJob env msg w] }
        mallocs := mallocs, clocks := w.clocks + 1 } := by
  obtain ⟨mallocs, heq⟩ := rememberFairUser_exact hm msg.userId { w with clocks := w.clocks + 1 }
  refine ⟨mallocs + 1, ?_⟩
  rw [handleSubmit_of_remembered heq, if_neg (by simpa using hfull)]
  simp [queueEnqueue, hm _]

omit hm in
/-- Logging does not look at the state. -/
theorem logFinishedJob_with (job : JobInfo) (w : World) (s : ControllerState) :
    logFinishedJob env job { w with state := s } = { logFinishedJob env job w with state := s } := by
  unfold logFinishedJob
  dsimp only
  split <;> rfl

omit hm in
theorem handleDone_stray {msg : RpcMessage} {w : World} (h : SlotInv w.state)
    (hrem : queueRemoveByCommandId w.state.runningQueue msg.commandId = none) :
    handleDone env msg w = w := by
  simp only [handleDone, hrem]
  exact startWaitingJobs_idle (canStart_eq_false h)

/-- The state that a DONE leaves behind before it looks for the next job. -/
def ControllerState.unlink (s : ControllerState) (running : JobQueue) : ControllerState :=
  { s with runningQueue := running, runningCount := s.runningCount - 1 }

omit hm in
/-- With a job waiting, a completion leaves exactly one slot free. -/
theorem SlotInv.unlink_slot {s : ControllerState} (h : SlotInv s) {job : JobInfo}
    {running : JobQueue} (hrem : Removes s.runningQueue job running) (hwait : s.waitingQueue ≠ []) :
    (s.unlink running).runningCount + 1 = (s.unlink running).parallelLimit := by
  have hlen := hrem.length
  have hcount := h.count
  have hfull := h.conserving hwait
  simp only [ControllerState.unlink]
  omega

omit hm in
theorem handleDone_found {msg : RpcMessage} {w : World} {job : JobInfo} {running : JobQueue}
    (hrem : queueRemoveByCommandId w.state.runningQueue msg.commandId = some (job, running)) :
    handleDone env msg w =
      startWaitingJobs env { logFinishedJob env job w with state := w.state.unlink running } := by
  simp only [handleDone, hrem, logFinishedJob_with]
  rfl

omit hm in
theorem handleDone_complete {msg : RpcMessage} {w : World} {job : JobInfo} {running : JobQueue}
    (hrem : queueRemoveByCommandId w.state.runningQueue msg.commandId = some (job, running))
    (hfree : w.state.waitingQueue = []) :
    handleDone env msg w = { logFinishedJob env job w with state := w.state.unlink running } := by
  rw [handleDone_found hrem, startWaitingJobs_idle]
  rw [← Bool.not_eq_true, canStart_iff]
  simp [ControllerState.unlink, hfree]

theorem handleDone_promote {msg : RpcMessage} {w : World} (h : SlotInv w.state) {job : JobInfo}
    {running : JobQueue}
    (hrem : queueRemoveByCommandId w.state.runningQueue msg.commandId = some (job, running))
    (hwait : w.state.waitingQueue ≠ []) :
    ∃ next rest mallocs, w.state.pick (env.rand w.rands) = some (next, rest) ∧
      handleDone env msg w = sendAckToRunner env next.started
        { logFinishedJob env job w with
          state := ControllerState.start
            { w.state.unlink running with waitingQueue := rest } next.started
          mallocs := mallocs, rands := w.rands + w.state.draws } := by
  have hslot := h.unlink_slot (takeFirst_removes hrem) hwait
  obtain ⟨next, rest, hpick, hpromote⟩ := startWaitingJobs_promote hm
    (w := { logFinishedJob env job w with state := w.state.unlink running }) hwait hslot
  rw [logFinishedJob_rands] at hpick
  rw [handleDone_found hrem, hpromote, logFinishedJob_rands]
  exact ⟨next, rest, _, hpick, rfl⟩

theorem handleSubmit_served {msg : RpcMessage} {w : World} (h : SlotInv w.state)
    (ht : msg.type = .submit) :
    ∃ events, (handleSubmit env msg w).trace = w.trace ++ events ∧
      Served env msg w (handleSubmit env msg w).state events := by
  have hbound := h.bounded
  by_cases hslot : w.state.runningCount < w.state.parallelLimit
  · have hfree : w.state.waitingQueue = [] := by
      by_contra hne
      have := h.conserving hne
      omega
    obtain ⟨mallocs, heq⟩ := handleSubmit_start hm msg hslot
    rw [heq]
    exact ⟨_, rfl, .started ht hfree hslot _ ⟨w.ios, rfl⟩⟩
  · obtain ⟨mallocs, heq⟩ := handleSubmit_queue hm msg hslot
    rw [heq]
    exact ⟨[], by simp, .queued ht (by omega)⟩

theorem handleDone_served {msg : RpcMessage} {w : World} (h : SlotInv w.state)
    (ht : msg.type = .done) :
    ∃ events, (handleDone env msg w).trace = w.trace ++ events ∧
      Served env msg w (handleDone env msg w).state events := by
  cases hrem : queueRemoveByCommandId w.state.runningQueue msg.commandId with
  | none =>
      rw [handleDone_stray h hrem]
      exact ⟨[], by simp, .stray ht hrem⟩
  | some out =>
      obtain ⟨job, running⟩ := out
      obtain ⟨line, written, htrace, hlog⟩ := logFinishedJob_trace env job w
      by_cases hfree : w.state.waitingQueue = []
      · rw [handleDone_complete hrem hfree]
        exact ⟨_, htrace, .completed ht job running hrem hfree line written hlog⟩
      · obtain ⟨next, rest, mallocs, hpick, heq⟩ := handleDone_promote hm h hrem hfree
        rw [heq]
        refine ⟨_, by rw [sendAckToRunner, htrace, List.append_assoc], ?_⟩
        exact .promoted ht job running hrem next rest hpick line written hlog _ ⟨_, rfl⟩

theorem serve_served (msg : RpcMessage) {w : World} (h : SlotInv w.state) :
    ∃ events, (serve env msg w).trace = w.trace ++ events ∧
      Served env msg w (serve env msg w).state events := by
  unfold serve
  split
  · exact handleSubmit_served hm h ‹_›
  · exact handleDone_served hm h ‹_›
  · rename_i ht
    rw [handleStatusReq_state]
    rcases handleStatusReq_trace env msg w with htr | ⟨replies, killed, htr, hreplies⟩
    · exact ⟨[], by simp [htr], .answered ht [] (by simp)⟩
    · exact ⟨_, htr, .answered ht [(replies, killed)] (by simpa using hreplies.1)⟩
  · exact ⟨[], by simp [handleShutdownReq], .asked ‹_›⟩
  all_goals exact ⟨[], by simp, .ignored (by simp [*])⟩

/-- Every message does one of the things listed. -/
theorem controllerHandleMessage_handled (msg : RpcMessage) {w : World} (h : SlotInv w.state) :
    ∃ events,
      (controllerHandleMessage env msg w).2.trace = w.trace ++ events ∧
        Handled env msg w (controllerHandleMessage env msg w).1
          (controllerHandleMessage env msg w).2.state events := by
  by_cases hlate : IsLate msg w.state
  · rw [controllerHandleMessage_late hlate]
    exact ⟨_, rfl, .refused hlate _ ⟨w.ios, rfl⟩⟩
  · rw [controllerHandleMessage_serve hlate]
    obtain ⟨events, htrace, hserved⟩ := serve_served hm msg h
    unfold tryFinishShutdown
    cases hstop : (serve env msg w).state.isFinished with
    | true =>
        refine ⟨_, by simp only [htrace, List.append_assoc]; rfl, ?_⟩
        exact .finished hlate hserved hstop _ ⟨(serve env msg w).ios, rfl⟩
    | false => exact ⟨events, htrace, .served hlate hserved hstop⟩

/-- What every message that is served keeps, every run keeps. -/
theorem run_invariant (argv : List CString) {P : ControllerState → Prop}
    (hstart : P (controllerConfigure argv))
    (hserved : ∀ msg w s events, SlotInv w.state → 1 ≤ w.state.parallelLimit →
      Served env msg w s events → P w.state → P s)
    (hstop : ∀ s, P s → P { s with keepRunning := false }) (msgs : List RpcMessage) :
    P (runMessages env msgs (controllerStart argv)).state := by
  induction msgs using List.reverseRecOn with
  | nil => exact hstart
  | append_singleton msgs msg ih =>
      have hslots := run_slots env argv msgs
      have hpos := parallelLimit_pos argv
      rw [← (run_config env argv msgs).1] at hpos
      obtain ⟨events, -, hhandled⟩ := controllerHandleMessage_handled hm msg hslots
      rw [runMessages_snoc]
      exact hhandled.keeps (fun s events hs => hserved msg _ s events hslots hpos hs ih) hstop ih

end Allocs

end RunnerOrchestrator
