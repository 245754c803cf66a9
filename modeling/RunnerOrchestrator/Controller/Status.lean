import RunnerOrchestrator.Controller.Preview
import RunnerOrchestrator.Controller.Slots
import RunnerOrchestrator.Runner.RunnerCli

/-! # Status replies, from the queues to the runner's output

The controller's writes are followed through the FIFO to the text printed by
`runner_run_status`. Under "fair" the waiting jobs come from the preview, which
stops at a job of user -1.
-/

namespace RunnerOrchestrator

/-- The texts of a full answer, one a message. -/
def statusTexts (running waiting : List JobInfo) : List CString :=
  executingHeader :: running.map statusLine ++ scheduledHeader :: waiting.map statusLine

/-- A STATUS_REQ is answered with every running and every waiting job, once each. -/
def StatusComplete (env : Env) (msg : RpcMessage) (w : World) : Prop :=
  ∃ resps running waiting,
    (handleStatusReq env msg w).trace =
        w.trace ++ [.status msg.senderPid (resps ++ [statusEnd env]) false] ∧
      (∀ resp ∈ resps, resp.type = .statusResp) ∧
      running.Perm w.state.runningQueue ∧
      waiting.Perm w.state.waitingQueue ∧
      resps.map RpcMessage.payload = statusTexts running waiting ∧
      printStatus (resps ++ [statusEnd env]) = (statusTexts running waiting).flatten

/-- The waiting jobs that are shown. -/
def shownWaiting (s : ControllerState) : List JobInfo :=
  if isFairPolicy s then
    (fairOrder s.fairUsers s.waitingQueue.length s.lastScheduledUser s.waitingQueue).takeWhile
      fun job => job.userId != -1
  else s.waitingQueue

/-! ## Texts -/

theorem length_statusLine (job : JobInfo) : (statusLine job).length ≤ 54 := by
  have huser := length_decimal_int32 job.userId
  have hcommand := length_decimal_int64 job.commandId
  have hfront : (text "user-id ").length = 8 := by decide
  have hmiddle : (text " - command-id ").length = 14 := by decide
  have hend : (text "\n").length = 1 := by decide
  simp only [statusLine, List.length_append, hfront, hmiddle, hend]
  omega

theorem bounded_of_length_lt {size : Nat} {s : CString} (h : s.length < size) :
    bounded size s = s := by
  apply List.take_of_length_le
  omega

/-- No text of a status reply is cut by the payload. -/
theorem statusTexts_fit {running waiting : List JobInfo} :
    ∀ line ∈ statusTexts running waiting, bounded rpcPayloadSize line = line := by
  intro line hline
  have hlen : ∀ job, (statusLine job).length < rpcPayloadSize := fun job =>
    Nat.lt_of_le_of_lt (length_statusLine job) (by decide)
  rcases List.mem_append.mp hline with hleft | hright
  · rcases List.mem_cons.mp hleft with rfl | hjob
    · decide
    · obtain ⟨job, -, rfl⟩ := List.mem_map.mp hjob
      exact bounded_of_length_lt (hlen job)
  · rcases List.mem_cons.mp hright with rfl | hjob
    · decide
    · obtain ⟨job, -, rfl⟩ := List.mem_map.mp hjob
      exact bounded_of_length_lt (hlen job)

/-! ## Lines -/

/-- Every job takes one line of the output. -/
theorem count_newline_statusLine (job : JobInfo) : (statusLine job).count 10 = 1 := by
  have huser := List.count_eq_zero.mpr (newline_not_mem_decimal job.userId.toInt)
  have hcommand := List.count_eq_zero.mpr (newline_not_mem_decimal job.commandId.toInt)
  have hfront : (text "user-id ").count 10 = 0 := by decide
  have hmiddle : (text " - command-id ").count 10 = 0 := by decide
  have hend : (text "\n").count 10 = 1 := by decide
  simp only [statusLine, List.count_append, huser, hcommand, hfront, hmiddle, hend]

theorem count_newline_lines (jobs : List JobInfo) :
    (jobs.map statusLine).flatten.count 10 = jobs.length := by
  induction jobs with
  | nil => rfl
  | cons job jobs ih =>
      simp only [List.map_cons, List.flatten_cons, List.count_append, List.length_cons, ih,
        count_newline_statusLine]
      omega

theorem count_newline_statusTexts (running waiting : List JobInfo) :
    (statusTexts running waiting).flatten.count 10 = 4 + running.length + waiting.length := by
  have hexecuting : executingHeader.count 10 = 2 := by decide
  have hscheduled : scheduledHeader.count 10 = 2 := by decide
  simp only [statusTexts, List.flatten_append, List.flatten_cons, List.count_append,
    count_newline_lines, hexecuting, hscheduled]
  omega

/-! ## Writing and printing -/

section Writes

variable {env : Env} (hc : env.CallsSucceed)

include hc

theorem writeMessage_ok (msg : RpcMessage) (ios : Nat) (sent : List RpcMessage) :
    writeMessage env msg ⟨ios, sent, false⟩ = (true, ⟨ios + 1, sent ++ [msg], false⟩) := by
  simp [writeMessage, hc ios]

theorem writeStatusJobs_sent (jobs : List JobInfo) (ios : Nat) (sent : List RpcMessage) :
    writeStatusJobs env jobs ⟨ios, sent, false⟩ =
      ⟨ios + jobs.length, sent ++ (jobs.map statusLine).map (statusResp env), false⟩ := by
  induction jobs generalizing ios sent with
  | nil => simp [writeStatusJobs]
  | cons job jobs ih =>
      simp only [writeStatusJobs, writeMessage_ok hc, if_true, ih]
      simp [Nat.add_comm, Nat.add_left_comm]

theorem writeStatus_sent (running waiting : List JobInfo) (ios : Nat) (sent : List RpcMessage) :
    ∃ ios', writeStatus env running waiting ⟨ios, sent, false⟩ =
      ⟨ios', sent ++ (statusTexts running waiting).map (statusResp env) ++ [statusEnd env], false⟩ := by
  simp only [writeStatus, writeMessage_ok hc, Bool.not_true, Bool.false_eq_true, if_false,
    writeStatusJobs_sent hc, statusTexts]
  exact ⟨ios + 1 + running.length + 1 + waiting.length + 1, by simp⟩

end Writes

theorem waitingSnapshot_shown {env : Env} (hm : env.AllocsSucceed) (mallocs : Nat)
    (s : ControllerState) : (waitingSnapshot env mallocs s).1 = shownWaiting s := by
  unfold waitingSnapshot shownWaiting queueGetSize
  split
  · rw [queueCopyFairToArray_eq hm, Nat.min_self]
  · exact List.take_length

/-- The reply when no call fails. -/
theorem handleStatusReq_reply {env : Env} (hm : env.AllocsSucceed) (hc : env.CallsSucceed)
    (msg : RpcMessage) (w : World) :
    (handleStatusReq env msg w).trace = w.trace ++ [.status msg.senderPid
      ((statusTexts w.state.runningQueue (shownWaiting w.state)).map (statusResp env) ++
        [statusEnd env]) false] := by
  have hsnap : ∀ mallocs size, snapshotFails env mallocs size = false := by
    intro mallocs size
    simp [snapshotFails, hm mallocs]
  have hcopy : queueCopyToArray w.state.runningQueue (queueGetSize w.state.runningQueue) =
      w.state.runningQueue := List.take_length
  obtain ⟨ios, hreply⟩ :=
    writeStatus_sent hc w.state.runningQueue (shownWaiting w.state) (w.ios + 1) []
  unfold handleStatusReq
  simp only [hsnap, hc w.ios, Bool.false_eq_true, if_false, if_true, hcopy,
    waitingSnapshot_shown hm, hreply, List.nil_append]

theorem printStatus_resps (env : Env) (texts : List CString) :
    printStatus (texts.map (statusResp env) ++ [statusEnd env]) =
      (texts.map (bounded rpcPayloadSize)).flatten := by
  induction texts with
  | nil => rfl
  | cons line texts ih =>
      have hresp : (statusResp env line).type = .statusResp := rfl
      have hpayload : (statusResp env line).payload = bounded rpcPayloadSize line := rfl
      simp [printStatus, hresp, hpayload, ih]

theorem map_bounded_statusTexts (running waiting : List JobInfo) :
    (statusTexts running waiting).map (bounded rpcPayloadSize) = statusTexts running waiting :=
  (List.map_congr_left statusTexts_fit).trans (List.map_id' _)

theorem payload_statusTexts (env : Env) (running waiting : List JobInfo) :
    ((statusTexts running waiting).map (statusResp env)).map RpcMessage.payload =
      statusTexts running waiting := by
  rw [List.map_map]
  exact map_bounded_statusTexts running waiting

/-! ## Completeness -/

theorem shownWaiting_subperm (s : ControllerState) :
    (shownWaiting s).Subperm s.waitingQueue := by
  unfold shownWaiting
  split
  · exact (List.takeWhile_sublist _).subperm.trans (fairOrder_perm _ _ _).subperm
  · exact List.Subperm.refl _

/-- All waiting jobs are shown unless the policy is fair and one belongs to user -1. -/
theorem shownWaiting_perm_iff {s : ControllerState} :
    (shownWaiting s).Perm s.waitingQueue ↔
      (isFairPolicy s = true → ∀ job ∈ s.waitingQueue, job.userId ≠ -1) := by
  have hperm := fairOrder_perm s.fairUsers s.lastScheduledUser s.waitingQueue
  unfold shownWaiting
  by_cases hfair : isFairPolicy s = true
  · rw [if_pos hfair]
    constructor
    · intro hshown _ job hjob
      simpa using List.mem_takeWhile_imp (hshown.mem_iff.mpr hjob)
    · intro huser
      rw [List.takeWhile_eq_self_iff.mpr]
      · exact hperm
      · intro job hjob
        simpa using huser hfair job (hperm.mem_iff.mp hjob)
  · simp [hfair]

theorem statusComplete_iff {env : Env} (hm : env.AllocsSucceed) (hc : env.CallsSucceed)
    (msg : RpcMessage) (w : World) :
    StatusComplete env msg w ↔
      (w.state.policy = text "fair" → ∀ job ∈ w.state.waitingQueue, job.userId ≠ -1) := by
  have hreply := handleStatusReq_reply hm hc msg w
  have hfair : isFairPolicy w.state = true ↔ w.state.policy = text "fair" := beq_iff_eq
  have hfit : ((statusTexts w.state.runningQueue (shownWaiting w.state)).map
      (bounded rpcPayloadSize)).flatten =
      (statusTexts w.state.runningQueue (shownWaiting w.state)).flatten := by
    rw [map_bounded_statusTexts]
  constructor
  · rintro ⟨resps, running, waiting, htrace, -, hrunning, hwaiting, -, hprint⟩
    rw [hreply] at htrace
    have hsent := List.append_cancel_left htrace
    simp only [List.cons.injEq, Event.status.injEq, true_and, and_true] at hsent
    rw [← hsent, printStatus_resps, hfit] at hprint
    -- the numbers of lines printed and expected agree
    have hlines := congrArg (List.count 10) hprint
    rw [count_newline_statusTexts, count_newline_statusTexts] at hlines
    have hrun := hrunning.length_eq
    have hwait := hwaiting.length_eq
    have hshown := (shownWaiting_subperm w.state).perm_of_length_le (by omega)
    rw [← hfair]
    exact shownWaiting_perm_iff.mp hshown
  · intro huser
    refine ⟨_, w.state.runningQueue, shownWaiting w.state, hreply, ?_, List.Perm.refl _,
      shownWaiting_perm_iff.mpr (fun h => huser (hfair.mp h)), payload_statusTexts env _ _, ?_⟩
    · intro resp hresp
      obtain ⟨line, -, rfl⟩ := List.mem_map.mp hresp
      rfl
    · rw [printStatus_resps, hfit]

/-- In every reachable state, whatever calls have failed on the way to it, the answer is
complete exactly when the policy is not "fair" or no waiting job belongs to user -1. -/
theorem status_complete_iff {env : Env} (hm : env.AllocsSucceed) (hc : env.CallsSucceed)
    (before : Env) (argv : List CString) (msgs : List RpcMessage) (msg : RpcMessage) :
    let w := runMessages before msgs (controllerStart argv)
    StatusComplete env msg w ↔
      (w.state.policy = text "fair" → ∀ job ∈ w.state.waitingQueue, job.userId ≠ -1) :=
  statusComplete_iff hm hc msg _

/-- No ACK has been delivered before. -/
theorem status_complete_iff_fair :
    let w := runMessages { Env.calm with io := fun _ => false }
      [submitMsg 11 1 (text "a"), submitMsg 12 (-2) (text "b")]
      (controllerStart [text "controller", text "1", text "fair"])
    StatusComplete .calm (statusReq 20) w ↔
      (w.state.policy = text "fair" → ∀ job ∈ w.state.waitingQueue, job.userId ≠ -1) :=
  status_complete_iff Env.calm_allocsSucceed Env.calm_callsSucceed _
    [text "controller", text "1", text "fair"]
    [submitMsg 11 1 (text "a"), submitMsg 12 (-2) (text "b")] (statusReq 20)

/-- `./runner -e -1 b` waits behind one running job and is not shown. -/
theorem waiting_job_hidden :
    let w := runMessages .calm [submitMsg 11 1 (text "a"), submitMsg 12 (-1) (text "b")]
      (controllerStart [text "controller", text "1", text "fair"])
    runnerParseArgs [text "runner", text "-e", text "-1", text "b"] =
        some ⟨.execute, -1, text "b"⟩ ∧
      w.state.waitingQueue.map JobInfo.commandId = [12] ∧
      (handleStatusReq .calm (statusReq 20) w).trace = w.trace ++ [.status 20
        ([executingHeader, text "user-id 1 - command-id 11\n", scheduledHeader].map
          (statusResp .calm) ++ [statusEnd .calm]) false] ∧
      ¬ StatusComplete .calm (statusReq 20) w := by
  refine ⟨by decide, by decide, by decide, ?_⟩
  rw [statusComplete_iff Env.calm_allocsSucceed Env.calm_callsSucceed]
  decide

end RunnerOrchestrator
