import RunnerOrchestrator.Controller.Refinement
import RunnerOrchestrator.Runner.RunnerCli

/-! # The ledger of accepted jobs

Acceptance, ACKs and log lines are tied together over whole runs: what the board
conserves, the controller conserves. The states stored in the jobs and the answers
to late submissions need invariants of their own.
-/

namespace RunnerOrchestrator

open Removal

/-- The SUBMITs that follow the first SHUTDOWN_REQ. -/
def lateSubmits : List RpcMessage → List RpcMessage
  | [] => []
  | msg :: msgs =>
      if msg.type = .shutdownReq then msgs.filter fun m => m.type = .submit else lateSubmits msgs

theorem lateSubmits_snoc (msgs : List RpcMessage) (msg : RpcMessage) :
    lateSubmits (msgs ++ [msg]) = lateSubmits msgs ++
      if msg.type = .submit ∧ msgs.any (fun m => m.type == .shutdownReq) = true then [msg] else [] := by
  induction msgs with
  | nil => simp [lateSubmits]
  | cons m msgs ih =>
      by_cases hm : m.type = .shutdownReq
      · by_cases ht : msg.type = .submit <;> simp [lateSubmits, hm, ht]
      · simpa [lateSubmits, hm] using ih

/-! ## The states stored in the jobs -/

structure StatesRecorded (s : ControllerState) : Prop where
  queued : ∀ job ∈ s.waitingQueue, job.state = .queued
  running : ∀ job ∈ s.runningQueue, job.state = .running

theorem StatesRecorded.start {s : ControllerState} (h : StatesRecorded s) (job : JobInfo) :
    StatesRecorded (s.start job.started) := by
  refine ⟨h.queued, fun j hj => ?_⟩
  rcases List.mem_append.mp hj with hj | hj
  · exact h.running j hj
  · rw [List.mem_singleton.mp hj]
    rfl

theorem StatesRecorded.unlink {s : ControllerState} (h : StatesRecorded s) {job : JobInfo}
    {running : JobQueue} (count : Nat) (hrem : Removes s.runningQueue job running) :
    StatesRecorded { s with runningQueue := running, runningCount := count } :=
  ⟨h.queued, fun j hj => h.running j (hrem.mem_of_mem hj)⟩

theorem Served.states {env : Env} {msg : RpcMessage} {w : World} {s : ControllerState}
    {events : List Event} (hs : Served env msg w s events) (h : StatesRecorded w.state) :
    StatesRecorded s := by
  cases hs with
  | started ht hfree hslot send hsend =>
      have hremember : StatesRecorded (w.state.remember msg.userId) :=
        ⟨by simpa using h.queued, by simpa using h.running⟩
      exact hremember.start _
  | queued ht hfull =>
      refine ⟨fun j hj => ?_, by simpa using h.running⟩
      rcases List.mem_append.mp hj with hj | hj
      · exact h.queued j hj
      · rw [List.mem_singleton.mp hj]
        rfl
  | completed ht job running hrem hfree line written hlog =>
      exact h.unlink _ (takeFirst_removes hrem)
  | promoted ht job running hrem next rest hpick line written hlog send hsend =>
      have hunlink := h.unlink (w.state.runningCount - 1) (takeFirst_removes hrem)
      have htaken : StatesRecorded
          { w.state with
            runningQueue := running, runningCount := w.state.runningCount - 1
            waitingQueue := rest } :=
        ⟨fun j hj => h.queued j ((ControllerState.pick_removes hpick).mem_of_mem hj),
          hunlink.running⟩
      exact htaken.start next
  | stray ht hrem => exact h
  | answered ht replies hreplies => exact h
  | asked ht => exact ⟨h.queued, h.running⟩
  | ignored ht => exact h

/-! ## Runs -/

section Runs

variable (env : Env) (argv : List CString) (msgs : List RpcMessage)

theorem run_isShuttingDown :
    (runMessages env msgs (controllerStart argv)).state.isShuttingDown =
      msgs.any fun m => m.type == .shutdownReq := by
  induction msgs using List.reverseRecOn with
  | nil => rfl
  | append_singleton msgs msg ih =>
      rw [runMessages_snoc, controllerHandleMessage_isShuttingDown, ih]
      simp

theorem run_genuine :
    ∀ e ∈ (runMessages env msgs (controllerStart argv)).trace, e.Genuine env := by
  refine runMessages_invariant (P := fun w => ∀ e ∈ w.trace, e.Genuine env) (fun msg w h => ?_) msgs
    (by simp [controllerStart])
  obtain ⟨events, htrace, hgenuine⟩ := controllerHandleMessage_genuine env msg w
  intro e he
  rw [htrace] at he
  exact (List.mem_append.mp he).elim (h e) (hgenuine e)

theorem controllerHandleMessage_refused (msg : RpcMessage) (w : World) :
    refused (controllerHandleMessage env msg w).2.trace =
      refused w.trace ++ if IsLate msg w.state then [msg] else [] := by
  by_cases hlate : IsLate msg w.state
  · rw [controllerHandleMessage_late hlate]
    simp [sendShutdownAckToRunner, hlate]
  · rw [controllerHandleMessage_serve hlate]
    obtain ⟨events, htrace, hroutine⟩ := serve_trace env msg w
    have hnone : refused events = [] := by
      refine List.filterMap_eq_nil_iff.mpr fun e he => ?_
      cases e with
      | refusal m send => exact absurd (hroutine _ he) id
      | _ => rfl
    rw [if_neg hlate]
    unfold tryFinishShutdown
    split
    · simp [htrace, hnone]
    · simp [htrace, hnone]

/-- Exactly the late submissions are refused, once each and in order. -/
theorem run_refused :
    refused (runMessages env msgs (controllerStart argv)).trace = lateSubmits msgs := by
  induction msgs using List.reverseRecOn with
  | nil => rfl
  | append_singleton msgs msg ih =>
      rw [runMessages_snoc, controllerHandleMessage_refused, ih, lateSubmits_snoc]
      simp only [IsLate, run_isShuttingDown]

variable {env}

theorem run_states (hm : env.AllocsSucceed) :
    StatesRecorded (runMessages env msgs (controllerStart argv)).state := by
  apply run_invariant hm argv (P := StatesRecorded)
  · exact ⟨by simp [controllerConfigure], by simp [controllerConfigure]⟩
  · intro msg w s events _ _ hs h
    exact hs.states h
  · intro s h
    exact ⟨h.queued, h.running⟩

theorem picks_removes (s : ControllerState) : Picks Removes s := fun _ _ _ h =>
  removes_idents (ControllerState.pick_removes h)

/-- If all new log lines belong to jobs that were ACKed before, no prefix is ahead of its ACKs. -/
theorem logged_le_acked_append {t events : List Event}
    (h : ∀ pre, pre <+: t → (logged pre : Multiset JobId) ≤ acked pre)
    (hnew : (logged t : Multiset JobId) + logged events ≤ acked t) :
    ∀ pre, pre <+: t ++ events → (logged pre : Multiset JobId) ≤ acked pre := by
  intro pre hpre
  rcases List.prefix_or_prefix_of_prefix hpre (List.prefix_append t events) with hin | ⟨part, rfl⟩
  · exact h pre hin
  · have hpart : part <+: events := (List.prefix_append_right_inj t).mp hpre
    have hle : (logged part : Multiset JobId) ≤ logged events :=
      Multiset.coe_le.mpr (hpart.sublist.filterMap _).subperm
    calc (logged (t ++ part) : Multiset JobId)
        = logged t + logged part := by simp
      _ ≤ logged t + logged events := by gcongr
      _ ≤ acked t := hnew
      _ ≤ acked (t ++ part) := by
        rw [acked_append, ← Multiset.coe_add]
        exact Multiset.le_add_right _ _

/-- No log line comes before the ACK of its job. -/
theorem run_logged_le_acked (hm : env.AllocsSucceed) :
    ∀ pre, pre <+: (runMessages env msgs (controllerStart argv)).trace →
      (logged pre : Multiset JobId) ≤ acked pre := by
  induction msgs using List.reverseRecOn with
  | nil =>
      intro pre hpre
      rw [List.prefix_nil.mp hpre]
      exact le_rfl
  | append_singleton msgs msg ih =>
      obtain ⟨b, acts, h⟩ := run_refines hm argv (fun s _ => picks_removes s) msgs
      obtain ⟨events, htrace, hhandled⟩ := controllerHandleMessage_handled hm msg
        (run_slots env argv msgs)
      obtain ⟨b', hb'⟩ := (run_slots env argv (msgs ++ [msg])).exists_board
        (run_config env argv (msgs ++ [msg])).1
      rw [runMessages_snoc] at hb' ⊢
      obtain ⟨a, hstep, -, -, hfin⟩ := hhandled.move (picks_removes _) h.shows hb'
      rw [htrace]
      apply logged_le_acked_append ih
      have hledger := h.run.authorised_ledger
      rw [h.authorised, h.finished] at hledger
      simp only [SlotBoard.Board.empty, Multiset.coe_nil, zero_add] at hledger
      have hle := hstep.finished_le
      rw [hfin] at hle
      rw [hledger, add_comm]
      gcongr

end Runs

/-- The accepted jobs against the two queues, the ACKs and the log. -/
structure Balanced (accepted : List JobId) (w : World) : Prop where
  accepted : (accepted : Multiset JobId) =
    idents w.state.waitingQueue + idents w.state.runningQueue + logged w.trace
  acked : (acked w.trace : Multiset JobId) = idents w.state.runningQueue + logged w.trace
  ackedFirst : ∀ pre, pre <+: w.trace → (logged pre : Multiset JobId) ≤ RunnerOrchestrator.acked pre
  states : StatesRecorded w.state

theorem run_balanced {env : Env} (hm : env.AllocsSucceed) (argv : List CString)
    (msgs : List RpcMessage) :
    Balanced (acceptedJobs env msgs (controllerStart argv))
      (runMessages env msgs (controllerStart argv)) := by
  obtain ⟨b, acts, h⟩ := run_refines hm argv (fun s _ => picks_removes s) msgs
  have hledger := h.run.ledger fun _ _ _ h => h
  have hauth := h.run.authorised_ledger
  rw [h.accepted, h.finished, h.shows.waiting, h.shows.running] at hledger
  rw [h.authorised, h.finished, h.shows.running] at hauth
  simp only [SlotBoard.Board.empty, Multiset.coe_nil, zero_add] at hledger hauth
  exact ⟨hledger, hauth, run_logged_le_acked argv msgs hm, run_states argv msgs hm⟩

/-- When the controller returns 1, nobody waits and nothing runs. -/
theorem run_stopped {env : Env} {argv : List CString} {past : List RpcMessage} {last : RpcMessage}
    (h : (controllerHandleMessage env last (runMessages env past (controllerStart argv))).1 = true) :
    (runMessages env (past ++ [last]) (controllerStart argv)).state.waitingQueue = [] ∧
      (runMessages env (past ++ [last]) (controllerStart argv)).state.runningQueue = [] := by
  have hslots := (run_slots env argv (past ++ [last])).count
  have hstate := controllerHandleMessage_finished h
  rw [← runMessages_snoc] at hstate
  obtain ⟨-, hcount, hwait⟩ := isFinished_iff.mp (controllerHandleMessage_returns.mp h).2
  rw [hstate] at hslots ⊢
  refine ⟨hwait, List.length_eq_zero_iff.mp ?_⟩
  rw [← hslots]
  exact hcount

theorem balanced_drained {accepted : List JobId} {w : World} (h : Balanced accepted w)
    (hwaiting : w.state.waitingQueue = []) (hrunning : w.state.runningQueue = []) :
    accepted.Perm (acked w.trace) ∧ accepted.Perm (logged w.trace) := by
  have hacc := h.accepted
  have hack := h.acked
  simp only [hwaiting, hrunning, idents, List.map_nil, Multiset.coe_nil, zero_add] at hacc hack
  exact ⟨Multiset.coe_eq_coe.mp (hacc.trans hack.symm), Multiset.coe_eq_coe.mp hacc⟩

/-- Every reply and every log line of the trace went through, to the right process. -/
structure Delivered (env : Env) (trace : List Event) : Prop where
  acks : ∀ job send, Event.ack job send ∈ trace →
    send.dest = job.runnerPid ∧ send.msg = ackMessage env job ∧ send.delivered = true
  refusals : ∀ msg send, Event.refusal msg send ∈ trace →
    send.dest = msg.senderPid ∧ send.msg = shutdownAckMessage env msg ∧ send.delivered = true
  lines : ∀ job line written, Event.log job line written ∈ trace → written = true

theorem delivered_of_genuine {env : Env} (hc : env.CallsSucceed) (hl : env.LogsSucceed)
    {trace : List Event} (h : ∀ e ∈ trace, e.Genuine env) : Delivered env trace := by
  refine ⟨fun job send he => ?_, fun msg send he => ?_, fun job line written he => h _ he hl⟩
  · have hsend : send.IsOf env job.runnerPid (ackMessage env job) := h _ he
    exact ⟨hsend.dest_eq, hsend.msg_eq, hsend.delivered hc⟩
  · have hsend : send.IsOf env msg.senderPid (shutdownAckMessage env msg) := h _ he
    exact ⟨hsend.dest_eq, hsend.msg_eq, hsend.delivered hc⟩

/-- Nothing is lost, duplicated or altered, and when the controller stops every
accepted job has been ACKed and logged and every late submission refused. -/
theorem ledger_balanced {env : Env} (hm : env.AllocsSucceed) (hc : env.CallsSucceed)
    (hl : env.LogsSucceed) (argv : List CString) (msgs : List RpcMessage) :
    let w := runMessages env msgs (controllerStart argv)
    let accepted := acceptedJobs env msgs (controllerStart argv)
    Balanced accepted w ∧ Delivered env w.trace ∧ refused w.trace = lateSubmits msgs ∧
      ∀ past last, msgs = past ++ [last] →
        (controllerHandleMessage env last (runMessages env past (controllerStart argv))).1 = true →
          accepted.Perm (acked w.trace) ∧ accepted.Perm (logged w.trace) := by
  intro w accepted
  have hbal : Balanced accepted w := run_balanced hm argv msgs
  refine ⟨hbal, delivered_of_genuine hc hl (run_genuine env argv msgs), run_refused env argv msgs, ?_⟩
  rintro past last rfl hret
  obtain ⟨hwaiting, hrunning⟩ := run_stopped hret
  exact balanced_drained hbal hwaiting hrunning

/-- One slot, two jobs, a shutdown while both are there, and a submission too late. -/
def drainingDay : List RpcMessage :=
  [submitMsg 11 1 (text "a"), submitMsg 12 2 (text "b"), shutdownReq 20, submitMsg 13 1 (text "c"),
    { RpcMessage.zero with type := .done, senderPid := 11, commandId := 11 },
    { RpcMessage.zero with type := .done, senderPid := 12, commandId := 12 }]

theorem ledger_balanced_draining_day :
    let start := controllerStart [text "controller", text "1", text "random"]
    let w := runMessages .calm drainingDay start
    let accepted := acceptedJobs .calm drainingDay start
    Balanced accepted w ∧ Delivered .calm w.trace ∧ refused w.trace = lateSubmits drainingDay ∧
      accepted.Perm (acked w.trace) ∧ accepted.Perm (logged w.trace) :=
  have h := ledger_balanced Env.calm_allocsSucceed Env.calm_callsSucceed Env.calm_logsSucceed
    [text "controller", text "1", text "random"] drainingDay
  ⟨h.1, h.2.1, h.2.2.1, h.2.2.2 drainingDay.dropLast _ rfl (by decide)⟩

end RunnerOrchestrator
