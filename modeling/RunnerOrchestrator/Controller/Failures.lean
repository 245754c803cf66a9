import RunnerOrchestrator.Controller.Shutdown
import RunnerOrchestrator.Foundation.TransitionSystem

/-! # What a failing call costs

A job leaves its queue before the node for the other one is allocated, and a slot is
taken before the ACK goes out. Neither step is taken back: a failed allocation loses
the job and a failed ACK keeps the slot, and these are the only ways to do so.
-/

namespace RunnerOrchestrator

open Removal

/-- The events added since `w`. -/
def newEvents (w w' : World) : List Event := w'.trace.drop w.trace.length

theorem newEvents_of_append {w w' : World} {events : List Event}
    (h : w'.trace = w.trace ++ events) : newEvents w w' = events := by
  rw [newEvents, h, List.drop_left]

/-- The jobs in either queue. -/
def ControllerState.jobs (s : ControllerState) : Multiset JobId :=
  idents s.waitingQueue + idents s.runningQueue

theorem ControllerState.jobs_start (s : ControllerState) (job : JobInfo) :
    (s.start job.started).jobs = s.jobs + {job.ident} := by
  simp only [jobs, ControllerState.start, idents_append, ← Multiset.coe_add, add_assoc]
  rfl

/-! ## The allocations of one message -/

/-- The table allocations of `remember_fair_user`. -/
def ControllerState.reallocs (s : ControllerState) (userId : Int32) : Nat :=
  if userExists s.fairUsers userId then 0
  else if s.fairUsers.length = s.fairUserCapacity then 1 else 0

theorem rememberFairUser_mallocs (env : Env) (userId : Int32) (w : World) :
    ∃ users capacity, rememberFairUser env userId w =
      { w with
        state := { w.state with fairUsers := users, fairUserCapacity := capacity }
        mallocs := w.mallocs + w.state.reallocs userId } := by
  obtain ⟨users, capacity, mallocs, heq⟩ := rememberFairUser_frame env userId w
  have hcount : (rememberFairUser env userId w).mallocs = w.mallocs + w.state.reallocs userId := by
    unfold rememberFairUser ControllerState.reallocs
    dsimp only
    split
    · rfl
    · split
      · split <;> rfl
      · rfl
  rw [heq] at hcount ⊢
  exact ⟨users, capacity, by rw [← hcount]⟩

@[simp] theorem logFinishedJob_mallocs (env : Env) (job : JobInfo) (w : World) :
    (logFinishedJob env job w).mallocs = w.mallocs := by
  unfold logFinishedJob
  dsimp only
  split <;> rfl

/-- The DONE of a running job while another job waits: its slot goes to the policy's choice. -/
def Promotes (msg : RpcMessage) (s : ControllerState) : Prop :=
  msg.type = .done ∧ (∃ job ∈ s.runningQueue, job.commandId = msg.commandId) ∧ s.waitingQueue ≠ []

theorem not_promotes_of_stray {msg : RpcMessage} {s : ControllerState}
    (hrem : queueRemoveByCommandId s.runningQueue msg.commandId = none) : ¬ Promotes msg s := by
  rintro ⟨-, ⟨job, hjob, hid⟩, -⟩
  have hmiss := takeFirst_eq_none.mp hrem job hjob
  simp [hid] at hmiss

/-- The first `malloc` that `queue_enqueue` makes on this message succeeds, if it makes one. -/
structure EnqueueSucceeds (env : Env) (msg : RpcMessage) (w : World) : Prop where
  submitted : msg.type = .submit → ¬ IsLate msg w.state →
    env.malloc (w.mallocs + w.state.reallocs msg.userId) = true
  promoted : Promotes msg w.state → env.malloc (w.mallocs + w.state.tables) = true

/-! ## A submission -/

theorem handleSubmit_enqueued {env : Env} {msg : RpcMessage} {w : World}
    (h : env.malloc (w.mallocs + w.state.reallocs msg.userId) = true) :
    (handleSubmit env msg w).state.jobs = w.state.jobs + {(submittedJob env msg w).ident} ∧
      ∃ events, (handleSubmit env msg w).trace = w.trace ++ events ∧ logged events = [] := by
  obtain ⟨users, capacity, heq⟩ :=
    rememberFairUser_mallocs env msg.userId { w with clocks := w.clocks + 1 }
  rw [handleSubmit_of_remembered heq]
  dsimp only
  split
  · rw [startJob_of_malloc h]
    refine ⟨ControllerState.jobs_start _ _, _, rfl, rfl⟩
  · simp only [queueEnqueue, h, if_true]
    refine ⟨?_, [], by simp, rfl⟩
    simp only [ControllerState.jobs, idents_append, ← Multiset.coe_add]
    exact add_right_comm _ _ _

theorem handleSubmit_dropped {env : Env} {msg : RpcMessage} {w : World}
    (h : env.malloc (w.mallocs + w.state.reallocs msg.userId) = false) :
    (handleSubmit env msg w).state.jobs = w.state.jobs ∧
      (handleSubmit env msg w).trace = w.trace := by
  obtain ⟨users, capacity, heq⟩ :=
    rememberFairUser_mallocs env msg.userId { w with clocks := w.clocks + 1 }
  rw [handleSubmit_of_remembered heq]
  dsimp only
  split
  · rw [startJob_of_no_malloc h]
    exact ⟨rfl, rfl⟩
  · have hfail : env.malloc (w.mallocs +
        { w with clocks := w.clocks + 1 }.state.reallocs msg.userId) = false := h
    rw [hfail]
    exact ⟨rfl, rfl⟩

/-! ## A promotion -/

/-- The job dequeued is in neither queue until it is put into the running queue. -/
theorem jobs_of_removes {s : ControllerState} {job : JobInfo} {rest : JobQueue} (last : Int32)
    (h : Removes s.waitingQueue job rest) :
    s.jobs =
      ({ s with waitingQueue := rest, lastScheduledUser := last } : ControllerState).jobs +
        {job.ident} := by
  have hperm : (idents s.waitingQueue : Multiset JobId) = job.ident ::ₘ idents rest :=
    Multiset.coe_eq_coe.mpr (removes_idents h).perm
  rw [ControllerState.jobs, hperm, ← Multiset.singleton_add,
    add_comm ({job.ident} : Multiset JobId)]
  exact add_right_comm _ _ _

/-- Whatever fails, the loop adds no job and logs none. -/
theorem startWaitingRounds_jobs (env : Env) (rounds : Nat) (w : World) :
    (startWaitingRounds env rounds w).state.jobs ≤ w.state.jobs ∧
      logged (startWaitingRounds env rounds w).trace = logged w.trace := by
  induction rounds generalizing w with
  | zero => exact ⟨le_rfl, rfl⟩
  | succ rounds ih =>
      unfold startWaitingRounds
      split
      · split
        · exact ⟨le_rfl, rfl⟩
        · rename_i job w' hdeq
          obtain ⟨rest, last, hrem, rfl⟩ := dequeueByPolicy_frame hdeq
          have hjobs := jobs_of_removes last hrem
          cases hmal : env.malloc (w.mallocs + w.state.tables) with
          | true =>
              rw [startJob_of_malloc hmal]
              obtain ⟨hle, hlog⟩ := ih (sendAckToRunner env job.started
                { w with
                  state := ControllerState.start
                    { w.state with waitingQueue := rest, lastScheduledUser := last } job.started
                  mallocs := w.mallocs + w.state.tables + 1, rands := w.rands + w.state.draws })
              refine ⟨hle.trans ?_, hlog.trans ?_⟩
              · rw [hjobs]
                exact le_of_eq (ControllerState.jobs_start _ job)
              · simp [sendAckToRunner]
          | false =>
              rw [startJob_of_no_malloc hmal]
              obtain ⟨hle, hlog⟩ := ih
                { w with
                  state := { w.state with waitingQueue := rest, lastScheduledUser := last }
                  mallocs := w.mallocs + w.state.tables + 1, rands := w.rands + w.state.draws }
              refine ⟨hle.trans ?_, hlog⟩
              rw [hjobs]
              exact Multiset.le_add_right _ _
      · exact ⟨le_rfl, rfl⟩

/-- A slot has just become free and a job waits. If its node can be allocated, the job
moves and the loop ends; if not, the job is gone. -/
theorem startWaitingJobs_freed (env : Env) {w : World} (hwait : w.state.waitingQueue ≠ [])
    (hslot : w.state.runningCount + 1 = w.state.parallelLimit) :
    logged (startWaitingJobs env w).trace = logged w.trace ∧
      (env.malloc (w.mallocs + w.state.tables) = true →
        (startWaitingJobs env w).state.jobs = w.state.jobs) ∧
      (env.malloc (w.mallocs + w.state.tables) = false →
        ∃ k, (startWaitingJobs env w).state.jobs + {k} ≤ w.state.jobs) := by
  refine ⟨(startWaitingRounds_jobs env _ w).2, fun hmal => ?_, fun hmal => ?_⟩
  all_goals
    obtain ⟨job, w', hdeq⟩ := exists_dequeueByPolicy env hwait
    obtain ⟨rest, last, hrem, rfl⟩ := dequeueByPolicy_frame hdeq
    have hcan : w.state.canStart = true := canStart_iff.mpr ⟨by omega, hwait⟩
    rw [startWaitingJobs_eq, if_pos hcan, hdeq, jobs_of_removes last hrem]
    dsimp only
  · rw [startJob_of_malloc hmal, startWaitingJobs_idle]
    · exact ControllerState.jobs_start _ job
    · rw [← Bool.not_eq_true, canStart_iff]
      simp only [sendAckToRunner_state, ControllerState.start]
      omega
  · rw [startJob_of_no_malloc hmal]
    refine ⟨job.ident, add_le_add_left (startWaitingRounds_jobs env _ _).1 _⟩

/-! ## A completion -/

theorem jobs_of_unlink {s : ControllerState} {job : JobInfo} {running : JobQueue}
    (h : Removes s.runningQueue job running) : s.jobs = (s.unlink running).jobs + {job.ident} := by
  have hperm : (idents s.runningQueue : Multiset JobId) = job.ident ::ₘ idents running :=
    Multiset.coe_eq_coe.mpr (removes_idents h).perm
  rw [ControllerState.jobs, hperm, ← Multiset.singleton_add, add_comm ({job.ident} : Multiset JobId),
    ← add_assoc]
  rfl

theorem logFinishedJob_logged (env : Env) (job : JobInfo) (w : World) :
    logged (logFinishedJob env job w).trace = logged w.trace ++ [job.ident] := by
  obtain ⟨line, written, htrace, -⟩ := logFinishedJob_trace env job w
  simp [htrace]

section Completion

variable (env : Env) {msg : RpcMessage} {w : World} {job : JobInfo} {running : JobQueue}
  (hrem : queueRemoveByCommandId w.state.runningQueue msg.commandId = some (job, running))

include hrem

theorem handleDone_freed (hfree : w.state.waitingQueue = []) :
    logged (handleDone env msg w).trace = logged w.trace ++ [job.ident] ∧
      (handleDone env msg w).state.jobs + {job.ident} = w.state.jobs := by
  rw [handleDone_complete hrem hfree]
  exact ⟨logFinishedJob_logged env job w, (jobs_of_unlink (takeFirst_removes hrem)).symm⟩

theorem handleDone_passed_on (h : SlotInv w.state) (hwait : w.state.waitingQueue ≠ []) :
    logged (handleDone env msg w).trace = logged w.trace ++ [job.ident] ∧
      (env.malloc (w.mallocs + w.state.tables) = true →
        (handleDone env msg w).state.jobs + {job.ident} = w.state.jobs) ∧
      (env.malloc (w.mallocs + w.state.tables) = false →
        ∃ k, (handleDone env msg w).state.jobs + {k} + {job.ident} ≤ w.state.jobs) := by
  have hslot := h.unlink_slot (takeFirst_removes hrem) hwait
  obtain ⟨hlog, hmoved, hlost⟩ := startWaitingJobs_freed env
    (w := { logFinishedJob env job w with state := w.state.unlink running }) hwait hslot
  rw [logFinishedJob_mallocs] at hmoved hlost
  rw [handleDone_found hrem, jobs_of_unlink (takeFirst_removes hrem)]
  refine ⟨hlog.trans (logFinishedJob_logged env job w), fun hmal => ?_, fun hmal => ?_⟩
  · rw [hmoved hmal]
  · obtain ⟨k, hle⟩ := hlost hmal
    exact ⟨k, add_le_add_left hle _⟩

end Completion

/-! ## Which jobs are kept -/

/-- Every job is still in a queue or was logged by its own DONE, and a submission is in a
queue or has been answered. -/
structure JobsKept (env : Env) (msg : RpcMessage) (w : World) : Prop where
  kept : w.state.jobs ≤ (controllerHandleMessage env msg w).2.state.jobs +
    logged (newEvents w (controllerHandleMessage env msg w).2)
  finished : ∀ k ∈ logged (newEvents w (controllerHandleMessage env msg w).2),
    msg.type = .done ∧ k.commandId = msg.commandId
  submitted : msg.type = .submit →
    w.state.jobs + {(submittedJob env msg w).ident} ≤
        (controllerHandleMessage env msg w).2.state.jobs +
          logged (newEvents w (controllerHandleMessage env msg w).2) ∨
      sentTo msg.senderPid (newEvents w (controllerHandleMessage env msg w).2) ≠ []

theorem logged_newEvents {env : Env} {msg : RpcMessage} {w : World} {jobs : List JobId}
    (h : logged (controllerHandleMessage env msg w).2.trace = logged w.trace ++ jobs) :
    logged (newEvents w (controllerHandleMessage env msg w).2) = jobs := by
  obtain ⟨events, htrace, -⟩ := controllerHandleMessage_genuine env msg w
  rw [newEvents_of_append htrace]
  rw [htrace, logged_append] at h
  exact List.append_cancel_left h

/-- The end of the shutdown touches neither queue and logs nothing. -/
theorem tryFinishShutdown_jobs (env : Env) (w : World) :
    (tryFinishShutdown env w).2.state.jobs = w.state.jobs ∧
      logged (tryFinishShutdown env w).2.trace = logged w.trace := by
  unfold tryFinishShutdown
  split
  · exact ⟨rfl, rfl⟩
  · exact ⟨rfl, by simp⟩

/-- A handler that moves the jobs and logs some of them: what it leaves is what the
message leaves. -/
theorem jobs_of_serve {env : Env} {msg : RpcMessage} {w : World} (hlate : ¬ IsLate msg w.state)
    {jobs : List JobId} (h : logged (serve env msg w).trace = logged w.trace ++ jobs) :
    (controllerHandleMessage env msg w).2.state.jobs = (serve env msg w).state.jobs ∧
      logged (newEvents w (controllerHandleMessage env msg w).2) = jobs := by
  constructor
  · rw [controllerHandleMessage_serve hlate]
    exact (tryFinishShutdown_jobs env _).1
  · apply logged_newEvents
    rw [controllerHandleMessage_serve hlate, (tryFinishShutdown_jobs env _).2, h]

/-- A message that leaves the jobs alone keeps them. -/
theorem JobsKept.of_same {env : Env} {msg : RpcMessage} {w : World} (hlate : ¬ IsLate msg w.state)
    (ht : msg.type ≠ .submit) (hjobs : (serve env msg w).state.jobs = w.state.jobs)
    (hlog : logged (serve env msg w).trace = logged w.trace) : JobsKept env msg w := by
  obtain ⟨hsame, hnone⟩ := jobs_of_serve hlate (hlog.trans (List.append_nil _).symm)
  refine ⟨?_, ?_, fun hsubmit => absurd hsubmit ht⟩
  · rw [hsame, hnone, hjobs]
    exact le_of_eq (add_zero _).symm
  · simp [hnone]

/-- A message that takes a job and logs it keeps the others. -/
theorem JobsKept.of_finished {env : Env} {msg : RpcMessage} {w : World} (ht : msg.type = .done)
    {job : JobInfo} (hid : job.commandId = msg.commandId)
    (hjobs : (serve env msg w).state.jobs + {job.ident} = w.state.jobs)
    (hlog : logged (serve env msg w).trace = logged w.trace ++ [job.ident]) : JobsKept env msg w := by
  have hlate : ¬ IsLate msg w.state := by simp [IsLate, ht]
  obtain ⟨hsame, hnew⟩ := jobs_of_serve hlate hlog
  refine ⟨?_, ?_, fun hsubmit => by simp [ht] at hsubmit⟩
  · rw [hsame, hnew, ← hjobs]
    exact le_rfl
  · intro k hk
    rw [hnew] at hk
    rw [List.mem_singleton.mp hk]
    exact ⟨ht, hid⟩

/-- The other handlers touch neither queue and log nothing. -/
theorem serve_other (env : Env) {msg : RpcMessage} {w : World} (hsubmit : msg.type ≠ .submit)
    (hdone : msg.type ≠ .done) :
    (serve env msg w).state.jobs = w.state.jobs ∧
      logged (serve env msg w).trace = logged w.trace := by
  unfold serve
  split
  · exact absurd ‹msg.type = .submit› hsubmit
  · exact absurd ‹msg.type = .done› hdone
  · refine ⟨by rw [handleStatusReq_state], ?_⟩
    rcases handleStatusReq_trace env msg w with htrace | ⟨sent, killed, htrace, -⟩
    · rw [htrace]
    · simp [htrace]
  all_goals exact ⟨rfl, rfl⟩

theorem not_promotes {msg : RpcMessage} {s : ControllerState} (ht : msg.type = .submit) :
    ¬ Promotes msg s := by
  intro hpromotes
  have hboth := ht.symm.trans hpromotes.1
  cases hboth

theorem jobsKept_late {env : Env} (hc : env.CallsSucceed) {msg : RpcMessage} {w : World}
    (hlate : IsLate msg w.state) : JobsKept env msg w := by
  have hout : controllerHandleMessage env msg w = (false, sendShutdownAckToRunner env msg w) :=
    controllerHandleMessage_late hlate
  have hsend : Send.IsOf env (ipcSendAtomic env w.ios msg.senderPid (shutdownAckMessage env msg)).1
      msg.senderPid (shutdownAckMessage env msg) := ⟨w.ios, rfl⟩
  have hnew : newEvents w (controllerHandleMessage env msg w).2 =
      [.refusal msg (ipcSendAtomic env w.ios msg.senderPid (shutdownAckMessage env msg)).1] := by
    rw [hout]
    exact newEvents_of_append rfl
  refine ⟨?_, ?_, fun _ => Or.inr ?_⟩
  · rw [hnew, hout]
    exact le_of_eq (add_zero _).symm
  · simp [hnew]
  · simp [hnew, sentTo, Event.sentTo, hsend.delivered hc]

/-- A submission outside the shutdown is kept exactly when its node can be allocated: no
other path of `handle_submit` answers the runner. -/
theorem jobsKept_submit {env : Env} {msg : RpcMessage} {w : World} (ht : msg.type = .submit)
    (hlate : ¬ IsLate msg w.state) :
    JobsKept env msg w ↔ env.malloc (w.mallocs + w.state.reallocs msg.userId) = true := by
  have hserve : serve env msg w = handleSubmit env msg w := by simp [serve, ht]
  cases hmal : env.malloc (w.mallocs + w.state.reallocs msg.userId) with
  | true =>
      obtain ⟨hjobs, events, htrace, hlog⟩ := handleSubmit_enqueued hmal
      have hnone : logged (serve env msg w).trace = logged w.trace ++ [] := by
        rw [hserve, htrace, logged_append, hlog]
      have hsame := jobs_of_serve hlate hnone
      rw [hserve, hjobs] at hsame
      refine iff_of_true ⟨?_, ?_, fun _ => Or.inl ?_⟩ rfl
      · rw [hsame.1, hsame.2, add_assoc]
        exact Multiset.le_add_right _ _
      · simp [hsame.2]
      · rw [hsame.1, hsame.2]
        exact le_of_eq (add_zero _).symm
  | false =>
      obtain ⟨hjobs, htrace⟩ := handleSubmit_dropped hmal
      have hnone : logged (serve env msg w).trace = logged w.trace ++ [] := by
        rw [hserve, htrace, List.append_nil]
      have hsame := jobs_of_serve hlate hnone
      rw [hserve, hjobs] at hsame
      -- the shutdown has not begun, so the run does not end on this message either
      have hrunning : w.state.isShuttingDown = false := by
        rw [← Bool.not_eq_true]
        exact fun hdown => hlate ⟨ht, hdown⟩
      have hgo : (serve env msg w).state.isFinished = false := by
        rw [ControllerState.isFinished, (serve_quiet (by simp [ht])).isShuttingDown, hrunning]
        rfl
      have hnew : newEvents w (controllerHandleMessage env msg w).2 = [] := by
        apply newEvents_of_append
        rw [controllerHandleMessage_serve hlate, tryFinishShutdown, hgo, hserve, List.append_nil]
        exact htrace
      refine iff_of_false (fun hkept => ?_) (by simp)
      rcases hkept.submitted ht with hplaced | hanswered
      · rw [hsame.1, hsame.2] at hplaced
        have hcard := Multiset.card_le_card hplaced
        simp only [Multiset.card_add, Multiset.card_singleton, Multiset.coe_nil,
          Multiset.card_zero] at hcard
        omega
      · rw [hnew] at hanswered
        exact hanswered rfl

/-- A completion keeps the jobs exactly when a job that takes over the slot gets its node. -/
theorem jobsKept_done {env : Env} {msg : RpcMessage} {w : World} (h : SlotInv w.state)
    (ht : msg.type = .done) :
    JobsKept env msg w ↔
      (Promotes msg w.state → env.malloc (w.mallocs + w.state.tables) = true) := by
  have hserve : serve env msg w = handleDone env msg w := by simp [serve, ht]
  have hlate : ¬ IsLate msg w.state := by simp [IsLate, ht]
  cases hrem : queueRemoveByCommandId w.state.runningQueue msg.commandId with
  | none =>
      have hstray : handleDone env msg w = w := handleDone_stray h hrem
      refine iff_of_true (JobsKept.of_same hlate (by simp [ht]) ?_ ?_) fun hpromotes => ?_
      · rw [hserve, hstray]
      · rw [hserve, hstray]
      · exact absurd hpromotes (not_promotes_of_stray hrem)
  | some out =>
      obtain ⟨job, running⟩ := out
      have hid : job.commandId = msg.commandId := by simpa using takeFirst_pos hrem
      by_cases hfree : w.state.waitingQueue = []
      · obtain ⟨hlog, hjobs⟩ := handleDone_freed env hrem hfree
        refine iff_of_true (JobsKept.of_finished ht hid ?_ ?_) fun hpromotes => ?_
        · rw [hserve, hjobs]
        · rw [hserve, hlog]
        · exact absurd hfree hpromotes.2.2
      · obtain ⟨hlog, hmoved, hlost⟩ := handleDone_passed_on env hrem h hfree
        have hpromotes : Promotes msg w.state :=
          ⟨ht, ⟨job, (takeFirst_removes hrem).mem, hid⟩, hfree⟩
        cases hmal : env.malloc (w.mallocs + w.state.tables) with
        | true =>
            refine iff_of_true (JobsKept.of_finished ht hid ?_ ?_) fun _ => rfl
            · rw [hserve, hmoved hmal]
            · rw [hserve, hlog]
        | false =>
            obtain ⟨k, hle⟩ := hlost hmal
            have hone : logged (serve env msg w).trace = logged w.trace ++ [job.ident] := by
              rw [hserve, hlog]
            obtain ⟨hsame, hnew⟩ := jobs_of_serve hlate hone
            refine iff_of_false (fun hkept => ?_) fun himp => by simpa using himp hpromotes
            have hall := hkept.kept
            rw [hsame, hnew, hserve] at hall
            have hcard := Multiset.card_le_card (hle.trans hall)
            simp only [Multiset.card_add, Multiset.card_singleton, Multiset.coe_card,
              List.length_singleton] at hcard
            omega

/-- With sends and log writes succeeding, a message in a reachable state loses no job and
leaves no submission unanswered exactly when the node for the job it moves is allocated. -/
theorem jobs_kept_iff {env : Env} (hc : env.CallsSucceed) (argv : List CString)
    (msgs : List RpcMessage) (msg : RpcMessage) :
    JobsKept env msg (runMessages env msgs (controllerStart argv)) ↔
      EnqueueSucceeds env msg (runMessages env msgs (controllerStart argv)) := by
  have hslots := run_slots env argv msgs
  generalize runMessages env msgs (controllerStart argv) = w at hslots ⊢
  by_cases hlate : IsLate msg w.state
  · exact iff_of_true (jobsKept_late hc hlate)
      ⟨fun _ hnot => absurd hlate hnot, fun hpromotes => absurd hpromotes (not_promotes hlate.1)⟩
  · by_cases hsubmit : msg.type = .submit
    · rw [jobsKept_submit hsubmit hlate]
      constructor
      · exact fun hmal => ⟨fun _ _ => hmal, fun hpromotes => absurd hpromotes (not_promotes hsubmit)⟩
      · exact fun hsucceeds => hsucceeds.submitted hsubmit hlate
    · by_cases hdone : msg.type = .done
      · rw [jobsKept_done hslots hdone]
        constructor
        · exact fun hmal => ⟨fun ht => absurd ht hsubmit, hmal⟩
        · exact fun hsucceeds => hsucceeds.promoted
      · refine iff_of_true (JobsKept.of_same hlate hsubmit ?_ ?_)
          ⟨fun ht => absurd ht hsubmit, fun hpromotes => absurd hpromotes.1 hdone⟩
        · exact (serve_other env hsubmit hdone).1
        · exact (serve_other env hsubmit hdone).2

/-- A machine whose memory is short for one allocation. -/
def Env.shortAt (n : Nat) : Env := { Env.calm with malloc := fun k => k != n }

theorem jobs_kept_iff_short :
    let w := runMessages (.shortAt 3) [submitMsg 11 1 (text "a"), submitMsg 12 2 (text "b")]
      (controllerStart [text "controller", text "1"])
    let msg := msgDone 11 { RpcMessage.zero with commandId := 11 }
    JobsKept (.shortAt 3) msg w ↔ EnqueueSucceeds (.shortAt 3) msg w :=
  jobs_kept_iff (fun _ => rfl) [text "controller", text "1"]
    [submitMsg 11 1 (text "a"), submitMsg 12 2 (text "b")]
    (msgDone 11 { RpcMessage.zero with commandId := 11 })

/-- The promotion that follows a DONE fails: the waiting job is in no queue afterwards,
and its runner has been sent nothing. -/
theorem waiting_job_lost :
    let w := runMessages (.shortAt 3) [submitMsg 11 1 (text "a"), submitMsg 12 2 (text "b")]
      (controllerStart [text "controller", text "1"])
    let msg := msgDone 11 { RpcMessage.zero with commandId := 11 }
    let w' := (controllerHandleMessage (.shortAt 3) msg w).2
    w.state.waitingQueue.map JobInfo.runnerPid = [12] ∧ w'.state.waitingQueue = [] ∧
      w'.state.runningQueue = [] ∧ sentTo 12 w'.trace = [] ∧ ¬ JobsKept (.shortAt 3) msg w := by
  intro w msg w'
  refine ⟨by decide, by decide, by decide, by decide, fun hkept => ?_⟩
  have hmal := (jobsKept_done (run_slots _ _ _) rfl).mp hkept ⟨rfl, by decide, by decide⟩
  revert hmal
  decide

/-! ## ACKs that do not arrive -/

@[simp] def Event.delivered? : Event → Option JobId
  | .ack job send => if send.delivered then some job.ident else none
  | .refusal _ _ | .farewell _ | .log _ _ _ | .status _ _ _ => none

/-- The jobs whose ACK entered the runner's FIFO, in order. -/
def delivered (trace : List Event) : List JobId := trace.filterMap Event.delivered?

/-- The slots in use belong to jobs whose ACK arrived; the jobs logged had one each, too. -/
structure SlotsAuthorised (w : World) : Prop where
  count : w.state.runningCount = w.state.runningQueue.length
  acks : (idents w.state.runningQueue + logged w.trace : Multiset JobId) ≤ delivered w.trace

/-- The `open` and the `write` of an ACK that starts with call number `ios`. -/
def Arrives (env : Env) (ios : Nat) : Prop := env.io ios = true ∧ env.io (ios + 1) = true

/-- The ACK that this message makes the controller send arrives, if it sends one. -/
structure AckArrives (env : Env) (w : World) (msg : RpcMessage) : Prop where
  submitted : msg.type = .submit → ¬ IsLate msg w.state →
    w.state.runningCount < w.state.parallelLimit → Arrives env w.ios
  promoted : Promotes msg w.state → Arrives env w.ios

/-- What a stretch of the controller adds to the ACKs sent: none, or one, which arrives
under the condition `G`. -/
inductive AckStep (G : Prop) (w w' : World) : Prop
  | none (hg : G) (hack : acked w'.trace = acked w.trace)
      (hdel : delivered w'.trace = delivered w.trace)
  | one (k : JobId) (hack : acked w'.trace = acked w.trace ++ [k])
      (harrived : G → delivered w'.trace = delivered w.trace ++ [k])
      (hlost : ¬ G → delivered w'.trace = delivered w.trace)

theorem logFinishedJob_ios (env : Env) (job : JobInfo) (w : World) :
    (logFinishedJob env job w).ios = w.ios := by
  unfold logFinishedJob
  dsimp only
  split <;> rfl

theorem logFinishedJob_acks (env : Env) (job : JobInfo) (w : World) :
    acked (logFinishedJob env job w).trace = acked w.trace ∧
      delivered (logFinishedJob env job w).trace = delivered w.trace := by
  obtain ⟨line, written, htrace, -⟩ := logFinishedJob_trace env job w
  rw [htrace]
  exact ⟨by simp, by simp [delivered]⟩

theorem sendAckToRunner_step (env : Env) (job : JobInfo) (w : World) :
    AckStep (Arrives env w.ios) w (sendAckToRunner env job w) := by
  have hsend := ipcSendAtomic_delivered_eq env w.ios job.runnerPid (ackMessage env job)
  refine .one job.ident (by simp [sendAckToRunner]) (fun harrives => ?_) fun hlost => ?_
  · simp [sendAckToRunner, delivered, hsend, harrives.1, harrives.2]
  · have hnot : (env.io w.ios && env.io (w.ios + 1)) = false := by
      rw [← Bool.not_eq_true, Bool.and_eq_true]
      exact hlost
    simp [sendAckToRunner, delivered, hsend, hnot]

theorem AckStep.congr {G G' : Prop} {w v w' : World} (h : AckStep G v w') (hG : G' ↔ G)
    (hack : acked v.trace = acked w.trace) (hdel : delivered v.trace = delivered w.trace) :
    AckStep G' w w' := by
  cases h with
  | none hg hack' hdel' => exact .none (hG.mpr hg) (hack'.trans hack) (hdel'.trans hdel)
  | one k hack' harrived hlost =>
      refine .one k (by rw [hack', hack]) (fun hg => ?_) fun hg => ?_
      · rw [harrived (hG.mp hg), hdel]
      · rw [hlost (mt hG.mpr hg), hdel]

theorem handleSubmit_ackStep {env : Env} (hm : env.AllocsSucceed) {msg : RpcMessage} {w : World}
    (ht : msg.type = .submit) (hlate : ¬ IsLate msg w.state) :
    AckStep (AckArrives env w msg) w (handleSubmit env msg w) := by
  have hnever : ¬ Promotes msg w.state := not_promotes ht
  by_cases hslot : w.state.runningCount < w.state.parallelLimit
  · obtain ⟨mallocs, heq⟩ := handleSubmit_start hm msg hslot
    rw [heq]
    refine (sendAckToRunner_step env _ _).congr ?_ rfl rfl
    constructor
    · exact fun hg => hg.submitted ht hlate hslot
    · exact fun harrives => ⟨fun _ _ _ => harrives, fun hpromotes => absurd hpromotes hnever⟩
  · obtain ⟨mallocs, heq⟩ := handleSubmit_queue hm msg hslot
    rw [heq]
    exact .none ⟨fun _ _ hfree => absurd hfree hslot, fun hpromotes => absurd hpromotes hnever⟩ rfl rfl

theorem handleDone_ackStep {env : Env} (hm : env.AllocsSucceed) {msg : RpcMessage} {w : World}
    (h : SlotInv w.state) (ht : msg.type = .done) :
    AckStep (AckArrives env w msg) w (handleDone env msg w) := by
  have hnot : msg.type ≠ .submit := by simp [ht]
  cases hrem : queueRemoveByCommandId w.state.runningQueue msg.commandId with
  | none =>
      rw [handleDone_stray h hrem]
      exact .none ⟨fun hsubmit => absurd hsubmit hnot,
        fun hpromotes => absurd hpromotes (not_promotes_of_stray hrem)⟩ rfl rfl
  | some out =>
      obtain ⟨job, running⟩ := out
      obtain ⟨hack, hdel⟩ := logFinishedJob_acks env job w
      by_cases hfree : w.state.waitingQueue = []
      · rw [handleDone_complete hrem hfree]
        exact .none ⟨fun hsubmit => absurd hsubmit hnot,
          fun hpromotes => absurd hfree hpromotes.2.2⟩ hack hdel
      · obtain ⟨next, rest, mallocs, -, heq⟩ := handleDone_promote hm h hrem hfree
        have hid : job.commandId = msg.commandId := by simpa using takeFirst_pos hrem
        have hpromotes : Promotes msg w.state :=
          ⟨ht, ⟨job, (takeFirst_removes hrem).mem, hid⟩, hfree⟩
        rw [heq]
        refine (sendAckToRunner_step env _ _).congr ?_ hack hdel
        show AckArrives env w msg ↔ Arrives env (logFinishedJob env job w).ios
        rw [logFinishedJob_ios]
        constructor
        · exact fun hg => hg.promoted hpromotes
        · exact fun harrives => ⟨fun hsubmit => absurd hsubmit hnot, fun _ => harrives⟩

theorem serve_ackStep {env : Env} (hm : env.AllocsSucceed) {msg : RpcMessage} {w : World}
    (h : SlotInv w.state) (hlate : ¬ IsLate msg w.state) :
    AckStep (AckArrives env w msg) w (serve env msg w) := by
  by_cases hsubmit : msg.type = .submit
  · simpa [serve, hsubmit] using handleSubmit_ackStep hm hsubmit hlate
  · by_cases hdone : msg.type = .done
    · simpa [serve, hdone] using handleDone_ackStep hm h hdone
    · have hg : AckArrives env w msg :=
        ⟨fun ht => absurd ht hsubmit, fun hpromotes => absurd hpromotes.1 hdone⟩
      unfold serve
      split
      · exact absurd ‹msg.type = .submit› hsubmit
      · exact absurd ‹msg.type = .done› hdone
      · rcases handleStatusReq_trace env msg w with htrace | ⟨sent, killed, htrace, -⟩
        · exact .none hg (by rw [htrace]) (by rw [htrace])
        · exact .none hg (by simp [htrace]) (by simp [htrace, delivered])
      all_goals exact .none hg rfl rfl

/-- Every message sends at most one ACK. -/
theorem controllerHandleMessage_ackStep {env : Env} (hm : env.AllocsSucceed) (msg : RpcMessage)
    {w : World} (h : SlotInv w.state) :
    AckStep (AckArrives env w msg) w (controllerHandleMessage env msg w).2 := by
  by_cases hlate : IsLate msg w.state
  · rw [controllerHandleMessage_late hlate]
    refine .none ⟨fun _ hnot => absurd hlate hnot,
      fun hpromotes => absurd hpromotes (not_promotes hlate.1)⟩ ?_ ?_
    · simp [sendShutdownAckToRunner]
    · simp [sendShutdownAckToRunner, delivered]
  · have hfinish : ∀ v : World, acked (tryFinishShutdown env v).2.trace = acked v.trace ∧
        delivered (tryFinishShutdown env v).2.trace = delivered v.trace := by
      intro v
      unfold tryFinishShutdown
      split
      · exact ⟨rfl, rfl⟩
      · exact ⟨by simp, by simp [delivered]⟩
    obtain ⟨hack, hdel⟩ := hfinish (serve env msg w)
    rw [controllerHandleMessage_serve hlate]
    cases serve_ackStep hm h hlate with
    | none hg hack' hdel' => exact .none hg (hack.trans hack') (hdel.trans hdel')
    | one k hack' harrived hlost =>
        exact .one k (hack.trans hack') (fun hg => hdel.trans (harrived hg))
          (fun hg => hdel.trans (hlost hg))

/-! ## Runs with failing ACKs -/

/-- The controller as a transition system, one message a step. -/
def controllerSystem (env : Env) (argv : List CString) : TransitionSystem World RpcMessage :=
  { init := fun w => w = controllerStart argv
    step := fun w msg w' => w' = (controllerHandleMessage env msg w).2 }

/-- The worlds of a run in which every ACK so far has arrived. -/
structure AllArrived (env : Env) (argv : List CString) (w : World) : Prop where
  reached : ∃ msgs, w = runMessages env msgs (controllerStart argv)
  arrived : delivered w.trace = acked w.trace

theorem slotsAuthorised_exact {env : Env} (hm : env.AllocsSucceed) (argv : List CString) :
    TransitionSystem.ExactGuard (controllerSystem env argv) SlotsAuthorised (AckArrives env)
      (AllArrived env argv) := by
  refine ⟨?_, ?_, ?_, ?_⟩
  · rintro w rfl
    exact ⟨⟨[], rfl⟩, rfl⟩
  · rintro w msg w' ⟨⟨msgs, rfl⟩, harrived⟩ rfl hg
    refine ⟨⟨msgs ++ [msg], (runMessages_snoc env msgs msg _).symm⟩, ?_⟩
    cases controllerHandleMessage_ackStep hm msg (run_slots env argv msgs) with
    | none _ hack hdel => rw [hdel, hack, harrived]
    | one k hack hgood _ => rw [hgood hg, hack, harrived]
  · rintro w ⟨⟨msgs, rfl⟩, harrived⟩
    refine ⟨(run_slots env argv msgs).count, ?_⟩
    rw [harrived, (run_balanced hm argv msgs).acked]
  · rintro w msg w' ⟨⟨msgs, rfl⟩, harrived⟩ rfl hbad hgood
    have hbalance := (run_balanced hm argv (msgs ++ [msg])).acked
    rw [runMessages_snoc] at hbalance
    cases controllerHandleMessage_ackStep hm msg (run_slots env argv msgs) with
    | none hg _ _ => exact hbad hg
    | one k hack _ hlost =>
        -- the ACK is sent and its job holds a slot, but the ACK did not arrive
        have hle := hgood.acks
        rw [← hbalance, hack, hlost hbad, harrived] at hle
        have hcard := Multiset.card_le_card hle
        simp only [Multiset.coe_card, List.length_append, List.length_singleton] at hcard
        omega

/-- Along a run every slot in use belongs to a job whose ACK arrived exactly if the ACK of
every message that sends one arrives. -/
theorem slots_authorised_iff {env : Env} (hm : env.AllocsSucceed) {argv : List CString}
    {past : List (World × RpcMessage)} {w : World}
    (h : TransitionSystem.Run (controllerSystem env argv) past w) :
    (∀ v ∈ TransitionSystem.statesOf past w, SlotsAuthorised v) ↔
      ∀ t ∈ past, AckArrives env t.1 t.2 :=
  (slotsAuthorised_exact hm argv).run_iff h

/-- A machine on which one call on a FIFO fails. -/
def Env.brokenAt (n : Nat) : Env := { Env.calm with io := fun k => k != n }

/-- A machine on which `log.txt` cannot be opened. -/
def Env.logless : Env := { Env.calm with logIo := fun _ => false }

/-- The log line is lost, the ACK of the next job arrives. -/
theorem slots_authorised_iff_log_lost :
    let msgDone11 := msgDone 11 { RpcMessage.zero with commandId := 11 }
    ∃ past w, TransitionSystem.Run (controllerSystem .logless [text "controller", text "1"])
        (past ++ [(w, msgDone11)]) (controllerHandleMessage .logless msgDone11 w).2 ∧
      ((∀ v ∈ TransitionSystem.statesOf (past ++ [(w, msgDone11)])
          (controllerHandleMessage .logless msgDone11 w).2, SlotsAuthorised v) ↔
        ∀ t ∈ past ++ [(w, msgDone11)], AckArrives .logless t.1 t.2) := by
  have hstart : TransitionSystem.Run
      (controllerSystem .logless [text "controller", text "1"]) [] (controllerStart _) :=
    .init rfl
  have hfirst := hstart.step (l := submitMsg 11 1 (text "a")) rfl
  have hsecond := hfirst.step (l := submitMsg 12 2 (text "b")) rfl
  have hdone := hsecond.step (l := msgDone 11 { RpcMessage.zero with commandId := 11 }) rfl
  exact ⟨_, _, hdone, slots_authorised_iff (fun _ => rfl) hdone⟩

/-- The FIFO of the only runner cannot be opened: the job holds the only slot, no ACK has
arrived, and with a shutdown asked for the controller still goes on. -/
theorem slot_held_without_ack :
    ∃ past w, TransitionSystem.Run (controllerSystem (.brokenAt 0) [text "controller", text "1"])
        past w ∧
      w.state.runningCount = w.state.parallelLimit ∧ delivered w.trace = [] ∧
      w.state.isShuttingDown = true ∧ w.state.keepRunning = true ∧
      ¬ ∀ v ∈ TransitionSystem.statesOf past w, SlotsAuthorised v := by
  have hstart : TransitionSystem.Run
      (controllerSystem (.brokenAt 0) [text "controller", text "1"]) [] (controllerStart _) :=
    .init rfl
  have hsubmit := hstart.step (l := submitMsg 11 1 (text "a")) rfl
  have hask := hsubmit.step (l := shutdownReq 20) rfl
  refine ⟨_, _, hask, by decide, by decide, by decide, by decide, fun hall => ?_⟩
  have hacks := (hall _ (List.mem_append_right _ (List.mem_singleton_self _))).acks
  have hcard := Multiset.card_le_card hacks
  revert hcard
  decide

end RunnerOrchestrator
