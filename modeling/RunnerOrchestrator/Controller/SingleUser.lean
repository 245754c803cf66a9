import RunnerOrchestrator.Controller.Waiting
import RunnerOrchestrator.Controller.Status

/-! # One user, one policy

With jobs of a single user in the queue, the rounds of the fair choice lead nowhere: the
job taken is the first one and the preview shows arrival order. A controller under
"fair" and one under "fcfs" then do the same, call by call.
-/

namespace RunnerOrchestrator

open Removal

def ControllerState.withPolicy (policy : CString) (s : ControllerState) : ControllerState :=
  { s with policy := policy }

@[simp] theorem ControllerState.withPolicy_remember (policy : CString) (s : ControllerState)
    (userId : Int32) :
    (s.withPolicy policy).remember userId = (s.remember userId).withPolicy policy := by
  unfold remember
  show (if userExists s.fairUsers userId then _ else _) = _
  split <;> rfl

/-- Two controllers that differ in the policy and in the number of allocations only. -/
structure Mirrors (policy : CString) (w v : World) : Prop where
  state : v.state = w.state.withPolicy policy
  rands : v.rands = w.rands
  clocks : v.clocks = w.clocks
  ios : v.ios = w.ios
  logs : v.logs = w.logs
  trace : v.trace = w.trace

/-- The policy takes the first waiting job, without a random number, and shows the jobs in
order of arrival. -/
structure InArrivalOrder (s : ControllerState) : Prop where
  pick : ∀ rand, s.pick rand = queueDequeue s.waitingQueue
  draws : s.draws = 0
  shown : shownWaiting s = s.waitingQueue

theorem inArrivalOrder_fcfs {s : ControllerState} (hrandom : s.policy ≠ text "random")
    (hfair : s.policy ≠ text "fair") : InArrivalOrder s := by
  have hr : isRandomPolicy s = false := by simpa [isRandomPolicy] using hrandom
  have hf : isFairPolicy s = false := by simpa [isFairPolicy] using hfair
  refine ⟨ControllerState.pick_fcfs_eq hrandom hfair, ?_, ?_⟩
  · rw [ControllerState.draws, hr]
    rfl
  · rw [shownWaiting, hf]
    rfl

/-! ## The fair choice among one user's jobs -/

theorem queueDequeueFair_oneUser {u : Int32} {q : JobQueue} (hone : ∀ job ∈ q, job.userId = u)
    (fairUsers : List Int32) (last : Int32) :
    queueDequeueFair true fairUsers last q =
      (queueDequeue q).map fun out => (out.1, out.2, u) := by
  cases q with
  | nil => rfl
  | cons head rest =>
      rcases exists_queueDequeueFair true fairUsers last (List.cons_ne_nil head rest) with
        ⟨job, r, hout⟩
      have htake := queueDequeueFair_takeFirst hout
      have huser : job.userId = u := hone job (queueDequeueFair_removes hout).1.mem
      have hhead : head.userId = u := hone head List.mem_cons_self
      have hfirst : takeFirst (fun other : JobInfo => other.userId == job.userId) (head :: rest) =
          some (head, rest) := by
        simp [takeFirst, hhead, huser]
      rw [hfirst, Option.some.injEq, Prod.mk.injEq] at htake
      rcases htake with ⟨rfl, rfl⟩
      rw [hout, huser]
      rfl

theorem fairOrder_oneUser {u : Int32} {fairUsers : List Int32} {q : JobQueue}
    (hone : ∀ job ∈ q, job.userId = u) (last : Int32) :
    fairOrder fairUsers q.length last q = q := by
  induction q generalizing last with
  | nil => rfl
  | cons head rest ih =>
      have hrest : ∀ job ∈ rest, job.userId = u := fun job hjob =>
        hone job (List.mem_cons_of_mem head hjob)
      rw [List.length_cons, fairOrder, queueDequeueFair_oneUser hone]
      simp only [queueDequeue, Option.map_some, ih hrest]

/-- The preview of the fair policy stops at user -1. -/
theorem inArrivalOrder_oneUser {s : ControllerState} (hpolicy : s.policy = text "fair") {u : Int32}
    (hu : u ≠ -1) (hone : ∀ job ∈ s.waitingQueue, job.userId = u) : InArrivalOrder s := by
  have hr : isRandomPolicy s = false := by rw [isRandomPolicy, hpolicy]; decide
  have hf : isFairPolicy s = true := by rw [isFairPolicy, hpolicy]; decide
  refine ⟨fun rand => ?_, ?_, ?_⟩
  · rw [ControllerState.pick, hr, hf]
    simp only [Bool.false_eq_true, if_false, if_true, queueDequeueFair_oneUser hone,
      Option.map_map]
    cases queueDequeue s.waitingQueue <;> rfl
  · rw [ControllerState.draws, hr]
    rfl
  · rw [shownWaiting, hf, if_pos rfl, fairOrder_oneUser hone, List.takeWhile_eq_self_iff]
    intro job hjob
    rw [hone job hjob]
    simpa using hu

/-! ## The handlers keep mirrors -/

/-- The reply to a status request, whichever of its calls fail. -/
theorem handleStatusReq_exact {env : Env} (hm : env.AllocsSucceed) (msg : RpcMessage) (w : World) :
    ∃ mallocs, handleStatusReq env msg w =
      if env.io w.ios then
        { w with
          mallocs := mallocs
          ios := (writeStatus env w.state.runningQueue (shownWaiting w.state)
            ⟨w.ios + 1, [], false⟩).ios + 1
          trace := w.trace ++ [.status msg.senderPid
            (writeStatus env w.state.runningQueue (shownWaiting w.state)
              ⟨w.ios + 1, [], false⟩).sent
            (writeStatus env w.state.runningQueue (shownWaiting w.state)
              ⟨w.ios + 1, [], false⟩).killed] }
      else { w with mallocs := mallocs, ios := w.ios + 1 } := by
  have hsnap : ∀ mallocs size, snapshotFails env mallocs size = false := by
    intro mallocs size
    simp [snapshotFails, hm mallocs]
  have hcopy : queueCopyToArray w.state.runningQueue (queueGetSize w.state.runningQueue) =
      w.state.runningQueue := List.take_length
  unfold handleStatusReq
  simp only [hsnap, Bool.false_eq_true, if_false, hcopy, waitingSnapshot_shown hm]
  exact ⟨_, rfl⟩

section Mirror

variable {env : Env} {policy : CString} {w v : World} (h : Mirrors policy w v)

include h

theorem Mirrors.submittedJob (msg : RpcMessage) :
    RunnerOrchestrator.submittedJob env msg v = RunnerOrchestrator.submittedJob env msg w := by
  rw [RunnerOrchestrator.submittedJob, RunnerOrchestrator.submittedJob, h.clocks]

theorem Mirrors.sendAckToRunner (job : JobInfo) :
    Mirrors policy (RunnerOrchestrator.sendAckToRunner env job w)
      (RunnerOrchestrator.sendAckToRunner env job v) := by
  refine ⟨h.state, h.rands, h.clocks, ?_, h.logs, ?_⟩
  · simp only [RunnerOrchestrator.sendAckToRunner, h.ios]
  · simp only [RunnerOrchestrator.sendAckToRunner, h.ios, h.trace]

theorem Mirrors.refused (msg : RpcMessage) :
    Mirrors policy (sendShutdownAckToRunner env msg w) (sendShutdownAckToRunner env msg v) := by
  refine ⟨h.state, h.rands, h.clocks, ?_, h.logs, ?_⟩
  · simp only [sendShutdownAckToRunner, h.ios]
  · simp only [sendShutdownAckToRunner, h.ios, h.trace]

theorem Mirrors.logFinishedJob (env : Env) (job : JobInfo) :
    Mirrors policy (RunnerOrchestrator.logFinishedJob env job w)
      (RunnerOrchestrator.logFinishedJob env job v) := by
  unfold RunnerOrchestrator.logFinishedJob
  simp only [h.logs, h.clocks, h.trace]
  split
  · exact ⟨h.state, h.rands, rfl, h.ios, rfl, rfl⟩
  · exact ⟨h.state, h.rands, rfl, h.ios, rfl, rfl⟩

theorem Mirrors.tryFinishShutdown :
    Mirrors policy (RunnerOrchestrator.tryFinishShutdown env w).2
      (RunnerOrchestrator.tryFinishShutdown env v).2 := by
  have hstop : v.state.isFinished = w.state.isFinished := by
    rw [h.state]
    rfl
  unfold RunnerOrchestrator.tryFinishShutdown
  rw [hstop]
  split
  · exact h
  · simp only [h.state, h.ios, h.trace]
    exact ⟨rfl, h.rands, h.clocks, rfl, h.logs, rfl⟩

/-- Replacing the state of mirrors by mirrored states. -/
theorem Mirrors.withState (s : ControllerState) (mallocs mallocs' draws readings : Nat) :
    Mirrors policy
      { w with
        state := s, mallocs := mallocs, rands := w.rands + draws, clocks := w.clocks + readings }
      { v with
        state := s.withPolicy policy, mallocs := mallocs', rands := v.rands + draws
        clocks := v.clocks + readings } := by
  refine ⟨rfl, ?_, ?_, h.ios, h.logs, h.trace⟩
  · show v.rands + draws = w.rands + draws
    rw [h.rands]
  · show v.clocks + readings = w.clocks + readings
    rw [h.clocks]

section Allocs

variable (hm : env.AllocsSucceed)

include hm

theorem Mirrors.handleSubmit (msg : RpcMessage) :
    Mirrors policy (RunnerOrchestrator.handleSubmit env msg w)
      (RunnerOrchestrator.handleSubmit env msg v) := by
  have hcount : v.state.runningCount = w.state.runningCount := by rw [h.state]; rfl
  have hlimit : v.state.parallelLimit = w.state.parallelLimit := by rw [h.state]; rfl
  by_cases hslot : w.state.runningCount < w.state.parallelLimit
  · rcases handleSubmit_start hm msg hslot with ⟨mallocs, hw⟩
    rcases handleSubmit_start hm msg (w := v) (by rw [hcount, hlimit]; exact hslot) with
      ⟨mallocs', hv⟩
    rw [hw, hv, h.submittedJob, h.state, ControllerState.withPolicy_remember]
    exact (h.withState _ mallocs mallocs' 0 1).sendAckToRunner _
  · rcases handleSubmit_queue hm msg hslot with ⟨mallocs, hw⟩
    rcases handleSubmit_queue hm msg (w := v) (by rw [hcount, hlimit]; exact hslot) with
      ⟨mallocs', hv⟩
    rw [hw, hv, h.submittedJob, h.state, ControllerState.withPolicy_remember]
    exact h.withState _ mallocs mallocs' 0 1

variable (hw : InArrivalOrder w.state) (hv : InArrivalOrder v.state)

include hw hv

theorem Mirrors.handleStatusReq (msg : RpcMessage) :
    Mirrors policy (RunnerOrchestrator.handleStatusReq env msg w)
      (RunnerOrchestrator.handleStatusReq env msg v) := by
  have hrunning : v.state.runningQueue = w.state.runningQueue := by rw [h.state]; rfl
  have hwaiting : v.state.waitingQueue = w.state.waitingQueue := by rw [h.state]; rfl
  rcases handleStatusReq_exact hm msg w with ⟨mallocs, heq⟩
  rcases handleStatusReq_exact hm msg v with ⟨mallocs', heq'⟩
  rw [heq, heq', hw.shown, hv.shown, hrunning, hwaiting, h.ios, h.trace]
  split
  · exact ⟨h.state, h.rands, h.clocks, rfl, h.logs, rfl⟩
  · exact ⟨h.state, h.rands, h.clocks, rfl, h.logs, rfl⟩

theorem Mirrors.handleDone (hslots : SlotInv w.state) (msg : RpcMessage) :
    Mirrors policy (RunnerOrchestrator.handleDone env msg w)
      (RunnerOrchestrator.handleDone env msg v) := by
  have hrunning : v.state.runningQueue = w.state.runningQueue := by rw [h.state]; rfl
  have hwaiting : v.state.waitingQueue = w.state.waitingQueue := by rw [h.state]; rfl
  have hslots' : SlotInv v.state := by
    rw [h.state]
    exact hslots.congr rfl rfl rfl rfl
  cases hrem : queueRemoveByCommandId w.state.runningQueue msg.commandId with
  | none =>
      rw [handleDone_stray hslots hrem, handleDone_stray hslots' (by rw [hrunning]; exact hrem)]
      exact h
  | some out =>
      rcases out with ⟨job, running⟩
      have hrem' : queueRemoveByCommandId v.state.runningQueue msg.commandId =
          some (job, running) := by
        rw [hrunning]
        exact hrem
      have hlog := h.logFinishedJob env job
      by_cases hfree : w.state.waitingQueue = []
      · rw [handleDone_complete hrem hfree, handleDone_complete hrem' (by rw [hwaiting]; exact hfree),
          h.state]
        exact hlog.withState _ _ _ 0 0
      · rcases handleDone_promote hm hslots hrem hfree with ⟨next, rest, mallocs, hpick, heq⟩
        rcases handleDone_promote hm hslots' hrem' (by rw [hwaiting]; exact hfree) with
          ⟨next', rest', mallocs', hpick', heq'⟩
        rw [hv.pick, hwaiting, ← hw.pick, hpick] at hpick'
        cases hpick'
        rw [heq, heq', hw.draws, hv.draws, h.state, ← logFinishedJob_rands env job w,
          ← logFinishedJob_rands env job v]
        exact (hlog.withState _ mallocs mallocs' 0 0).sendAckToRunner _

theorem Mirrors.serve (hslots : SlotInv w.state) (msg : RpcMessage) :
    Mirrors policy (RunnerOrchestrator.serve env msg w) (RunnerOrchestrator.serve env msg v) := by
  unfold RunnerOrchestrator.serve
  split
  · exact h.handleSubmit hm msg
  · exact h.handleDone hm hw hv hslots msg
  · exact h.handleStatusReq hm hw hv msg
  · rw [handleShutdownReq, handleShutdownReq, h.state]
    exact h.withState _ _ _ 0 0
  all_goals exact h

theorem Mirrors.message (hslots : SlotInv w.state) (msg : RpcMessage) :
    Mirrors policy (controllerHandleMessage env msg w).2 (controllerHandleMessage env msg v).2 := by
  have hlate : IsLate msg v.state ↔ IsLate msg w.state := by
    rw [h.state]
    rfl
  by_cases hw' : IsLate msg w.state
  · rw [controllerHandleMessage_late hw', controllerHandleMessage_late (hlate.mpr hw')]
    exact h.refused msg
  · rw [controllerHandleMessage_serve hw', controllerHandleMessage_serve (mt hlate.mp hw')]
    exact (h.serve hm hw hv hslots msg).tryFinishShutdown

end Allocs

end Mirror

/-! ## Runs -/

/-- The users who wait after a message waited before it or sent it. -/
theorem Served.waiting_users {env : Env} {msg : RpcMessage} {w : World} {s : ControllerState}
    {events : List Event} (hs : Served env msg w s events) {u : Int32}
    (hmsg : msg.type = .submit → msg.userId = u)
    (h : ∀ job ∈ w.state.waitingQueue, job.userId = u) : ∀ job ∈ s.waitingQueue, job.userId = u := by
  cases hs with
  | started ht hfree hslot send hsend =>
      intro job hjob
      simp [ControllerState.start, hfree] at hjob
  | queued ht hfull =>
      intro job hjob
      rcases List.mem_append.mp hjob with hjob | hjob
      · exact h job hjob
      · rw [List.mem_singleton.mp hjob]
        exact hmsg ht
  | completed ht job running hrem hfree line written hlog => exact h
  | promoted ht job running hrem next rest hpick line written hlog send hsend =>
      exact fun other hother => h other ((ControllerState.pick_removes hpick).mem_of_mem hother)
  | stray ht hrem => exact h
  | answered ht replies hreplies => exact h
  | asked ht => exact h
  | ignored ht => exact h

theorem run_waiting_users {env : Env} (hm : env.AllocsSucceed) (argv : List CString)
    {msgs : List RpcMessage} {u : Int32}
    (hone : ∀ msg ∈ msgs, msg.type = .submit → msg.userId = u) :
    ∀ job ∈ waitingAfter env argv msgs, job.userId = u := by
  induction msgs using List.reverseRecOn with
  | nil => exact fun job hjob => absurd hjob List.not_mem_nil
  | append_singleton msgs msg ih =>
      have hprev := ih fun m hm => hone m (List.mem_append_left _ hm)
      have hmsg := hone msg (List.mem_append_right _ List.mem_cons_self)
      rcases controllerHandleMessage_handled hm msg (run_slots env argv msgs) with
        ⟨events, -, hhandled⟩
      rw [waitingAfter, runMessages_snoc]
      exact hhandled.keeps (P := fun s => ∀ job ∈ s.waitingQueue, job.userId = u)
        (fun s events hs => hs.waiting_users hmsg hprev) (fun s h => h) hprev

/-- Two controllers that start with the same limit. -/
theorem mirrors_start {argv argv' : List CString}
    (hlimit : (controllerConfigure argv').parallelLimit = (controllerConfigure argv).parallelLimit) :
    Mirrors (controllerConfigure argv').policy (controllerStart argv) (controllerStart argv') := by
  refine ⟨?_, rfl, rfl, rfl, rfl, rfl⟩
  rw [controllerStart_state, controllerStart_state]
  unfold controllerConfigure at hlimit ⊢
  simp only [ControllerState.withPolicy] at hlimit ⊢
  rw [hlimit]

/-- With a single user, other than -1, "fair" and "fcfs" do the same: after any messages
the states agree but for the policy, and so does everything the controllers have sent and
logged, status replies included. -/
theorem fair_single_user {env : Env} (hm : env.AllocsSucceed) {argv argv' : List CString}
    (hpolicy : (controllerConfigure argv).policy = text "fair")
    (hrandom : (controllerConfigure argv').policy ≠ text "random")
    (hfair : (controllerConfigure argv').policy ≠ text "fair")
    (hlimit : (controllerConfigure argv').parallelLimit = (controllerConfigure argv).parallelLimit)
    {u : Int32} (hu : u ≠ -1) (msgs : List RpcMessage)
    (hone : ∀ msg ∈ msgs, msg.type = .submit → msg.userId = u) :
    let w := runMessages env msgs (controllerStart argv)
    let v := runMessages env msgs (controllerStart argv')
    v.state = { w.state with policy := (controllerConfigure argv').policy } ∧ v.trace = w.trace := by
  intro w v
  have hmirror : Mirrors (controllerConfigure argv').policy w v := by
    induction msgs using List.reverseRecOn with
    | nil => exact mirrors_start hlimit
    | append_singleton msgs msg ih =>
        have hprev := fun m hmem => hone m (List.mem_append_left [msg] hmem)
        have hconfig := (run_config env argv msgs).2
        have hconfig' := (run_config env argv' msgs).2
        have hw := inArrivalOrder_oneUser (hconfig.trans hpolicy) hu
          (run_waiting_users hm argv hprev)
        have hv := inArrivalOrder_fcfs (hconfig'.trans_ne hrandom) (hconfig'.trans_ne hfair)
        show Mirrors _ (runMessages env (msgs ++ [msg]) _) (runMessages env (msgs ++ [msg]) _)
        rw [runMessages_snoc, runMessages_snoc]
        exact (ih hprev).message hm hw hv (run_slots env argv msgs) msg
  exact ⟨hmirror.state, hmirror.trace⟩

/-- One user's morning: three jobs, a status request and two completions. -/
def morning : List RpcMessage :=
  [submitMsg 11 5 (text "a"), submitMsg 12 5 (text "b"), submitMsg 13 5 (text "c"), statusReq 20,
    doneOf 11, doneOf 12]

theorem fair_single_user_morning :
    let argv' := [text "controller", text "1", text "lottery"]
    let w := runMessages .calm morning
      (controllerStart [text "controller", text "1", text "fair"])
    let v := runMessages .calm morning (controllerStart argv')
    v.state = { w.state with policy := (controllerConfigure argv').policy } ∧ v.trace = w.trace := by
  intro argv'
  exact fair_single_user Env.calm_allocsSucceed (u := 5) (by decide) (by decide)
    (by decide) (by decide) (by decide) morning (by decide)

end RunnerOrchestrator
