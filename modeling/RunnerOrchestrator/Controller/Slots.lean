import RunnerOrchestrator.Controller.Frame

/-! # Slot accounting

The counter agrees with the running queue, never passes the limit, and no slot is
idle while a job waits. Failed allocations lose jobs, not slots: a round of the
promotion loop either fills a slot or drops the job it took, and the loop goes on
until no slot is free or nobody waits.
-/

namespace RunnerOrchestrator

open Removal

structure SlotInv (s : ControllerState) : Prop where
  count : s.runningCount = s.runningQueue.length
  bounded : s.runningCount ≤ s.parallelLimit
  conserving : s.waitingQueue ≠ [] → s.runningCount = s.parallelLimit

theorem SlotInv.congr {s s' : ControllerState} (h : SlotInv s)
    (hc : s'.runningCount = s.runningCount) (hr : s'.runningQueue = s.runningQueue)
    (hl : s'.parallelLimit = s.parallelLimit) (hw : s'.waitingQueue = s.waitingQueue) :
    SlotInv s' := by
  refine ⟨?_, ?_, ?_⟩
  · rw [hc, hr]; exact h.count
  · rw [hc, hl]; exact h.bounded
  · rw [hc, hl, hw]; exact h.conserving

theorem canStart_iff {s : ControllerState} :
    s.canStart = true ↔ s.runningCount < s.parallelLimit ∧ s.waitingQueue ≠ [] := by
  simp [ControllerState.canStart, queueIsEmpty]

/-! ## The promotion loop -/

/-- The loop of the source: test, dequeue or break, start, test again. -/
theorem startWaitingJobs_eq (env : Env) (w : World) :
    startWaitingJobs env w =
      if w.state.canStart then
        match dequeueByPolicy env w with
        | none => w
        | some (nextJob, w') =>
            startWaitingJobs env (startJob env { nextJob with state := .running } w')
      else w := by
  unfold startWaitingJobs
  by_cases h : w.state.canStart = true
  · obtain ⟨-, hne⟩ := canStart_iff.mp h
    obtain ⟨job, w', hdeq⟩ := exists_dequeueByPolicy env hne
    obtain ⟨rest, last, hrem, rfl⟩ := dequeueByPolicy_frame hdeq
    have hwait : ∀ v : World, (startJob env { job with state := .running } v).state.waitingQueue =
        v.state.waitingQueue := by
      intro v
      cases hm : env.malloc v.mallocs with
      | true => rw [startJob_of_malloc hm]; rfl
      | false => rw [startJob_of_no_malloc hm]
    rw [hrem.length, startWaitingRounds, if_pos h, if_pos h, hdeq]
    simp only [hwait]
  · cases w.state.waitingQueue.length <;> simp [startWaitingRounds, h]

theorem startWaitingRounds_slots {env : Env} {rounds : Nat} {w : World}
    (hcount : w.state.runningCount = w.state.runningQueue.length)
    (hle : w.state.runningCount ≤ w.state.parallelLimit)
    (hr : w.state.waitingQueue.length ≤ rounds) :
    SlotInv (startWaitingRounds env rounds w).state := by
  induction rounds generalizing w with
  | zero =>
      have hnil : w.state.waitingQueue = [] := List.length_eq_zero_iff.mp (by omega)
      exact ⟨hcount, hle, fun h => absurd hnil h⟩
  | succ rounds ih =>
      unfold startWaitingRounds
      split
      · rename_i hcan
        obtain ⟨hfree, hne⟩ := canStart_iff.mp hcan
        obtain ⟨job, w', hdeq⟩ := exists_dequeueByPolicy env hne
        obtain ⟨rest, last, hrem, rfl⟩ := dequeueByPolicy_frame hdeq
        have hrest : rest.length ≤ rounds := by
          have := hrem.length
          omega
        simp only [hdeq]
        cases hm : env.malloc (w.mallocs + w.state.tables) with
        | true =>
            rw [startJob_of_malloc hm]
            apply ih
            · simp [ControllerState.start, hcount]
            · exact hfree
            · simpa [ControllerState.start] using hrest
        | false =>
            rw [startJob_of_no_malloc hm]
            exact ih hcount hle hrest
      · rename_i hcan
        refine ⟨hcount, hle, fun hne => ?_⟩
        have : ¬ w.state.runningCount < w.state.parallelLimit := fun h =>
          hcan (canStart_iff.mpr ⟨h, hne⟩)
        omega

theorem startWaitingJobs_slots {env : Env} {w : World}
    (hcount : w.state.runningCount = w.state.runningQueue.length)
    (hle : w.state.runningCount ≤ w.state.parallelLimit) :
    SlotInv (startWaitingJobs env w).state :=
  startWaitingRounds_slots hcount hle le_rfl

/-! ## The handlers -/

theorem handleSubmit_slots {env : Env} {msg : RpcMessage} {w : World} (h : SlotInv w.state) :
    SlotInv (handleSubmit env msg w).state := by
  obtain ⟨users, capacity, mallocs, heq⟩ :=
    rememberFairUser_frame env msg.userId { w with clocks := w.clocks + 1 }
  unfold handleSubmit
  dsimp only [submittedJob]
  rw [heq]
  dsimp only
  split
  · rename_i hfree
    -- a free slot means that nobody waits
    have hnil : w.state.waitingQueue = [] := by
      by_contra hne
      have := h.conserving hne
      omega
    cases hm : env.malloc mallocs with
    | true =>
        rw [startJob_of_malloc hm]
        refine ⟨?_, ?_, fun hne => absurd hnil hne⟩
        · simp [ControllerState.start, h.count]
        · exact hfree
    | false =>
        rw [startJob_of_no_malloc hm]
        exact h.congr rfl rfl rfl rfl
  · rename_i hfull
    cases hm : env.malloc mallocs with
    | true =>
        refine ⟨h.count, h.bounded, fun _ => ?_⟩
        have := h.bounded
        simp only [queueEnqueue, if_true]
        omega
    | false => exact h.congr rfl rfl rfl rfl

theorem handleDone_slots {env : Env} {msg : RpcMessage} {w : World} (h : SlotInv w.state) :
    SlotInv (handleDone env msg w).state := by
  unfold handleDone
  split
  · exact startWaitingJobs_slots h.count h.bounded
  · rename_i job running hrem
    have hlen := (takeFirst_removes hrem).length
    have hcount := h.count
    have hbound := h.bounded
    apply startWaitingJobs_slots
    · simp only [logFinishedJob_state]
      omega
    · simp only [logFinishedJob_state]
      omega

theorem serve_slots {env : Env} {msg : RpcMessage} {w : World} (h : SlotInv w.state) :
    SlotInv (serve env msg w).state := by
  unfold serve
  split
  · exact handleSubmit_slots h
  · exact handleDone_slots h
  · rw [handleStatusReq_state]
    exact h
  · exact h.congr rfl rfl rfl rfl
  all_goals exact h

theorem tryFinishShutdown_slots {env : Env} {w : World} (h : SlotInv w.state) :
    SlotInv (tryFinishShutdown env w).2.state := by
  unfold tryFinishShutdown
  split
  · exact h
  · exact h.congr rfl rfl rfl rfl

theorem controllerHandleMessage_slots {env : Env} {msg : RpcMessage} {w : World}
    (h : SlotInv w.state) : SlotInv (controllerHandleMessage env msg w).2.state := by
  by_cases hlate : IsLate msg w.state
  · rw [controllerHandleMessage_late hlate]
    exact h
  · rw [controllerHandleMessage_serve hlate]
    exact tryFinishShutdown_slots (serve_slots h)

/-! ## Runs -/

theorem runMessages_append (env : Env) (first second : List RpcMessage) (w : World) :
    runMessages env (first ++ second) w = runMessages env second (runMessages env first w) := by
  simp [runMessages]

theorem runMessages_snoc (env : Env) (msgs : List RpcMessage) (msg : RpcMessage) (w : World) :
    runMessages env (msgs ++ [msg]) w = (controllerHandleMessage env msg (runMessages env msgs w)).2 := by
  simp [runMessages]

/-- What every message keeps, every run keeps. -/
theorem runMessages_invariant {env : Env} {P : World → Prop}
    (hstep : ∀ msg w, P w → P (controllerHandleMessage env msg w).2) (msgs : List RpcMessage)
    {w : World} (h : P w) : P (runMessages env msgs w) := by
  induction msgs generalizing w with
  | nil => exact h
  | cons msg msgs ih => exact ih (hstep msg w h)

@[simp] theorem controllerStart_state (argv : List CString) :
    (controllerStart argv).state = controllerConfigure argv := rfl

theorem controllerConfigure_slots (argv : List CString) : SlotInv (controllerConfigure argv) :=
  ⟨rfl, Nat.zero_le _, fun h => absurd rfl h⟩

theorem parallelLimit_pos (argv : List CString) : 1 ≤ (controllerConfigure argv).parallelLimit := by
  unfold controllerConfigure
  dsimp only
  split
  · rename_i h
    have hpos : (0 : Int32).toInt < (atoi (argv.getD 1 [])).toInt := Int32.lt_iff_toInt_lt.mp h.2
    have hzero : (0 : Int32).toInt = 0 := by decide
    omega
  · decide

theorem run_slots (env : Env) (argv : List CString) (msgs : List RpcMessage) :
    SlotInv (runMessages env msgs (controllerStart argv)).state :=
  runMessages_invariant (P := fun w => SlotInv w.state)
    (fun _ _ h => controllerHandleMessage_slots h) msgs (controllerConfigure_slots argv)

/-- Configuration survives every message. -/
theorem controllerHandleMessage_config (env : Env) (msg : RpcMessage) (w : World) :
    (controllerHandleMessage env msg w).2.state.parallelLimit = w.state.parallelLimit ∧
      (controllerHandleMessage env msg w).2.state.policy = w.state.policy := by
  have hfinish : ∀ v : World,
      (tryFinishShutdown env v).2.state.parallelLimit = v.state.parallelLimit ∧
        (tryFinishShutdown env v).2.state.policy = v.state.policy := by
    intro v
    unfold tryFinishShutdown
    split <;> exact ⟨rfl, rfl⟩
  by_cases hlate : IsLate msg w.state
  · rw [controllerHandleMessage_late hlate]
    exact ⟨rfl, rfl⟩
  · rw [controllerHandleMessage_serve hlate, (hfinish _).1, (hfinish _).2]
    by_cases ht : msg.type = .shutdownReq
    · rw [serve_shutdownReq ht]
      exact ⟨rfl, rfl⟩
    · exact ⟨(serve_quiet ht).parallelLimit, (serve_quiet ht).policy⟩

theorem run_config (env : Env) (argv : List CString) (msgs : List RpcMessage) :
    (runMessages env msgs (controllerStart argv)).state.parallelLimit =
        (controllerConfigure argv).parallelLimit ∧
      (runMessages env msgs (controllerStart argv)).state.policy =
        (controllerConfigure argv).policy :=
  runMessages_invariant
    (P := fun w => w.state.parallelLimit = (controllerConfigure argv).parallelLimit ∧
      w.state.policy = (controllerConfigure argv).policy)
    (fun msg w h => ⟨(controllerHandleMessage_config env msg w).1.trans h.1,
      (controllerHandleMessage_config env msg w).2.trans h.2⟩) msgs ⟨rfl, rfl⟩

/-- In every state between messages the counter is the number of running jobs, at
most the configured limit, and equal to it while any job waits. -/
theorem slots_conserved (env : Env) (argv : List CString) (msgs : List RpcMessage) :
    let s := (runMessages env msgs (controllerStart argv)).state
    s.parallelLimit = (controllerConfigure argv).parallelLimit ∧
      s.runningCount = s.runningQueue.length ∧
      s.runningCount ≤ s.parallelLimit ∧
      (s.waitingQueue ≠ [] → s.runningCount = s.parallelLimit) := by
  have h := run_slots env argv msgs
  exact ⟨(run_config env argv msgs).1, h.count, h.bounded, h.conserving⟩

end RunnerOrchestrator
