import RunnerOrchestrator.Controller.Ledger

/-! # Answers to shutdown requests

The state keeps one requester, the last. The farewell of the run goes to it alone;
apart from the refusals of late submissions nothing else carries SHUTDOWN_ACK.
-/

namespace RunnerOrchestrator

/-- The messages an event puts into the FIFO of the process `pid`. -/
def Event.sentTo (pid : Int32) : Event → List RpcMessage
  | .ack _ send | .refusal _ send | .farewell send =>
      if send.dest = pid ∧ send.delivered = true then [send.msg] else []
  | .status dest replies _ => if dest = pid then replies else []
  | .log _ _ _ => []

/-- Everything the controller has put into that FIFO. -/
def sentTo (pid : Int32) (trace : List Event) : List RpcMessage := trace.flatMap (Event.sentTo pid)

def Event.farewell? : Event → Option Send
  | .farewell send => some send
  | .ack _ _ | .refusal _ _ | .log _ _ _ | .status _ _ _ => none

def farewells (trace : List Event) : List Send := trace.filterMap Event.farewell?

/-- The processes that asked for the shutdown, in order. -/
def requesters (msgs : List RpcMessage) : List Int32 :=
  (msgs.filter fun msg => msg.type = .shutdownReq).map RpcMessage.senderPid

/-! ## One message -/

theorem controllerHandleMessage_keepRunning (env : Env) (msg : RpcMessage) (w : World) :
    (controllerHandleMessage env msg w).2.state.keepRunning =
      (w.state.keepRunning && !(controllerHandleMessage env msg w).1) := by
  by_cases hlate : IsLate msg w.state
  · rw [controllerHandleMessage_late hlate]
    simp [sendShutdownAckToRunner]
  · have hserve : (serve env msg w).state.keepRunning = w.state.keepRunning := by
      by_cases ht : msg.type = .shutdownReq
      · rw [serve_shutdownReq ht]
        rfl
      · exact (serve_quiet ht).keepRunning
    rw [controllerHandleMessage_serve hlate]
    unfold tryFinishShutdown
    split <;> simp [hserve]

theorem controllerHandleMessage_requester (env : Env) (msg : RpcMessage) (w : World) :
    (controllerHandleMessage env msg w).2.state.shutdownRequesterPid =
      if msg.type = .shutdownReq then msg.senderPid else w.state.shutdownRequesterPid := by
  by_cases hlate : IsLate msg w.state
  · rw [controllerHandleMessage_late hlate]
    simp [sendShutdownAckToRunner, hlate.1]
  · rw [controllerHandleMessage_serve hlate, tryFinishShutdown_state]
    by_cases ht : msg.type = .shutdownReq
    · rw [serve_shutdownReq ht, if_pos ht]
      rfl
    · rw [if_neg ht]
      exact (serve_quiet ht).requester

theorem farewells_routine {env : Env} {events : List Event} (h : ∀ e ∈ events, e.Routine env) :
    farewells events = [] := by
  apply List.filterMap_eq_nil_iff.mpr
  intro e he
  cases e with
  | farewell send => exact absurd (h _ he) id
  | _ => rfl

/-- A message on which the controller goes on adds no farewell. -/
theorem controllerHandleMessage_farewells {env : Env} {msg : RpcMessage} {w : World}
    (h : (controllerHandleMessage env msg w).1 = false) :
    farewells (controllerHandleMessage env msg w).2.trace = farewells w.trace := by
  by_cases hlate : IsLate msg w.state
  · rw [controllerHandleMessage_late hlate]
    simp [sendShutdownAckToRunner, farewells, List.filterMap_cons, Event.farewell?]
  · obtain ⟨events, htrace, hroutine⟩ := serve_trace env msg w
    have hgo : (serve env msg w).state.isFinished = false := by
      rw [← Bool.not_eq_true]
      intro hstop
      rw [controllerHandleMessage_returns.mpr ⟨hlate, hstop⟩] at h
      cases h
    have hnone : List.filterMap Event.farewell? events = [] := farewells_routine hroutine
    rw [controllerHandleMessage_serve hlate]
    simp [tryFinishShutdown, hgo, htrace, farewells, hnone]

/-- The message on which it stops adds one, to the requester kept in the state. -/
theorem controllerHandleMessage_farewell {env : Env} {msg : RpcMessage} {w : World}
    (h : (controllerHandleMessage env msg w).1 = true) :
    ∃ send, farewells (controllerHandleMessage env msg w).2.trace = farewells w.trace ++ [send] ∧
      send.IsOf env (controllerHandleMessage env msg w).2.state.shutdownRequesterPid
        farewellMessage := by
  obtain ⟨hlate, hstop⟩ := controllerHandleMessage_returns.mp h
  obtain ⟨events, htrace, hroutine⟩ := serve_trace env msg w
  have hnone : List.filterMap Event.farewell? events = [] := farewells_routine hroutine
  rw [controllerHandleMessage_serve hlate]
  refine ⟨_, ?_, ⟨(serve env msg w).ios, rfl⟩⟩
  simp [tryFinishShutdown, hstop, htrace, farewells, hnone, Event.farewell?]

/-! ## Runs -/

section Runs

variable (env : Env) (argv : List CString) (msgs : List RpcMessage)

theorem run_requester :
    (runMessages env msgs (controllerStart argv)).state.shutdownRequesterPid =
      (requesters msgs).getLast?.getD (-1) := by
  induction msgs using List.reverseRecOn with
  | nil => rfl
  | append_singleton msgs msg ih =>
      rw [runMessages_snoc, controllerHandleMessage_requester, ih]
      by_cases ht : msg.type = .shutdownReq <;> simp [requesters, ht]

/-- No farewell is sent while the main loop goes on. -/
theorem run_farewells
    (hrun : (runMessages env msgs (controllerStart argv)).state.keepRunning = true) :
    farewells (runMessages env msgs (controllerStart argv)).trace = [] := by
  induction msgs using List.reverseRecOn with
  | nil => rfl
  | append_singleton msgs msg ih =>
      rw [runMessages_snoc] at hrun ⊢
      rw [controllerHandleMessage_keepRunning, Bool.and_eq_true, Bool.not_eq_true'] at hrun
      rw [controllerHandleMessage_farewells hrun.2]
      exact ih hrun.1

end Runs

/-! ## When the main loop ends -/

/-- A busy controller: with an idle slot nobody waits, so an unfinished shutdown has
a job running. -/
theorem running_of_unfinished {s : ControllerState} (hslots : SlotInv s)
    (hpos : 1 ≤ s.parallelLimit) (hdown : s.isShuttingDown = true) (hgo : s.isFinished = false) :
    s.runningQueue ≠ [] := by
  intro hnil
  have hcount : s.runningCount = 0 := by rw [hslots.count, hnil, List.length_nil]
  have hwait : s.waitingQueue = [] := by
    by_contra hne
    have hfull := hslots.conserving hne
    omega
  have hstop : s.isFinished = true := isFinished_iff.mpr ⟨hdown, hcount, hwait⟩
  rw [hgo] at hstop
  cases hstop

theorem isFinished_iff_empty {s : ControllerState} (hslots : SlotInv s) :
    s.isFinished = true ↔
      s.isShuttingDown = true ∧ s.runningQueue = [] ∧ s.waitingQueue = [] := by
  rw [isFinished_iff, hslots.count, List.length_eq_zero_iff]

/-- While the main loop goes on, a shutdown that has been asked for waits for a job. -/
theorem run_busy (env : Env) (argv : List CString) (msgs : List RpcMessage)
    (hrun : (runMessages env msgs (controllerStart argv)).state.keepRunning = true)
    (hdown : (runMessages env msgs (controllerStart argv)).state.isShuttingDown = true) :
    (runMessages env msgs (controllerStart argv)).state.runningQueue ≠ [] := by
  induction msgs using List.reverseRecOn with
  | nil => cases hdown
  | append_singleton msgs msg ih =>
      have hslots := run_slots env argv (msgs ++ [msg])
      have hpos := parallelLimit_pos argv
      rw [← (run_config env argv (msgs ++ [msg])).1] at hpos
      rw [runMessages_snoc] at hrun hdown hslots hpos ⊢
      rw [controllerHandleMessage_keepRunning, Bool.and_eq_true, Bool.not_eq_true'] at hrun
      by_cases hlate : IsLate msg (runMessages env msgs (controllerStart argv)).state
      · -- the early return leaves the state as it was
        rw [controllerHandleMessage_late hlate]
        exact ih hrun.1 hlate.2
      · apply running_of_unfinished hslots hpos hdown
        rw [controllerHandleMessage_serve hlate] at hrun ⊢
        cases hstop : (serve env msg (runMessages env msgs (controllerStart argv))).state.isFinished with
        | true => simp [tryFinishShutdown, hstop] at hrun
        | false => simp [tryFinishShutdown, hstop]

/-- In a run that has not stopped, the controller returns 1 on exactly the messages
that leave a requested shutdown with both queues empty; as long as it goes on, a
requested shutdown has a job running. -/
theorem shutdown_exact (env : Env) (argv : List CString) (past : List RpcMessage)
    (hrun : (runMessages env past (controllerStart argv)).state.keepRunning = true) :
    let w := runMessages env past (controllerStart argv)
    (w.state.isShuttingDown = true → w.state.runningQueue ≠ []) ∧
      ∀ msg, (controllerHandleMessage env msg w).1 = true ↔
        (∃ m ∈ past ++ [msg], m.type = .shutdownReq) ∧
          (controllerHandleMessage env msg w).2.state.runningQueue = [] ∧
          (controllerHandleMessage env msg w).2.state.waitingQueue = [] := by
  intro w
  have hbusy : w.state.isShuttingDown = true → w.state.runningQueue ≠ [] :=
    run_busy env argv past hrun
  refine ⟨hbusy, fun msg => ?_⟩
  have hasked : (∃ m ∈ past ++ [msg], m.type = .shutdownReq) ↔
      (controllerHandleMessage env msg w).2.state.isShuttingDown = true := by
    rw [← runMessages_snoc, run_isShuttingDown]
    simp
  rw [hasked]
  by_cases hlate : IsLate msg w.state
  · rw [controllerHandleMessage_late hlate]
    constructor
    · intro hret
      cases hret
    · intro hdone
      exact absurd hdone.2.1 (hbusy hlate.2)
  · rw [controllerHandleMessage_serve hlate]
    have hslots : SlotInv (serve env msg w).state := serve_slots (run_slots env argv past)
    cases hstop : (serve env msg w).state.isFinished with
    | true =>
        have hempty := (isFinished_iff_empty hslots).mp hstop
        simpa [tryFinishShutdown, hstop] using hempty
    | false =>
        have hnot := mt (isFinished_iff_empty hslots).mpr (by simp [hstop])
        simpa [tryFinishShutdown, hstop] using hnot

theorem shutdown_exact_draining_day :
    let w := runMessages .calm (drainingDay.take 5) (controllerStart [text "controller", text "1"])
    (w.state.isShuttingDown = true → w.state.runningQueue ≠ []) ∧
      ∀ msg, (controllerHandleMessage .calm msg w).1 = true ↔
        (∃ m ∈ drainingDay.take 5 ++ [msg], m.type = .shutdownReq) ∧
          (controllerHandleMessage .calm msg w).2.state.runningQueue = [] ∧
          (controllerHandleMessage .calm msg w).2.state.waitingQueue = [] :=
  shutdown_exact .calm [text "controller", text "1"] (drainingDay.take 5) (by decide)

/-! ## Who is released -/

theorem mem_refused {trace : List Event} {msg : RpcMessage} :
    msg ∈ refused trace ↔ ∃ send, Event.refusal msg send ∈ trace := by
  simp only [refused, List.mem_filterMap]
  constructor
  · rintro ⟨e, he, heq⟩
    cases e with
    | refusal m send =>
        simp only [Event.refused?, Option.some.injEq] at heq
        exact ⟨send, heq ▸ he⟩
    | _ => simp at heq
  · rintro ⟨send, he⟩
    exact ⟨_, he, rfl⟩

theorem mem_farewells {trace : List Event} {send : Send} :
    send ∈ farewells trace ↔ Event.farewell send ∈ trace := by
  simp only [farewells, List.mem_filterMap]
  constructor
  · rintro ⟨e, he, heq⟩
    cases e with
    | farewell s =>
        simp only [Event.farewell?, Option.some.injEq] at heq
        exact heq ▸ he
    | _ => simp [Event.farewell?] at heq
  · intro he
    exact ⟨_, he, rfl⟩

/-- A process waiting for SHUTDOWN_ACK is released by a refusal or by a farewell. -/
theorem releasedBy_sentTo_iff {env : Env} (hc : env.CallsSucceed) {trace : List Event}
    (h : ∀ e ∈ trace, e.Genuine env) (pid : Int32) :
    releasedBy (sentTo pid trace) = true ↔
      (∃ msg ∈ refused trace, msg.senderPid = pid) ∨ ∃ send ∈ farewells trace, send.dest = pid := by
  have hiff : releasedBy (sentTo pid trace) = true ↔
      ∃ e ∈ trace, ∃ msg ∈ e.sentTo pid, msg.type = .shutdownAck := by
    simp only [releasedBy, sentTo, List.any_eq_true, List.mem_flatMap, beq_iff_eq]
    constructor
    · intro hsent
      obtain ⟨msg, ⟨e, he, hmsg⟩, ht⟩ := hsent
      exact ⟨e, he, msg, hmsg, ht⟩
    · intro hsent
      obtain ⟨e, he, msg, hmsg, ht⟩ := hsent
      exact ⟨msg, ⟨e, he, hmsg⟩, ht⟩
  rw [hiff]
  constructor
  · intro hsent
    obtain ⟨e, he, msg, hmsg, ht⟩ := hsent
    cases e with
    | ack job send =>
        have hsend : send.IsOf env job.runnerPid (ackMessage env job) := h _ he
        simp only [Event.sentTo] at hmsg
        split at hmsg
        · rw [List.mem_singleton.mp hmsg, hsend.msg_eq] at ht
          exact absurd ht (by simp [ackMessage])
        · simp at hmsg
    | refusal m send =>
        have hsend : send.IsOf env m.senderPid (shutdownAckMessage env m) := h _ he
        simp only [Event.sentTo] at hmsg
        split at hmsg
        · rename_i hdest
          exact Or.inl ⟨m, mem_refused.mpr ⟨send, he⟩, hsend.dest_eq.symm.trans hdest.1⟩
        · simp at hmsg
    | farewell send =>
        simp only [Event.sentTo] at hmsg
        split at hmsg
        · rename_i hdest
          exact Or.inr ⟨send, mem_farewells.mpr he, hdest.1⟩
        · simp at hmsg
    | log job line written => simp [Event.sentTo] at hmsg
    | status dest replies killed =>
        have hreplies : ∀ m ∈ replies, m.IsStatusReply := (h _ he).1
        simp only [Event.sentTo] at hmsg
        split at hmsg
        · rcases hreplies msg hmsg with hresp | hend
          · simp [hresp] at ht
          · simp [hend] at ht
        · simp at hmsg
  · intro hsent
    rcases hsent with ⟨msg, hmsg, hpid⟩ | ⟨send, hmem, hpid⟩
    · obtain ⟨send, he⟩ := mem_refused.mp hmsg
      have hsend : send.IsOf env msg.senderPid (shutdownAckMessage env msg) := h _ he
      refine ⟨_, he, shutdownAckMessage env msg, ?_, rfl⟩
      simp [Event.sentTo, hsend.dest_eq, hsend.msg_eq, hsend.delivered hc, hpid]
    · have he := mem_farewells.mp hmem
      obtain ⟨dest, hsend⟩ : ∃ dest, send.IsOf env dest farewellMessage := h _ he
      refine ⟨_, he, farewellMessage, ?_, rfl⟩
      simp [Event.sentTo, hsend.msg_eq, hsend.delivered hc, hpid]

/-- When the controller stops, its requesters have all been answered exactly if each
of them sent the last request or a submission that came too late. -/
theorem requesters_answered_iff {env : Env} (hc : env.CallsSucceed) (argv : List CString)
    (past : List RpcMessage) (last : RpcMessage)
    (hrun : (runMessages env past (controllerStart argv)).state.keepRunning = true)
    (hstop : (controllerHandleMessage env last (runMessages env past (controllerStart argv))).1 =
      true) :
    let msgs := past ++ [last]
    (∀ pid ∈ requesters msgs,
        releasedBy (sentTo pid (runMessages env msgs (controllerStart argv)).trace) = true) ↔
      ∀ pid ∈ requesters msgs, (requesters msgs).getLast? = some pid ∨
        pid ∈ (lateSubmits msgs).map RpcMessage.senderPid := by
  intro msgs
  have hgenuine := run_genuine env argv msgs
  have hrefused := run_refused env argv msgs
  have hrequester := run_requester env argv msgs
  obtain ⟨send, hfarewell, hsend⟩ := controllerHandleMessage_farewell hstop
  rw [run_farewells env argv past hrun, List.nil_append, ← runMessages_snoc] at hfarewell
  rw [← runMessages_snoc, hrequester] at hsend
  have hone : ∀ pid ∈ requesters msgs,
      (releasedBy (sentTo pid (runMessages env msgs (controllerStart argv)).trace) = true ↔
        (requesters msgs).getLast? = some pid ∨
          pid ∈ (lateSubmits msgs).map RpcMessage.senderPid) := by
    intro pid hpid
    rw [releasedBy_sentTo_iff hc hgenuine, hrefused, hfarewell, or_comm]
    obtain ⟨p, hlast⟩ := Option.ne_none_iff_exists'.mp
      (mt List.getLast?_eq_none_iff.mp (List.ne_nil_of_mem hpid))
    simp [hsend.dest_eq, hlast]
  constructor
  · intro h pid hpid
    exact (hone pid hpid).mp (h pid hpid)
  · intro h pid hpid
    exact (hone pid hpid).mpr (h pid hpid)

theorem requesters_answered_iff_draining_day :
    let argv := [text "controller", text "1", text "fair"]
    (∀ pid ∈ requesters drainingDay,
        releasedBy (sentTo pid (runMessages .calm drainingDay (controllerStart argv)).trace) =
          true) ↔
      ∀ pid ∈ requesters drainingDay, (requesters drainingDay).getLast? = some pid ∨
        pid ∈ (lateSubmits drainingDay).map RpcMessage.senderPid :=
  requesters_answered_iff Env.calm_callsSucceed [text "controller", text "1", text "fair"]
    drainingDay.dropLast { RpcMessage.zero with type := .done, senderPid := 12, commandId := 12 }
    (by decide) (by decide)

/-- Two requests while a job runs: the first requester is never answered. -/
theorem first_requester_forgotten :
    let past := [submitMsg 11 1 (text "a"), shutdownReq 20, shutdownReq 21]
    let last := { RpcMessage.zero with type := .done, senderPid := 11, commandId := 11 }
    let start := controllerStart [text "controller"]
    (runMessages .calm past start).state.keepRunning = true ∧
      (controllerHandleMessage .calm last (runMessages .calm past start)).1 = true ∧
      20 ∈ requesters (past ++ [last]) ∧
      releasedBy (sentTo 20 (runMessages .calm (past ++ [last]) start).trace) = false ∧
      ¬ ∀ pid ∈ requesters (past ++ [last]),
        releasedBy (sentTo pid (runMessages .calm (past ++ [last]) start).trace) = true := by
  intro past last start
  have hforgotten : releasedBy (sentTo 20 (runMessages .calm (past ++ [last]) start).trace) =
      false := by decide
  refine ⟨by decide, by decide, by decide, hforgotten, fun hall => ?_⟩
  have hreleased := hall 20 (by decide)
  rw [hforgotten] at hreleased
  cases hreleased

end RunnerOrchestrator
