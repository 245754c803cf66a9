import RunnerOrchestrator.Controller.Status
import RunnerOrchestrator.System.Orchestra

/-! # Who is owed an answer

The counts of `Inv` follow submissions. This second invariant follows the runners that
ask: a status request handled has its STATUS_END on the way, and a shutdown request
handled keeps the controller shutting down until the farewell to its last requester.
-/

namespace RunnerOrchestrator

open Removal

/-! ## What one message sends to a runner that asks -/

section Replies

variable {requests : Int32 → RunnerRequest} {env : Env} (hc : env.CallsSucceed) {msg : RpcMessage}
  {w : World} (h : OfRunners requests w.state) (hmsg : FromRunner requests msg) {pid : Int32}
  (hmode : (requests pid).mode ≠ .execute)

section Asker

include hc hmode

/-- Authorisations go to the owners of jobs only. -/
theorem sentTo_ack_asker {job : JobInfo} {send : Send}
    (hsend : send.IsOf env job.runnerPid (ackMessage env job))
    (hjob : (requests job.runnerPid).mode = .execute) :
    (Event.ack job send).sentTo pid = [] := by
  rw [sentTo_ack hc hsend, if_neg]
  intro hmine
  have hpid : job.runnerPid = pid := by simpa [isJobOf] using hmine
  exact hmode (hpid ▸ hjob)

include h hmsg

theorem Served.sentTo_asker {s : ControllerState} {events : List Event}
    (hs : Served env msg w s events) (hother : ¬ (msg.type = .statusReq ∧ msg.senderPid = pid)) :
    sentTo pid events = [] := by
  cases hs with
  | started ht hfree hslot send hsend =>
      have hjob := (hmsg.execute (Or.inl ht)).1
      have hack : send.IsOf env (submittedJob env msg w).started.runnerPid
          (ackMessage env (submittedJob env msg w).started) := hsend
      rw [sentTo_cons, sentTo_ack_asker hc hmode hack hjob]
      rfl
  | promoted ht job running hrem next rest hpick line written hlog send hsend =>
      have hjob := (h.waiting next (ControllerState.pick_removes hpick).mem).1
      have hack : send.IsOf env next.started.runnerPid (ackMessage env next.started) := hsend
      rw [sentTo_cons, sentTo_cons, sentTo_ack_asker hc hmode hack hjob]
      rfl
  | answered ht replies hreplies =>
      rw [sentTo_status, if_neg fun hpid => hother ⟨ht, hpid⟩]
  | _ => rfl

/-- Apart from the reply to its own status request it is sent the farewell or nothing. -/
theorem Handled.sentTo_asker {ret : Bool} {s : ControllerState} {events : List Event}
    (hs : Handled env msg w ret s events)
    (hother : ¬ (msg.type = .statusReq ∧ msg.senderPid = pid)) :
    sentTo pid events =
      if ret = true ∧ s.shutdownRequesterPid = pid then [farewellMessage] else [] := by
  cases hs with
  | refused hlate send hsend =>
      have hne : send.dest ≠ pid := by
        rw [hsend.dest_eq]
        intro hpid
        exact hmode (hpid ▸ (hmsg.execute (Or.inl hlate.1)).1)
      simp [Event.sentTo, hne]
  | served hlate hserved hgo =>
      rw [hserved.sentTo_asker hc h hmsg hmode hother]
      rfl
  | finished hlate hserved hstop send hsend =>
      rw [sentTo_append, hserved.sentTo_asker hc h hmsg hmode hother]
      simp [Event.sentTo, hsend.dest_eq, hsend.msg_eq, hsend.delivered hc]

end Asker

include h hmsg in
/-- A controller that leaves was told to by a shutdown-mode runner. -/
theorem Handled.requester_mode {s : ControllerState} {events : List Event}
    (hs : Handled env msg w true s events) :
    (requests s.shutdownRequesterPid).mode = .shutdown := by
  apply (hs.ofRunners h hmsg).requester
  cases hs with
  | finished hlate hserved hstop send hsend => exact (isFinished_iff.mp hstop).1

end Replies

theorem tryFinishShutdown_trace (env : Env) (w : World) :
    ∃ more, (tryFinishShutdown env w).2.trace = w.trace ++ more ∧
      (more = [] ∨ ∃ send, more = [.farewell send]) := by
  unfold tryFinishShutdown
  split
  · exact ⟨[], by simp, Or.inl rfl⟩
  · exact ⟨_, rfl, Or.inr ⟨_, rfl⟩⟩

/-- A status request is answered up to its STATUS_END, whatever follows. -/
theorem controllerHandleMessage_statusReq {env : Env} (hm : env.AllocsSucceed)
    (hc : env.CallsSucceed) {msg : RpcMessage} (ht : msg.type = .statusReq) (w : World) :
    ∃ more, (controllerHandleMessage env msg w).2.trace =
      w.trace ++ .status msg.senderPid
        ((statusTexts w.state.runningQueue (shownWaiting w.state)).map (statusResp env) ++
          [statusEnd env]) false :: more ∧ (more = [] ∨ ∃ send, more = [.farewell send]) := by
  have hlate : ¬ IsLate msg w.state := fun hlate => by simp [IsLate, ht] at hlate
  have hserve : serve env msg w = handleStatusReq env msg w := by simp [serve, ht]
  obtain ⟨more, htrace, hmore⟩ := tryFinishShutdown_trace env (serve env msg w)
  refine ⟨more, ?_, hmore⟩
  rw [controllerHandleMessage_serve hlate, htrace, hserve, handleStatusReq_reply hm hc]
  simp

/-- A refusal is the only answer to a submission that is no ACK. -/
theorem Handled.othersTo_pos {requests : Int32 → RunnerRequest} {env : Env} (hc : env.CallsSucceed)
    {msg : RpcMessage} {w : World} (h : OfRunners requests w.state)
    (hmsg : FromRunner requests msg) {pid : Int32} (hmode : (requests pid).mode = .execute)
    {ret : Bool} {s : ControllerState} {events : List Event} (hs : Handled env msg w ret s events)
    (hpos : 0 < othersTo pid events) : w.state.isShuttingDown = true := by
  have hserved : ∀ {s events}, Served env msg w s events → othersTo pid events = 0 := by
    intro s events hs
    cases hs with
    | started ht hfree hslot send hsend =>
        have hack : send.IsOf env (submittedJob env msg w).started.runnerPid
            (ackMessage env (submittedJob env msg w).started) := hsend
        exact (acksTo_ack hc hack pid []).2
    | promoted ht job running hrem next rest hpick line written hlog send hsend =>
        have hack : send.IsOf env next.started.runnerPid (ackMessage env next.started) := hsend
        rw [(acksTo_log pid job line written _).2]
        exact (acksTo_ack hc hack pid []).2
    | answered ht replies hreplies =>
        have hother : msg.senderPid ≠ pid := by
          rintro rfl
          rw [hmsg.status ht] at hmode
          cases hmode
        simp [othersTo, sentTo_status, hother]
    | _ => rfl
  cases hs with
  | refused hlate send hsend => exact hlate.2
  | served hlate hs hgo =>
      rw [hserved hs] at hpos
      cases hpos
  | @finished hlate s events hs hstop send hsend =>
      have hother : send.dest ≠ pid := by
        rw [hsend.dest_eq]
        rintro rfl
        rw [(hs.ofRunners h hmsg).requester (isFinished_iff.mp hstop).1] at hmode
        cases hmode
      have hsame : othersTo pid (events ++ [.farewell send]) = othersTo pid events := by
        simp [othersTo, Event.sentTo, hother]
      rw [hsame, hserved hs] at hpos
      cases hpos

/-! ## The invariant -/

namespace Orchestra

def isAskOf (pid : Int32) (msg : RpcMessage) : Bool :=
  (msg.type == .statusReq || msg.type == .shutdownReq) && msg.senderPid == pid

def State.asks (s : State) (pid : Int32) : Nat := s.server.countP (isAskOf pid)

def State.asksHandled (s : State) (pid : Int32) : Nat := s.handled.countP (isAskOf pid)

/-- What holds of one runner and the answer it waits for. -/
structure OwedTo (requests : Int32 → RunnerRequest) (s : State) (pid : Int32) : Prop where
  refused : (requests pid).mode = .execute → 0 < s.unreadOthers pid + (s.phase pid).refused →
    s.world.state.isShuttingDown = true
  asked : (requests pid).mode ≠ .execute → s.asks pid + s.asksHandled pid = (s.phase pid).begun
  unasked : (requests pid).mode = .status → s.asksHandled pid = 0 →
    s.inbox pid = [] ∧ s.phase pid ≠ .closed
  answered : (requests pid).mode = .status → s.phase pid = .asked → 0 < s.asksHandled pid →
    ∃ msg ∈ s.inbox pid, msg.type = .statusEnd
  heard : (requests pid).mode = .shutdown → 0 < s.asksHandled pid →
    s.world.state.isShuttingDown = true
  /-- Nobody but the last requester hears of the end. -/
  farewell : (requests pid).mode = .shutdown → s.inbox pid ≠ [] ∨ s.phase pid = .closed →
    s.left = true ∧ s.world.state.shutdownRequesterPid = pid
  released : (requests pid).mode = .shutdown → s.left = true →
    s.world.state.shutdownRequesterPid = pid → s.phase pid = .asked →
    ∃ msg ∈ s.inbox pid, msg.type = .shutdownAck

/-- Every runner's answer, and a controller that stays exactly until nothing is left. -/
structure Owed (requests : Int32 → RunnerRequest) (s : State) : Prop where
  going : s.left = false → s.world.state.isFinished = false
  closing : s.left = true → s.world.state.isShuttingDown = true
  requester : s.world.state.isShuttingDown = true →
    0 < s.asksHandled s.world.state.shutdownRequesterPid
  each : ∀ pid, OwedTo requests s pid

theorem Owed.start (argv : List CString) (requests : Int32 → RunnerRequest) :
    Owed requests (start argv) := by
  refine ⟨fun _ => rfl, fun h => ?_, fun h => ?_, fun pid => ?_⟩
  · cases h
  · cases h
  exact
    { refused := fun _ h => by cases h
      asked := fun _ => rfl
      unasked := fun _ _ => ⟨rfl, by simp [Orchestra.start]⟩
      answered := fun _ h _ => by cases h
      heard := fun _ h => by cases h
      farewell := fun _ h => by simp [Orchestra.start] at h
      released := fun _ h => by cases h }

/-! ## Steps of the runners -/

section Runners

variable {requests : Int32 → RunnerRequest} {s s' : State} {pid : Int32}

theorem OneRunner.authorise (s : State) (pid : Int32) (msg : RpcMessage) (rest : List RpcMessage) :
    OneRunner pid s
      { s with
        phase := Function.update s.phase pid (.executing msg)
        inbox := Function.update s.inbox pid rest
        executions := Function.update s.executions pid (s.executions pid + 1) } :=
  { world := rfl
    handled := rfl
    left := rfl
    phase := fun _ hq => Function.update_of_ne hq _ _
    inbox := fun _ hq => Function.update_of_ne hq _ _
    executions := fun _ hq => Function.update_of_ne hq _ _
    submits := fun _ _ => rfl
    dones := fun _ _ => rfl }

theorem OneRunner.finish (s : State) (pid : Int32) (msg : RpcMessage) :
    OneRunner pid s { s with phase := Function.update s.phase pid (.executed msg) } :=
  { world := rfl
    handled := rfl
    left := rfl
    phase := fun _ hq => Function.update_of_ne hq _ _
    inbox := fun _ _ => rfl
    executions := fun _ _ => rfl
    submits := fun _ _ => rfl
    dones := fun _ _ => rfl }

/-- What a step of one runner leaves alone is all that the others depend on. -/
theorem Owed.oneRunner (h : Owed requests s) (hone : OneRunner pid s s')
    (hasks : ∀ q, q ≠ pid → s'.asks q = s.asks q) (hpid : OwedTo requests s' pid) :
    Owed requests s' := by
  have hhandled : ∀ q, s'.asksHandled q = s.asksHandled q := fun q => by
    simp [State.asksHandled, hone.handled]
  refine ⟨?_, ?_, ?_, fun q => ?_⟩
  · rw [hone.left, hone.world]
    exact h.going
  · rw [hone.left, hone.world]
    exact h.closing
  · rw [hone.world, hhandled]
    exact h.requester
  · by_cases hq : q = pid
    · exact hq ▸ hpid
    · have hothers : s'.unreadOthers q = s.unreadOthers q := by
        simp [State.unreadOthers, hone.inbox q hq]
      obtain ⟨h₁, h₂, h₃, h₄, h₅, h₆, h₇⟩ := h.each q
      constructor
      · rw [hothers, hone.phase q hq, hone.world]
        exact h₁
      · rw [hasks q hq, hhandled, hone.phase q hq]
        exact h₂
      · rw [hhandled, hone.inbox q hq, hone.phase q hq]
        exact h₃
      · rw [hone.phase q hq, hhandled, hone.inbox q hq]
        exact h₄
      · rw [hhandled, hone.world]
        exact h₅
      · rw [hone.inbox q hq, hone.phase q hq, hone.left, hone.world]
        exact h₆
      · rw [hone.left, hone.world, hone.phase q hq, hone.inbox q hq]
        exact h₇

/-- Of an execute-mode runner only the refusals count. -/
theorem OwedTo.of_execute (hmode : (requests pid).mode = .execute)
    (hrefused : 0 < s.unreadOthers pid + (s.phase pid).refused →
      s.world.state.isShuttingDown = true) : OwedTo requests s pid :=
  { refused := fun _ => hrefused
    asked := fun h => absurd hmode h
    unasked := fun h => by rw [hmode] at h; cases h
    answered := fun h => by rw [hmode] at h; cases h
    heard := fun h => by rw [hmode] at h; cases h
    farewell := fun h => by rw [hmode] at h; cases h
    released := fun h => by rw [hmode] at h; cases h }

theorem asks_send (msg : RpcMessage) (phase : Int32 → Phase) (q : Int32) :
    State.asks { s with phase := phase, server := s.server ++ [msg] } q =
      s.asks q + if isAskOf q msg then 1 else 0 := by
  simp [State.asks, List.countP_append, List.countP_singleton]

theorem isAskOf_sender {msg : RpcMessage} {q : Int32} (h : msg.senderPid ≠ q) :
    isAskOf q msg = false := by
  simp [isAskOf, h]

theorem isAskOf_askMsg (hmode : (requests pid).mode ≠ .execute) :
    isAskOf pid (askMsg requests pid) = true := by
  cases hm : (requests pid).mode with
  | execute => exact absurd hm hmode
  | status => simp [isAskOf, askMsg, statusReq, hm]
  | shutdown => simp [isAskOf, askMsg, shutdownReq, hm]

theorem senderPid_askMsg (requests : Int32 → RunnerRequest) (pid : Int32) :
    (askMsg requests pid).senderPid = pid := by
  unfold askMsg
  split <;> rfl

theorem Owed.ask (h : Owed requests s) (hmode : (requests pid).mode ≠ .execute)
    (hphase : s.phase pid = .idle) :
    Owed requests
      { s with
        phase := Function.update s.phase pid .asked
        server := s.server ++ [askMsg requests pid] } := by
  have hsender := senderPid_askMsg requests pid
  have hmine := isAskOf_askMsg hmode
  obtain ⟨h₁, h₂, h₃, h₄, h₅, h₆, h₇⟩ := h.each pid
  have hnone : s.asks pid + s.asksHandled pid = 0 := by
    rw [h₂ hmode, hphase]
    rfl
  have hfirst : s.asksHandled pid = 0 := by omega
  refine h.oneRunner (.send s .asked hsender) (fun q hq => ?_)
    { refused := fun hexecute => absurd hexecute hmode
      asked := fun _ => ?_
      unasked := fun hstatus _ => ⟨(h₃ hstatus hfirst).1, by simp⟩
      answered := fun _ _ hpos => ?_
      heard := h₅
      farewell := fun hshutdown hor => ?_
      released := fun _ hleft hrequester _ => ?_ }
  · rw [asks_send, isAskOf_sender (by rw [hsender]; exact Ne.symm hq)]
    rfl
  · show State.asks { s with phase := _, server := s.server ++ [_] } pid + s.asksHandled pid = _
    rw [asks_send, hmine]
    simp only [if_true, Function.update_self, Phase.begun]
    omega
  · exact absurd hfirst (Nat.ne_of_gt hpos)
  · simp only [Function.update_self, reduceCtorEq, or_false] at hor
    exact h₆ hshutdown (Or.inl hor)
  · have hpos : 0 < s.asksHandled s.world.state.shutdownRequesterPid :=
      h.requester (h.closing hleft)
    have hsame : s.world.state.shutdownRequesterPid = pid := hrequester
    rw [hsame] at hpos
    exact absurd hfirst (Nat.ne_of_gt hpos)

theorem Owed.reply (h : Owed requests s) (hmode : (requests pid).mode ≠ .execute)
    {msg : RpcMessage} {rest : List RpcMessage} (hphase : s.phase pid = .asked)
    (hread : Removes (s.inbox pid) msg rest) :
    Owed requests
      { s with
        phase := Function.update s.phase pid (if endsWait requests pid msg then .closed else .asked)
        inbox := Function.update s.inbox pid rest } := by
  obtain ⟨h₁, h₂, h₃, h₄, h₅, h₆, h₇⟩ := h.each pid
  have hne := hread.ne_nil
  -- a message that does not end the waiting is not the one looked for
  have hkept : ∀ {type : MsgType}, (∃ m ∈ s.inbox pid, m.type = type) → msg.type ≠ type →
      ∃ m ∈ rest, m.type = type := by
    intro type hex hother
    obtain ⟨m, hm, htype⟩ := hex
    rcases List.mem_cons.mp (hread.perm.mem_iff.mp hm) with rfl | hm
    · exact absurd htype hother
    · exact ⟨m, hm, htype⟩
  refine h.oneRunner (.read s _ pid rest) (fun _ _ => rfl)
    { refused := fun hexecute => absurd hexecute hmode
      asked := fun _ => ?_
      unasked := fun hstatus hnone => absurd (h₃ hstatus hnone).1 hne
      answered := fun hstatus hasked hpos => ?_
      heard := h₅
      farewell := fun hshutdown _ => h₆ hshutdown (Or.inl hne)
      released := fun hshutdown hleft hrequester hasked => ?_ }
  · have hbegun := h₂ hmode
    rw [hphase] at hbegun
    simp only [Function.update_self]
    split <;> exact hbegun
  · simp only [Function.update_self] at hasked ⊢
    refine hkept (h₄ hstatus hphase hpos) fun hend => ?_
    simp [endsWait, hstatus, hend] at hasked
  · simp only [Function.update_self] at hasked ⊢
    refine hkept (h₇ hshutdown hleft hrequester hphase) fun hend => ?_
    simp [endsWait, hshutdown, hend] at hasked

end Runners

/-! ## The step of the controller -/

/-- What its last requester stands for after one more message. -/
theorem requester_handle {env : Env} {requests : Int32 → RunnerRequest} {s : State}
    (h : Owed requests s) {msg : RpcMessage}
    (hdown : (controllerHandleMessage env msg s.world).2.state.isShuttingDown = true) :
    0 < (s.handled ++ [msg]).countP
      (isAskOf (controllerHandleMessage env msg s.world).2.state.shutdownRequesterPid) := by
  rw [controllerHandleMessage_requester, List.countP_append]
  rw [controllerHandleMessage_isShuttingDown] at hdown
  by_cases ht : msg.type = .shutdownReq
  · simp [ht, isAskOf]
  · rw [if_neg ht]
    have hbefore : s.world.state.isShuttingDown = true := by simpa [ht] using hdown
    exact Nat.add_pos_left (h.requester hbefore) _

/-- The state after the controller has handled `msg` and left `rest` unread. -/
def State.serve (env : Env) (msg : RpcMessage) (rest : List RpcMessage) (s : State) : State :=
  { s with
    server := rest
    inbox := fun pid =>
      s.inbox pid ++ newReplies s.world (controllerHandleMessage env msg s.world).2 pid
    handled := s.handled ++ [msg]
    world := (controllerHandleMessage env msg s.world).2
    left := (controllerHandleMessage env msg s.world).1 }

section Serve

variable {env : Env} (hm : env.AllocsSucceed) (hc : env.CallsSucceed) {argv : List CString}
  {requests : Int32 → RunnerRequest} {s : State} (hinv : Inv argv requests s)
  (h : Owed requests s) {msg : RpcMessage} {rest : List RpcMessage}
  (hread : Removes s.server msg rest) {pid : Int32}

include hm hinv in
/-- The events of the message are its new replies. -/
theorem Inv.newReplies (msg : RpcMessage) :
    ∃ events, Handled env msg s.world (controllerHandleMessage env msg s.world).1
        (controllerHandleMessage env msg s.world).2.state events ∧
      ∀ pid, newReplies s.world (controllerHandleMessage env msg s.world).2 pid =
        sentTo pid events := by
  obtain ⟨events, htrace, hhandled⟩ := controllerHandleMessage_handled hm msg hinv.slots
  exact ⟨events, hhandled, fun pid => by simp [Orchestra.newReplies, htrace]⟩

theorem serve_isShuttingDown (hdown : s.world.state.isShuttingDown = true) :
    (s.serve env msg rest).world.state.isShuttingDown = true := by
  have hafter := controllerHandleMessage_isShuttingDown env msg s.world
  rw [hdown, Bool.true_or] at hafter
  exact hafter

include hread in
theorem serve_asks :
    (s.serve env msg rest).asks pid + (s.serve env msg rest).asksHandled pid =
      s.asks pid + s.asksHandled pid := by
  have hcount := hread.countP (isAskOf pid)
  simp only [State.serve, State.asks, State.asksHandled, List.countP_append,
    List.countP_singleton] at hcount ⊢
  omega

include hm hc hinv hread

include h in
theorem Owed.serve_execute (hmode : (requests pid).mode = .execute) :
    OwedTo requests (s.serve env msg rest) pid := by
  refine .of_execute hmode fun hpos => serve_isShuttingDown ?_
  obtain ⟨events, hhandled, hreplies⟩ := hinv.newReplies hm msg
  have hothers : (s.serve env msg rest).unreadOthers pid =
      s.unreadOthers pid + othersTo pid events := by
    simp [State.unreadOthers, State.serve, hreplies, othersTo]
  rw [hothers] at hpos
  by_cases hnew : 0 < othersTo pid events
  · exact hhandled.othersTo_pos hc hinv.ofRunners (hinv.server msg hread.mem) hmode hnew
  · have hphase : (s.serve env msg rest).phase pid = s.phase pid := rfl
    rw [hphase] at hpos
    exact (h.each pid).refused hmode (by omega)

/-- A message of somebody else brings a status-mode runner nothing. -/
theorem newReplies_status (hmode : (requests pid).mode = .status)
    (hother : ¬ (msg.type = .statusReq ∧ msg.senderPid = pid)) :
    newReplies s.world (controllerHandleMessage env msg s.world).2 pid = [] ∧
      isAskOf pid msg = false := by
  have hfrom := hinv.server msg hread.mem
  obtain ⟨events, hhandled, hreplies⟩ := hinv.newReplies hm msg
  constructor
  · rw [hreplies, hhandled.sentTo_asker hc hinv.ofRunners hfrom (by simp [hmode]) hother, if_neg]
    rintro ⟨hret, hpid⟩
    rw [hret] at hhandled
    have hshutdown := hhandled.requester_mode hinv.ofRunners hfrom
    rw [hpid, hmode] at hshutdown
    cases hshutdown
  · rw [← Bool.not_eq_true]
    intro hask
    have hparts : (msg.type = .statusReq ∨ msg.type = .shutdownReq) ∧ msg.senderPid = pid := by
      simpa [isAskOf] using hask
    obtain ⟨ht | ht, hpid⟩ := hparts
    · exact hother ⟨ht, hpid⟩
    · rw [← hpid, hfrom.shutdown ht] at hmode
      cases hmode

omit hinv hread in
theorem statusEnd_mem_newReplies (ht : msg.type = .statusReq) :
    statusEnd env ∈
      newReplies s.world (controllerHandleMessage env msg s.world).2 msg.senderPid := by
  obtain ⟨more, htrace, -⟩ := controllerHandleMessage_statusReq hm hc ht s.world
  simp [newReplies, htrace, Event.sentTo]

include h

theorem Owed.serve_status (hmode : (requests pid).mode = .status) :
    OwedTo requests (s.serve env msg rest) pid := by
  have hasker : (requests pid).mode ≠ .execute := by simp [hmode]
  obtain ⟨-, h₂, h₃, h₄, -, -, -⟩ := h.each pid
  refine
    { refused := fun hexecute => absurd hexecute hasker
      asked := fun _ => (serve_asks hread).trans (h₂ hasker)
      unasked := fun _ hnone => ?_
      answered := fun _ hasked hpos => ?_
      heard := fun hshutdown => by rw [hmode] at hshutdown; cases hshutdown
      farewell := fun hshutdown => by rw [hmode] at hshutdown; cases hshutdown
      released := fun hshutdown => by rw [hmode] at hshutdown; cases hshutdown }
  all_goals by_cases hmine : msg.type = .statusReq ∧ msg.senderPid = pid
  · simp [State.serve, State.asksHandled, isAskOf, hmine.1, hmine.2] at hnone
  · obtain ⟨hreplies, hask⟩ := newReplies_status hm hc hinv hread hmode hmine
    have hbefore : s.asksHandled pid = 0 := by
      simpa [State.serve, State.asksHandled, hask] using hnone
    simpa [State.serve, hreplies] using h₃ hmode hbefore
  · obtain ⟨ht, rfl⟩ := hmine
    exact ⟨statusEnd env, List.mem_append_right _ (statusEnd_mem_newReplies hm hc ht), rfl⟩
  · obtain ⟨hreplies, hask⟩ := newReplies_status hm hc hinv hread hmode hmine
    have hbefore : 0 < s.asksHandled pid := by
      simpa [State.serve, State.asksHandled, hask] using hpos
    simpa [State.serve, hreplies] using h₄ hmode hasked hbefore

theorem Owed.serve_shutdown (hthere : s.left = false) (hmode : (requests pid).mode = .shutdown) :
    OwedTo requests (s.serve env msg rest) pid := by
  have hasker : (requests pid).mode ≠ .execute := by simp [hmode]
  have hfrom := hinv.server msg hread.mem
  obtain ⟨events, hhandled, hreplies⟩ := hinv.newReplies hm msg
  have hother : ¬ (msg.type = .statusReq ∧ msg.senderPid = pid) := by
    rintro ⟨ht, rfl⟩
    rw [hfrom.status ht] at hmode
    cases hmode
  have hsent := hhandled.sentTo_asker hc hinv.ofRunners hfrom hasker hother
  rw [← hreplies] at hsent
  obtain ⟨-, h₂, -, -, h₅, h₆, -⟩ := h.each pid
  have hbefore : s.inbox pid = [] ∧ s.phase pid ≠ .closed := by
    constructor
    · by_contra hne
      rw [(h₆ hmode (Or.inl hne)).1] at hthere
      cases hthere
    · intro hclosed
      rw [(h₆ hmode (Or.inr hclosed)).1] at hthere
      cases hthere
  have hinbox : (s.serve env msg rest).inbox pid =
      newReplies s.world (controllerHandleMessage env msg s.world).2 pid := by
    simp [State.serve, hbefore.1]
  refine
    { refused := fun hexecute => absurd hexecute hasker
      asked := fun _ => (serve_asks hread).trans (h₂ hasker)
      unasked := fun hstatus => by rw [hmode] at hstatus; cases hstatus
      answered := fun hstatus => by rw [hmode] at hstatus; cases hstatus
      heard := fun _ hpos => ?_
      farewell := fun _ hor => ?_
      released := fun _ hleft hrequester _ => ?_ }
  · by_cases hfirst : 0 < s.asksHandled pid
    · exact serve_isShuttingDown (h₅ hmode hfirst)
    · have hask : isAskOf pid msg = true := by
        by_contra hask
        simp only [State.serve, State.asksHandled, List.countP_append, List.countP_singleton,
          hask] at hpos hfirst
        exact hfirst hpos
      have ht : msg.type = .shutdownReq := by
        have hparts : (msg.type = .statusReq ∨ msg.type = .shutdownReq) ∧ msg.senderPid = pid := by
          simpa [isAskOf] using hask
        exact hparts.1.resolve_left fun ht => hother ⟨ht, hparts.2⟩
      have hafter := controllerHandleMessage_isShuttingDown env msg s.world
      rw [ht, beq_self_eq_true, Bool.or_true] at hafter
      exact hafter
  · have hnew : newReplies s.world (controllerHandleMessage env msg s.world).2 pid ≠ [] :=
      hor.elim (fun hne => hinbox ▸ hne) fun hclosed => absurd hclosed hbefore.2
    rw [hsent] at hnew
    by_contra hnot
    exact hnew (if_neg hnot)
  · rw [hinbox, hsent, if_pos ⟨hleft, hrequester⟩]
    exact ⟨farewellMessage, List.mem_singleton_self _, rfl⟩

end Serve

theorem Owed.handle {env : Env} (hm : env.AllocsSucceed) (hc : env.CallsSucceed)
    {argv : List CString} {requests : Int32 → RunnerRequest} {s : State} (hinv : Inv argv requests s)
    (h : Owed requests s) (hthere : s.left = false) {msg : RpcMessage} {rest : List RpcMessage}
    (hread : Removes s.server msg rest) : Owed requests (s.serve env msg rest) := by
  refine ⟨fun hgo => ?_, fun hleft => ?_, fun hdown => requester_handle h hdown, fun pid => ?_⟩
  · -- it goes on because the shutdown is not finished, or because it refused the message
    show (controllerHandleMessage env msg s.world).2.state.isFinished = false
    have hgo : (controllerHandleMessage env msg s.world).1 = false := hgo
    by_cases hlate : IsLate msg s.world.state
    · rw [controllerHandleMessage_late hlate]
      exact h.going hthere
    · rw [controllerHandleMessage_serve hlate] at hgo ⊢
      unfold tryFinishShutdown at hgo ⊢
      split at hgo
      · rename_i hunfinished
        rw [if_pos hunfinished]
        simpa using hunfinished
      · cases hgo
  · show (controllerHandleMessage env msg s.world).2.state.isShuttingDown = true
    rw [controllerHandleMessage_finished hleft]
    exact (isFinished_iff.mp (controllerHandleMessage_returns.mp hleft).2).1
  · cases hmode : (requests pid).mode with
    | execute => exact h.serve_execute hm hc hinv hread hmode
    | status => exact h.serve_status hm hc hinv hread hmode
    | shutdown => exact h.serve_shutdown hm hc hinv hread hthere hmode

/-- A step of an execute-mode runner asks for nothing. -/
theorem Owed.execute {requests : Int32 → RunnerRequest} {s s' : State} {pid : Int32}
    (h : Owed requests s) (hone : OneRunner pid s s') (hasks : ∀ q, s'.asks q = s.asks q)
    (hmode : (requests pid).mode = .execute)
    (hrefused : s'.unreadOthers pid + (s'.phase pid).refused =
      s.unreadOthers pid + (s.phase pid).refused) : Owed requests s' := by
  refine h.oneRunner hone (fun q _ => hasks q) (.of_execute hmode fun hpos => ?_)
  rw [hone.world]
  rw [hrefused] at hpos
  exact (h.each pid).refused hmode hpos

theorem Owed.step {env : Env} (hm : env.AllocsSucceed) (hc : env.CallsSucceed)
    {argv : List CString} {requests : Int32 → RunnerRequest} {s s' : State} {l : Label}
    (hinv : Inv argv requests s) (h : Owed requests s) (hstep : Step env requests s l s') :
    Owed requests s' := by
  cases hstep with
  | submit pid hmode hphase =>
      refine h.execute (.send s .submitted rfl) (fun q => ?_) hmode ?_
      · rw [asks_send]
        simp [isAskOf, submitMsg]
      · simp [State.unreadOthers, Phase.refused, hphase]
  | ask pid hmode hphase => exact h.ask hmode hphase
  | authorise pid hphase hread hack =>
      have hfits := hinv.fits pid
      have hothers := (countP_read hread).2
      rw [hphase] at hfits
      refine h.execute (.authorise s pid _ _) (fun _ => rfl) hfits ?_
      simp only [hack, if_true, Nat.add_zero] at hothers
      simp [State.unreadOthers, Phase.refused, hphase, hothers]
  | reject pid hphase hread hack =>
      have hfits := hinv.fits pid
      have hothers := (countP_read hread).2
      rw [hphase] at hfits
      refine h.execute (.read s .rejected pid _) (fun _ => rfl) hfits ?_
      simp only [hack, Bool.false_eq_true, if_false] at hothers
      simp [State.unreadOthers, Phase.refused, hphase, hothers]
  | finish pid hphase =>
      have hfits := hinv.fits pid
      rw [hphase] at hfits
      refine h.execute (.finish s pid _) (fun _ => rfl) hfits ?_
      simp [State.unreadOthers, Phase.refused, hphase]
  | notify pid hphase =>
      have hfits := hinv.fits pid
      rw [hphase] at hfits
      refine h.execute (.send s .notified rfl) (fun q => ?_) hfits ?_
      · rw [asks_send]
        simp [isAskOf, msgDone]
      · simp [State.unreadOthers, Phase.refused, hphase]
  | reply pid hphase hread =>
      have hfits := hinv.fits pid
      rw [hphase] at hfits
      exact h.reply hfits hphase hread
  | handle hthere hread => exact h.handle hm hc hinv hthere hread

/-- Both invariants hold in every state the system can reach. -/
theorem owed_of_reachable {env : Env} (hm : env.AllocsSucceed) (hc : env.CallsSucceed)
    {argv : List CString} {requests : Int32 → RunnerRequest} {s : State}
    (h : TransitionSystem.Reachable (system env argv requests) s) :
    Inv argv requests s ∧ Owed requests s := by
  refine ⟨inv_of_reachable hm hc h, h.invariant_along (fun s hs => ?_) fun s l s' hs howed hstep => ?_⟩
  · rw [show s = start argv from hs]
    exact Owed.start argv requests
  · exact howed.step hm hc (inv_of_reachable hm hc hs) hstep

end Orchestra

end RunnerOrchestrator
