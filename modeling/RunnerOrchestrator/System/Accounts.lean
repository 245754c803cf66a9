import RunnerOrchestrator.Controller.Shutdown

/-! # One message in the account of one runner

A SUBMIT of a runner turns into a job or a refusal, a job into an ACK, a DONE takes
the job away. `Account` says how one message moves the counts of one PID, when every
message was sent by a runner in the mode its PID was started with.
-/

namespace RunnerOrchestrator

open Removal

/-- The command id a runner submits under. -/
def commandIdOf (pid : Int32) : Int64 := pid.toInt64

theorem commandIdOf_injective {p q : Int32} (h : commandIdOf p = commandIdOf q) : p = q := by
  have hint := congrArg Int64.toInt h
  simp only [commandIdOf, Int32.toInt_toInt64] at hint
  exact Int32.toInt_inj.mp hint

def isSubmitOf (pid : Int32) (msg : RpcMessage) : Bool :=
  msg.type == .submit && msg.senderPid == pid

def isDoneOf (pid : Int32) (msg : RpcMessage) : Bool := msg.type == .done && msg.senderPid == pid

def isJobOf (pid : Int32) (job : JobInfo) : Bool := job.runnerPid == pid

/-! ## Messages and jobs of runners -/

/-- A message that a runner can have sent, given what each PID was started for. -/
def FromRunner (requests : Int32 → RunnerRequest) (msg : RpcMessage) : Prop :=
  match (requests msg.senderPid).mode with
  | .execute => (msg.type = .submit ∨ msg.type = .done) ∧ msg.commandId = commandIdOf msg.senderPid
  | .status => msg.type = .statusReq
  | .shutdown => msg.type = .shutdownReq

/-- Jobs belong to execute-mode runners, the shutdown to a shutdown-mode one. -/
structure OfRunners (requests : Int32 → RunnerRequest) (s : ControllerState) : Prop where
  waiting : ∀ job ∈ s.waitingQueue,
    (requests job.runnerPid).mode = .execute ∧ job.commandId = commandIdOf job.runnerPid
  running : ∀ job ∈ s.runningQueue,
    (requests job.runnerPid).mode = .execute ∧ job.commandId = commandIdOf job.runnerPid
  requester : s.isShuttingDown = true → (requests s.shutdownRequesterPid).mode = .shutdown

section FromRunner

variable {requests : Int32 → RunnerRequest} {msg : RpcMessage} (h : FromRunner requests msg)

include h

theorem FromRunner.execute (ht : msg.type = .submit ∨ msg.type = .done) :
    (requests msg.senderPid).mode = .execute ∧ msg.commandId = commandIdOf msg.senderPid := by
  unfold FromRunner at h
  split at h
  · rename_i hmode
    exact ⟨hmode, h.2⟩
  · rcases ht with ht | ht <;> simp [ht] at h
  · rcases ht with ht | ht <;> simp [ht] at h

theorem FromRunner.status (ht : msg.type = .statusReq) :
    (requests msg.senderPid).mode = .status := by
  unfold FromRunner at h
  split at h
  · simp [ht] at h
  · rename_i hmode
    exact hmode
  · simp [ht] at h

theorem FromRunner.shutdown (ht : msg.type = .shutdownReq) :
    (requests msg.senderPid).mode = .shutdown := by
  unfold FromRunner at h
  split at h
  · simp [ht] at h
  · simp [ht] at h
  · rename_i hmode
    exact hmode

end FromRunner

theorem OfRunners.start {requests : Int32 → RunnerRequest} {s : ControllerState} {job : JobInfo}
    (h : OfRunners requests s)
    (hjob : (requests job.runnerPid).mode = .execute ∧ job.commandId = commandIdOf job.runnerPid) :
    OfRunners requests (s.start job.started) := by
  refine ⟨h.waiting, fun j hj => ?_, h.requester⟩
  rcases List.mem_append.mp hj with hj | hj
  · exact h.running j hj
  · rw [List.mem_singleton.mp hj]
    exact hjob

theorem Served.ofRunners {requests : Int32 → RunnerRequest} {env : Env} {msg : RpcMessage} {w : World}
    {s : ControllerState} {events : List Event} (hs : Served env msg w s events)
    (h : OfRunners requests w.state) (hmsg : FromRunner requests msg) : OfRunners requests s := by
  have hremember : (w.state.remember msg.userId).isShuttingDown = w.state.isShuttingDown ∧
      (w.state.remember msg.userId).shutdownRequesterPid = w.state.shutdownRequesterPid := by
    unfold ControllerState.remember
    split <;> exact ⟨rfl, rfl⟩
  cases hs with
  | started ht hfree hslot send hsend =>
      have hknown : OfRunners requests (w.state.remember msg.userId) := by
        refine ⟨by simpa using h.waiting, by simpa using h.running, ?_⟩
        rw [hremember.1, hremember.2]
        exact h.requester
      exact hknown.start (hmsg.execute (Or.inl ht))
  | queued ht hfull =>
      refine ⟨fun job hjob => ?_, by simpa using h.running, ?_⟩
      · rcases List.mem_append.mp hjob with hjob | hjob
        · exact h.waiting job hjob
        · rw [List.mem_singleton.mp hjob]
          exact hmsg.execute (Or.inl ht)
      · show (w.state.remember msg.userId).isShuttingDown = true → _
        rw [hremember.1, hremember.2]
        exact h.requester
  | completed ht job running hrem hfree line written hlog =>
      exact ⟨h.waiting, fun j hj => h.running j ((takeFirst_removes hrem).mem_of_mem hj), h.requester⟩
  | promoted ht job running hrem next rest hpick line written hlog send hsend =>
      have hpicked := ControllerState.pick_removes hpick
      have htaken : OfRunners requests
          { w.state with
            runningQueue := running, runningCount := w.state.runningCount - 1
            waitingQueue := rest } :=
        ⟨fun j hj => h.waiting j (hpicked.mem_of_mem hj),
          fun j hj => h.running j ((takeFirst_removes hrem).mem_of_mem hj), h.requester⟩
      exact htaken.start (h.waiting next hpicked.mem)
  | stray ht hrem => exact h
  | answered ht replies hreplies => exact h
  | asked ht => exact ⟨h.waiting, h.running, fun _ => hmsg.shutdown ht⟩
  | ignored ht => exact h

theorem Handled.ofRunners {requests : Int32 → RunnerRequest} {env : Env} {msg : RpcMessage}
    {w : World} {ret : Bool} {s : ControllerState} {events : List Event}
    (hs : Handled env msg w ret s events) (h : OfRunners requests w.state)
    (hmsg : FromRunner requests msg) : OfRunners requests s :=
  hs.keeps (fun _ _ hserved => hserved.ofRunners h hmsg)
    (fun _ hkept => ⟨hkept.waiting, hkept.running, hkept.requester⟩) h

/-! ## What reaches one FIFO -/

@[simp] theorem sentTo_nil (pid : Int32) : sentTo pid [] = [] := rfl

@[simp] theorem sentTo_cons (pid : Int32) (e : Event) (trace : List Event) :
    sentTo pid (e :: trace) = e.sentTo pid ++ sentTo pid trace := rfl

@[simp] theorem sentTo_append (pid : Int32) (t t' : List Event) :
    sentTo pid (t ++ t') = sentTo pid t ++ sentTo pid t' := List.flatMap_append

theorem sentTo_ack {env : Env} (hc : env.CallsSucceed) {job : JobInfo} {send : Send}
    (h : send.IsOf env job.runnerPid (ackMessage env job)) (pid : Int32) :
    (Event.ack job send).sentTo pid = if isJobOf pid job then [ackMessage env job] else [] := by
  simp [Event.sentTo, h.dest_eq, h.msg_eq, h.delivered hc, isJobOf]

theorem sentTo_status (pid dest : Int32) (replies : List (List RpcMessage × Bool)) :
    sentTo pid (replies.map fun reply => .status dest reply.1 reply.2) =
      if dest = pid then replies.flatMap Prod.fst else [] := by
  induction replies with
  | nil => simp
  | cons reply replies ih =>
      rw [List.map_cons, sentTo_cons, ih]
      by_cases hd : dest = pid <;> simp [Event.sentTo, hd]

/-- A status reply holds no ACK. -/
theorem isAuthorised_sentTo_status {pid dest : Int32}
    {replies : List (List RpcMessage × Bool)}
    (hreplies : ∀ reply ∈ replies, ∀ m ∈ reply.1, m.IsStatusReply) :
    ∀ m ∈ sentTo pid (replies.map fun reply => .status dest reply.1 reply.2),
      isAuthorised m = false := by
  intro m hm
  rw [sentTo_status] at hm
  split at hm
  · obtain ⟨reply, hreply, hin⟩ := List.mem_flatMap.mp hm
    rcases hreplies reply hreply m hin with hresp | hend
    · simp [isAuthorised, hresp]
    · simp [isAuthorised, hend]
  · simp at hm

/-- The messages to `pid` among the events that are ACKs, and those that are not. -/
def acksTo (pid : Int32) (events : List Event) : Nat := (sentTo pid events).countP isAuthorised

def othersTo (pid : Int32) (events : List Event) : Nat :=
  (sentTo pid events).countP fun msg => !isAuthorised msg

/-- How one message moves the counts of `pid`. Replies that are no ACKs are of interest
for execute-mode runners only. -/
structure Account (requests : Int32 → RunnerRequest) (pid : Int32) (msg : RpcMessage)
    (s s' : ControllerState) (events : List Event) : Prop where
  authorised : s'.runningQueue.countP (isJobOf pid) + (if isDoneOf pid msg then 1 else 0) =
    s.runningQueue.countP (isJobOf pid) + acksTo pid events
  placed : (requests pid).mode = .execute →
    s'.waitingQueue.countP (isJobOf pid) + s'.runningQueue.countP (isJobOf pid) +
        othersTo pid events + (if isDoneOf pid msg then 1 else 0) =
      s.waitingQueue.countP (isJobOf pid) + s.runningQueue.countP (isJobOf pid) +
        if isSubmitOf pid msg then 1 else 0

theorem countP_singleton_isJobOf (pid : Int32) (job : JobInfo) :
    [job].countP (isJobOf pid) = if isJobOf pid job then 1 else 0 := by
  simp [List.countP_cons]

theorem acksTo_ack {env : Env} (hc : env.CallsSucceed) {job : JobInfo} {send : Send}
    (h : send.IsOf env job.runnerPid (ackMessage env job)) (pid : Int32) (events : List Event) :
    acksTo pid (.ack job send :: events) = (if isJobOf pid job then 1 else 0) + acksTo pid events ∧
      othersTo pid (.ack job send :: events) = othersTo pid events := by
  unfold acksTo othersTo
  rw [sentTo_cons, sentTo_ack hc h]
  cases isJobOf pid job <;> simp [isAuthorised, ackMessage, Nat.add_comm]

theorem acksTo_log (pid : Int32) (job : JobInfo) (line : CString) (written : Bool)
    (events : List Event) :
    acksTo pid (.log job line written :: events) = acksTo pid events ∧
      othersTo pid (.log job line written :: events) = othersTo pid events :=
  ⟨rfl, rfl⟩

/-- A DONE takes away the job of its own sender. -/
theorem unlinked_isJobOf {requests : Int32 → RunnerRequest} {msg : RpcMessage} {s : ControllerState}
    (h : OfRunners requests s) (hmsg : FromRunner requests msg) (pid : Int32) (ht : msg.type = .done)
    {job : JobInfo} {running : JobQueue}
    (hrem : queueRemoveByCommandId s.runningQueue msg.commandId = some (job, running)) :
    isJobOf pid job = isDoneOf pid msg := by
  have hid : job.commandId = msg.commandId := by simpa using takeFirst_pos hrem
  have hjob := (h.running job (takeFirst_removes hrem).mem).2
  have hsame : job.runnerPid = msg.senderPid :=
    commandIdOf_injective (by rw [← hjob, hid, (hmsg.execute (Or.inr ht)).2])
  simp [isJobOf, isDoneOf, ht, hsame]

/-- An ACK repeats the command id of its addressee. -/
theorem commandId_sentTo_ack {env : Env} (hc : env.CallsSucceed) {job : JobInfo} {send : Send}
    (h : send.IsOf env job.runnerPid (ackMessage env job))
    (hjob : job.commandId = commandIdOf job.runnerPid) (pid : Int32) :
    ∀ m ∈ (Event.ack job send).sentTo pid, m.commandId = commandIdOf pid := by
  intro m hm
  rw [sentTo_ack hc h] at hm
  split at hm
  · rename_i hmine
    have hpid : job.runnerPid = pid := by simpa [isJobOf] using hmine
    rw [List.mem_singleton.mp hm, ← hpid]
    exact hjob
  · simp at hm

section Accounts

variable {requests : Int32 → RunnerRequest} {env : Env} (hc : env.CallsSucceed) {msg : RpcMessage}
  {w : World} (h : OfRunners requests w.state) (hmsg : FromRunner requests msg)
  (hdone : msg.type = .done → 0 < w.state.runningQueue.countP (isJobOf msg.senderPid)) (pid : Int32)

include hc h hmsg hdone

theorem Served.account {s : ControllerState} {events : List Event}
    (hs : Served env msg w s events) : Account requests pid msg w.state s events := by
  cases hs with
  | started ht hfree hslot send hsend =>
      have hack : send.IsOf env (submittedJob env msg w).started.runnerPid
          (ackMessage env (submittedJob env msg w).started) := hsend
      obtain ⟨hacks, hothers⟩ := acksTo_ack hc hack pid []
      have hjob : isJobOf pid (submittedJob env msg w).started = isSubmitOf pid msg := by
        simp [isJobOf, isSubmitOf, ht, JobInfo.started, submittedJob]
      have hnone : isDoneOf pid msg = false := by simp [isDoneOf, ht]
      refine ⟨?_, fun _ => ?_⟩
      · simp only [ControllerState.start, ControllerState.remember_runningQueue,
          List.countP_append, countP_singleton_isJobOf, hacks, hnone]
        simp [acksTo]
      · simp only [ControllerState.start, ControllerState.remember_runningQueue,
          ControllerState.remember_waitingQueue, List.countP_append, countP_singleton_isJobOf,
          hothers, hjob, hnone]
        simp [othersTo, Nat.add_assoc]
  | queued ht hfull =>
      have hjob : isJobOf pid (submittedJob env msg w) = isSubmitOf pid msg := by
        simp [isJobOf, isSubmitOf, ht, submittedJob]
      have hnone : isDoneOf pid msg = false := by simp [isDoneOf, ht]
      refine ⟨?_, fun _ => ?_⟩
      · simp [hnone, acksTo]
      · simp only [ControllerState.remember_runningQueue, List.countP_append,
          countP_singleton_isJobOf, hjob, hnone]
        simp only [othersTo, sentTo_nil, List.countP_nil, Bool.false_eq_true, if_false]
        omega
  | completed ht job running hrem hfree line written hlog =>
      have hnone : isSubmitOf pid msg = false := by simp [isSubmitOf, ht]
      have hcount := (takeFirst_removes hrem).countP (isJobOf pid)
      rw [unlinked_isJobOf h hmsg pid ht hrem] at hcount
      refine ⟨?_, fun _ => ?_⟩
      · simp only [acksTo, sentTo_cons, sentTo_nil, Event.sentTo, List.nil_append, List.countP_nil]
        omega
      · simp only [othersTo, sentTo_cons, sentTo_nil, Event.sentTo, List.nil_append, List.countP_nil,
          hnone, Bool.false_eq_true, if_false]
        omega
  | promoted ht job running hrem next rest hpick line written hlog send hsend =>
      have hack : send.IsOf env next.started.runnerPid (ackMessage env next.started) := hsend
      obtain ⟨hacks, hothers⟩ := acksTo_ack hc hack pid []
      have hnext : isJobOf pid next.started = isJobOf pid next := rfl
      have hnone : isSubmitOf pid msg = false := by simp [isSubmitOf, ht]
      have hcount := (takeFirst_removes hrem).countP (isJobOf pid)
      have hpicked := (ControllerState.pick_removes hpick).countP (isJobOf pid)
      rw [unlinked_isJobOf h hmsg pid ht hrem] at hcount
      refine ⟨?_, fun _ => ?_⟩
      · rw [(acksTo_log pid job line written _).1, hacks]
        simp only [ControllerState.start, List.countP_append, countP_singleton_isJobOf, acksTo,
          sentTo_nil, List.countP_nil]
        omega
      · rw [(acksTo_log pid job line written _).2, hothers]
        simp only [ControllerState.start, List.countP_append, countP_singleton_isJobOf, othersTo,
          sentTo_nil, List.countP_nil, hnone, hnext, Bool.false_eq_true, if_false]
        omega
  | stray ht hrem =>
      -- the sender's own job is running, so its DONE finds it
      obtain ⟨job, hjob, hsender⟩ := List.countP_pos_iff.mp (hdone ht)
      have hmine : job.runnerPid = msg.senderPid := by simpa [isJobOf] using hsender
      have hid : job.commandId = msg.commandId := by
        rw [(h.running job hjob).2, hmine, (hmsg.execute (Or.inr ht)).2]
      have hmiss := takeFirst_eq_none.mp hrem job hjob
      simp [hid] at hmiss
  | answered ht replies hreplies =>
      have hdoneOf : isDoneOf pid msg = false := by simp [isDoneOf, ht]
      have hsubmitOf : isSubmitOf pid msg = false := by simp [isSubmitOf, ht]
      refine ⟨?_, fun hmode => ?_⟩
      · have hzero : acksTo pid
            (replies.map fun reply => .status msg.senderPid reply.1 reply.2) = 0 := by
          rw [acksTo, List.countP_eq_zero]
          intro m hm
          simp [isAuthorised_sentTo_status hreplies m hm]
        simp [hzero, hdoneOf]
      · have hother : msg.senderPid ≠ pid := by
          rintro rfl
          rw [hmsg.status ht] at hmode
          cases hmode
        simp [othersTo, sentTo_status, hother, hdoneOf, hsubmitOf]
  | asked ht =>
      have hdoneOf : isDoneOf pid msg = false := by simp [isDoneOf, ht]
      have hsubmitOf : isSubmitOf pid msg = false := by simp [isSubmitOf, ht]
      exact ⟨by simp [acksTo, hdoneOf], fun _ => by simp [othersTo, hdoneOf, hsubmitOf]⟩
  | ignored ht =>
      have hdoneOf : isDoneOf pid msg = false := by simp [isDoneOf, ht.2.1]
      have hsubmitOf : isSubmitOf pid msg = false := by simp [isSubmitOf, ht.1]
      exact ⟨by simp [acksTo, hdoneOf], fun _ => by simp [othersTo, hdoneOf, hsubmitOf]⟩

theorem Handled.account {ret : Bool} {s : ControllerState} {events : List Event}
    (hs : Handled env msg w ret s events) : Account requests pid msg w.state s events := by
  cases hs with
  | refused hlate send hsend =>
      have hsent : sentTo pid [.refusal msg send] =
          if isSubmitOf pid msg then [shutdownAckMessage env msg] else [] := by
        simp [Event.sentTo, hsend.dest_eq, hsend.msg_eq, hsend.delivered hc, isSubmitOf, hlate.1]
      have hdoneOf : isDoneOf pid msg = false := by simp [isDoneOf, hlate.1]
      refine ⟨?_, fun _ => ?_⟩
      · rw [acksTo, hsent, hdoneOf]
        cases isSubmitOf pid msg <;> simp [isAuthorised, shutdownAckMessage]
      · rw [othersTo, hsent, hdoneOf]
        cases isSubmitOf pid msg <;> simp [isAuthorised, shutdownAckMessage]
  | served hlate hs hgo => exact hs.account hc h hmsg hdone pid
  | @finished hlate s events hs hstop send hsend =>
      have haccount := hs.account hc h hmsg hdone pid
      have hmode := (hs.ofRunners h hmsg).requester (isFinished_iff.mp hstop).1
      have hsent : (Event.farewell send).sentTo pid =
          if s.shutdownRequesterPid = pid then [farewellMessage] else [] := by
        simp [Event.sentTo, hsend.dest_eq, hsend.msg_eq, hsend.delivered hc]
      have hacks : acksTo pid (events ++ [.farewell send]) = acksTo pid events := by
        simp only [acksTo, sentTo_append, sentTo_cons, sentTo_nil, hsent, List.append_nil,
          List.countP_append]
        split <;> simp [isAuthorised, farewellMessage]
      refine ⟨by rw [hacks]; exact haccount.authorised, fun hexec => ?_⟩
      have hother : s.shutdownRequesterPid ≠ pid := by
        rintro rfl
        rw [hmode] at hexec
        cases hexec
      have hothers : othersTo pid (events ++ [.farewell send]) = othersTo pid events := by
        simp [othersTo, hsent, hother]
      rw [hothers]
      exact haccount.placed hexec

omit hdone in
theorem Served.ackIds {s : ControllerState} {events : List Event}
    (hs : Served env msg w s events) :
    ∀ m ∈ sentTo pid events, isAuthorised m = true → m.commandId = commandIdOf pid := by
  intro m hm hauth
  cases hs with
  | started ht hfree hslot send hsend =>
      rw [sentTo_cons, sentTo_nil, List.append_nil] at hm
      have hack : send.IsOf env (submittedJob env msg w).started.runnerPid
          (ackMessage env (submittedJob env msg w).started) := hsend
      exact commandId_sentTo_ack hc hack (hmsg.execute (Or.inl ht)).2 pid m hm
  | promoted ht job running hrem next rest hpick line written hlog send hsend =>
      rw [sentTo_cons, sentTo_cons, sentTo_nil, List.append_nil] at hm
      have hack : send.IsOf env next.started.runnerPid (ackMessage env next.started) := hsend
      have hnext := (h.waiting next (ControllerState.pick_removes hpick).mem).2
      exact commandId_sentTo_ack hc hack hnext pid m hm
  | answered ht replies hreplies =>
      rw [isAuthorised_sentTo_status hreplies m hm] at hauth
      cases hauth
  | completed ht job running hrem hfree line written hlog => simp [Event.sentTo] at hm
  | _ => simp at hm

omit hdone in
/-- Every ACK sent repeats the command id of its addressee. -/
theorem Handled.ackIds {ret : Bool} {s : ControllerState} {events : List Event}
    (hs : Handled env msg w ret s events) :
    ∀ m ∈ sentTo pid events, isAuthorised m = true → m.commandId = commandIdOf pid := by
  intro m hm hauth
  cases hs with
  | refused hlate send hsend =>
      rw [sentTo_cons, sentTo_nil, List.append_nil, Event.sentTo] at hm
      split at hm
      · rw [List.mem_singleton.mp hm, hsend.msg_eq] at hauth
        simp [isAuthorised, shutdownAckMessage] at hauth
      · simp at hm
  | served hlate hs hgo => exact hs.ackIds hc h hmsg pid m hm hauth
  | finished hlate hs hstop send hsend =>
      rw [sentTo_append, List.mem_append] at hm
      rcases hm with hm | hm
      · exact hs.ackIds hc h hmsg pid m hm hauth
      · rw [sentTo_cons, sentTo_nil, List.append_nil, Event.sentTo] at hm
        split at hm
        · rw [List.mem_singleton.mp hm, hsend.msg_eq] at hauth
          simp [isAuthorised, farewellMessage] at hauth
        · simp at hm

end Accounts

end RunnerOrchestrator
