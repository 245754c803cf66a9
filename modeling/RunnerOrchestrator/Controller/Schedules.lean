import RunnerOrchestrator.Controller.Reports

/-! # The orders a policy allows

Under "fcfs" a job may be overtaken in the log by those that run beside it and by no
others. Under "random" every order in which waiting jobs could be started is the work of
some stream of random numbers.
-/

namespace RunnerOrchestrator

open Removal

/-! ## First come, first logged -/

/-- A message logs at most one job, and that one was running. -/
theorem Served.logged_running {env : Env} {msg : RpcMessage} {w : World} {s : ControllerState}
    {events : List Event} (hs : Served env msg w s events) :
    logged events = [] ∨ ∃ job ∈ w.state.runningQueue, logged events = [job.ident] := by
  cases hs with
  | completed ht job running hrem hfree line written hlog =>
      exact .inr ⟨job, (takeFirst_removes hrem).mem, rfl⟩
  | promoted ht job running hrem next rest hpick line written hlog send hsend =>
      exact .inr ⟨job, (takeFirst_removes hrem).mem, rfl⟩
  | answered ht replies hreplies => exact .inl (logged_status _ _)
  | _ => exact .inl rfl

theorem Handled.logged_running {env : Env} {msg : RpcMessage} {w : World} {ret : Bool}
    {s : ControllerState} {events : List Event} (hs : Handled env msg w ret s events) :
    logged events = [] ∨ ∃ job ∈ w.state.runningQueue, logged events = [job.ident] := by
  cases hs with
  | refused hlate send hsend => exact .inl rfl
  | served hlate hs hgo => exact hs.logged_running
  | finished hlate hs hstop send hsend => simpa using hs.logged_running

section Fcfs

variable {env : Env} (hm : env.AllocsSucceed) {argv : List CString}
  (hrandom : (controllerConfigure argv).policy ≠ text "random")
  (hfair : (controllerConfigure argv).policy ≠ text "fair") (msgs : List RpcMessage)

include hm

theorem run_acked_length (argv : List CString) (msgs : List RpcMessage) :
    (acked (runMessages env msgs (controllerStart argv)).trace).length =
      (runMessages env msgs (controllerStart argv)).state.runningQueue.length +
        (logged (runMessages env msgs (controllerStart argv)).trace).length := by
  have hack := congrArg Multiset.card (run_balanced hm argv msgs).acked
  simpa [idents] using hack

theorem run_acked_le :
    (acked (runMessages env msgs (controllerStart argv)).trace).length ≤
      (logged (runMessages env msgs (controllerStart argv)).trace).length +
        (controllerConfigure argv).parallelLimit := by
  have hlen := run_acked_length hm argv msgs
  have hslots := run_slots env argv msgs
  have hcount := hslots.count
  have hbound := hslots.bounded
  rw [(run_config env argv msgs).1] at hbound
  omega

include hrandom hfair

theorem run_acked_accepted :
    acked (runMessages env msgs (controllerStart argv)).trace <+:
      acceptedJobs env msgs (controllerStart argv) := by
  have horder := run_order takesHead_firstOf hm
    (fun s hs => picks_takesHead (hs ▸ hrandom) (hs ▸ hfair)) msgs
  simp only [List.filter_true] at horder
  rw [← horder]
  exact List.prefix_append _ _

end Fcfs

/-- The next job to be logged is among those authorised so far, which are the first ones
submitted: as many as are logged and fit into the slots. -/
theorem run_running_window {env : Env} (hm : env.AllocsSucceed) {argv : List CString}
    (hrandom : (controllerConfigure argv).policy ≠ text "random")
    (hfair : (controllerConfigure argv).policy ≠ text "fair") (msgs : List RpcMessage)
    {job : JobInfo}
    (hjob : job ∈ (runMessages env msgs (controllerStart argv)).state.runningQueue) :
    job.ident ∈ (acceptedJobs env msgs (controllerStart argv)).take
      ((logged (runMessages env msgs (controllerStart argv)).trace).length +
        (controllerConfigure argv).parallelLimit) := by
  have hacked : job.ident ∈ acked (runMessages env msgs (controllerStart argv)).trace := by
    have hmem : job.ident ∈ (acked (runMessages env msgs (controllerStart argv)).trace :
        Multiset JobId) := by
      rw [(run_balanced hm argv msgs).acked]
      exact Multiset.mem_add.mpr (.inl (List.mem_map_of_mem hjob))
    exact Multiset.mem_coe.mp hmem
  have hwindow := List.prefix_take_iff.mpr
    ⟨run_acked_accepted hm hrandom hfair msgs, run_acked_le hm msgs⟩
  exact hwindow.subset hacked

theorem run_log_window {env : Env} (hm : env.AllocsSucceed) {argv : List CString}
    (hrandom : (controllerConfigure argv).policy ≠ text "random")
    (hfair : (controllerConfigure argv).policy ≠ text "fair") (msgs : List RpcMessage) {i : Nat}
    {k : JobId} (hk : (logged (runMessages env msgs (controllerStart argv)).trace)[i]? = some k) :
    k ∈ (acceptedJobs env msgs (controllerStart argv)).take
      (i + (controllerConfigure argv).parallelLimit) := by
  induction msgs using List.reverseRecOn with
  | nil => simp [runMessages, controllerStart] at hk
  | append_singleton msgs msg ih =>
      have hmore : ∀ n, (acceptedJobs env msgs (controllerStart argv)).take n <+:
          (acceptedJobs env (msgs ++ [msg]) (controllerStart argv)).take n := by
        intro n
        rw [acceptedJobs_snoc]
        exact (List.prefix_append _ _).take n
      rcases controllerHandleMessage_handled hm msg (run_slots env argv msgs) with
        ⟨events, htrace, hhandled⟩
      rw [runMessages_snoc, htrace, logged_append] at hk
      rcases hhandled.logged_running with hnone | ⟨job, hjob, hone⟩
      · rw [hnone, List.append_nil] at hk
        exact (hmore _).subset (ih hk)
      · rw [hone, List.getElem?_append] at hk
        split at hk
        · exact (hmore _).subset (ih hk)
        · next hlast =>
          rcases List.getElem?_eq_some_iff.mp hk with ⟨hlt, hget⟩
          rw [List.length_singleton] at hlt
          have hi : i = (logged (runMessages env msgs (controllerStart argv)).trace).length := by
            omega
          have hk' : job.ident = k := by simpa using hget
          rw [← hk', hi]
          exact (hmore _).subset (run_running_window hm hrandom hfair msgs hjob)

/-- With one slot, jobs are logged in the order of their ACKs: the running job is the one
authorised last. -/
theorem Served.single_slot {env : Env} {msg : RpcMessage} {w : World} {s : ControllerState}
    {events : List Event} (hs : Served env msg w s events) (hslots : SlotInv w.state)
    (hlimit : w.state.parallelLimit = 1) {before past : List JobId}
    (h : before = past ++ idents w.state.runningQueue) :
    before ++ acked events = past ++ logged events ++ idents s.runningQueue := by
  have hcount := hslots.count
  have hone : ∀ {job : JobInfo} {running : JobQueue},
      queueRemoveByCommandId w.state.runningQueue msg.commandId = some (job, running) →
        running = [] ∧ w.state.runningQueue = [job] := by
    intro job running hrem
    have hremoves := takeFirst_removes hrem
    have hlen := hremoves.length
    have hbound := hslots.bounded
    have hnil : running = [] := List.length_eq_zero_iff.mp (by omega)
    rw [hnil] at hremoves
    exact ⟨hnil, List.perm_singleton.mp hremoves.perm⟩
  cases hs with
  | started ht hfree hslot send hsend =>
      have hidle : w.state.runningQueue = [] := List.length_eq_zero_iff.mp (by omega)
      rw [hidle] at h
      simp [h, ControllerState.start, hidle, idents]
  | queued ht hfull => simpa using h
  | completed ht job running hrem hfree line written hlog =>
      rcases hone hrem with ⟨hnil, hrunning⟩
      rw [hrunning] at h
      simp [h, hnil, idents]
  | promoted ht job running hrem next rest hpick line written hlog send hsend =>
      rcases hone hrem with ⟨hnil, hrunning⟩
      rw [hrunning] at h
      simp [h, ControllerState.start, hnil, idents]
  | stray ht hrem => simpa using h
  | answered ht replies hreplies => simpa using h
  | asked ht => simpa using h
  | ignored ht => simpa using h

theorem Handled.single_slot {env : Env} {msg : RpcMessage} {w : World} {ret : Bool}
    {s : ControllerState} {events : List Event} (hs : Handled env msg w ret s events)
    (hslots : SlotInv w.state) (hlimit : w.state.parallelLimit = 1) {before past : List JobId}
    (h : before = past ++ idents w.state.runningQueue) :
    before ++ acked events = past ++ logged events ++ idents s.runningQueue := by
  cases hs with
  | refused hlate send hsend => simpa using h
  | served hlate hs hgo => exact hs.single_slot hslots hlimit h
  | finished hlate hs hstop send hsend => simpa using hs.single_slot hslots hlimit h

theorem run_single_slot {env : Env} (hm : env.AllocsSucceed) {argv : List CString}
    (hlimit : (controllerConfigure argv).parallelLimit = 1) (msgs : List RpcMessage) :
    acked (runMessages env msgs (controllerStart argv)).trace =
      logged (runMessages env msgs (controllerStart argv)).trace ++
        idents (runMessages env msgs (controllerStart argv)).state.runningQueue := by
  induction msgs using List.reverseRecOn with
  | nil => rfl
  | append_singleton msgs msg ih =>
      have hslots := run_slots env argv msgs
      rcases controllerHandleMessage_handled hm msg hslots with ⟨events, htrace, hhandled⟩
      rw [runMessages_snoc, htrace, acked_append, logged_append]
      exact hhandled.single_slot hslots ((run_config env argv msgs).1.trans hlimit) ih

theorem LogRecord.exists_of_forall₂ {records : List LogRecord} {jobs : List JobId}
    (h : List.Forall₂ LogRecord.IsOf records jobs) {i : Nat} {r : LogRecord}
    (hr : records[i]? = some r) : ∃ k, jobs[i]? = some k ∧ r.IsOf k := by
  obtain ⟨hlt, rfl⟩ := List.getElem?_eq_some_iff.mp hr
  have hlt' : i < jobs.length := h.length_eq ▸ hlt
  exact ⟨jobs[i], List.getElem?_eq_getElem hlt', (List.forall₂_iff_get.mp h).2 i hlt hlt'⟩

/-- Under "fcfs" the lines that a run adds to `log.txt` follow the submissions: a job is logged
before at most `parallel_limit - 1` jobs that were submitted earlier, and with one slot the
lines are in order of submission. -/
theorem fcfs_log_window {env : Env} (hm : env.AllocsSucceed) (hl : env.LogsSucceed)
    (hclock : env.ClockSane) (old : List LogRecord) (argv : List CString)
    (hrandom : (controllerConfigure argv).policy ≠ text "random")
    (hfair : (controllerConfigure argv).policy ≠ text "fair") (msgs : List RpcMessage) :
    let w := runMessages env msgs (controllerStart argv)
    let accepted := acceptedJobs env msgs (controllerStart argv)
    ∃ records,
      logFileFormat.readAll (logFileFormat.write old ++ logFile w.trace) = some (old ++ records) ∧
      (∀ i r, records[i]? = some r →
        ∃ k ∈ accepted.take (i + (controllerConfigure argv).parallelLimit), r.IsOf k) ∧
      ((controllerConfigure argv).parallelLimit = 1 →
        ∃ first, first <+: accepted ∧ List.Forall₂ LogRecord.IsOf records first) := by
  intro w accepted
  have hnamed := run_completions hm argv msgs
  refine ⟨_, run_readAll hm hl hclock argv msgs old, fun i r hr => ?_, fun hlimit => ?_⟩
  · obtain ⟨k, hk, hof⟩ := LogRecord.exists_of_forall₂ hnamed hr
    exact ⟨k, run_log_window hm hrandom hfair msgs hk, hof⟩
  · have hacked : logged w.trace <+: acked w.trace := by
      rw [run_single_slot hm hlimit msgs]
      exact List.prefix_append _ _
    exact ⟨_, hacked.trans (run_acked_accepted hm hrandom hfair msgs), hnamed⟩

theorem fcfs_log_window_draining_day :
    let w := runMessages hourly drainingDay (controllerStart [text "controller", text "1"])
    let accepted := acceptedJobs hourly drainingDay (controllerStart [text "controller", text "1"])
    ∃ records, logFileFormat.readAll (logFile w.trace) = some records ∧
      ∃ first, first <+: accepted ∧ List.Forall₂ LogRecord.IsOf records first := by
  obtain ⟨records, hread, -, hfirst⟩ := fcfs_log_window hourly_allocsSucceed hourly_logsSucceed
    hourly_clockSane [] [text "controller", text "1"] (by decide) (by decide) drainingDay
  exact ⟨records, hread, hfirst rfl⟩

/-! ## Every order is possible -/

/-- The random numbers that take the jobs of `q` in the given order. -/
def drawsFor : JobQueue → List JobInfo → List Nat
  | _, [] => []
  | q, job :: order => q.idxOf job :: drawsFor (q.erase job) order

theorem queueDequeueRandom_idxOf {q : JobQueue} {job : JobInfo} (h : job ∈ q) :
    queueDequeueRandom (q.idxOf job) q = some (job, q.erase job) := by
  have hlt := List.idxOf_lt_length_of_mem h
  have htake : takeAt (q.idxOf job) q = some (job, q.erase job) := by
    rw [takeAt_eq_getElem, List.getElem?_eq_getElem hlt, List.getElem_idxOf hlt, Option.map_some,
      List.erase_eq_eraseIdx_of_idxOf rfl]
  unfold queueDequeueRandom
  rw [if_neg (List.ne_nil_of_mem h), Nat.mod_eq_of_lt hlt]
  dsimp only
  split
  · next hzero =>
    rw [hzero] at htake
    cases q with
    | nil => cases h
    | cons head rest => exact htake
  · exact htake

theorem ControllerState.pick_random_eq {s : ControllerState} (hpolicy : s.policy = text "random")
    (rand : Nat) : s.pick rand = queueDequeueRandom rand s.waitingQueue := by
  have hr : isRandomPolicy s = true := by rw [isRandomPolicy, hpolicy]; decide
  rw [ControllerState.pick, hr]
  rfl

theorem ControllerState.draws_random {s : ControllerState} (hpolicy : s.policy = text "random") :
    s.draws = 1 := by
  rw [ControllerState.draws, isRandomPolicy, hpolicy]
  decide

theorem tryFinishShutdown_rest (env : Env) (w : World) :
    (tryFinishShutdown env w).2.rands = w.rands ∧
      (tryFinishShutdown env w).2.state.waitingQueue = w.state.waitingQueue ∧
      ∃ farewell, (tryFinishShutdown env w).2.trace = w.trace ++ farewell ∧
        acked farewell = [] ∧ logged farewell = [] := by
  unfold tryFinishShutdown
  split
  · exact ⟨rfl, rfl, [], by simp, rfl, rfl⟩
  · exact ⟨rfl, rfl, _, rfl, rfl, rfl⟩

/-- What a DONE does to the waiting queue: nothing, or it starts the job that the policy
picks. -/
inductive Refills (env : Env) (w v : World) : List Event → Prop
  | nothing {events : List Event} (hwaiting : v.state.waitingQueue = w.state.waitingQueue)
      (hrands : v.rands = w.rands) (hacked : acked events = [])
      (hlogged : logged events = [] ∨ w.state.waitingQueue = []) : Refills env w v events
  | next {events : List Event} (job : JobInfo)
      (hpick : w.state.pick (env.rand w.rands) = some (job, v.state.waitingQueue))
      (hrands : v.rands = w.rands + w.state.draws) (hacked : acked events = [job.ident])
      (hlogged : (logged events).length = 1) : Refills env w v events

theorem handleDone_refills {env : Env} (hm : env.AllocsSucceed) (msg : RpcMessage) {w : World}
    (h : SlotInv w.state) :
    ∃ events, (handleDone env msg w).trace = w.trace ++ events ∧
      Refills env w (handleDone env msg w) events := by
  cases hrem : queueRemoveByCommandId w.state.runningQueue msg.commandId with
  | none =>
      rw [handleDone_stray h hrem]
      exact ⟨[], by simp, .nothing rfl rfl rfl (.inl rfl)⟩
  | some out =>
      rcases out with ⟨job, running⟩
      rcases logFinishedJob_trace env job w with ⟨line, written, htrace, -⟩
      by_cases hfree : w.state.waitingQueue = []
      · rw [handleDone_complete hrem hfree]
        exact ⟨_, htrace, .nothing rfl (logFinishedJob_rands env job w) rfl (.inr hfree)⟩
      · rcases handleDone_promote hm h hrem hfree with ⟨next, rest, mallocs, hpick, heq⟩
        rw [heq]
        refine ⟨_, by rw [sendAckToRunner, htrace, List.append_assoc], ?_⟩
        exact .next next hpick rfl rfl rfl

theorem done_refills {env : Env} (hm : env.AllocsSucceed) {msg : RpcMessage}
    (ht : msg.type = .done) {w : World} (h : SlotInv w.state) :
    ∃ events, (controllerHandleMessage env msg w).2.trace = w.trace ++ events ∧
      Refills env w (controllerHandleMessage env msg w).2 events := by
  have hlate : ¬ IsLate msg w.state := by simp [IsLate, ht]
  have hserve : serve env msg w = handleDone env msg w := by simp [serve, ht]
  rw [controllerHandleMessage_serve hlate, hserve]
  rcases handleDone_refills hm msg h with ⟨events, htrace, hrefills⟩
  rcases tryFinishShutdown_rest env (handleDone env msg w) with
    ⟨hrands, hwaiting, farewell, hfarewell, hacked, hlogged⟩
  refine ⟨events ++ farewell, by rw [hfarewell, htrace, List.append_assoc], ?_⟩
  cases hrefills with
  | nothing hsame hdraws hnone hidle =>
      refine .nothing (hwaiting.trans hsame) (hrands.trans hdraws) ?_ ?_
      · rw [acked_append, hnone, hacked, List.nil_append]
      · rw [logged_append, hlogged, List.append_nil]
        exact hidle
  | next job hpick hdraws hone hcount =>
      refine .next job (by rw [hwaiting]; exact hpick) (hrands.trans hdraws) ?_ ?_
      · rw [acked_append, hone, hacked, List.append_nil]
      · rw [logged_append, hlogged, List.append_nil, hcount]

/-- By induction on the messages: the random numbers left are those for the jobs left. -/
theorem dones_in_order {env : Env} (hm : env.AllocsSucceed) {dones : List RpcMessage}
    (hdones : ∀ msg ∈ dones, msg.type = .done) {w : World} (hslots : SlotInv w.state)
    (hpolicy : w.state.policy = text "random") {order : List JobInfo}
    (hperm : order.Perm w.state.waitingQueue)
    (hdraws : ∀ k, env.rand (w.rands + k) = (drawsFor w.state.waitingQueue order).getD k 0) :
    ∃ events, (runMessages env dones w).trace = w.trace ++ events ∧
      acked events = idents (order.take (logged events).length) := by
  induction dones generalizing w order with
  | nil => exact ⟨[], by simp [runMessages], by simp [idents]⟩
  | cons msg dones ih =>
      have ht := hdones msg List.mem_cons_self
      have hrest : ∀ m ∈ dones, m.type = .done := fun m hmem => hdones m (List.mem_cons_of_mem _ hmem)
      have hslots' : SlotInv (controllerHandleMessage env msg w).2.state :=
        controllerHandleMessage_slots hslots
      have hpolicy' := (controllerHandleMessage_config env msg w).2.trans hpolicy
      rcases done_refills hm ht hslots with ⟨events, htrace, hrefills⟩
      show ∃ events, (runMessages env dones (controllerHandleMessage env msg w).2).trace = _ ∧ _
      cases hrefills with
      | nothing hsame hrands hacked hidle =>
          rw [← hsame] at hperm hdraws
          rw [← hrands] at hdraws
          rcases ih hrest hslots' hpolicy' hperm hdraws with ⟨more, hmore, horder⟩
          refine ⟨events ++ more, by rw [hmore, htrace, List.append_assoc], ?_⟩
          rw [acked_append, hacked, List.nil_append, horder, logged_append, List.length_append]
          rcases hidle with hnone | hfree
          · rw [hnone, List.length_nil, Nat.zero_add]
          · rw [hsame, hfree] at hperm
            rw [List.perm_nil.mp hperm, List.take_nil, List.take_nil]
      | next job hpick hrands hacked hcount =>
          rw [ControllerState.pick_random_eq hpolicy] at hpick
          rw [ControllerState.draws_random hpolicy] at hrands
          cases order with
          | nil =>
              rw [List.nil_perm.mp hperm] at hpick
              cases hpick
          | cons first order =>
              have hfirst : first ∈ w.state.waitingQueue := hperm.subset List.mem_cons_self
              have hdraw : env.rand w.rands = w.state.waitingQueue.idxOf first := hdraws 0
              rw [hdraw, queueDequeueRandom_idxOf hfirst, Option.some.injEq, Prod.mk.injEq] at hpick
              rcases hpick with ⟨rfl, hleft⟩
              have hperm' := (List.cons_perm_iff_perm_erase.mp hperm).2
              have hdraws' : ∀ k, env.rand ((controllerHandleMessage env msg w).2.rands + k) =
                  (drawsFor (w.state.waitingQueue.erase first) order).getD k 0 := by
                intro k
                rw [hrands, Nat.add_assoc, Nat.add_comm 1 k, hdraws (k + 1)]
                rfl
              rw [hleft] at hperm' hdraws'
              rcases ih hrest hslots' hpolicy' hperm' hdraws' with ⟨more, hmore, horder⟩
              refine ⟨events ++ more, by rw [hmore, htrace, List.append_assoc], ?_⟩
              rw [acked_append, hacked, horder, logged_append, List.length_append, hcount,
                Nat.add_comm 1, List.take_succ_cons]
              rfl

/-- The machine with other random numbers. -/
def Env.withRand (env : Env) (rand : Nat → Nat) : Env := { env with rand := rand }

/-- Every order is possible under "random": whatever has happened so far, there are random
numbers with which the completions to come, in any number and mixed with any DONEs for
no running job, start the waiting jobs in the given order. -/
theorem random_any_order {env : Env} (hm : env.AllocsSucceed) {argv : List CString}
    (hpolicy : (controllerConfigure argv).policy = text "random") (before : List RpcMessage)
    {order : List JobInfo} (hperm : order.Perm (waitingAfter env argv before)) :
    ∃ rand : Nat → Nat, ∀ dones : List RpcMessage, (∀ msg ∈ dones, msg.type = .done) →
      let w := runMessages env before (controllerStart argv)
      ∃ events, (runMessages (env.withRand rand) dones w).trace = w.trace ++ events ∧
        acked events = idents (order.take (logged events).length) := by
  let rand : Nat → Nat := fun n => (drawsFor (waitingAfter env argv before) order).getD
    (n - (runMessages env before (controllerStart argv)).rands) 0
  have hm' : (env.withRand rand).AllocsSucceed := hm
  refine ⟨rand, fun dones hdones => dones_in_order hm' hdones (run_slots env argv before)
    ((run_config env argv before).2.trans hpolicy) hperm fun k => ?_⟩
  show (drawsFor (waitingAfter env argv before) order).getD (_ + k - _) 0 = _
  rw [Nat.add_sub_cancel_left]
  rfl

/-- The last of three waiting jobs first, then the first one, then the second. -/
theorem random_any_order_three_users :
    let argv := [text "controller", text "1", text "random"]
    let order := [waitingJob 14 (-7) 3, waitingJob 12 2 1, waitingJob 13 3 2]
    ∃ rand : Nat → Nat, ∀ dones : List RpcMessage, (∀ msg ∈ dones, msg.type = .done) →
      let w := runMessages .calm threeUsers (controllerStart argv)
      ∃ events, (runMessages (Env.calm.withRand rand) dones w).trace = w.trace ++ events ∧
        acked events = idents (order.take (logged events).length) := by
  intro argv order
  exact random_any_order Env.calm_allocsSucceed (by decide) threeUsers (by decide)

end RunnerOrchestrator
