import RunnerOrchestrator.Controller.Order
import RunnerOrchestrator.Controller.Fairness
import RunnerOrchestrator.Foundation.CyclicShare

/-! # How long a job waits

While somebody waits, every completion sends one ACK, so the time a job spends in the
waiting queue is counted in completions. Under "fcfs" the jobs in front decide it;
under "fair" the user's own jobs in front and the number of users do.
-/

namespace RunnerOrchestrator

open Removal

/-- The waiting queue after `msgs`. -/
def waitingAfter (env : Env) (argv : List CString) (msgs : List RpcMessage) : JobQueue :=
  (runMessages env msgs (controllerStart argv)).state.waitingQueue

/-- What the controller does while `stretch` is handled, after `before`. -/
def eventsDuring (env : Env) (argv : List CString) (before stretch : List RpcMessage) : List Event :=
  (runMessages env (before ++ stretch) (controllerStart argv)).trace.drop
    (runMessages env before (controllerStart argv)).trace.length

/-- The jobs completed while `stretch` is handled, after `before`. -/
def loggedDuring (env : Env) (argv : List CString) (before stretch : List RpcMessage) : List JobId :=
  logged (eventsDuring env argv before stretch)

def JobInfo.isOf (u : Int32) (job : JobInfo) : Bool := job.userId == u

def JobId.isOf (u : Int32) (job : JobId) : Bool := job.userId == u

theorem filter_isOf_idents (q : JobQueue) (u : Int32) :
    (idents q).filter (JobId.isOf u) = idents (q.filter (JobInfo.isOf u)) :=
  filter_idents q u

/-! ## One message -/

/-- While somebody waits, a message sends as many ACKs as it logs jobs. -/
theorem Served.evenly {env : Env} {msg : RpcMessage} {w : World} {s : ControllerState}
    {events : List Event} (hs : Served env msg w s events) (hwait : w.state.waitingQueue ≠ []) :
    (acked events).length = (logged events).length := by
  cases hs with
  | started ht hfree hslot send hsend => exact absurd hfree hwait
  | queued ht hfull => rfl
  | completed ht job running hrem hfree line written hlog => exact absurd hfree hwait
  | promoted ht job running hrem next rest hpick line written hlog send hsend => rfl
  | stray ht hrem => rfl
  | answered ht replies hreplies => simp
  | asked ht => rfl
  | ignored ht => rfl

theorem Handled.evenly {env : Env} {msg : RpcMessage} {w : World} {ret : Bool}
    {s : ControllerState} {events : List Event} (hs : Handled env msg w ret s events)
    (hwait : w.state.waitingQueue ≠ []) : (acked events).length = (logged events).length := by
  cases hs with
  | refused hlate send hsend => rfl
  | served hlate hs hgo => exact hs.evenly hwait
  | finished hlate hs hstop send hsend => simpa using hs.evenly hwait

/-- One message while `v` waits is a piece of service. -/
theorem Served.service {env : Env} {msg : RpcMessage} {w : World} {s : ControllerState}
    {events : List Event} (hs : Served env msg w s events) (hpolicy : w.state.policy = text "fair")
    (hinv : FairInv w.state) {v : Int32} (hv : ∃ job ∈ w.state.waitingQueue, job.userId = v)
    {table₀ served : List Int32} {last₀ : Int32}
    (h : CyclicChoice.Service v table₀ last₀ served w.state.fairUsers w.state.lastScheduledUser) :
    CyclicChoice.Service v table₀ last₀ (served ++ (acked events).map JobId.userId) s.fairUsers
      s.lastScheduledUser := by
  have hwaits : w.state.waitingQueue ≠ [] := by
    rcases hv with ⟨job, hjob, -⟩
    exact List.ne_nil_of_mem hjob
  cases hs with
  | started ht hfree hslot send hsend => exact absurd hfree hwaits
  | queued ht hfull =>
      simp only [acked_nil, List.map_nil, List.append_nil, ControllerState.remember_lastScheduledUser]
      rcases w.state.remember_fairUsers msg.userId with ⟨-, heq⟩ | ⟨hnew, heq⟩
      · rwa [heq]
      · rw [heq]
        exact h.enrol hnew
  | completed ht job running hrem hfree line written hlog => exact absurd hfree hwaits
  | promoted ht job running hrem next rest hpick line written hlog send hsend =>
      have hactive : userExists (queuedUsers w.state.waitingQueue) v = true := by
        rw [userExists_iff, mem_queuedUsers]
        exact hv
      have hserve := h.serve hactive (pick_fair hpolicy hinv hv hpick)
      exact hserve
  | stray ht hrem => simpa using h
  | answered ht replies hreplies => simpa using h
  | asked ht => simpa using h
  | ignored ht => simpa using h

theorem Handled.service {env : Env} {msg : RpcMessage} {w : World} {ret : Bool}
    {s : ControllerState} {events : List Event} (hs : Handled env msg w ret s events)
    (hpolicy : w.state.policy = text "fair") (hinv : FairInv w.state) {v : Int32}
    (hv : ∃ job ∈ w.state.waitingQueue, job.userId = v) {table₀ served : List Int32} {last₀ : Int32}
    (h : CyclicChoice.Service v table₀ last₀ served w.state.fairUsers w.state.lastScheduledUser) :
    CyclicChoice.Service v table₀ last₀ (served ++ (acked events).map JobId.userId) s.fairUsers
      s.lastScheduledUser := by
  cases hs with
  | refused hlate send hsend => simpa using h
  | served hlate hs hgo => exact hs.service hpolicy hinv hv h
  | finished hlate hs hstop send hsend => simpa using hs.service hpolicy hinv hv h

/-! ## A stretch of messages -/

theorem ackedDuring_eq (env : Env) (argv : List CString) (before stretch : List RpcMessage) :
    ackedDuring env argv before stretch = acked (eventsDuring env argv before stretch) := rfl

theorem eventsDuring_nil (env : Env) (argv : List CString) (before : List RpcMessage) :
    eventsDuring env argv before [] = [] := by
  simp [eventsDuring]

/-- Nothing the controller has done is undone. -/
theorem trace_grows (env : Env) (msgs : List RpcMessage) (w : World) :
    w.trace <+: (runMessages env msgs w).trace := by
  apply runMessages_invariant (P := fun v => w.trace <+: v.trace) _ msgs List.prefix_rfl
  intro msg v h
  rcases controllerHandleMessage_genuine env msg v with ⟨events, htrace, -⟩
  rw [htrace]
  exact h.trans (List.prefix_append _ _)

theorem trace_during (env : Env) (argv : List CString) (before stretch : List RpcMessage) :
    (runMessages env (before ++ stretch) (controllerStart argv)).trace =
      (runMessages env before (controllerStart argv)).trace ++
        eventsDuring env argv before stretch := by
  have h := trace_grows env stretch (runMessages env before (controllerStart argv))
  rw [← runMessages_append] at h
  exact List.prefix_append_drop h

theorem ackedDuring_mono (env : Env) (argv : List CString) (before : List RpcMessage)
    {part stretch : List RpcMessage} (h : part <+: stretch) :
    ackedDuring env argv before part <+: ackedDuring env argv before stretch := by
  rcases h with ⟨more, rfl⟩
  have hpart := trace_during env argv before part
  have hall := trace_during env argv before (part ++ more)
  have hmore := trace_grows env more (runMessages env (before ++ part) (controllerStart argv))
  rw [← runMessages_append, List.append_assoc, hpart, hall, List.prefix_append_right_inj] at hmore
  exact hmore.filterMap _

section Stretches

variable {env : Env} (hm : env.AllocsSucceed) (argv : List CString) (before : List RpcMessage)

include hm

theorem eventsDuring_snoc (stretch : List RpcMessage) (msg : RpcMessage) :
    ∃ events ret, eventsDuring env argv before (stretch ++ [msg]) =
        eventsDuring env argv before stretch ++ events ∧
      Handled env msg (runMessages env (before ++ stretch) (controllerStart argv)) ret
        (runMessages env (before ++ (stretch ++ [msg])) (controllerStart argv)).state events := by
  rcases controllerHandleMessage_handled hm msg (run_slots env argv (before ++ stretch)) with
    ⟨events, htrace, hhandled⟩
  rw [← runMessages_snoc, List.append_assoc] at htrace hhandled
  refine ⟨events, _, ?_, hhandled⟩
  rw [trace_during, trace_during env argv before stretch, List.append_assoc] at htrace
  exact List.append_cancel_left htrace

/-- Class by class, the jobs waiting at first and those accepted on the way are
authorised in order. -/
theorem order_during {P : List JobId → JobId → List JobId → Prop} {c : JobId → Bool}
    (hfirst : SlotBoard.FirstOf c P)
    (hP : ∀ s, s.policy = (controllerConfigure argv).policy → Picks P s)
    (stretch : List RpcMessage) :
    (ackedDuring env argv before stretch).filter c ++
        (idents (waitingAfter env argv (before ++ stretch))).filter c =
      (idents (waitingAfter env argv before)).filter c ++
        (acceptedJobs env stretch (runMessages env before (controllerStart argv))).filter c := by
  have hall := run_order hfirst hm hP (before ++ stretch)
  have hpast := run_order hfirst hm hP before
  rw [trace_during, acked_append, List.filter_append, acceptedJobs_append, List.filter_append,
    ← hpast, List.append_assoc, List.append_assoc] at hall
  exact List.append_cancel_left hall

/-- As many ACKs as completions while somebody waits. -/
theorem evenly_during {stretch : List RpcMessage}
    (hwait : ∀ part, part <+: stretch → waitingAfter env argv (before ++ part) ≠ []) :
    (ackedDuring env argv before stretch).length = (loggedDuring env argv before stretch).length := by
  induction stretch using List.reverseRecOn with
  | nil => simp [ackedDuring_eq, loggedDuring, eventsDuring_nil]
  | append_singleton stretch msg ih =>
      have hprev := ih fun part hpart => hwait part (hpart.trans (List.prefix_append _ _))
      rcases eventsDuring_snoc hm argv before stretch msg with ⟨events, ret, hevents, hhandled⟩
      have hstep := hhandled.evenly (hwait stretch (List.prefix_append _ _))
      rw [ackedDuring_eq, loggedDuring] at hprev ⊢
      rw [hevents, acked_append, logged_append, List.length_append, List.length_append]
      omega

/-- Whoever waits at first or is accepted on the way is authorised or still waits. -/
theorem count_during (stretch : List RpcMessage) :
    (ackedDuring env argv before stretch).length +
        (waitingAfter env argv (before ++ stretch)).length =
      (waitingAfter env argv before).length +
        (acceptedJobs env stretch (runMessages env before (controllerStart argv))).length := by
  have hall := run_balanced hm argv (before ++ stretch)
  have hpast := run_balanced hm argv before
  have hcount : ∀ {accepted : List JobId} {w : World}, Balanced accepted w →
      accepted.length = w.state.waitingQueue.length + (acked w.trace).length := by
    intro accepted w h
    have hacc := congrArg Multiset.card h.accepted
    have hack := congrArg Multiset.card h.acked
    simp only [Multiset.card_add, Multiset.coe_card, idents, List.length_map] at hacc hack
    omega
  have hend := hcount hall
  have hstart := hcount hpast
  rw [trace_during, acked_append, acceptedJobs_append, List.length_append, List.length_append]
    at hend
  simp only [waitingAfter, ackedDuring_eq]
  omega

/-- ACKs keep pace with completions until as many jobs have been taken as waited at first. -/
theorem keeps_pace (stretch : List RpcMessage) :
    (ackedDuring env argv before stretch).length = (loggedDuring env argv before stretch).length ∨
      (waitingAfter env argv before).length ≤ (ackedDuring env argv before stretch).length ∧
        (waitingAfter env argv before).length ≤ (loggedDuring env argv before stretch).length := by
  induction stretch using List.reverseRecOn with
  | nil =>
      left
      simp [ackedDuring_eq, loggedDuring, eventsDuring_nil]
  | append_singleton stretch msg ih =>
      have hcount := count_during hm argv before stretch
      rcases eventsDuring_snoc hm argv before stretch msg with ⟨events, ret, hevents, hhandled⟩
      rw [ackedDuring_eq, loggedDuring] at ih ⊢
      rw [ackedDuring_eq] at hcount
      rw [hevents, acked_append, logged_append, List.length_append, List.length_append]
      by_cases hfree : waitingAfter env argv (before ++ stretch) = []
      · -- everybody who waited at first has been taken
        rw [hfree, List.length_nil] at hcount
        right
        omega
      · have hstep := hhandled.evenly hfree
        omega

/-- A stretch in which `v` waits is a piece of service under cyclic choice. -/
theorem service_during (hpolicy : (controllerConfigure argv).policy = text "fair")
    {stretch : List RpcMessage} {v : Int32}
    (hwait : ∀ part, part <+: stretch →
      ∃ job ∈ waitingAfter env argv (before ++ part), job.userId = v) :
    let w₀ := runMessages env before (controllerStart argv)
    let w := runMessages env (before ++ stretch) (controllerStart argv)
    CyclicChoice.Service v w₀.state.fairUsers w₀.state.lastScheduledUser
      ((ackedDuring env argv before stretch).map JobId.userId) w.state.fairUsers
      w.state.lastScheduledUser := by
  induction stretch using List.reverseRecOn with
  | nil => simpa [ackedDuring] using CyclicChoice.Service.start
  | append_singleton stretch msg ih =>
      have hprev := ih fun part hpart => hwait part (hpart.trans (List.prefix_append _ _))
      rcases eventsDuring_snoc hm argv before stretch msg with ⟨events, ret, hevents, hhandled⟩
      have hconfig := (run_config env argv (before ++ stretch)).2
      simp only [ackedDuring_eq, hevents, acked_append, List.map_append] at hprev ⊢
      exact hhandled.service (hconfig.trans hpolicy) (run_fair hm argv (before ++ stretch))
        (hwait stretch (List.prefix_append _ _)) hprev

theorem shared_during (hpolicy : (controllerConfigure argv).policy = text "fair")
    {stretch : List RpcMessage} {v : Int32}
    (hwait : ∀ part, part <+: stretch →
      ∃ job ∈ waitingAfter env argv (before ++ part), job.userId = v) :
    let w₀ := runMessages env before (controllerStart argv)
    let w := runMessages env (before ++ stretch) (controllerStart argv)
    CyclicChoice.Shared v w₀.state.lastScheduledUser
      ((ackedDuring env argv before stretch).map JobId.userId) w.state.fairUsers
      w.state.lastScheduledUser := by
  have hinv := run_fair hm argv before
  rcases hwait [] List.nil_prefix with ⟨job, hjob, rfl⟩
  rw [List.append_nil] at hjob
  have hlast := hinv.last_known.resolve_right fun hidle => by
    rw [waitingAfter, hidle.2] at hjob
    exact absurd hjob List.not_mem_nil
  exact (service_during hm argv before hpolicy hwait).shared hinv.nodup hlast
    (hinv.waiting_known job hjob)

end Stretches

/-! ## First come, first served -/

/-- Under "fcfs" a waiting job is started by the completion whose number is its place in
the queue, and by no earlier one. -/
theorem fcfs_wait_exact {env : Env} (hm : env.AllocsSucceed) {argv : List CString}
    (hrandom : (controllerConfigure argv).policy ≠ text "random")
    (hfair : (controllerConfigure argv).policy ≠ text "fair") (before stretch : List RpcMessage)
    {front back : JobQueue} {job : JobInfo}
    (hqueue : waitingAfter env argv before = front ++ job :: back) :
    idents (front ++ [job]) <+: ackedDuring env argv before stretch ↔
      front.length < (loggedDuring env argv before stretch).length := by
  have horder := order_during hm argv before takesHead_firstOf
    (fun s hs => picks_takesHead (hs ▸ hrandom) (hs ▸ hfair)) stretch
  have hpace := keeps_pace hm argv before stretch
  have hlen : (idents (front ++ [job])).length = front.length + 1 := by simp [idents]
  have hwaiting : (waitingAfter env argv before).length = front.length + 1 + back.length := by
    rw [hqueue, List.length_append, List.length_cons]
    omega
  constructor
  · intro h
    have hle := h.length_le
    omega
  · intro h
    have hfirst : idents (front ++ [job]) <+:
        ackedDuring env argv before stretch ++
          idents (waitingAfter env argv (before ++ stretch)) := by
      simp only [List.filter_true] at horder
      rw [horder, hqueue, List.append_cons front job back, idents_append (front ++ [job]),
        List.append_assoc]
      exact List.prefix_append _ _
    exact List.prefix_of_prefix_length_le hfirst (List.prefix_append _ _) (by omega)

/-- The DONE of a runner. -/
def doneOf (pid : Int32) : RpcMessage := msgDone pid { RpcMessage.zero with commandId := pid.toInt64 }

/-- The job of the n-th submission under `Env.calm`. -/
def waitingJob (pid userId : Int32) (n : Int) : JobInfo :=
  ⟨pid.toInt64, userId, .queued, pid, ⟨n, 0⟩⟩

/-- The third of three waiting jobs, after four completions. -/
theorem fcfs_wait_exact_third :
    let stretch := [doneOf 11, doneOf 12, statusReq 20, doneOf 13, doneOf 14]
    let argv := [text "controller", text "1"]
    idents ([waitingJob 12 2 1, waitingJob 13 3 2] ++ [waitingJob 14 (-7) 3]) <+:
        ackedDuring .calm argv threeUsers stretch ↔
      2 < (loggedDuring .calm argv threeUsers stretch).length := by
  intro stretch argv
  have hqueue : waitingAfter .calm argv threeUsers =
      [waitingJob 12 2 1, waitingJob 13 3 2] ++ waitingJob 14 (-7) 3 :: [] := by decide
  exact fcfs_wait_exact Env.calm_allocsSucceed (by decide) (by decide) threeUsers stretch hqueue

/-! ## Fair -/

/-- Of two users with a job waiting all the time, neither is served twice more than the
other. -/
theorem fair_shares {env : Env} (hm : env.AllocsSucceed) {argv : List CString}
    (hpolicy : (controllerConfigure argv).policy = text "fair") (before stretch : List RpcMessage)
    {u v : Int32} (hne : u ≠ v)
    (hu : ∀ part, part <+: stretch →
      ∃ job ∈ waitingAfter env argv (before ++ part), job.userId = u)
    (hv : ∀ part, part <+: stretch →
      ∃ job ∈ waitingAfter env argv (before ++ part), job.userId = v) :
    let served := (ackedDuring env argv before stretch).map JobId.userId
    served.count u ≤ served.count v + 1 ∧ served.count v ≤ served.count u + 1 := by
  intro served
  constructor
  · exact (shared_during hm argv before hpolicy hv).turns_le hne
  · exact (shared_during hm argv before hpolicy hu).turns_le hne.symm

/-- Two users with two jobs each behind a third one. -/
def twoByTwo : List RpcMessage :=
  [submitMsg 11 1 (text "a"), submitMsg 12 2 (text "b"), submitMsg 13 2 (text "c"),
    submitMsg 14 3 (text "d"), submitMsg 15 3 (text "e")]

theorem fair_shares_two_by_two :
    let stretch := [doneOf 11, doneOf 12]
    let argv := [text "controller", text "1", text "fair"]
    let served := (ackedDuring .calm argv twoByTwo stretch).map JobId.userId
    served.count 2 ≤ served.count 3 + 1 ∧ served.count 3 ≤ served.count 2 + 1 := by
  intro stretch argv
  have hwait : ∀ u, u = 2 ∨ u = 3 → ∀ part ∈ stretch.inits,
      ∃ job ∈ waitingAfter .calm argv (twoByTwo ++ part), job.userId = u := by
    rintro u (rfl | rfl)
    · decide
    · decide
  exact fair_shares Env.calm_allocsSucceed (by decide) twoByTwo stretch (by decide)
    (fun part hpart => hwait 2 (.inl rfl) part ((List.mem_inits part stretch).mpr hpart))
    (fun part hpart => hwait 3 (.inr rfl) part ((List.mem_inits part stretch).mpr hpart))

theorem count_userId (jobs : List JobId) (u : Int32) :
    (jobs.map JobId.userId).count u = (jobs.filter (JobId.isOf u)).length := by
  rw [List.count, List.countP_map, List.countP_eq_length_filter]
  rfl

section Own

variable {env : Env} (hm : env.AllocsSucceed) {argv : List CString}
  (hpolicy : (controllerConfigure argv).policy = text "fair") (before : List RpcMessage)
  {front back : JobQueue} {job : JobInfo}
  (hqueue : waitingAfter env argv before = front ++ job :: back)

include hm hpolicy hqueue

/-- A user's jobs up to `job` come first among those of the user that are authorised from
then on or wait in the end. -/
theorem own_first (stretch : List RpcMessage) :
    idents ((front ++ [job]).filter (JobInfo.isOf job.userId)) <+:
      (ackedDuring env argv before stretch).filter (JobId.isOf job.userId) ++
        idents ((waitingAfter env argv (before ++ stretch)).filter (JobInfo.isOf job.userId)) := by
  have hpicks : SlotBoard.FirstOf (JobId.isOf job.userId) (takesFirstOf job.userId) :=
    fun _ _ _ h => h
  have horder := order_during hm argv before hpicks
    (fun s hs => picks_takesFirstOf (hs.trans hpolicy) job.userId) stretch
  rw [filter_isOf_idents, filter_isOf_idents] at horder
  rw [horder, hqueue, List.append_cons front job back, List.filter_append _ back, idents_append,
    List.append_assoc]
  exact List.prefix_append _ _

/-- As long as the user has got fewer ACKs than that, it waits. -/
theorem waits_while_short {stretch : List RpcMessage}
    (hshort : ((ackedDuring env argv before stretch).filter (JobId.isOf job.userId)).length <
      (idents ((front ++ [job]).filter (JobInfo.isOf job.userId))).length) :
    ∀ part, part <+: stretch →
      ∃ other ∈ waitingAfter env argv (before ++ part), other.userId = job.userId := by
  intro part hpart
  have hle := (own_first hm hpolicy before hqueue part).length_le
  have hmono := ((ackedDuring_mono env argv before hpart).filter (JobId.isOf job.userId)).length_le
  have hsome : (waitingAfter env argv (before ++ part)).filter (JobInfo.isOf job.userId) ≠ [] := by
    intro hnone
    rw [hnone, List.length_append, show (idents []).length = 0 from rfl] at hle
    omega
  rcases List.exists_mem_of_ne_nil _ hsome with ⟨other, hother⟩
  rcases List.mem_filter.mp hother with ⟨hmem, hof⟩
  exact ⟨other, hmem, by simpa [JobInfo.isOf] using hof⟩

end Own

/-- Under "fair" a waiting job is started after at most as many completions as there are
users, for itself and for each job of its own user in front of it. -/
theorem fair_wait_bounded {env : Env} (hm : env.AllocsSucceed) {argv : List CString}
    (hpolicy : (controllerConfigure argv).policy = text "fair") (before stretch : List RpcMessage)
    {front back : JobQueue} {job : JobInfo}
    (hqueue : waitingAfter env argv before = front ++ job :: back)
    (henough :
      ((front.filter (JobInfo.isOf job.userId)).length + 1) *
          (runMessages env (before ++ stretch) (controllerStart argv)).state.fairUsers.length ≤
        (loggedDuring env argv before stretch).length) :
    idents ((front ++ [job]).filter (JobInfo.isOf job.userId)) <+:
      (ackedDuring env argv before stretch).filter (JobId.isOf job.userId) := by
  have hlen : (idents ((front ++ [job]).filter (JobInfo.isOf job.userId))).length =
      (front.filter (JobInfo.isOf job.userId)).length + 1 := by
    simp [idents, JobInfo.isOf]
  by_contra hnot
  have hshort : ((ackedDuring env argv before stretch).filter (JobId.isOf job.userId)).length <
      (idents ((front ++ [job]).filter (JobInfo.isOf job.userId))).length := by
    by_contra hlong
    apply hnot
    exact List.prefix_of_prefix_length_le (own_first hm hpolicy before hqueue stretch)
      (List.prefix_append _ _) (by omega)
  have hwait := waits_while_short hm hpolicy before hqueue hshort
  have hbound := (shared_during hm argv before hpolicy hwait).length_lt
  have heven := evenly_during hm argv before fun part hpart => by
    rcases hwait part hpart with ⟨other, hmem, -⟩
    exact List.ne_nil_of_mem hmem
  rw [List.length_map, count_userId] at hbound
  rw [hlen] at hshort
  have hmul := Nat.mul_le_mul_right
    (runMessages env (before ++ stretch) (controllerStart argv)).state.fairUsers.length hshort
  rw [Nat.succ_eq_add_one] at hmul
  omega

/-- The first job of a user behind two others, with three users. -/
theorem fair_wait_bounded_two_by_two :
    let stretch := [doneOf 11, doneOf 12, doneOf 14]
    let argv := [text "controller", text "1", text "fair"]
    let front := [waitingJob 12 2 1, waitingJob 13 2 2]
    idents ((front ++ [waitingJob 14 3 3]).filter (JobInfo.isOf 3)) <+:
      (ackedDuring .calm argv twoByTwo stretch).filter (JobId.isOf 3) := by
  intro stretch argv front
  have hqueue : waitingAfter .calm argv twoByTwo =
      front ++ waitingJob 14 3 3 :: [waitingJob 15 3 4] := by decide
  exact fair_wait_bounded Env.calm_allocsSucceed (by decide) twoByTwo stretch hqueue (by decide)

end RunnerOrchestrator
