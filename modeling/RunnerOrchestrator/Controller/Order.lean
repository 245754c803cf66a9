import RunnerOrchestrator.Controller.Ledger

/-! # The order of authorisation

A policy that takes the first waiting job of a class keeps the arrival order inside
that class, because a submission is started at once only when nobody waits.
-/

namespace RunnerOrchestrator

open Removal

/-- The head leaves. -/
def takesHead (q : List JobId) (k : JobId) (r : List JobId) : Prop := q = k :: r

theorem takesHead_firstOf : SlotBoard.FirstOf (fun _ => true) takesHead := by
  rintro q k r rfl
  simp

theorem picks_takesHead {s : ControllerState} (hrandom : s.policy ≠ text "random")
    (hfair : s.policy ≠ text "fair") : Picks takesHead s := by
  intro rand job rest h
  rw [ControllerState.pick_fcfs_eq hrandom hfair] at h
  cases hq : s.waitingQueue with
  | nil => simp [hq, queueDequeue] at h
  | cons head tail =>
      obtain ⟨rfl, rfl⟩ : head = job ∧ tail = rest := by simpa [hq, queueDequeue] using h
      rfl

/-- Class by class, the ACKs sent and the jobs still waiting are the accepted jobs in
order of arrival. -/
theorem run_order {P : List JobId → JobId → List JobId → Prop} {c : JobId → Bool}
    (hfirst : SlotBoard.FirstOf c P) {env : Env} (hm : env.AllocsSucceed) {argv : List CString}
    (hP : ∀ s, s.policy = (controllerConfigure argv).policy → Picks P s) (msgs : List RpcMessage) :
    (acked (runMessages env msgs (controllerStart argv)).trace).filter c ++
        (idents (runMessages env msgs (controllerStart argv)).state.waitingQueue).filter c =
      (acceptedJobs env msgs (controllerStart argv)).filter c := by
  obtain ⟨b, acts, h⟩ := run_refines hm argv hP msgs
  have horder := h.run.order hfirst
  rw [h.accepted, h.authorised, h.shows.waiting] at horder
  simpa [SlotBoard.Board.empty] using horder.symm

/-- First come, first served: the ACKs sent so far, followed by the waiting queue, are
the accepted submissions in order of arrival. -/
theorem fcfs_order {env : Env} (hm : env.AllocsSucceed) {argv : List CString}
    (hrandom : (controllerConfigure argv).policy ≠ text "random")
    (hfair : (controllerConfigure argv).policy ≠ text "fair") (msgs : List RpcMessage) :
    let w := runMessages env msgs (controllerStart argv)
    acked w.trace ++ idents w.state.waitingQueue = acceptedJobs env msgs (controllerStart argv) ∧
      ∀ job send, Event.ack job send ∈ w.trace →
        send.dest = job.runnerPid ∧ send.msg = ackMessage env job := by
  refine ⟨?_, fun job send he => ?_⟩
  · have horder := run_order takesHead_firstOf hm
      (fun s hs => picks_takesHead (hs ▸ hrandom) (hs ▸ hfair)) msgs
    simpa using horder
  · have hsend : send.IsOf env job.runnerPid (ackMessage env job) := run_genuine env argv msgs _ he
    exact ⟨hsend.dest_eq, hsend.msg_eq⟩

theorem fcfs_order_one_slot :
    let start := controllerStart [text "controller", text "1"]
    let w := runMessages .calm (drainingDay.take 5) start
    acked w.trace ++ idents w.state.waitingQueue =
        acceptedJobs .calm (drainingDay.take 5) start ∧
      ∀ job send, Event.ack job send ∈ w.trace →
        send.dest = job.runnerPid ∧ send.msg = ackMessage .calm job :=
  fcfs_order Env.calm_allocsSucceed (by decide) (by decide) (drainingDay.take 5)

/-! ## Each user's own order -/

/-- The first waiting job of a user leaves before the others of that user. -/
def takesFirstOf (u : Int32) (q : List JobId) (k : JobId) (r : List JobId) : Prop :=
  (q.filter fun job => job.userId == u) =
    (if k.userId == u then [k] else []) ++ r.filter fun job => job.userId == u

theorem filter_idents (q : JobQueue) (u : Int32) :
    ((idents q).filter fun job => job.userId == u) =
      idents (q.filter fun job => job.userId == u) := by
  simp only [idents, List.filter_map]
  rfl

theorem picks_takesFirstOf {s : ControllerState} (hfair : s.policy = text "fair") (u : Int32) :
    Picks (takesFirstOf u) s := by
  intro rand job rest h
  obtain ⟨last, hout⟩ := ControllerState.pick_fair_eq hfair h
  have htake := queueDequeueFair_takeFirst hout
  have hfirst := takeFirst_filter (c := fun j : JobInfo => j.userId == u) htake (by
    intro hjob y hy
    have hnext : job.userId = u := by simpa using hjob
    have huser : y.userId = u := by simpa using hy
    simp [hnext, huser])
  show takesFirstOf u (idents s.waitingQueue) job.ident (idents rest)
  rw [takesFirstOf, filter_idents, filter_idents, hfirst, idents_append]
  by_cases hu : job.userId = u
  · simp [hu, JobInfo.ident, idents]
  · simp [hu, JobInfo.ident, idents]

/-- Under "fair" the ACKs sent to a user, followed by the user's waiting jobs, are the
user's accepted submissions in order of arrival. -/
theorem fair_user_order {env : Env} (hm : env.AllocsSucceed) {argv : List CString}
    (hpolicy : (controllerConfigure argv).policy = text "fair") (msgs : List RpcMessage) (u : Int32) :
    let w := runMessages env msgs (controllerStart argv)
    ((acked w.trace).filter fun job => job.userId == u) ++
          ((idents w.state.waitingQueue).filter fun job => job.userId == u) =
        ((acceptedJobs env msgs (controllerStart argv)).filter fun job => job.userId == u) ∧
      ∀ job send, Event.ack job send ∈ w.trace →
        send.dest = job.runnerPid ∧ send.msg = ackMessage env job := by
  refine ⟨?_, fun job send he => ?_⟩
  · have hfirst : SlotBoard.FirstOf (fun job : JobId => job.userId == u) (takesFirstOf u) :=
      fun _ _ _ h => h
    exact run_order hfirst hm (fun s hs => picks_takesFirstOf (hs.trans hpolicy) u) msgs
  · have hsend : send.IsOf env job.runnerPid (ackMessage env job) := run_genuine env argv msgs _ he
    exact ⟨hsend.dest_eq, hsend.msg_eq⟩

theorem fair_user_order_draining_day :
    let start := controllerStart [text "controller", text "1", text "fair"]
    let w := runMessages .calm (drainingDay.take 5) start
    ((acked w.trace).filter fun job => job.userId == 2) ++
          ((idents w.state.waitingQueue).filter fun job => job.userId == 2) =
        ((acceptedJobs .calm (drainingDay.take 5) start).filter fun job => job.userId == 2) ∧
      ∀ job send, Event.ack job send ∈ w.trace →
        send.dest = job.runnerPid ∧ send.msg = ackMessage .calm job :=
  fair_user_order Env.calm_allocsSucceed (by decide) (drainingDay.take 5) 2

end RunnerOrchestrator
