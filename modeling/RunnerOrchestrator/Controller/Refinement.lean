import RunnerOrchestrator.Controller.Effects
import RunnerOrchestrator.Foundation.SlotBoard

/-! # The controller refines the board

A job is known by the fields of its submission, which no handler changes. Seen
through them, a run of the controller is a run of the board whose moves are what
the trace records: acceptance, ACK and log line.
-/

namespace RunnerOrchestrator

open Removal

/-- The fields of a job that are fixed when it is submitted. -/
structure JobId where
  commandId : Int64
  userId : Int32
  runnerPid : Int32
  startTime : Timeval
deriving Repr, DecidableEq

def JobInfo.ident (job : JobInfo) : JobId :=
  ⟨job.commandId, job.userId, job.runnerPid, job.startTime⟩

@[simp] theorem JobInfo.ident_started (job : JobInfo) : job.started.ident = job.ident := rfl

def idents (q : JobQueue) : List JobId := q.map JobInfo.ident

@[simp] theorem idents_append (q r : JobQueue) : idents (q ++ r) = idents q ++ idents r :=
  List.map_append

theorem removes_idents {q r : JobQueue} {job : JobInfo} (h : Removes q job r) :
    Removes (idents q) job.ident (idents r) := h.map JobInfo.ident

/-! ## What the trace records -/

@[simp] def Event.acked? : Event → Option JobId
  | .ack job _ => some job.ident
  | .refusal _ _ | .farewell _ | .log _ _ _ | .status _ _ _ => none

@[simp] def Event.logged? : Event → Option JobId
  | .log job _ _ => some job.ident
  | .ack _ _ | .refusal _ _ | .farewell _ | .status _ _ _ => none

@[simp] def Event.refused? : Event → Option RpcMessage
  | .refusal msg _ => some msg
  | .ack _ _ | .farewell _ | .log _ _ _ | .status _ _ _ => none

/-- The jobs whose ACK was sent, in order. -/
def acked (trace : List Event) : List JobId := trace.filterMap Event.acked?

/-- The jobs completed, in order, whether `log.txt` could be written or not. -/
def logged (trace : List Event) : List JobId := trace.filterMap Event.logged?

/-- The submissions answered with SHUTDOWN_ACK, in order. -/
def refused (trace : List Event) : List RpcMessage := trace.filterMap Event.refused?

@[simp] theorem acked_nil : acked [] = [] := rfl

@[simp] theorem acked_cons (e : Event) (t : List Event) :
    acked (e :: t) = e.acked?.toList ++ acked t := by
  cases e <;> rfl

@[simp] theorem acked_append (t t' : List Event) : acked (t ++ t') = acked t ++ acked t' :=
  List.filterMap_append

@[simp] theorem acked_status (dest : Int32) (replies : List (List RpcMessage × Bool)) :
    acked (replies.map fun reply => .status dest reply.1 reply.2) = [] := by
  simp [acked]

@[simp] theorem logged_nil : logged [] = [] := rfl

@[simp] theorem logged_cons (e : Event) (t : List Event) :
    logged (e :: t) = e.logged?.toList ++ logged t := by
  cases e <;> rfl

@[simp] theorem logged_append (t t' : List Event) : logged (t ++ t') = logged t ++ logged t' :=
  List.filterMap_append

@[simp] theorem logged_status (dest : Int32) (replies : List (List RpcMessage × Bool)) :
    logged (replies.map fun reply => .status dest reply.1 reply.2) = [] := by
  simp [logged]

@[simp] theorem refused_nil : refused [] = [] := rfl

@[simp] theorem refused_cons (e : Event) (t : List Event) :
    refused (e :: t) = e.refused?.toList ++ refused t := by
  cases e <;> rfl

@[simp] theorem refused_append (t t' : List Event) : refused (t ++ t') = refused t ++ refused t' :=
  List.filterMap_append

/-- The job a message is accepted as: a SUBMIT outside the shutdown. -/
def acceptedJob (env : Env) (msg : RpcMessage) (w : World) : List JobId :=
  if msg.type = .submit ∧ w.state.isShuttingDown = false then [(submittedJob env msg w).ident] else []

theorem acceptedJob_submit {env : Env} {msg : RpcMessage} {w : World} (ht : msg.type = .submit)
    (hlate : ¬ IsLate msg w.state) : acceptedJob env msg w = [(submittedJob env msg w).ident] :=
  if_pos ⟨ht, by simpa [IsLate, ht] using hlate⟩

theorem acceptedJob_other {env : Env} {msg : RpcMessage} {w : World} (ht : msg.type ≠ .submit) :
    acceptedJob env msg w = [] :=
  if_neg fun h => ht h.1

theorem acceptedJob_late {env : Env} {msg : RpcMessage} {w : World} (hlate : IsLate msg w.state) :
    acceptedJob env msg w = [] :=
  if_neg (by simp [hlate.2])

/-- The jobs accepted along a run, in order of arrival. -/
def acceptedJobs (env : Env) : List RpcMessage → World → List JobId
  | [], _ => []
  | msg :: msgs, w =>
      acceptedJob env msg w ++ acceptedJobs env msgs (controllerHandleMessage env msg w).2

theorem acceptedJobs_append (env : Env) (msgs more : List RpcMessage) (w : World) :
    acceptedJobs env (msgs ++ more) w =
      acceptedJobs env msgs w ++ acceptedJobs env more (runMessages env msgs w) := by
  induction msgs generalizing w with
  | nil => rfl
  | cons m msgs ih =>
      simp only [List.cons_append, acceptedJobs, ih, List.append_assoc]
      rfl

theorem acceptedJobs_snoc (env : Env) (msgs : List RpcMessage) (msg : RpcMessage) (w : World) :
    acceptedJobs env (msgs ++ [msg]) w =
      acceptedJobs env msgs w ++ acceptedJob env msg (runMessages env msgs w) := by
  rw [acceptedJobs_append, acceptedJobs, acceptedJobs, List.append_nil]

/-! ## One message is one move -/

variable {limit : Nat}

/-- The board shows the two queues. -/
structure Shows (b : SlotBoard.Board JobId limit) (s : ControllerState) : Prop where
  waiting : b.waiting = idents s.waitingQueue
  running : b.running = idents s.runningQueue

/-- Slot accounting is what makes a state a board. -/
theorem SlotInv.exists_board {s : ControllerState} (h : SlotInv s) (hl : s.parallelLimit = limit) :
    ∃ b : SlotBoard.Board JobId limit, Shows b s := by
  refine ⟨⟨idents s.waitingQueue, idents s.runningQueue, ?_, fun hne => ?_⟩, rfl, rfl⟩
  · rw [idents, List.length_map, ← h.count, ← hl]
    exact h.bounded
  · rw [idents, List.length_map, ← h.count, ← hl]
    exact h.conserving fun hnil => hne (by simp [hnil, idents])

/-- The moves of the policy, seen through the fields fixed at submission. -/
def Picks (P : List JobId → JobId → List JobId → Prop) (s : ControllerState) : Prop :=
  ∀ rand job rest, s.pick rand = some (job, rest) → P (idents s.waitingQueue) job.ident (idents rest)

theorem Served.move {P : List JobId → JobId → List JobId → Prop} {env : Env} {msg : RpcMessage}
    {w : World} {s : ControllerState} {events : List Event} (h : Served env msg w s events)
    (hlate : ¬ IsLate msg w.state) (hP : Picks P w.state) {b b' : SlotBoard.Board JobId limit}
    (hb : Shows b w.state) (hb' : Shows b' s) :
    ∃ a, SlotBoard.Step P b b' a ∧ a.accepted = acceptedJob env msg w ∧
      a.authorised = acked events ∧ a.finished = logged events := by
  have hidle : s.waitingQueue = w.state.waitingQueue → s.runningQueue = w.state.runningQueue →
      SlotBoard.Step P b b' .idle := fun hw hr =>
    .idle (by rw [hb'.waiting, hb.waiting, hw]) (by rw [hb'.running, hb.running, hr])
  cases h with
  | started ht hfree hslot send hsend =>
      refine ⟨.start (submittedJob env msg w).ident, .start _ ?_ ?_ ?_, (acceptedJob_submit ht hlate).symm, rfl, rfl⟩
      · simp [hb.waiting, hfree, idents]
      · simp [hb'.waiting, ControllerState.start, hfree, idents]
      · simp [hb'.running, hb.running, ControllerState.start, idents]
  | queued ht hfull =>
      refine ⟨.queue (submittedJob env msg w).ident, .queue _ ?_ ?_, (acceptedJob_submit ht hlate).symm, rfl, rfl⟩
      · simp [hb'.waiting, hb.waiting, idents]
      · simp [hb'.running, hb.running]
  | completed ht job running hrem hfree line written hlog =>
      refine ⟨.finish job.ident, .finish _ ?_ ?_ ?_, (acceptedJob_other (by simp [ht])).symm, rfl, rfl⟩
      · simp [hb.waiting, hfree, idents]
      · simp [hb'.waiting, hfree, idents]
      · rw [hb.running, hb'.running]
        exact removes_idents (takeFirst_removes hrem)
  | promoted ht job running hrem next rest hpick line written hlog send hsend =>
      refine ⟨.promote job.ident next.ident, .promote _ _ (idents running) ?_ ?_ ?_,
        (acceptedJob_other (by simp [ht])).symm, rfl, rfl⟩
      · rw [hb.waiting, hb'.waiting]
        exact hP _ _ _ hpick
      · rw [hb.running]
        exact removes_idents (takeFirst_removes hrem)
      · simp [hb'.running, ControllerState.start, idents]
  | stray ht hrem => exact ⟨.idle, hidle rfl rfl, (acceptedJob_other (by simp [ht])).symm, rfl, rfl⟩
  | answered ht replies hreplies =>
      refine ⟨.idle, hidle rfl rfl, (acceptedJob_other (by simp [ht])).symm, ?_, ?_⟩
      · simp [SlotBoard.Act.authorised]
      · simp [SlotBoard.Act.finished]
  | asked ht => exact ⟨.idle, hidle rfl rfl, (acceptedJob_other (by simp [ht])).symm, rfl, rfl⟩
  | ignored ht => exact ⟨.idle, hidle rfl rfl, (acceptedJob_other ht.1).symm, rfl, rfl⟩

theorem Handled.move {P : List JobId → JobId → List JobId → Prop} {env : Env} {msg : RpcMessage}
    {w : World} {ret : Bool} {s : ControllerState} {events : List Event}
    (h : Handled env msg w ret s events) (hP : Picks P w.state)
    {b b' : SlotBoard.Board JobId limit} (hb : Shows b w.state) (hb' : Shows b' s) :
    ∃ a, SlotBoard.Step P b b' a ∧ a.accepted = acceptedJob env msg w ∧
      a.authorised = acked events ∧ a.finished = logged events := by
  cases h with
  | refused hlate send hsend =>
      refine ⟨.idle, .idle (hb'.waiting.trans hb.waiting.symm) (hb'.running.trans hb.running.symm),
        (acceptedJob_late hlate).symm, rfl, rfl⟩
  | served hlate h hgo => exact h.move hlate hP hb hb'
  | @finished hlate s events h hstop send hsend =>
      have hshows : Shows b' s := ⟨hb'.waiting, hb'.running⟩
      obtain ⟨a, hstep, hacc, hauth, hfin⟩ := h.move hlate hP hb hshows
      exact ⟨a, hstep, hacc, by simp [hauth], by simp [hfin]⟩

/-! ## Runs -/

/-- The board run behind a run of the controller. -/
structure Refines (P : List JobId → JobId → List JobId → Prop) (limit : Nat) (accepted : List JobId)
    (w : World) (b : SlotBoard.Board JobId limit) (acts : List (SlotBoard.Act JobId)) : Prop where
  run : SlotBoard.Run P (SlotBoard.Board.empty limit) acts b
  shows : Shows b w.state
  accepted : acts.flatMap SlotBoard.Act.accepted = accepted
  authorised : acts.flatMap SlotBoard.Act.authorised = acked w.trace
  finished : acts.flatMap SlotBoard.Act.finished = logged w.trace

theorem Refines.step {P : List JobId → JobId → List JobId → Prop} {env : Env} {accepted : List JobId}
    {w : World} {b : SlotBoard.Board JobId limit} {acts : List (SlotBoard.Act JobId)}
    (h : Refines P limit accepted w b acts) (hm : env.AllocsSucceed) (hslots : SlotInv w.state)
    (hl : w.state.parallelLimit = limit) (hP : Picks P w.state) (msg : RpcMessage) :
    ∃ b' a, SlotBoard.Step P b b' a ∧
      Refines P limit (accepted ++ acceptedJob env msg w) (controllerHandleMessage env msg w).2 b'
        (acts ++ [a]) := by
  obtain ⟨events, htrace, hhandled⟩ := controllerHandleMessage_handled hm msg hslots
  have hnext : SlotInv (controllerHandleMessage env msg w).2.state :=
    controllerHandleMessage_slots hslots
  obtain ⟨b', hb'⟩ := hnext.exists_board ((controllerHandleMessage_config env msg w).1.trans hl)
  obtain ⟨a, hstep, hacc, hauth, hfin⟩ := hhandled.move hP h.shows hb'
  refine ⟨b', a, hstep, h.run.step hstep, hb', ?_, ?_, ?_⟩
  · simp [h.accepted, hacc]
  · simp [h.authorised, hauth, htrace]
  · simp [h.finished, hfin, htrace]

/-- Every run of the controller is a run of the board. -/
theorem run_refines {P : List JobId → JobId → List JobId → Prop} {env : Env}
    (hm : env.AllocsSucceed) (argv : List CString)
    (hP : ∀ s, s.policy = (controllerConfigure argv).policy → Picks P s) (msgs : List RpcMessage) :
    ∃ b acts, Refines P (controllerConfigure argv).parallelLimit
      (acceptedJobs env msgs (controllerStart argv)) (runMessages env msgs (controllerStart argv))
      b acts := by
  induction msgs using List.reverseRecOn with
  | nil => exact ⟨_, [], .start, ⟨rfl, rfl⟩, rfl, rfl, rfl⟩
  | append_singleton msgs msg ih =>
      obtain ⟨b, acts, h⟩ := ih
      obtain ⟨hl, hpol⟩ := run_config env argv msgs
      obtain ⟨b', a, -, hnext⟩ := h.step hm (run_slots env argv msgs) hl (hP _ hpol) msg
      rw [acceptedJobs_snoc, runMessages_snoc]
      exact ⟨b', _, hnext⟩

end RunnerOrchestrator
