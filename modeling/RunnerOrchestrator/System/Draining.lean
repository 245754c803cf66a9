import RunnerOrchestrator.Controller.Ledger
import RunnerOrchestrator.Foundation.TransitionSystem

/-! # Leaving the main loop

Runners write to the public FIFO and the controller reads in FIFO order; here the
FIFO itself drops nothing. The controller stops after the message that finishes the
shutdown, whatever is still unread.
-/

namespace RunnerOrchestrator.Draining

/-- Where the controller is: in its read loop, past the `break`, or past the main loop. -/
inductive Stage
  | reading | broken | left
deriving Repr, DecidableEq

/-- `sent` and `handled` record the messages of all successful sends and all reads. -/
structure State where
  fifo : List RpcMessage
  sent : List RpcMessage
  handled : List RpcMessage
  world : World
  stage : Stage

inductive Label
  | write (msg : RpcMessage)
  | handle (msg : RpcMessage)
  | leave

inductive Step (env : Env) (s : State) : Label → State → Prop
  | write (msg : RpcMessage) (hthere : s.stage ≠ .left) :
      Step env s (.write msg) { s with fifo := s.fifo ++ [msg], sent := s.sent ++ [msg] }
  | handle {msg : RpcMessage} {rest : List RpcMessage} (hreading : s.stage = .reading)
      (hfifo : s.fifo = msg :: rest) :
      Step env s (.handle msg)
        { s with
          fifo := rest, handled := s.handled ++ [msg]
          world := (controllerHandleMessage env msg s.world).2
          stage := if (controllerHandleMessage env msg s.world).1 then .broken else .reading }
  | leave (hbroken : s.stage = .broken) (hstop : s.world.state.keepRunning = false) :
      Step env s .leave { s with stage := .left }

def start (argv : List CString) : State := ⟨[], [], [], controllerStart argv, .reading⟩

def system (env : Env) (argv : List CString) : TransitionSystem State Label :=
  { init := fun s => s = start argv, step := Step env }

/-! ## Submissions and their answers -/

/-- What a SUBMIT and its answer have in common. -/
structure Submission where
  runnerPid : Int32
  userId : Int32
  commandId : Int64
deriving Repr, DecidableEq

def submissionOf (msg : RpcMessage) : Submission := ⟨msg.senderPid, msg.userId, msg.commandId⟩

def submissions (msgs : List RpcMessage) : List Submission :=
  (msgs.filter fun msg => msg.type = .submit).map submissionOf

/-- An ACK or a SHUTDOWN_ACK that reached the FIFO of its addressee. -/
def answer? : Event → Option Submission
  | .ack _ send | .refusal _ send =>
      if send.delivered then some ⟨send.dest, send.msg.userId, send.msg.commandId⟩ else none
  | .farewell _ | .log _ _ _ | .status _ _ _ => none

def answers (trace : List Event) : List Submission := trace.filterMap answer?

/-- Every SUBMIT sent has an answer of its own. -/
def AllAnswered (s : State) : Prop :=
  (submissions s.sent : Multiset Submission) ≤ answers s.world.trace

instance (s : State) : Decidable (AllAnswered s) :=
  inferInstanceAs (Decidable ((submissions s.sent : Multiset Submission) ≤ _))

def ofJob (k : JobId) : Submission := ⟨k.runnerPid, k.userId, k.commandId⟩

theorem submissions_append (msgs msgs' : List RpcMessage) :
    submissions (msgs ++ msgs') = submissions msgs ++ submissions msgs' := by
  simp [submissions]

theorem submissions_eq_nil_iff {msgs : List RpcMessage} :
    submissions msgs = [] ↔ ∀ msg ∈ msgs, msg.type ≠ .submit := by
  simp [submissions]

/-- Answers are the ACKs of accepted jobs and the refusals of late submissions. -/
theorem answers_perm {env : Env} (hc : env.CallsSucceed) {trace : List Event}
    (h : ∀ e ∈ trace, e.Genuine env) :
    (answers trace : Multiset Submission) =
      (acked trace).map ofJob + ((refused trace).map submissionOf : List Submission) := by
  induction trace with
  | nil => rfl
  | cons e trace ih =>
      have hrest := ih fun e he => h e (List.mem_cons_of_mem _ he)
      have hgenuine := h e List.mem_cons_self
      simp only [answers] at hrest ⊢
      cases e with
      | ack job send =>
          have hsend : send.IsOf env job.runnerPid (ackMessage env job) := hgenuine
          have hanswer : answer? (.ack job send) = some (ofJob job.ident) := by
            simp [answer?, hsend.delivered hc, hsend.dest_eq, hsend.msg_eq, ackMessage, ofJob,
              JobInfo.ident]
          simp only [List.filterMap_cons, hanswer, acked_cons, refused_cons, Event.acked?,
            Event.refused?, Option.toList_some, Option.toList_none, List.nil_append,
            List.singleton_append, List.map_cons]
          rw [← Multiset.cons_coe, hrest, ← Multiset.cons_coe, Multiset.cons_add]
      | refusal msg send =>
          have hsend : send.IsOf env msg.senderPid (shutdownAckMessage env msg) := hgenuine
          have hanswer : answer? (.refusal msg send) = some (submissionOf msg) := by
            simp [answer?, hsend.delivered hc, hsend.dest_eq, hsend.msg_eq, shutdownAckMessage,
              submissionOf]
          simp only [List.filterMap_cons, hanswer, acked_cons, refused_cons, Event.acked?,
            Event.refused?, Option.toList_some, Option.toList_none, List.nil_append,
            List.singleton_append, List.map_cons]
          rw [← Multiset.cons_coe, hrest, ← Multiset.cons_coe, Multiset.add_cons]
      | farewell send => simpa [List.filterMap_cons, answer?] using hrest
      | log job line written => simpa [List.filterMap_cons, answer?] using hrest
      | status dest replies killed => simpa [List.filterMap_cons, answer?] using hrest

/-- Every SUBMIT handled is either accepted or late. -/
theorem submissions_handled (env : Env) (argv : List CString) (msgs : List RpcMessage) :
    (submissions msgs : Multiset Submission) =
      (acceptedJobs env msgs (controllerStart argv)).map ofJob +
        ((lateSubmits msgs).map submissionOf : List Submission) := by
  induction msgs using List.reverseRecOn with
  | nil => rfl
  | append_singleton msgs msg ih =>
      rw [submissions_append, acceptedJobs_snoc, lateSubmits_snoc, ← Multiset.coe_add, ih,
        acceptedJob, run_isShuttingDown]
      by_cases ht : msg.type = .submit
      · cases hlate : msgs.any fun m => m.type == .shutdownReq with
        | true =>
            have hone : submissions [msg] = [submissionOf msg] := by simp [submissions, ht]
            simp only [hone, ht, Bool.true_eq_false, and_false, and_self, if_true, if_false,
              List.append_nil, List.map_append, List.map_cons, List.map_nil, ← Multiset.coe_add]
            rw [add_assoc]
        | false =>
            have hkey : ofJob (submittedJob env msg (runMessages env msgs (controllerStart argv))).ident =
                submissionOf msg := rfl
            simp only [submissions, ht, hkey, List.filter_cons_of_pos, decide_true, List.filter_nil,
              and_self, and_false, if_true, if_false, List.map_append, List.map_cons, List.map_nil,
              List.append_nil, ← Multiset.coe_add, Bool.false_eq_true]
            rw [add_right_comm]
      · simp [submissions, ht]

/-! ## Runs -/

/-- The controller has handled what it has read, and reading keeps the order. -/
structure Linked (env : Env) (argv : List CString) (s : State) : Prop where
  sent : s.sent = s.handled ++ s.fifo
  world : s.world = runMessages env s.handled (controllerStart argv)
  stopped : s.stage ≠ .reading → ∃ past last, s.handled = past ++ [last] ∧
    (controllerHandleMessage env last (runMessages env past (controllerStart argv))).1 = true

theorem Linked.step {env : Env} {argv : List CString} {s s' : State} {l : Label}
    (h : Linked env argv s) (hs : Step env s l s') : Linked env argv s' := by
  cases hs with
  | write msg hthere => exact ⟨by simp [h.sent], h.world, h.stopped⟩
  | @handle msg rest hreading hfifo =>
      refine ⟨by simp [h.sent, hfifo], ?_, fun hstage => ⟨s.handled, msg, rfl, ?_⟩⟩
      · show (controllerHandleMessage env msg s.world).2 = _
        rw [h.world, runMessages_snoc]
      · rw [← h.world]
        by_contra hgo
        exact hstage (if_neg hgo)
  | leave hbroken hstop =>
      exact ⟨h.sent, h.world, fun _ => h.stopped (by simp [hbroken])⟩

/-- Past the `break`, the SUBMITs handled have been answered and nothing else has. -/
theorem Linked.answers_eq {env : Env} (hm : env.AllocsSucceed) (hc : env.CallsSucceed)
    {argv : List CString} {s : State} (h : Linked env argv s) (hstage : s.stage ≠ .reading) :
    (answers s.world.trace : Multiset Submission) = submissions s.handled := by
  obtain ⟨past, last, hhandled, hret⟩ := h.stopped hstage
  obtain ⟨hwaiting, hrunning⟩ := run_stopped hret
  have hbalanced := run_balanced hm argv (past ++ [last])
  have hacked := (balanced_drained hbalanced hwaiting hrunning).1
  rw [h.world, answers_perm hc (run_genuine env argv s.handled), run_refused,
    submissions_handled env argv, hhandled, Multiset.coe_eq_coe.mpr (hacked.map ofJob)]

theorem Linked.allAnswered_iff {env : Env} (hm : env.AllocsSucceed) (hc : env.CallsSucceed)
    {argv : List CString} {s : State} (h : Linked env argv s) (hstage : s.stage ≠ .reading) :
    AllAnswered s ↔ ∀ msg ∈ s.fifo, msg.type ≠ .submit := by
  rw [AllAnswered, h.answers_eq hm hc hstage, h.sent, submissions_append, ← Multiset.coe_add,
    add_le_iff_nonpos_right, Multiset.le_zero, Multiset.coe_eq_zero, submissions_eq_nil_iff]

/-- When the controller has left, every SUBMIT sent has been answered. -/
def LeavesNobody (s : State) : Prop := s.stage = .left → AllAnswered s

/-- The controller leaves with no SUBMIT unread. -/
def NoneUnread (s : State) (l : Label) : Prop := l = .leave → ∀ msg ∈ s.fifo, msg.type ≠ .submit

theorem exactGuard {env : Env} (hm : env.AllocsSucceed) (hc : env.CallsSucceed)
    (argv : List CString) :
    TransitionSystem.ExactGuard (system env argv) LeavesNobody NoneUnread
      (fun s => Linked env argv s ∧ LeavesNobody s) := by
  refine ⟨?_, ?_, fun s h => h.2, ?_⟩
  · rintro s rfl
    exact ⟨⟨rfl, rfl, fun h => absurd rfl h⟩, fun h => by cases h⟩
  · intro s l s' hinv hstep hguard
    have hlinked := hinv.1.step hstep
    refine ⟨hlinked, fun hleft => ?_⟩
    cases hstep with
    | write msg hthere => exact absurd hleft hthere
    | handle hreading hfifo =>
        dsimp only at hleft
        split at hleft <;> cases hleft
    | leave hbroken hstop =>
        exact (hlinked.allAnswered_iff hm hc (by simp)).mpr (hguard rfl)
  · intro s l s' hinv hstep hbad hgood
    have hlinked := hinv.1.step hstep
    apply hbad
    rintro rfl
    cases hstep with
    | leave hbroken hstop => exact (hlinked.allAnswered_iff hm hc (by simp)).mp (hgood rfl)

/-- Along a run every SUBMIT sent before the controller left has been answered exactly
if the controller left with no SUBMIT unread in the FIFO. -/
theorem submissions_answered_iff {env : Env} (hm : env.AllocsSucceed) (hc : env.CallsSucceed)
    {argv : List CString} {past : List (State × Label)} {s : State}
    (h : TransitionSystem.Run (system env argv) past s) :
    (∀ t ∈ TransitionSystem.statesOf past s, LeavesNobody t) ↔ ∀ t ∈ past, NoneUnread t.1 t.2 :=
  (exactGuard hm hc argv).run_iff h

/-- A shutdown with nothing to drain and nobody behind it. -/
theorem submissions_answered_iff_quiet_shutdown :
    ∃ past s, TransitionSystem.Run (system .calm [text "controller"]) past s ∧ s.stage = .left ∧
      ((∀ t ∈ TransitionSystem.statesOf past s, LeavesNobody t) ↔
        ∀ t ∈ past, NoneUnread t.1 t.2) := by
  have hstart : TransitionSystem.Run (system .calm [text "controller"]) [] (start _) := .init rfl
  have hwrite := hstart.step (Step.write (shutdownReq 20) (by decide))
  have hread := hwrite.step (Step.handle rfl rfl)
  have hleft := hread.step (Step.leave (by decide) (by decide))
  exact ⟨_, _, hleft, rfl,
    submissions_answered_iff Env.calm_allocsSucceed Env.calm_callsSucceed hleft⟩

/-- A SUBMIT right behind the SHUTDOWN_REQ is sent, never read and never answered. -/
theorem submission_left_behind :
    ∃ past s, TransitionSystem.Run (system .calm [text "controller"]) past s ∧ s.stage = .left ∧
      submissions s.sent = [⟨11, 1, 11⟩] ∧ answers s.world.trace = [] ∧
      ¬ ∀ t ∈ TransitionSystem.statesOf past s, LeavesNobody t := by
  have hstart : TransitionSystem.Run (system .calm [text "controller"]) [] (start _) := .init rfl
  have hask := hstart.step (Step.write (shutdownReq 20) (by decide))
  have hsubmit := hask.step (Step.write (submitMsg 11 1 (text "a")) (by decide))
  have hread := hsubmit.step (Step.handle rfl rfl)
  have hleft := hread.step (Step.leave (by decide) (by decide))
  refine ⟨_, _, hleft, rfl, by decide, by decide, fun hall => ?_⟩
  have hanswered := hall _ (List.mem_append_right _ (List.mem_singleton_self _)) rfl
  revert hanswered
  decide

end RunnerOrchestrator.Draining
