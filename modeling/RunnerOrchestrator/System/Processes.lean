import RunnerOrchestrator.Runner.Process
import RunnerOrchestrator.System.Orchestra

/-! # The runners as they are programmed

In place of a phase every PID has the actions of its process so far, any beginning of what
its `main` may do, with failing calls and replies of any kind. Such runners, any number of
them and in any order, do nothing that the runners of the system with phases cannot do.
-/

namespace RunnerOrchestrator.Processes

open Orchestra (Phase askMsg endsWait newReplies)
open Removal
open Descriptors (Fd)

/-! ## What is seen of a process -/

inductive Seen
  | sends (msg : RpcMessage)
  | reads (msg : RpcMessage)
  | returns
deriving DecidableEq

/-- A message that did not enter the public FIFO is not seen. -/
def seen : Action → Option Seen
  | .sent send => if send.delivered then some (.sends send.msg) else none
  | .read msg => some (.reads msg)
  | .executed _ => some .returns
  | .created | .printed _ | .opened _ | .closed | .destroyed => none

def visible (actions : List Action) : List Seen := actions.filterMap seen

@[simp] theorem visible_nil : visible [] = [] := rfl

@[simp] theorem visible_cons (a : Action) (actions : List Action) :
    visible (a :: actions) = (seen a).toList ++ visible actions := by
  cases h : seen a with
  | none => simp [visible, List.filterMap_cons_none h]
  | some x => simp [visible, List.filterMap_cons_some h]

@[simp] theorem visible_append (a b : List Action) : visible (a ++ b) = visible a ++ visible b :=
  List.filterMap_append

/-- A beginning of what the runner with this PID and request may do. -/
def Possible (requests : Int32 → RunnerRequest) (pid : Int32) (history : List Seen) : Prop :=
  ∃ (e : RunnerEnv) (t : FdTable), e.env.getpid = pid ∧
    history <+: visible (runnerRun e (requests pid) t).actions

/-! ## The system -/

structure State where
  history : Int32 → List Seen
  server : List RpcMessage
  inbox : Int32 → List RpcMessage
  handled : List RpcMessage
  world : World
  left : Bool

inductive Label
  | sends (pid : Int32) (msg : RpcMessage)
  | reads (pid : Int32) (msg : RpcMessage)
  | returns (pid : Int32)
  | handle (msg : RpcMessage)

/-- The history of one process with one more action. -/
def State.record (s : State) (pid : Int32) (a : Seen) : Int32 → List Seen :=
  Function.update s.history pid (s.history pid ++ [a])

inductive Step (env : Env) (requests : Int32 → RunnerRequest) (s : State) : Label → State → Prop
  | sends (pid : Int32) (msg : RpcMessage)
      (hnext : Possible requests pid (s.history pid ++ [.sends msg])) :
      Step env requests s (.sends pid msg)
        { s with history := s.record pid (.sends msg), server := s.server ++ [msg] }
  | reads (pid : Int32) {msg : RpcMessage} {rest : List RpcMessage}
      (hnext : Possible requests pid (s.history pid ++ [.reads msg]))
      (hread : Removes (s.inbox pid) msg rest) :
      Step env requests s (.reads pid msg)
        { s with
          history := s.record pid (.reads msg)
          inbox := Function.update s.inbox pid rest }
  | returns (pid : Int32) (hnext : Possible requests pid (s.history pid ++ [.returns])) :
      Step env requests s (.returns pid) { s with history := s.record pid .returns }
  | handle {msg : RpcMessage} {rest : List RpcMessage} (hthere : s.left = false)
      (hread : Removes s.server msg rest) :
      Step env requests s (.handle msg)
        { s with
          server := rest
          inbox := fun pid =>
            s.inbox pid ++ newReplies s.world (controllerHandleMessage env msg s.world).2 pid
          handled := s.handled ++ [msg]
          world := (controllerHandleMessage env msg s.world).2
          left := (controllerHandleMessage env msg s.world).1 }

def start (argv : List CString) : State :=
  { history := fun _ => [], server := [], inbox := fun _ => [], handled := []
    world := controllerStart argv, left := false }

def system (env : Env) (argv : List CString) (requests : Int32 → RunnerRequest) :
    TransitionSystem State Label :=
  { init := fun s => s = start argv, step := Step env requests }

/-! ## The phase of a process -/

section Phases

variable (requests : Int32 → RunnerRequest) (pid : Int32)

/-- What a process in a phase may do next, and its phase then. -/
def next : Phase → Seen → Option Phase
  | .idle, .sends msg =>
      if (requests pid).mode = .execute then
        if msg = submitMsg pid (requests pid).userId (requests pid).command then some .submitted else none
      else if msg = askMsg requests pid then some .asked
      else none
  | .submitted, .reads msg => some (if isAuthorised msg then .executing msg else .rejected)
  | .executing msg, .returns => some (.executed msg)
  | .executed ackMsg, .sends msg => if msg = msgDone pid ackMsg then some .notified else none
  | .asked, .reads msg => some (if endsWait requests pid msg then .closed else .asked)
  | _, _ => none

def phaseAfter (history : List Seen) (p : Phase) : Option Phase := history.foldlM (next requests pid) p

/-- The ways in which a phase moves on. -/
inductive Moves : Phase → Seen → Phase → Prop
  | submit (hmode : (requests pid).mode = .execute) :
      Moves .idle (.sends (submitMsg pid (requests pid).userId (requests pid).command)) .submitted
  | ask (hmode : (requests pid).mode ≠ .execute) : Moves .idle (.sends (askMsg requests pid)) .asked
  | authorise {msg : RpcMessage} (hack : isAuthorised msg = true) :
      Moves .submitted (.reads msg) (.executing msg)
  | reject {msg : RpcMessage} (hack : isAuthorised msg = false) :
      Moves .submitted (.reads msg) .rejected
  | finish (msg : RpcMessage) : Moves (.executing msg) .returns (.executed msg)
  | notify (msg : RpcMessage) : Moves (.executed msg) (.sends (msgDone pid msg)) .notified
  | reply (msg : RpcMessage) :
      Moves .asked (.reads msg) (if endsWait requests pid msg then .closed else .asked)

variable {requests pid}

@[simp] theorem phaseAfter_nil (p : Phase) : phaseAfter requests pid [] p = some p := rfl

@[simp] theorem phaseAfter_cons (a : Seen) (history : List Seen) (p : Phase) :
    phaseAfter requests pid (a :: history) p =
      (next requests pid p a).bind (phaseAfter requests pid history) := rfl

@[simp] theorem phaseAfter_append (a b : List Seen) (p : Phase) :
    phaseAfter requests pid (a ++ b) p =
      (phaseAfter requests pid a p).bind (phaseAfter requests pid b) := by
  simp only [phaseAfter, List.foldlM_append]
  rfl

theorem moves_of_next {p p' : Phase} {a : Seen} (h : next requests pid p a = some p') :
    Moves requests pid p a p' := by
  unfold next at h
  split at h
  · split at h
    · rename_i hmode
      split at h
      · rename_i hmsg
        cases h
        rw [hmsg]
        exact .submit hmode
      · cases h
    · rename_i hmode
      split at h
      · rename_i hmsg
        cases h
        rw [hmsg]
        exact .ask hmode
      · cases h
  · cases h
    split
    · rename_i hack
      exact .authorise hack
    · rename_i hack
      exact .reject (Bool.not_eq_true _ ▸ hack)
  · cases h
    exact .finish _
  · split at h
    · rename_i hmsg
      cases h
      rw [hmsg]
      exact .notify _
    · cases h
  · cases h
    exact .reply _
  · cases h

variable (requests pid) in
/-- The actions are those of a process in phase `p`. -/
def Follows (actions : List Action) (p : Phase) : Prop :=
  (phaseAfter requests pid (visible actions) p).isSome

theorem Follows.append {a b : List Action} {p p' : Phase}
    (ha : phaseAfter requests pid (visible a) p = some p') (hb : Follows requests pid b p') :
    Follows requests pid (a ++ b) p := by
  rw [Follows, visible_append, phaseAfter_append, ha]
  exact hb

/-- A message that was sent without an error has been delivered. -/
theorem delivered_of_result {env : Env} {ios : Nat} {dest : Int32} {msg : RpcMessage} {result : Int}
    (h : (ipcSendAtomic env ios dest msg).1.result = some result) (hsent : result ≠ -1) :
    (ipcSendAtomic env ios dest msg).1.delivered = true := by
  unfold ipcSendAtomic at h ⊢
  split at h
  · rename_i hopen
    rw [if_pos hopen]
    split at h
    · cases h
    · rename_i hpipe
      rw [if_neg hpipe]
      by_contra hwrite
      simp [hwrite] at h
      exact hsent h.symm
  · rename_i hopen
    simp at h
    exact absurd h.symm hsent

/-- However the sending of its next message ends, a process has kept to the phases so far. -/
theorem afterSend_follows {env : Env} {ios : Nat} {dest : Int32} {msg : RpcMessage}
    {p p' : Phase} {u : FdTable} {failed sent : Exit} (past : List Action)
    (hpast : phaseAfter requests pid (visible past) .idle = some p)
    (hnext : next requests pid p (.sends msg) = some p')
    (hfailed : visible failed.actions =
      visible (past ++ [.sent (ipcSendAtomic env ios dest msg).1]))
    (hsent : phaseAfter requests pid
        (visible (past ++ [.sent (ipcSendAtomic env ios dest msg).1])) .idle = some p' →
      Follows requests pid sent.actions .idle) :
    Follows requests pid (afterSend (ipcSendAtomic env ios dest msg).1
      (past ++ [.sent (ipcSendAtomic env ios dest msg).1]) u failed sent).actions .idle := by
  have hbefore : Follows requests pid (past ++ [.sent (ipcSendAtomic env ios dest msg).1]) .idle := by
    apply Follows.append hpast
    cases hdelivered : (ipcSendAtomic env ios dest msg).1.delivered with
    | true => simp [Follows, seen, hnext, hdelivered]
    | false => simp [Follows, seen, hdelivered]
  unfold afterSend
  split
  · exact hbefore
  · rename_i result hresult
    split
    · rw [Follows, hfailed]
      exact hbefore
    · rename_i hreturned
      apply hsent
      simp [seen, hpast, hnext, delivered_of_result hresult hreturned]

theorem withFifo_follows {e : RunnerEnv} {t : FdTable} {before : List Action} {p : Phase}
    {rest : Fd → FdTable → Exit}
    (hbefore : phaseAfter requests pid (visible before) .idle = some p)
    (hrest : ∀ fd t, Follows requests pid (rest fd t).actions .idle) :
    Follows requests pid (withFifo e before t rest).actions .idle := by
  unfold withFifo
  split
  · exact Follows.append hbefore rfl
  · exact hrest _ _

theorem statusLoop_follows (hmode : (requests pid).mode = .status) (msgs : List RpcMessage) :
    Follows requests pid (statusLoop msgs) .asked := by
  induction msgs with
  | nil => rfl
  | cons msg msgs ih =>
      unfold statusLoop
      unfold Follows at ih ⊢
      by_cases hend : msg.type = .statusEnd
      · simp [seen, next, endsWait, hmode, hend]
      · by_cases hresp : msg.type = .statusResp
        · simpa [seen, next, endsWait, hmode, hresp] using ih
        · simpa [seen, next, endsWait, hmode, hresp, hend] using ih

theorem shutdownLoop_follows (hmode : (requests pid).mode = .shutdown) (msgs : List RpcMessage) :
    Follows requests pid (shutdownLoop msgs) .asked := by
  induction msgs with
  | nil => rfl
  | cons msg msgs ih =>
      unfold shutdownLoop
      unfold Follows at ih ⊢
      by_cases hack : msg.type = .shutdownAck
      · simp [seen, next, endsWait, hmode, hack]
      · simpa [seen, next, endsWait, hmode, hack] using ih

section Runs

variable {e : RunnerEnv} (t : FdTable) (hpid : e.env.getpid = pid)

include hpid

theorem runnerRunStatus_follows (hmode : (requests pid).mode = .status) :
    Follows requests pid (runnerRunStatus e t).actions .idle := by
  have hask : next requests pid .idle (.sends (statusReq e.env.getpid)) = some .asked := by
    simp [next, hmode, askMsg, hpid]
  unfold runnerRunStatus
  split
  · rfl
  · refine afterSend_follows [.created] rfl hask (by simp [seen]) fun hsent => ?_
    apply withFifo_follows hsent
    intro fd t'
    rw [List.append_assoc, List.append_assoc]
    refine Follows.append hsent ?_
    simpa [Follows, seen] using statusLoop_follows hmode e.reads

theorem runnerRunShutdown_follows (hmode : (requests pid).mode = .shutdown) :
    Follows requests pid (runnerRunShutdown e t).actions .idle := by
  have hask : next requests pid .idle (.sends (shutdownReq e.env.getpid)) = some .asked := by
    simp [next, hmode, askMsg, hpid]
  unfold runnerRunShutdown
  split
  · rfl
  · refine afterSend_follows [.created] rfl hask (by simp [seen]) fun hsent => ?_
    have hwaiting : phaseAfter requests pid (visible ([.created,
        .sent (ipcSendAtomic e.env 0 serverFifo (shutdownReq e.env.getpid)).1] ++
        [.printed (text "[runner] sent shutdown notification\n"),
          .printed (text "[runner] waiting for controller to shutdown...\n")])) .idle =
        some .asked := by
      rw [visible_append]
      simpa [seen] using hsent
    apply withFifo_follows hwaiting
    intro fd t'
    rw [List.append_assoc, List.append_assoc]
    refine Follows.append hwaiting ?_
    simpa [Follows, seen] using shutdownLoop_follows hmode e.reads

/-- The part of an execution behind the submission. -/
theorem awaitAck_follows {userId : Int32} {command : CString} {ios : Nat} {before : List Action}
    {fd : Fd} (hbefore : phaseAfter requests pid (visible before) .idle = some .submitted) :
    Follows requests pid (awaitAck e userId command ios before fd t).actions .idle := by
  unfold awaitAck
  dsimp only
  split
  · rw [List.append_assoc]
    exact Follows.append hbefore rfl
  · rename_i ackMsg _ _
    split
    · rename_i hack
      have hdone : next requests pid (.executed ackMsg) (.sends (msgDone e.env.getpid ackMsg)) =
          some .notified := by
        simp [next, hpid]
      have hran : visible (runCommand e userId command ackMsg t).1 = [.returns] := by
        unfold runCommand
        split <;> simp [seen]
      have hexecuted : phaseAfter requests pid (visible (before ++ [.opened fd, .read ackMsg] ++
          (runCommand e userId command ackMsg t).1)) .idle = some (.executed ackMsg) := by
        rw [List.append_assoc, visible_append, phaseAfter_append, hbefore]
        simp [seen, hran, next, hack]
      refine afterSend_follows _ hexecuted hdone (by simp [seen]) fun hsent => ?_
      exact Follows.append hsent (by simp [Follows, seen])
    · rename_i hack
      rw [List.append_assoc]
      refine Follows.append hbefore ?_
      simp [Follows, seen, next, hack]

theorem runnerRunExecute_follows (hmode : (requests pid).mode = .execute) :
    Follows requests pid
      (runnerRunExecute e (requests pid).userId (requests pid).command t).actions .idle := by
  have hsubmit : next requests pid .idle
      (.sends (submitMsg e.env.getpid (requests pid).userId (requests pid).command)) =
      some .submitted := by
    simp [next, hmode, hpid]
  unfold runnerRunExecute
  split
  · rfl
  · refine afterSend_follows [.created, .printed _] rfl hsubmit (by simp [seen])
      fun hsent => ?_
    apply withFifo_follows hsent
    intro fd t'
    exact awaitAck_follows t' hpid hsent

/-- Whatever fails and whatever comes back, a process keeps to the phases. -/
theorem runnerRun_follows : Follows requests pid (runnerRun e (requests pid) t).actions .idle := by
  cases hmode : (requests pid).mode with
  | status =>
      rw [runnerRun, hmode]
      exact runnerRunStatus_follows t hpid hmode
  | shutdown =>
      rw [runnerRun, hmode]
      exact runnerRunShutdown_follows t hpid hmode
  | execute =>
      rw [runnerRun, hmode]
      exact runnerRunExecute_follows t hpid hmode

end Runs

end Phases

/-! ## Processes and phases side by side -/

/-- The two systems agree, and each process is in the phase of its PID. -/
structure Matches (requests : Int32 → RunnerRequest) (c : State) (o : Orchestra.State) : Prop where
  server : o.server = c.server
  inbox : o.inbox = c.inbox
  handled : o.handled = c.handled
  world : o.world = c.world
  left : o.left = c.left
  phase : ∀ pid, phaseAfter requests pid (c.history pid) .idle = some (o.phase pid)

section Matches

variable {env : Env} {requests : Int32 → RunnerRequest} {c : State} {o : Orchestra.State}

/-- The next action of a process is one that its phase allows. -/
theorem Matches.moves (h : Matches requests c o) {pid : Int32} {a : Seen}
    (hnext : Possible requests pid (c.history pid ++ [a])) :
    ∃ p, Moves requests pid (o.phase pid) a p ∧
      ∀ q, phaseAfter requests q (c.record pid a q) .idle = some (Function.update o.phase pid p q) := by
  obtain ⟨e, t, hpid, rest, hrest⟩ := hnext
  have hfollows : Follows requests pid (runnerRun e (requests pid) t).actions .idle :=
    runnerRun_follows t hpid
  rw [Follows, ← hrest, phaseAfter_append, phaseAfter_append, h.phase pid, Option.bind_some,
    phaseAfter_cons] at hfollows
  cases hp : next requests pid (o.phase pid) a with
  | none =>
      rw [hp] at hfollows
      cases hfollows
  | some p =>
      refine ⟨p, moves_of_next hp, fun q => ?_⟩
      by_cases hq : q = pid
      · subst hq
        simp [State.record, h.phase q, hp]
      · rw [State.record, Function.update_of_ne hq, Function.update_of_ne hq]
        exact h.phase q

/-- A process that moves on is a step of the runner with its PID. -/
theorem Matches.step (h : Matches requests c o) {l : Label} {c' : State}
    (hstep : Step env requests c l c') :
    ∃ l' o', Orchestra.Step env requests o l' o' ∧ Matches requests c' o' := by
  cases hstep with
  | sends pid msg hnext =>
      obtain ⟨p, hmoves, hphase⟩ := h.moves hnext
      generalize hnow : o.phase pid = now at hmoves
      cases hmoves with
      | submit hmode =>
          exact ⟨_, _, .submit pid hmode hnow, by rw [h.server], h.inbox, h.handled, h.world, h.left,
            hphase⟩
      | ask hmode =>
          exact ⟨_, _, .ask pid hmode hnow, by rw [h.server], h.inbox, h.handled, h.world, h.left,
            hphase⟩
      | notify ackMsg =>
          exact ⟨_, _, .notify pid hnow, by rw [h.server], h.inbox, h.handled, h.world, h.left, hphase⟩
  | @reads pid msg rest hnext hread =>
      obtain ⟨p, hmoves, hphase⟩ := h.moves hnext
      rw [← h.inbox] at hread
      generalize hnow : o.phase pid = now at hmoves
      cases hmoves with
      | authorise hack =>
          exact ⟨_, _, .authorise pid hnow hread hack, h.server, by rw [h.inbox], h.handled, h.world,
            h.left, hphase⟩
      | reject hack =>
          exact ⟨_, _, .reject pid hnow hread hack, h.server, by rw [h.inbox], h.handled, h.world,
            h.left, hphase⟩
      | reply =>
          exact ⟨_, _, .reply pid hnow hread, h.server, by rw [h.inbox], h.handled, h.world, h.left,
            hphase⟩
  | returns pid hnext =>
      obtain ⟨p, hmoves, hphase⟩ := h.moves hnext
      generalize hnow : o.phase pid = now at hmoves
      cases hmoves with
      | finish msg =>
          exact ⟨_, _, .finish pid hnow, h.server, h.inbox, h.handled, h.world, h.left, hphase⟩
  | handle hthere hread =>
      rw [← h.server] at hread
      exact ⟨_, _, .handle (by rw [h.left]; exact hthere) hread, rfl, by rw [h.inbox, h.world],
        by rw [h.handled], by rw [h.world], by rw [h.world], h.phase⟩

/-- The processes reach nothing that the phases do not reach. -/
theorem exists_matches {argv : List CString}
    (h : TransitionSystem.Reachable (system env argv requests) c) :
    ∃ o, TransitionSystem.Reachable (Orchestra.system env argv requests) o ∧ Matches requests c o := by
  refine h.simulates (fun c hc => ?_) fun c l c' o _ _ hmatches hstep => .inr (hmatches.step hstep)
  obtain rfl : c = start argv := hc
  exact ⟨Orchestra.start argv, rfl, rfl, rfl, rfl, rfl, rfl, fun _ => rfl⟩

end Matches

/-! ## What the controller's limit means for the processes -/

section Trail

variable {requests : Int32 → RunnerRequest} {pid : Int32}

variable (requests pid) in
/-- All that a process in a phase has done. -/
def Trail : Phase → List Seen → Prop
  | .idle, history => history = []
  | .submitted, history =>
      history = [.sends (submitMsg pid (requests pid).userId (requests pid).command)]
  | .executing msg, history =>
      history = [.sends (submitMsg pid (requests pid).userId (requests pid).command), .reads msg] ∧
        isAuthorised msg = true
  | .executed msg, history =>
      history = [.sends (submitMsg pid (requests pid).userId (requests pid).command), .reads msg,
        .returns] ∧ isAuthorised msg = true
  | .notified, history => ∃ msg,
      history = [.sends (submitMsg pid (requests pid).userId (requests pid).command), .reads msg,
        .returns, .sends (msgDone pid msg)] ∧ isAuthorised msg = true
  | .rejected, history => ∃ msg,
      history = [.sends (submitMsg pid (requests pid).userId (requests pid).command), .reads msg] ∧
        isAuthorised msg = false
  | .asked, history | .closed, history => (requests pid).mode ≠ .execute ∧ .returns ∉ history

/-- By induction on the history, the last action first. -/
theorem trail_of_phaseAfter {history : List Seen} {p : Phase}
    (h : phaseAfter requests pid history .idle = some p) : Trail requests pid p history := by
  induction history using List.reverseRecOn generalizing p with
  | nil =>
      cases h
      rfl
  | append_singleton history a ih =>
      rw [phaseAfter_append] at h
      obtain ⟨p₀, hp₀, hnext⟩ := Option.bind_eq_some_iff.mp h
      have htrail := ih hp₀
      rw [phaseAfter_cons] at hnext
      obtain ⟨p₁, hp₁, hlast⟩ := Option.bind_eq_some_iff.mp hnext
      cases hlast
      cases moves_of_next hp₁ with
      | submit hmode => rw [htrail]; rfl
      | ask hmode => exact ⟨hmode, by rw [htrail]; simp⟩
      | authorise hack => exact ⟨by rw [htrail]; rfl, hack⟩
      | reject hack => exact ⟨_, by rw [htrail]; rfl, hack⟩
      | finish msg => exact ⟨by rw [htrail.1]; rfl, htrail.2⟩
      | notify msg => exact ⟨msg, by rw [htrail.1]; rfl, htrail.2⟩
      | reply msg =>
          obtain ⟨hmode, hnone⟩ := htrail
          split
          · exact ⟨hmode, by simpa using hnone⟩
          · exact ⟨hmode, by simpa using hnone⟩

/-- The process has read its ACK and has not sent its DONE. -/
def AtWork (history : List Seen) : Prop :=
  (∃ msg, .reads msg ∈ history ∧ msg.type = .ack) ∧ ∀ msg, .sends msg ∈ history → msg.type ≠ .done

theorem Trail.atWork {history : List Seen} {p : Phase} (h : Trail requests pid p history)
    (hmode : (requests pid).mode = .execute) (hwork : AtWork history) : p.AtWork := by
  obtain ⟨⟨msg, hread, hack⟩, hsent⟩ := hwork
  cases p with
  | executing _ | executed _ => trivial
  | idle | submitted =>
      simp only [Trail] at h
      simp [h] at hread
  | notified =>
      obtain ⟨ackMsg, hhistory, -⟩ := h
      exact absurd rfl (hsent (msgDone pid ackMsg) (by simp [hhistory]))
  | rejected =>
      obtain ⟨other, hhistory, hother⟩ := h
      have hsame : msg = other := by simpa [hhistory] using hread
      simp [← hsame, isAuthorised, hack] at hother
  | asked | closed => exact absurd hmode h.1

theorem Trail.returns_le_one {history : List Seen} {p : Phase} (h : Trail requests pid p history) :
    history.count .returns ≤ 1 := by
  cases p with
  | idle | submitted =>
      simp only [Trail] at h
      simp [h]
  | executing _ | executed _ =>
      rw [h.1]
      simp
  | notified | rejected =>
      obtain ⟨msg, hhistory, -⟩ := h
      rw [hhistory]
      simp
  | asked | closed =>
      rw [List.count_eq_zero.mpr h.2]
      exact Nat.zero_le 1

end Trail

/-- Runners as they are programmed, whatever fails in them, keep to the limit: every state
they reach with the controller is one of the system with phases, no more of them than there
are slots have their ACK without having sent their DONE, none of these and no ACK is left
when the controller leaves, and none executes twice. -/
theorem processes_orderly {env : Env} (hm : env.AllocsSucceed) (hc : env.CallsSucceed)
    {argv : List CString} {requests : Int32 → RunnerRequest} {c : State}
    (h : TransitionSystem.Reachable (system env argv requests) c) :
    (∃ o, TransitionSystem.Reachable (Orchestra.system env argv requests) o ∧
      Matches requests c o) ∧
    (∀ pids : List Int32, pids.Nodup →
      (∀ pid ∈ pids, (requests pid).mode = .execute ∧ AtWork (c.history pid)) →
      pids.length ≤ (controllerConfigure argv).parallelLimit) ∧
    (c.left = true → ∀ pid, (requests pid).mode = .execute →
      ¬ AtWork (c.history pid) ∧ ∀ msg ∈ c.inbox pid, msg.type ≠ .ack) ∧
    ∀ pid, (c.history pid).count .returns ≤ 1 := by
  obtain ⟨o, ho, hmatches⟩ := exists_matches h
  have hinv := Orchestra.inv_of_reachable hm hc ho
  have htrail : ∀ pid, Trail requests pid (o.phase pid) (c.history pid) := fun pid =>
    trail_of_phaseAfter (hmatches.phase pid)
  refine ⟨⟨o, ho, hmatches⟩, fun pids hnodup hwork => ?_, fun hleft pid hmode => ?_, fun pid =>
    (htrail pid).returns_le_one⟩
  · apply hinv.atWork_le_limit hnodup
    intro pid hpid
    obtain ⟨hmode, hatWork⟩ := hwork pid hpid
    exact (htrail pid).atWork hmode hatWork
  · rw [← hmatches.left] at hleft
    obtain ⟨hidle, hread⟩ := hinv.exit hleft pid
    rw [hmatches.inbox] at hread
    exact ⟨fun hatWork => hidle ((htrail pid).atWork hmode hatWork), hread⟩

/-- A runner whose calls succeed. -/
def calmRunner (pid : Int32) (reads : List RpcMessage) : RunnerEnv where
  env := { Env.calm with getpid := pid }
  kernel := .calm
  mkfifo := .made
  openFifo t := some (Descriptors.above t)
  openFifo_free h := by
    cases h
    exact Descriptors.notMem_above (Nat.le_refl _)
  reads := reads

def firstAck : RpcMessage :=
  { RpcMessage.zero with type := .ack, senderPid := 100, userId := 11, commandId := 11 }

/-- One slot: runner 11 has its ACK, and no other can be at work. -/
theorem processes_orderly_one_slot :
    ∃ c, TransitionSystem.Reachable (system .calm [text "controller", text "1"]
          fun pid => ⟨.execute, pid, text "a"⟩) c ∧
        c.history 11 = [.sends (submitMsg 11 11 (text "a")), .reads firstAck] ∧
        ∀ pids : List Int32, pids.Nodup → (∀ pid ∈ pids, AtWork (c.history pid)) → pids.length ≤ 1 := by
  have hstart : TransitionSystem.Reachable (system .calm [text "controller", text "1"]
      fun pid => ⟨.execute, pid, text "a"⟩) (start _) := .init rfl
  have hsent := hstart.step (Step.sends 11 (submitMsg 11 11 (text "a"))
    ⟨calmRunner 11 [], ∅, rfl, by decide⟩)
  have hhandled := hsent.step (Step.handle rfl (removes_head _ _))
  have hread := hhandled.step (Step.reads 11 ⟨calmRunner 11 [firstAck], ∅, rfl, by decide⟩
    (removes_head firstAck []))
  obtain ⟨-, hlimit, -⟩ := processes_orderly Env.calm_allocsSucceed Env.calm_callsSucceed hread
  exact ⟨_, hread, rfl, fun pids hnodup hwork =>
    hlimit pids hnodup fun pid hpid => ⟨rfl, hwork pid hpid⟩⟩

end RunnerOrchestrator.Processes
