import RunnerOrchestrator.Controller.Completion

/-! # Messages without influence on the schedule

Status requests, unhandled messages and a DONE for no running job run the same code
as the others, scheduling loop and shutdown test included. In a state the main loop
can be in, neither of the two has anything to do, so dropping such messages changes
the status replies only.
-/

namespace RunnerOrchestrator

open Removal

def Event.isStatus : Event → Bool
  | .status _ _ _ => true
  | .ack _ _ | .refusal _ _ | .farewell _ | .log _ _ _ => false

/-- Everything but the status replies: ACKs, SHUTDOWN_ACKs and log entries, in order. -/
def effects (trace : List Event) : List Event := trace.filter fun e => !e.isStatus

@[simp] theorem effects_append (t t' : List Event) : effects (t ++ t') = effects t ++ effects t' :=
  List.filter_append _ _

theorem effects_status (dest : Int32) (sent : List RpcMessage) (killed : Bool) :
    effects [.status dest sent killed] = [] := rfl

/-- Two controllers that will treat every message alike: they agree on the state, on
the positions in the streams of random numbers, clock readings and calls on the log, and on
all they have done but the status replies. -/
structure Twins (w v : World) : Prop where
  state : v.state = w.state
  rands : v.rands = w.rands
  clocks : v.clocks = w.clocks
  logs : v.logs = w.logs
  effects : RunnerOrchestrator.effects v.trace = RunnerOrchestrator.effects w.trace

theorem Twins.refl (w : World) : Twins w w := ⟨rfl, rfl, rfl, rfl, rfl⟩

theorem Twins.trans {u v w : World} (h₁ : Twins u v) (h₂ : Twins v w) : Twins u w :=
  ⟨h₂.state.trans h₁.state, h₂.rands.trans h₁.rands, h₂.clocks.trans h₁.clocks,
    h₂.logs.trans h₁.logs, h₂.effects.trans h₁.effects⟩

theorem Twins.symm {w v : World} (h : Twins w v) : Twins v w :=
  ⟨h.state.symm, h.rands.symm, h.clocks.symm, h.logs.symm, h.effects.symm⟩

/-! ## The handlers treat twins alike -/

section Alike

variable {env : Env} (hc : env.CallsSucceed) {w v : World} (h : Twins w v)

include h

theorem Twins.submittedJob (msg : RpcMessage) :
    RunnerOrchestrator.submittedJob env msg v = RunnerOrchestrator.submittedJob env msg w := by
  rw [RunnerOrchestrator.submittedJob, RunnerOrchestrator.submittedJob, h.clocks]

theorem Twins.logFinishedJob (job : JobInfo) :
    Twins (RunnerOrchestrator.logFinishedJob env job w)
      (RunnerOrchestrator.logFinishedJob env job v) := by
  rw [logFinishedJob_exact, logFinishedJob_exact]
  refine ⟨h.state, h.rands, ?_, ?_, ?_⟩
  · show v.clocks + 1 = w.clocks + 1
    rw [h.clocks]
  · simp only [h.logs]
  · simp only [effects_append, h.effects, h.clocks, h.logs]

include hc

theorem Twins.sendAckToRunner (job : JobInfo) :
    Twins (RunnerOrchestrator.sendAckToRunner env job w)
      (RunnerOrchestrator.sendAckToRunner env job v) := by
  refine ⟨h.state, h.rands, h.clocks, h.logs, ?_⟩
  simp only [RunnerOrchestrator.sendAckToRunner, ipcSendAtomic_delivery hc, effects_append, h.effects]

theorem Twins.refused (msg : RpcMessage) :
    Twins (sendShutdownAckToRunner env msg w) (sendShutdownAckToRunner env msg v) := by
  refine ⟨h.state, h.rands, h.clocks, h.logs, ?_⟩
  simp only [sendShutdownAckToRunner, ipcSendAtomic_delivery hc, effects_append, h.effects]

theorem Twins.tryFinishShutdown :
    (RunnerOrchestrator.tryFinishShutdown env w).1 =
        (RunnerOrchestrator.tryFinishShutdown env v).1 ∧
      Twins (RunnerOrchestrator.tryFinishShutdown env w).2
        (RunnerOrchestrator.tryFinishShutdown env v).2 := by
  obtain ⟨ios, hw⟩ := tryFinishShutdown_exact hc w
  obtain ⟨ios', hv⟩ := tryFinishShutdown_exact hc v
  rw [hw, hv]
  refine ⟨by rw [h.state], by rw [h.state], h.rands, h.clocks, h.logs, ?_⟩
  simp only [effects_append, h.effects, h.state]

end Alike

/-- Replacing the state of twins by one and the same state. -/
theorem Twins.withState {w v : World} (h : Twins w v) (s : ControllerState) (mallocs mallocs' : Nat)
    (draws readings : Nat) :
    Twins { w with state := s, mallocs := mallocs, rands := w.rands + draws, clocks := w.clocks + readings }
      { v with state := s, mallocs := mallocs', rands := v.rands + draws, clocks := v.clocks + readings } := by
  refine ⟨rfl, ?_, ?_, h.logs, h.effects⟩
  · show v.rands + draws = w.rands + draws
    rw [h.rands]
  · show v.clocks + readings = w.clocks + readings
    rw [h.clocks]

theorem handleStatusReq_twins (env : Env) (msg : RpcMessage) (w : World) :
    Twins w (handleStatusReq env msg w) := by
  unfold handleStatusReq
  dsimp only
  split
  · exact ⟨rfl, rfl, rfl, rfl, rfl⟩
  · split
    · exact ⟨rfl, rfl, rfl, rfl, rfl⟩
    · split
      · exact ⟨rfl, rfl, rfl, rfl, by simp [effects_status]⟩
      · exact ⟨rfl, rfl, rfl, rfl, rfl⟩

section Messages

variable {env : Env} (hm : env.AllocsSucceed) (hc : env.CallsSucceed) {w v : World}
  (hslots : SlotInv w.state) (h : Twins w v)

include hm hc h

theorem Twins.handleSubmit (msg : RpcMessage) :
    Twins (RunnerOrchestrator.handleSubmit env msg w)
      (RunnerOrchestrator.handleSubmit env msg v) := by
  by_cases hslot : w.state.runningCount < w.state.parallelLimit
  · obtain ⟨mallocs, hw⟩ := handleSubmit_start hm msg hslot
    obtain ⟨mallocs', hv⟩ := handleSubmit_start hm msg (w := v) (by rw [h.state]; exact hslot)
    rw [hw, hv, h.submittedJob, h.state]
    exact (h.withState _ mallocs mallocs' 0 1).sendAckToRunner hc _
  · obtain ⟨mallocs, hw⟩ := handleSubmit_queue hm msg hslot
    obtain ⟨mallocs', hv⟩ := handleSubmit_queue hm msg (w := v) (by rw [h.state]; exact hslot)
    rw [hw, hv, h.submittedJob, h.state]
    exact h.withState _ mallocs mallocs' 0 1

include hslots

theorem Twins.handleDone (msg : RpcMessage) :
    Twins (RunnerOrchestrator.handleDone env msg w) (RunnerOrchestrator.handleDone env msg v) := by
  have hslots' : SlotInv v.state := by rw [h.state]; exact hslots
  cases hrem : queueRemoveByCommandId w.state.runningQueue msg.commandId with
  | none =>
      rw [handleDone_stray hslots hrem, handleDone_stray hslots' (by rw [h.state]; exact hrem)]
      exact h
  | some out =>
      obtain ⟨job, running⟩ := out
      have hrem' : queueRemoveByCommandId v.state.runningQueue msg.commandId = some (job, running) := by
        rw [h.state]
        exact hrem
      have hlog : Twins (RunnerOrchestrator.logFinishedJob env job w)
          (RunnerOrchestrator.logFinishedJob env job v) := h.logFinishedJob job
      by_cases hfree : w.state.waitingQueue = []
      · rw [handleDone_complete hrem hfree, handleDone_complete hrem' (by rw [h.state]; exact hfree),
          h.state]
        exact hlog.withState _ _ _ 0 0
      · obtain ⟨next, rest, mallocs, hpick, hw⟩ := handleDone_promote hm hslots hrem hfree
        obtain ⟨next', rest', mallocs', hpick', hv⟩ :=
          handleDone_promote hm hslots' hrem' (by rw [h.state]; exact hfree)
        rw [h.state, h.rands, hpick] at hpick'
        cases hpick'
        rw [hw, hv, h.state, ← logFinishedJob_rands env job w, ← logFinishedJob_rands env job v]
        exact (hlog.withState _ mallocs mallocs' w.state.draws 0).sendAckToRunner hc _

theorem Twins.serve (msg : RpcMessage) :
    Twins (RunnerOrchestrator.serve env msg w) (RunnerOrchestrator.serve env msg v) := by
  unfold RunnerOrchestrator.serve
  split
  · exact h.handleSubmit hm hc msg
  · exact h.handleDone hm hc hslots msg
  · exact ((handleStatusReq_twins env msg w).symm.trans h).trans (handleStatusReq_twins env msg v)
  · rw [handleShutdownReq, handleShutdownReq, h.state]
    exact h.withState _ _ _ 0 0
  all_goals exact h

/-- Twins answer a message with the same value and stay twins. -/
theorem Twins.message (msg : RpcMessage) :
    (controllerHandleMessage env msg w).1 = (controllerHandleMessage env msg v).1 ∧
      Twins (controllerHandleMessage env msg w).2 (controllerHandleMessage env msg v).2 := by
  by_cases hlate : IsLate msg w.state
  · rw [controllerHandleMessage_late hlate,
      controllerHandleMessage_late (w := v) (by rw [h.state]; exact hlate)]
    exact ⟨rfl, h.refused hc msg⟩
  · rw [controllerHandleMessage_serve hlate,
      controllerHandleMessage_serve (w := v) (by rw [h.state]; exact hlate)]
    exact (h.serve hm hc hslots msg).tryFinishShutdown hc

end Messages

/-! ## Messages that may be dropped -/

/-- Neither a SUBMIT nor a SHUTDOWN_REQ nor the DONE of a running job. -/
def Ignorable (msg : RpcMessage) (s : ControllerState) : Prop :=
  msg.type ≠ .submit ∧ msg.type ≠ .shutdownReq ∧
    (msg.type = .done → ∀ job ∈ s.runningQueue, job.commandId ≠ msg.commandId)

instance (msg : RpcMessage) (s : ControllerState) : Decidable (Ignorable msg s) :=
  inferInstanceAs (Decidable (_ ∧ _ ∧ (_ → _)))

/-- A state in which the main loop waits for a message: nothing is left over to promote
and no shutdown to finish. -/
structure Resting (s : ControllerState) : Prop where
  slots : SlotInv s
  unfinished : s.isFinished = false

theorem controllerConfigure_resting (argv : List CString) : Resting (controllerConfigure argv) :=
  ⟨controllerConfigure_slots argv, rfl⟩

theorem controllerHandleMessage_resting {env : Env} {msg : RpcMessage} {w : World}
    (h : Resting w.state) (hgo : (controllerHandleMessage env msg w).1 = false) :
    Resting (controllerHandleMessage env msg w).2.state := by
  refine ⟨controllerHandleMessage_slots h.slots, ?_⟩
  by_cases hlate : IsLate msg w.state
  · rw [controllerHandleMessage_late hlate]
    exact h.unfinished
  · rw [controllerHandleMessage_serve hlate] at hgo ⊢
    cases hstop : (serve env msg w).state.isFinished with
    | true => simp [tryFinishShutdown, hstop] at hgo
    | false => simp [tryFinishShutdown, hstop]

/-- The scheduling loop and the shutdown test find nothing to do on an ignorable message. -/
theorem controllerHandleMessage_ignorable (env : Env) {msg : RpcMessage} {w : World}
    (h : Resting w.state) (hign : Ignorable msg w.state) :
    (controllerHandleMessage env msg w).1 = false ∧
      Twins w (controllerHandleMessage env msg w).2 := by
  obtain ⟨hsubmit, hshutdown, hdone⟩ := hign
  have hserve : (serve env msg w).state = w.state ∧ Twins w (serve env msg w) := by
    unfold serve
    split
    · exact absurd ‹msg.type = .submit› hsubmit
    · rename_i ht
      have hrem : queueRemoveByCommandId w.state.runningQueue msg.commandId = none := by
        apply takeFirst_eq_none.mpr
        intro job hjob
        simpa using hdone ht job hjob
      rw [handleDone_stray h.slots hrem]
      exact ⟨rfl, Twins.refl w⟩
    · exact ⟨handleStatusReq_state env msg w, handleStatusReq_twins env msg w⟩
    · exact absurd ‹msg.type = .shutdownReq› hshutdown
    all_goals exact ⟨rfl, Twins.refl w⟩
  have hgo : (serve env msg w).state.isFinished = false := by rw [hserve.1, h.unfinished]
  rw [controllerHandleMessage_serve fun hlate => hsubmit hlate.1]
  simpa [tryFinishShutdown, hgo] using hserve.2

/-! ## Runs -/

/-- The main loop over the messages it reads, up to the first return of 1: the values
returned and the world it ends in. -/
def mainLoop (env : Env) : List RpcMessage → World → List Bool × World
  | [], w => ([], w)
  | msg :: msgs, w =>
      let out := controllerHandleMessage env msg w
      if out.1 then ([true], out.2)
      else
        let rest := mainLoop env msgs out.2
        (false :: rest.1, rest.2)

/-- A sequence of messages, each marked to be kept or to be dropped. -/
abbrev Selection := List (RpcMessage × Bool)

def Selection.kept (sel : Selection) : List RpcMessage := (sel.filter Prod.snd).map Prod.fst

/-- Every message to be dropped is ignorable in the state in which it is handled. -/
def Selection.Droppable (env : Env) : Selection → World → Prop
  | [], _ => True
  | (msg, keep) :: sel, w =>
      (keep = false → Ignorable msg w.state) ∧
        ((controllerHandleMessage env msg w).1 = false →
          Selection.Droppable env sel (controllerHandleMessage env msg w).2)

instance decidableDroppable (env : Env) :
    ∀ (sel : Selection) (w : World), Decidable (sel.Droppable env w)
  | [], _ => isTrue trivial
  | (msg, _) :: sel, w =>
      have : Decidable (Selection.Droppable env sel (controllerHandleMessage env msg w).2) :=
        decidableDroppable env sel _
      inferInstanceAs (Decidable ((_ → _) ∧ (_ → _)))

/-- The values returned on the messages kept. -/
def Selection.keptReturns (sel : Selection) (returns : List Bool) : List Bool :=
  ((sel.zip returns).filter fun entry => entry.1.2).map Prod.snd

/-- Twins go through a sequence and through what is kept of it alike. -/
theorem mainLoop_kept {env : Env} (hm : env.AllocsSucceed) (hc : env.CallsSucceed)
    {sel : Selection} {w v : World} (hrest : Resting w.state) (h : Twins w v)
    (hdrop : sel.Droppable env w) :
    Twins (mainLoop env (sel.map Prod.fst) w).2 (mainLoop env sel.kept v).2 ∧
      sel.keptReturns (mainLoop env (sel.map Prod.fst) w).1 = (mainLoop env sel.kept v).1 := by
  induction sel generalizing w v with
  | nil => exact ⟨h, rfl⟩
  | cons entry sel ih =>
      obtain ⟨msg, keep⟩ := entry
      obtain ⟨hign, hnext⟩ := hdrop
      cases keep with
      | false =>
          -- only the full run handles the message, and it stays a twin
          obtain ⟨hret, htwin⟩ := controllerHandleMessage_ignorable env hrest (hign rfl)
          have hrest' := controllerHandleMessage_resting hrest hret
          have hih := ih hrest' (htwin.symm.trans h) (hnext hret)
          simpa [mainLoop, hret, Selection.kept, Selection.keptReturns] using hih
      | true =>
          obtain ⟨hret, htwin⟩ := h.message hm hc hrest.slots msg
          cases hstop : (controllerHandleMessage env msg w).1 with
          | true =>
              rw [hstop] at hret
              simpa [mainLoop, hstop, ← hret, Selection.kept, Selection.keptReturns] using htwin
          | false =>
              rw [hstop] at hret
              have hrest' := controllerHandleMessage_resting hrest hstop
              have hih := ih hrest' htwin (hnext hstop)
              simpa [mainLoop, hstop, ← hret, Selection.kept, Selection.keptReturns] using hih

/-- Dropping ignorable messages from a run changes neither the final state nor the random
numbers used, nor the ACKs, SHUTDOWN_ACKs and log entries, nor the value returned on any
message that is kept. -/
theorem ignorable_without_influence {env : Env} (hm : env.AllocsSucceed) (hc : env.CallsSucceed)
    (argv : List CString) (sel : Selection) (hdrop : sel.Droppable env (controllerStart argv)) :
    let full := mainLoop env (sel.map Prod.fst) (controllerStart argv)
    let reduced := mainLoop env sel.kept (controllerStart argv)
    reduced.2.state = full.2.state ∧ reduced.2.rands = full.2.rands ∧
      effects reduced.2.trace = effects full.2.trace ∧ reduced.1 = sel.keptReturns full.1 := by
  intro full reduced
  obtain ⟨htwins, hreturns⟩ := mainLoop_kept hm hc (controllerConfigure_resting argv)
    (Twins.refl (controllerStart argv)) hdrop
  exact ⟨htwins.state, htwins.rands, htwins.effects, hreturns.symm⟩

/-- A status request, an ACK sent to the wrong FIFO and a DONE sent twice. -/
def noisyDay : Selection :=
  [(submitMsg 11 1 (text "a"), true), (statusReq 30, false), (submitMsg 12 2 (text "b"), true),
    (msgDone 11 { RpcMessage.zero with commandId := 11 }, true),
    (msgDone 11 { RpcMessage.zero with commandId := 11 }, false),
    ({ RpcMessage.zero with type := .ack }, false), (shutdownReq 20, true),
    (msgDone 12 { RpcMessage.zero with commandId := 12 }, true), (statusReq 31, true)]

theorem ignorable_without_influence_noisy_day :
    let start := controllerStart [text "controller", text "1", text "random"]
    let full := mainLoop .calm (noisyDay.map Prod.fst) start
    let reduced := mainLoop .calm noisyDay.kept start
    reduced.2.state = full.2.state ∧ reduced.2.rands = full.2.rands ∧
      effects reduced.2.trace = effects full.2.trace ∧ reduced.1 = noisyDay.keptReturns full.1 :=
  ignorable_without_influence Env.calm_allocsSucceed Env.calm_callsSucceed
    [text "controller", text "1", text "random"] noisyDay (by decide)

end RunnerOrchestrator
