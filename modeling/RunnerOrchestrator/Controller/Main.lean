import RunnerOrchestrator.Controller.HeapController
import RunnerOrchestrator.Controller.Shutdown

/-! # The controller's `main`

The public FIFO is opened again and again; each time messages are read until a read does
not return a whole one. Wherever `main` returns the queues are destroyed. The FIFO is removed
after a shutdown only. A reply to a FIFO whose reader is gone kills the process instead.
-/

namespace RunnerOrchestrator.HeapController

open LinkedList

/-- How far `main` has come. -/
inductive Ending
  /-- It is blocked in `open`. -/
  | waits
  | returns (status : Nat)
  /-- SIGPIPE has killed the process in a write. -/
  | killed
deriving DecidableEq

/-- `fifo` says whether the public FIFO is in `/tmp`. The heap is gone with a killed process. -/
structure Outcome where
  world : World
  heap : Store JobInfo
  ending : Ending
  fifo : Bool

section

variable (place : Placement) (env : Env)

/-- The inner loop of `main`, which a write that kills the process ends too. -/
def readLoop : List RpcMessage → Controller → Option Controller
  | [], c => some c
  | msg :: msgs, c =>
      (controllerHandleMessage place env msg c).bind fun out =>
        if out.1 || out.2.world.killed then some out.2 else readLoop msgs out.2

/-- The way out after the last test of `keep_running`. -/
def finishMain (c : Controller) : Option Outcome :=
  (controllerDestroyQueues c).map fun heap => ⟨c.world, heap, .returns 0, false⟩

/-- The process ends in the write: of all the handlers do it has done what lies before. -/
def killedMain (c : Controller) : Outcome :=
  ⟨{ c.world with trace := untilKilled c.world.trace }, c.heap, .killed, true⟩

/-- The outer loop. Each `open` fails, or leads to the messages that are read then. -/
def mainLoop : List (Option (List RpcMessage)) → Controller → Option Outcome
  | [], c =>
      if c.world.state.keepRunning then some ⟨c.world, c.heap, .waits, true⟩ else finishMain c
  | opened :: opens, c =>
      if c.world.state.keepRunning then
        match opened with
        | none => (controllerDestroyQueues c).map fun heap => ⟨c.world, heap, .returns 1, true⟩
        | some msgs =>
            (readLoop place env msgs c).bind fun c =>
              if c.world.killed then some (killedMain c) else mainLoop opens c
      else finishMain c

/-- Both `malloc`s of `queue_create` are passed in, and the answer of `mkfifo`. -/
def controllerMain (argv : List CString) (waitingMalloc runningMalloc : Bool) (mkfifo : Mkfifo)
    (opens : List (Option (List RpcMessage))) (heap : Store JobInfo) : Option Outcome :=
  let c := controllerStart argv heap
  if !(waitingMalloc && runningMalloc) then some ⟨c.world, heap, .returns 1, false⟩
  else if ipcCreateFifo mkfifo = -1 then
    (controllerDestroyQueues c).map fun heap => ⟨c.world, heap, .returns 1, false⟩
  else mainLoop place env opens c

end

/-! ## What has been handled -/

/-- The messages read up to the first `open` that fails, had none of them ended the loop. -/
def received : List (Option (List RpcMessage)) → List RpcMessage
  | [] => []
  | none :: _ => []
  | some msgs :: opens => msgs ++ received opens

/-- The loop goes on. -/
structure Alive (w : World) : Prop where
  keepRunning : w.state.keepRunning = true
  notKilled : w.killed = false

/-- From `w` to `w'` all messages have been handled, or those up to the first on which
`controllerHandleMessage` returns 1 or is killed. -/
inductive Handles (env : Env) (msgs : List RpcMessage) (w : World) : World → Prop
  | all (hrun : Alive (RunnerOrchestrator.runMessages env msgs w)) :
      Handles env msgs w (RunnerOrchestrator.runMessages env msgs w)
  | stopped {past behind : List RpcMessage} {last : RpcMessage}
      (hmsgs : msgs = past ++ last :: behind)
      (hrun : Alive (RunnerOrchestrator.runMessages env past w))
      (hstop : ¬ Alive (RunnerOrchestrator.runMessages env (past ++ [last]) w)) :
      Handles env msgs w (RunnerOrchestrator.runMessages env (past ++ [last]) w)

section Handles

variable {env : Env} {msgs more : List RpcMessage} {w w' : World}

theorem alive_controllerHandleMessage (env : Env) (msg : RpcMessage) (hrun : Alive w) :
    Alive (RunnerOrchestrator.controllerHandleMessage env msg w).2 ↔
      ((RunnerOrchestrator.controllerHandleMessage env msg w).1 ||
        (RunnerOrchestrator.controllerHandleMessage env msg w).2.killed) = false := by
  have hkeep := controllerHandleMessage_keepRunning env msg w
  rw [hrun.keepRunning, Bool.true_and] at hkeep
  constructor
  · intro h
    rw [h.keepRunning] at hkeep
    simpa [h.notKilled] using hkeep
  · intro h
    rw [Bool.or_eq_false_iff] at h
    exact ⟨by rw [hkeep, h.1]; rfl, h.2⟩

theorem Handles.append_all
    (h : Handles env more (RunnerOrchestrator.runMessages env msgs w) w') :
    Handles env (msgs ++ more) w w' := by
  cases h with
  | all hrun' =>
      rw [← runMessages_append] at hrun' ⊢
      exact .all hrun'
  | @stopped past behind last hmore hrun' hstop =>
      rw [← runMessages_append] at hrun' hstop ⊢
      rw [← List.append_assoc] at hstop ⊢
      exact .stopped (by rw [hmore, List.append_assoc]) hrun' hstop

/-- What comes behind the last message is not read. -/
theorem Handles.append_stopped (h : Handles env msgs w w') (hstop : ¬ Alive w')
    (more : List RpcMessage) : Handles env (msgs ++ more) w w' := by
  cases h with
  | all hrun => exact absurd hrun hstop
  | stopped hmsgs hrun hstop' =>
      exact .stopped (by rw [hmsgs, List.append_assoc, List.cons_append]) hrun hstop'

theorem Handles.cons {msg : RpcMessage}
    (h : Handles env msgs (RunnerOrchestrator.controllerHandleMessage env msg w).2 w') :
    Handles env (msg :: msgs) w w' := by
  cases h with
  | all hrun => exact .all hrun
  | @stopped past behind last hmsgs hrun hstop =>
      have hsplit : msg :: msgs = (msg :: past) ++ last :: behind := by
        rw [hmsgs]
        rfl
      exact .stopped hsplit hrun hstop

theorem Handles.killed (h : Handles env msgs w w') (hw : w.killed = false)
    (hkilled : w'.killed = true) : ∃ n, env.sigpipe n = true := by
  cases h with
  | all hrun => exact run_killed hw hkilled
  | stopped hmsgs hrun hstop => exact run_killed hw hkilled

theorem Handles.eq_of_alive (h : Handles env msgs w w') (hrun : Alive w') :
    w' = RunnerOrchestrator.runMessages env msgs w := by
  cases h with
  | all _ => rfl
  | stopped _ _ hstop => exact absurd hrun hstop

end Handles

/-- Behind the first write that kills nothing is left of the trace. -/
theorem untilKilled_spec {events : List Event} (h : events.any Event.killed = true) :
    ∃ past last, untilKilled events = past ++ [last] ∧ past ++ [last] <+: events ∧
      (∀ e ∈ past, e.killed = false) ∧ last.killed = true := by
  induction events with
  | nil => cases h
  | cons e events ih =>
      unfold untilKilled
      by_cases he : e.killed = true
      · rw [if_pos he]
        exact ⟨[], e, rfl, ⟨events, rfl⟩, by simp, he⟩
      · rw [if_neg he]
        rw [List.any_cons, Bool.or_eq_true] at h
        obtain ⟨past, last, hcut, hprefix, hpast, hlast⟩ := ih (h.resolve_left he)
        refine ⟨e :: past, last, by rw [hcut]; rfl, ?_, ?_, hlast⟩
        · exact List.cons_prefix_cons.mpr ⟨rfl, hprefix⟩
        · exact List.forall_mem_cons.mpr ⟨Bool.not_eq_true _ ▸ he, hpast⟩

/-! ## The loops -/

section Loops

variable {c : Controller} {w : World} {rest : Store JobInfo}

theorem Models.keepRunning (h : Models c w rest) :
    c.world.state.keepRunning = w.state.keepRunning := by
  obtain ⟨-, cw, cr, -, rfl⟩ := h
  rfl

theorem Models.trace (h : Models c w rest) : c.world.trace = w.trace := by
  obtain ⟨-, cw, cr, -, rfl⟩ := h
  rfl

theorem Models.killed (h : Models c w rest) : c.world.killed = w.killed := by
  rw [World.killed, h.trace, World.killed]

theorem Models.readLoop (h : Models c w rest) (place : Placement) (env : Env)
    (msgs : List RpcMessage) (hrun : Alive w) :
    ∃ c' w', readLoop place env msgs c = some c' ∧ Models c' w' rest ∧ Handles env msgs w w' := by
  induction msgs generalizing c w with
  | nil => exact ⟨c, w, rfl, h, .all hrun⟩
  | cons msg msgs ih =>
      obtain ⟨c₁, hc₁, h₁⟩ := h.controllerHandleMessage place env msg
      have halive := alive_controllerHandleMessage env msg hrun
      unfold HeapController.readLoop
      rw [hc₁, Option.bind_some]
      dsimp only
      rw [h₁.killed]
      cases hret : (RunnerOrchestrator.controllerHandleMessage env msg w).1 ||
          (RunnerOrchestrator.controllerHandleMessage env msg w).2.killed with
      | true =>
          have hstop : ¬ Alive (RunnerOrchestrator.controllerHandleMessage env msg w).2 := by
            rw [halive, hret]
            simp
          have hsplit : msg :: msgs = [] ++ msg :: msgs := rfl
          exact ⟨c₁, _, rfl, h₁, .stopped hsplit hrun hstop⟩
      | false =>
          obtain ⟨c', w', hc', h', hhandles⟩ := ih h₁ (halive.mpr hret)
          exact ⟨c', w', hc', h', hhandles.cons⟩

/-- What `main` leaves when its loop is over, or waits in `open`. -/
structure Ends (env : Env) (opens : List (Option (List RpcMessage))) (w : World)
    (rest : Store JobInfo) (out : Outcome) (w' : World) : Prop where
  handles : Handles env (received opens) w w'
  world : out.ending ≠ .killed → ∃ waiting running, w' = withQueues out.world waiting running
  heap : ∀ status, out.ending = .returns status → out.heap = rest
  finished : out.ending = .returns 0 ↔ w'.state.keepRunning = false ∧ w'.killed = false
  failed : out.ending = .returns 1 ↔ Alive w' ∧ none ∈ opens
  killed : out.ending = .killed ↔ w'.killed = true
  cut : out.ending = .killed → out.world.trace = untilKilled w'.trace
  fifo : out.fifo = true ↔ out.ending ≠ .returns 0

theorem Models.ends_finished (h : Models c w rest) {opens : List (Option (List RpcMessage))}
    {env : Env} {w₀ : World} (hhandles : Handles env (received opens) w₀ w)
    (hrun : w.state.keepRunning = false) (hkilled : w.killed = false) :
    ∃ out, finishMain c = some out ∧ Ends env opens w₀ rest out w := by
  obtain ⟨-, cw, cr, hlayout, hworld⟩ := h
  refine ⟨⟨c.world, rest, .returns 0, false⟩, by rw [finishMain, hlayout.destroy]; rfl, ?_⟩
  have hdead : ¬ Alive w := fun halive => absurd halive.keepRunning (by simp [hrun])
  exact
    { handles := hhandles
      world := fun _ => ⟨_, _, hworld⟩
      heap := fun _ _ => rfl
      finished := by simp [hrun, hkilled]
      failed := by simp [hdead]
      killed := by simp [hkilled]
      cut := by simp
      fifo := by simp }

theorem Models.ends_killed (h : Models c w rest) {opens : List (Option (List RpcMessage))}
    {env : Env} {w₀ : World} (hhandles : Handles env (received opens) w₀ w)
    (hkilled : w.killed = true) : Ends env opens w₀ rest (killedMain c) w := by
  have hdead : ¬ Alive w := fun halive => absurd halive.notKilled (by simp [hkilled])
  exact
    { handles := hhandles
      world := fun hlives => absurd rfl hlives
      heap := by simp [killedMain]
      finished := by simp [killedMain, hkilled]
      failed := by simp [killedMain, hdead]
      killed := by simp [killedMain, hkilled]
      cut := fun _ => by rw [← h.trace]; rfl
      fifo := by simp [killedMain] }

theorem mainLoop_stopped {place : Placement} {env : Env} {opens : List (Option (List RpcMessage))}
    (hstop : c.world.state.keepRunning = false) : mainLoop place env opens c = finishMain c := by
  cases opens <;> simp [HeapController.mainLoop, hstop]

theorem Models.mainLoop (h : Models c w rest) (place : Placement) (env : Env)
    (opens : List (Option (List RpcMessage))) (hrun : Alive w) :
    ∃ out w', mainLoop place env opens c = some out ∧ Ends env opens w rest out w' := by
  induction opens generalizing c w with
  | nil =>
      have hkeep := h.keepRunning.trans hrun.keepRunning
      obtain ⟨-, cw, cr, -, hworld⟩ := h
      refine ⟨⟨c.world, c.heap, .waits, true⟩, w, ?_, ?_⟩
      · rw [HeapController.mainLoop, hkeep, if_pos rfl]
      · exact
          { handles := .all hrun
            world := fun _ => ⟨_, _, hworld⟩
            heap := by simp
            finished := by simp [hrun.keepRunning]
            failed := by simp
            killed := by simp [hrun.notKilled]
            cut := by simp
            fifo := by simp }
  | cons opened opens ih =>
      unfold HeapController.mainLoop
      rw [h.keepRunning, hrun.keepRunning, if_pos rfl]
      cases opened with
      | none =>
          obtain ⟨-, cw, cr, hlayout, hworld⟩ := h
          refine ⟨⟨c.world, rest, .returns 1, true⟩, w, by rw [hlayout.destroy]; rfl, ?_⟩
          exact
            { handles := .all hrun
              world := fun _ => ⟨_, _, hworld⟩
              heap := fun _ _ => rfl
              finished := by simp [hrun.keepRunning]
              failed := by simp [hrun]
              killed := by simp [hrun.notKilled]
              cut := by simp
              fifo := by simp }
      | some msgs =>
          obtain ⟨c₁, w₁, hc₁, h₁, hhandles⟩ := h.readLoop place env msgs hrun
          simp only [hc₁, Option.bind_some]
          rw [h₁.killed]
          cases hkilled : w₁.killed with
          | true =>
              have hdead : ¬ Alive w₁ := fun halive => absurd halive.notKilled (by simp [hkilled])
              exact ⟨_, w₁, rfl, h₁.ends_killed (hhandles.append_stopped hdead (received opens)) hkilled⟩
          | false =>
              rw [if_neg Bool.false_ne_true]
              cases hrun₁ : w₁.state.keepRunning with
              | false =>
                  have hdead : ¬ Alive w₁ := fun halive => absurd halive.keepRunning (by simp [hrun₁])
                  have hall := hhandles.append_stopped hdead (received opens)
                  obtain ⟨out, hout, hends⟩ :
                      ∃ out, finishMain c₁ = some out ∧ Ends env (some msgs :: opens) w rest out w₁ :=
                    h₁.ends_finished hall hrun₁ hkilled
                  exact ⟨out, w₁, (mainLoop_stopped (h₁.keepRunning.trans hrun₁)).trans hout, hends⟩
              | true =>
                  obtain ⟨out, w', hout, hends⟩ := ih h₁ ⟨hrun₁, hkilled⟩
                  rw [hhandles.eq_of_alive ⟨hrun₁, hkilled⟩] at hends
                  refine ⟨out, w', hout, ?_⟩
                  exact
                    { handles := hends.handles.append_all
                      world := hends.world
                      heap := hends.heap
                      finished := hends.finished
                      failed := by simpa using hends.failed
                      killed := hends.killed
                      cut := hends.cut
                      fifo := hends.fifo }

end Loops

/-- `main` as a whole. It returns 0 exactly after the first message on which the controller
finishes, and then what it did is what the messages up to there do; it returns 1 when a queue
or the FIFO cannot be created or the FIFO cannot be opened any more; it is killed exactly by the
first reply that is written to a FIFO which nobody reads any more, and has done then what lies
before that write; and otherwise it goes on waiting, with every message received handled in turn. Wherever it
returns the heap is as at its start; the public FIFO stays behind exactly when the loop was begun
and not ended by a shutdown. -/
theorem controllerMain_exits (place : Placement) (env : Env) (argv : List CString)
    (waitingMalloc runningMalloc : Bool) (mkfifo : Mkfifo)
    (opens : List (Option (List RpcMessage))) (heap : Store JobInfo) (hheap : heap.inUse.Finite) :
    ∃ out, controllerMain place env argv waitingMalloc runningMalloc mkfifo opens heap = some out ∧
      (∀ status, out.ending = .returns status → out.heap = heap) ∧
      (if (waitingMalloc && runningMalloc) = true ∧ ipcCreateFifo mkfifo = 0 then
        ∃ w, Handles env (received opens) (RunnerOrchestrator.controllerStart argv) w ∧
          (out.ending ≠ .killed → ∃ waiting running, w = withQueues out.world waiting running) ∧
          (out.ending = .returns 0 ↔ w.state.keepRunning = false ∧ w.killed = false) ∧
          (out.ending = .returns 1 ↔ Alive w ∧ none ∈ opens) ∧
          (out.ending = .killed ↔ w.killed = true) ∧
          (out.ending = .killed → (∃ n, env.sigpipe n = true) ∧
            ∃ past last, out.world.trace = past ++ [last] ∧ past ++ [last] <+: w.trace ∧
              (∀ e ∈ past, e.killed = false) ∧ last.killed = true) ∧
          (out.fifo = true ↔ out.ending ≠ .returns 0)
      else out.ending = .returns 1 ∧ out.world.trace = [] ∧ out.fifo = false) := by
  have hstart : Models (controllerStart argv heap) (RunnerOrchestrator.controllerStart argv) heap :=
    ⟨hheap, [], [], layout_start argv heap, rfl⟩
  unfold controllerMain
  dsimp only
  cases hinit : waitingMalloc && runningMalloc with
  | false =>
      refine ⟨_, rfl, fun _ _ => rfl, ?_⟩
      simp [controllerStart, RunnerOrchestrator.controllerStart]
  | true =>
      by_cases hfifo : ipcCreateFifo mkfifo = -1
      · have hdestroy := (layout_start argv heap).destroy
        refine ⟨⟨(controllerStart argv heap).world, heap, .returns 1, false⟩, ?_, fun _ _ => rfl, ?_⟩
        · rw [if_neg (by simp), if_pos hfifo, hdestroy]
          rfl
        · rw [if_neg (by simp [hfifo])]
          exact ⟨rfl, rfl, rfl⟩
      · have hcreated : ipcCreateFifo mkfifo = 0 := by
          cases mkfifo with
          | made | eexist => rfl
          | refused => exact absurd rfl hfifo
        obtain ⟨out, w, hout, hends⟩ := hstart.mainLoop place env opens ⟨rfl, rfl⟩
        refine ⟨out, ?_, hends.heap, ?_⟩
        · rw [if_neg (by simp), if_neg hfifo]
          exact hout
        · rw [if_pos ⟨rfl, hcreated⟩]
          refine ⟨w, hends.handles, hends.world, hends.finished, hends.failed, hends.killed,
            fun hkilled => ⟨?_, ?_⟩, hends.fifo⟩
          · exact hends.handles.killed rfl (hends.killed.mp hkilled)
          · rw [hends.cut hkilled]
            exact untilKilled_spec (hends.killed.mp hkilled)

/-- A submission and its DONE, and the shutdown after the FIFO has been opened again. -/
def shortDay : List (Option (List RpcMessage)) :=
  [some [submitMsg 11 1 (text "a"), msgDone 11 { RpcMessage.zero with commandId := 11 }],
    some [shutdownReq 12]]

theorem controllerMain_exits_short_day :
    ∃ out, controllerMain .anywhere .calm [[], text "1"] true true .made shortDay .empty = some out ∧
      out.ending = .returns 0 ∧ out.heap = .empty ∧ out.fifo = false := by
  obtain ⟨out, hout, hheap, w, hhandles, -, hfinished, -, -, -, hfifo⟩ :=
    controllerMain_exits .anywhere .calm [[], text "1"] true true .made shortDay .empty finite_empty
  have hlives : w.killed = false := by
    by_contra hkilled
    obtain ⟨n, hpipe⟩ := hhandles.killed rfl (by simpa using hkilled)
    cases hpipe
  have hstopped : w.state.keepRunning = false := by
    by_contra hrun
    have halive : Alive w := ⟨by simpa using hrun, hlives⟩
    rw [hhandles.eq_of_alive halive] at halive
    exact absurd halive.keepRunning (by decide)
  have hstatus := hfinished.mpr ⟨hstopped, hlives⟩
  refine ⟨out, hout, hstatus, hheap 0 hstatus, ?_⟩
  rw [← Bool.not_eq_true, hfifo, hstatus]
  simp

end RunnerOrchestrator.HeapController
