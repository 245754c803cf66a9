import RunnerOrchestrator.Controller.Ledger

/-! # Two completions in either order

A DONE takes one job off the running queue and gives its slot to the policy's next
choice. The choice looks at the waiting queue, the user table and the last user, and
the removal at the running queue, so two completions of different commands commute.
-/

namespace RunnerOrchestrator

open Removal

/-! ## One completion, exactly -/

/-- A send on which no call fails. -/
def delivery (dest : Int32) (msg : RpcMessage) : Send := ⟨dest, msg, true, some sizeofRpcMessage⟩

theorem ipcSendAtomic_delivery {env : Env} (hc : env.CallsSucceed) (ios : Nat) (dest : Int32)
    (msg : RpcMessage) : ipcSendAtomic env ios dest msg = (delivery dest msg, ios + 3) := by
  simp [ipcSendAtomic, Env.sigpipe, delivery, hc ios, hc (ios + 1), hc (ios + 2)]

/-- The log entry of a job whose DONE is handled at the time `now`. -/
def finishedAt (job : JobInfo) (now : Timeval) (written : Bool) : Event :=
  .log job (logLine job (elapsedMs now job.startTime)) written

/-- Whether a log entry is written whose `open` is call number `logs`. -/
def logWritten (env : Env) (logs : Nat) : Bool := env.logIo logs && env.logIo (logs + 1)

/-- The calls made for it: without `open` there is nothing to write. -/
def logCalls (env : Env) (logs : Nat) : Nat := if env.logIo logs then 2 else 1

theorem logFinishedJob_exact (env : Env) (job : JobInfo) (w : World) :
    logFinishedJob env job w =
      { w with
        clocks := w.clocks + 1, logs := w.logs + logCalls env w.logs
        trace := w.trace ++
          [finishedAt job (env.gettimeofday w.clocks) (logWritten env w.logs)] } := by
  unfold logFinishedJob logWritten logCalls finishedAt
  cases env.logIo w.logs <;> rfl

/-- The state after the policy has filled one free slot. -/
def ControllerState.refill (s : ControllerState) (rand : Nat) : ControllerState :=
  match s.pick rand with
  | none => s
  | some (next, rest) => ControllerState.start { s with waitingQueue := rest } next.started

/-- The job that goes into the running queue then. -/
def ControllerState.refilled (s : ControllerState) (rand : Nat) : JobQueue :=
  match s.pick rand with
  | none => []
  | some (next, _) => [next.started]

def ControllerState.refillDraws (s : ControllerState) : Nat :=
  if s.waitingQueue = [] then 0 else s.draws

/-- The ACKs of jobs that are started, when every send succeeds. -/
def ackEvents (env : Env) (jobs : JobQueue) : List Event :=
  jobs.map fun job => .ack job (delivery job.runnerPid (ackMessage env job))

theorem ControllerState.pick_eq_none {s : ControllerState} (h : s.waitingQueue = []) (rand : Nat) :
    s.pick rand = none := by
  cases hpick : s.pick rand with
  | none => rfl
  | some out => exact absurd h (pick_removes hpick).ne_nil

/-- Removing a job does not disturb what the policy puts into its slot. -/
theorem ControllerState.refill_unlink (s : ControllerState) (rand : Nat) (running other : JobQueue) :
    (s.unlink running).refill rand =
      { (s.unlink other).refill rand with runningQueue := running ++ s.refilled rand } := by
  have hpick : ∀ q : JobQueue, (s.unlink q).pick rand = s.pick rand := fun _ => rfl
  unfold refill refilled
  rw [hpick, hpick]
  cases s.pick rand with
  | none => simp [unlink]
  | some out => rfl

theorem ControllerState.refill_runningQueue (s : ControllerState) (rand : Nat) (running : JobQueue) :
    ((s.unlink running).refill rand).runningQueue = running ++ s.refilled rand := by
  rw [s.refill_unlink rand running running]

/-- What is left of the state when the controller may stop. -/
def ControllerState.settle (s : ControllerState) : ControllerState :=
  if s.isFinished then { s with keepRunning := false } else s

def farewellEvents (s : ControllerState) : List Event :=
  if s.isFinished then [.farewell (delivery s.shutdownRequesterPid farewellMessage)] else []

theorem tryFinishShutdown_exact {env : Env} (hc : env.CallsSucceed) (w : World) :
    ∃ ios, tryFinishShutdown env w =
      (w.state.isFinished,
        { w with state := w.state.settle, ios := ios, trace := w.trace ++ farewellEvents w.state }) := by
  unfold tryFinishShutdown ControllerState.settle farewellEvents
  cases hstop : w.state.isFinished with
  | false => exact ⟨w.ios, by simp⟩
  | true => exact ⟨w.ios + 3, by simp [ipcSendAtomic_delivery hc]⟩

/-- The value returned, the state, the random draws, the clock readings, the calls on the log
and the events of a DONE that takes `job` and leaves `running`. -/
structure Completed (env : Env) (job : JobInfo) (running : JobQueue) (w : World)
    (out : Bool × World) : Prop where
  ret : out.1 = ((w.state.unlink running).refill (env.rand w.rands)).isFinished
  state : out.2.state = ((w.state.unlink running).refill (env.rand w.rands)).settle
  rands : out.2.rands = w.rands + w.state.refillDraws
  clocks : out.2.clocks = w.clocks + 1
  logs : out.2.logs = w.logs + logCalls env w.logs
  trace : out.2.trace = w.trace ++
    finishedAt job (env.gettimeofday w.clocks) (logWritten env w.logs) ::
    (ackEvents env (w.state.refilled (env.rand w.rands)) ++
      farewellEvents ((w.state.unlink running).refill (env.rand w.rands)))

theorem controllerHandleMessage_completed {env : Env} (hm : env.AllocsSucceed)
    (hc : env.CallsSucceed) {msg : RpcMessage} (ht : msg.type = .done) {w : World}
    (h : SlotInv w.state) {job : JobInfo} {running : JobQueue}
    (hrem : queueRemoveByCommandId w.state.runningQueue msg.commandId = some (job, running)) :
    Completed env job running w (controllerHandleMessage env msg w) := by
  have hlate : ¬ IsLate msg w.state := by simp [IsLate, ht]
  have hserve : serve env msg w = handleDone env msg w := by simp [serve, ht]
  obtain ⟨ios, hfinish⟩ := tryFinishShutdown_exact hc (handleDone env msg w)
  rw [controllerHandleMessage_serve hlate, hserve, hfinish]
  by_cases hfree : w.state.waitingQueue = []
  · have hpick := ControllerState.pick_eq_none hfree (env.rand w.rands)
    have hrefill : (w.state.unlink running).refill (env.rand w.rands) = w.state.unlink running := by
      have hsame : (w.state.unlink running).pick (env.rand w.rands) = none := hpick
      rw [ControllerState.refill, hsame]
    rw [handleDone_complete hrem hfree, logFinishedJob_exact]
    refine ⟨by rw [hrefill], by rw [hrefill], ?_, rfl, rfl, ?_⟩
    · simp [ControllerState.refillDraws, hfree]
    · simp [ControllerState.refilled, hpick, ackEvents, hrefill]
  · obtain ⟨next, rest, mallocs, hpick, heq⟩ := handleDone_promote hm h hrem hfree
    have hrefill : (w.state.unlink running).refill (env.rand w.rands) =
        ControllerState.start { w.state.unlink running with waitingQueue := rest } next.started := by
      have hsame : (w.state.unlink running).pick (env.rand w.rands) = some (next, rest) := hpick
      rw [ControllerState.refill, hsame]
    rw [heq, logFinishedJob_exact]
    refine ⟨by rw [hrefill]; rfl, by rw [hrefill]; rfl, ?_, rfl, rfl, ?_⟩
    · simp [sendAckToRunner, ControllerState.refillDraws, hfree]
    · simp [sendAckToRunner, ipcSendAtomic_delivery hc, ControllerState.refilled, hpick, ackEvents,
        hrefill]

/-! ## Two completions -/

def Event.isLog : Event → Bool
  | .log _ _ _ => true
  | .ack _ _ | .refusal _ _ | .farewell _ | .status _ _ _ => false

/-- The log entries of a trace, and everything else in it. -/
def logEntries (trace : List Event) : List Event := trace.filter Event.isLog

def replies (trace : List Event) : List Event := trace.filter fun e => !e.isLog

theorem isLog_ackEvents {env : Env} {jobs : JobQueue} :
    ∀ e ∈ ackEvents env jobs, e.isLog = false := by
  intro e he
  obtain ⟨job, -, rfl⟩ := List.mem_map.mp he
  rfl

theorem isLog_farewellEvents {s : ControllerState} : ∀ e ∈ farewellEvents s, e.isLog = false := by
  intro e he
  unfold farewellEvents at he
  split at he
  · rw [List.mem_singleton.mp he]
    rfl
  · simp at he

/-- The log entry of a completion and its replies, told apart. -/
theorem Completed.entries {env : Env} {job : JobInfo} {running : JobQueue} {w : World}
    {out : Bool × World} (h : Completed env job running w out) :
    logEntries out.2.trace =
        logEntries w.trace ++
          [finishedAt job (env.gettimeofday w.clocks) (logWritten env w.logs)] ∧
      replies out.2.trace = replies w.trace ++
        (ackEvents env (w.state.refilled (env.rand w.rands)) ++
          farewellEvents ((w.state.unlink running).refill (env.rand w.rands))) := by
  have hreplies : ∀ e ∈ ackEvents env (w.state.refilled (env.rand w.rands)) ++
      farewellEvents ((w.state.unlink running).refill (env.rand w.rands)), e.isLog = false := by
    intro e he
    rcases List.mem_append.mp he with he | he
    · exact isLog_ackEvents e he
    · exact isLog_farewellEvents e he
  have hnone : (ackEvents env (w.state.refilled (env.rand w.rands)) ++
      farewellEvents ((w.state.unlink running).refill (env.rand w.rands))).filter Event.isLog = [] :=
    List.filter_eq_nil_iff.mpr fun e he => by simp [hreplies e he]
  have hall : (ackEvents env (w.state.refilled (env.rand w.rands)) ++
      farewellEvents ((w.state.unlink running).refill (env.rand w.rands))).filter
        (fun e => !e.isLog) =
      ackEvents env (w.state.refilled (env.rand w.rands)) ++
        farewellEvents ((w.state.unlink running).refill (env.rand w.rands)) :=
    List.filter_eq_self.mpr fun e he => by simp [hreplies e he]
  have hlog : (finishedAt job (env.gettimeofday w.clocks) (logWritten env w.logs)).isLog = true :=
    rfl
  constructor
  · rw [h.trace, logEntries, logEntries, List.filter_append, List.filter_cons_of_pos hlog, hnone]
  · rw [h.trace, replies, replies, List.filter_append, List.filter_cons_of_neg (by simp [hlog]), hall]

/-- The machine with another clock. -/
def Env.withClock (env : Env) (clock : Nat → Timeval) : Env := { env with gettimeofday := clock }

/-- A completion that leaves a job running does not end the shutdown. -/
theorem Completed.goes_on {env : Env} {job : JobInfo} {running : JobQueue} {w : World}
    {out : Bool × World} (h : Completed env job running w out) (hslots : SlotInv w.state)
    (hrem : Removes w.state.runningQueue job running) (hne : running ≠ []) :
    out.1 = false ∧ out.2.state = (w.state.unlink running).refill (env.rand w.rands) ∧
      replies out.2.trace =
        replies w.trace ++ ackEvents env (w.state.refilled (env.rand w.rands)) := by
  have hlen := hrem.length
  have hcount := hslots.count
  have hpos := List.length_pos_of_ne_nil hne
  have hbusy : ((w.state.unlink running).refill (env.rand w.rands)).isFinished = false := by
    rw [← Bool.not_eq_true, isFinished_iff]
    intro hstop
    have hzero := hstop.2.1
    unfold ControllerState.refill at hzero
    split at hzero
    · simp only [ControllerState.unlink] at hzero
      omega
    · simp [ControllerState.start] at hzero
  refine ⟨?_, ?_, ?_⟩
  · rw [h.ret, hbusy]
  · rw [h.state, ControllerState.settle, hbusy]
    rfl
  · rw [h.entries.2, farewellEvents, hbusy]
    simp

/-- What a completion does depends on its job and on the clock in the log entry only. -/
theorem Completed.agree {env : Env} {clock : Nat → Timeval} {job job' : JobInfo}
    {running : JobQueue} {w w' : World} {out out' : Bool × World}
    (h : Completed env job running w out) (h' : Completed (env.withClock clock) job' running w' out')
    (hstate : w'.state.unlink running = w.state.unlink running) (hrands : w'.rands = w.rands)
    (hreplies : replies w'.trace = replies w.trace) :
    out'.1 = out.1 ∧ out'.2.state = out.2.state ∧ out'.2.rands = out.2.rands ∧
      replies out'.2.trace = replies out.2.trace := by
  have hrefilled : w'.state.refilled (env.rand w.rands) = w.state.refilled (env.rand w.rands) := by
    show (w'.state.unlink running).refilled _ = (w.state.unlink running).refilled _
    rw [hstate]
  have hdraws : w'.state.refillDraws = w.state.refillDraws := by
    show (w'.state.unlink running).refillDraws = (w.state.unlink running).refillDraws
    rw [hstate]
  have hrand : (env.withClock clock).rand = env.rand := rfl
  have hacks : ∀ jobs, ackEvents (env.withClock clock) jobs = ackEvents env jobs := fun _ => rfl
  refine ⟨?_, ?_, ?_, ?_⟩
  · rw [h'.ret, h.ret, hrand, hrands, hstate]
  · rw [h'.state, h.state, hrand, hrands, hstate]
  · rw [h'.rands, h.rands, hrands, hdraws]
  · rw [h'.entries.2, h.entries.2, hreplies, hrand, hrands, hrefilled, hacks, hstate]

/-- After one of two completions the other finds its job, and the rest of the running
queue is the same in both orders. -/
theorem unlink_other {s : ControllerState} {a b : Int64} (hne : a ≠ b) {jobA jobB : JobInfo}
    {restA restB : JobQueue} (hA : queueRemoveByCommandId s.runningQueue a = some (jobA, restA))
    (hB : queueRemoveByCommandId s.runningQueue b = some (jobB, restB)) (rand : Nat) :
    restA ≠ [] ∧ restB ≠ [] ∧ ∃ rest,
      queueRemoveByCommandId ((s.unlink restA).refill rand).runningQueue b = some (jobB, rest) ∧
      queueRemoveByCommandId ((s.unlink restB).refill rand).runningQueue a = some (jobA, rest) := by
  have hdisjoint : ∀ job : JobInfo, (job.commandId == a) = true → (job.commandId == b) = false := by
    intro job ha
    have hid : job.commandId = a := by simpa using ha
    simpa [hid] using hne
  obtain ⟨rest, hfirst, hsecond⟩ := takeFirst_comm hdisjoint hA hB
  refine ⟨(takeFirst_removes hfirst).ne_nil, (takeFirst_removes hsecond).ne_nil,
    rest ++ s.refilled rand, ?_, ?_⟩
  · rw [ControllerState.refill_runningQueue]
    exact takeFirst_append hfirst _
  · rw [ControllerState.refill_runningQueue]
    exact takeFirst_append hsecond _

/-- Both orders of two completions lead to the same state, the same random draws, the
same replies and the same value returned; each job is logged once, at the time its own
DONE is handled, whether or not the line can be written. -/
theorem completions_commute {env : Env} (hm : env.AllocsSucceed) (hc : env.CallsSucceed)
    (clock : Nat → Timeval) (argv : List CString) (msgs : List RpcMessage) {msgA msgB : RpcMessage}
    (htA : msgA.type = .done) (htB : msgB.type = .done) (hne : msgA.commandId ≠ msgB.commandId)
    (hA : ∃ job ∈ (runMessages env msgs (controllerStart argv)).state.runningQueue,
      job.commandId = msgA.commandId)
    (hB : ∃ job ∈ (runMessages env msgs (controllerStart argv)).state.runningQueue,
      job.commandId = msgB.commandId) :
    let w := runMessages env msgs (controllerStart argv)
    let outA := controllerHandleMessage env msgA w
    let outAB := controllerHandleMessage env msgB outA.2
    let outB := controllerHandleMessage (env.withClock clock) msgB w
    let outBA := controllerHandleMessage (env.withClock clock) msgA outB.2
    (outA.1 = false ∧ outB.1 = false ∧ outBA.1 = outAB.1) ∧
      outBA.2.state = outAB.2.state ∧ outBA.2.rands = outAB.2.rands ∧
      replies outBA.2.trace = replies outAB.2.trace ∧
      ∃ jobA jobB, jobA ∈ w.state.runningQueue ∧ jobA.commandId = msgA.commandId ∧
        jobB ∈ w.state.runningQueue ∧ jobB.commandId = msgB.commandId ∧
        logEntries outAB.2.trace = logEntries w.trace ++
          [finishedAt jobA (env.gettimeofday w.clocks) (logWritten env w.logs),
            finishedAt jobB (env.gettimeofday (w.clocks + 1))
              (logWritten env (w.logs + logCalls env w.logs))] ∧
        logEntries outBA.2.trace = logEntries w.trace ++
          [finishedAt jobB (clock w.clocks) (logWritten env w.logs),
            finishedAt jobA (clock (w.clocks + 1))
              (logWritten env (w.logs + logCalls env w.logs))] := by
  intro w outA outAB outB outBA
  have hslots : SlotInv w.state := run_slots env argv msgs
  have hm' : (env.withClock clock).AllocsSucceed := hm
  have hc' : (env.withClock clock).CallsSucceed := hc
  obtain ⟨job, hjob, hid⟩ := hA
  obtain ⟨jobA, restA, hremA⟩ := exists_takeFirst
    (p := fun job => job.commandId == msgA.commandId) hjob (by simpa using hid)
  obtain ⟨job', hjob', hid'⟩ := hB
  obtain ⟨jobB, restB, hremB⟩ := exists_takeFirst
    (p := fun job => job.commandId == msgB.commandId) hjob' (by simpa using hid')
  obtain ⟨hneA, hneB, rest, hremAB, hremBA⟩ := unlink_other hne hremA hremB (env.rand w.rands)
  -- the first completions
  have hdoneA : Completed env jobA restA w outA :=
    controllerHandleMessage_completed hm hc htA hslots hremA
  have hdoneB : Completed (env.withClock clock) jobB restB w outB :=
    controllerHandleMessage_completed hm' hc' htB hslots hremB
  obtain ⟨hgoA, hstateA, hrepliesA⟩ := hdoneA.goes_on hslots (takeFirst_removes hremA) hneA
  obtain ⟨hgoB, hstateB, hrepliesB⟩ := hdoneB.goes_on hslots (takeFirst_removes hremB) hneB
  -- the second ones start from states that differ in the running queue only
  have hslotsA : SlotInv outA.2.state := controllerHandleMessage_slots hslots
  have hslotsB : SlotInv outB.2.state := controllerHandleMessage_slots hslots
  have hdoneAB : Completed env jobB rest outA.2 outAB :=
    controllerHandleMessage_completed hm hc htB hslotsA (by rw [hstateA]; exact hremAB)
  have hdoneBA : Completed (env.withClock clock) jobA rest outB.2 outBA :=
    controllerHandleMessage_completed hm' hc' htA hslotsB (by rw [hstateB]; exact hremBA)
  have hunlink : outB.2.state.unlink rest = outA.2.state.unlink rest := by
    rw [hstateA, hstateB, w.state.refill_unlink _ restA restB]
    rfl
  have hrands : outB.2.rands = outA.2.rands := by rw [hdoneA.rands, hdoneB.rands]
  have hreplies : replies outB.2.trace = replies outA.2.trace := by
    rw [hrepliesA, hrepliesB]
    rfl
  obtain ⟨hret, hstate, hrands', hreplies'⟩ := hdoneAB.agree hdoneBA hunlink hrands hreplies
  refine ⟨⟨hgoA, hgoB, hret⟩, hstate, hrands', hreplies', jobA, jobB,
    (takeFirst_removes hremA).mem, by simpa using takeFirst_pos hremA,
    (takeFirst_removes hremB).mem, by simpa using takeFirst_pos hremB, ?_, ?_⟩
  · rw [hdoneAB.entries.1, hdoneA.entries.1, hdoneA.clocks, hdoneA.logs, List.append_assoc]
    rfl
  · rw [hdoneBA.entries.1, hdoneB.entries.1, hdoneB.clocks, hdoneB.logs, List.append_assoc]
    rfl

/-- Two running jobs, two waiting ones and a shutdown. -/
def twoSlotDay : List RpcMessage :=
  [submitMsg 11 1 (text "a"), submitMsg 12 2 (text "b"), submitMsg 13 1 (text "c"),
    submitMsg 14 2 (text "d"), shutdownReq 20]

theorem completions_commute_two_slot_day :
    let w := runMessages .calm twoSlotDay
      (controllerStart [text "controller", text "2", text "fair"])
    let msgA := msgDone 11 { RpcMessage.zero with commandId := 11 }
    let msgB := msgDone 12 { RpcMessage.zero with commandId := 12 }
    let outAB := controllerHandleMessage .calm msgB (controllerHandleMessage .calm msgA w).2
    let env := Env.calm.withClock fun _ => ⟨7, 0⟩
    let outBA := controllerHandleMessage env msgA (controllerHandleMessage env msgB w).2
    outBA.1 = outAB.1 ∧ outBA.2.state = outAB.2.state ∧
      replies outBA.2.trace = replies outAB.2.trace :=
  have htA : (msgDone 11 { RpcMessage.zero with commandId := 11 }).type = .done := rfl
  have htB : (msgDone 12 { RpcMessage.zero with commandId := 12 }).type = .done := rfl
  have h := completions_commute Env.calm_allocsSucceed Env.calm_callsSucceed (fun _ => ⟨7, 0⟩)
    [text "controller", text "2", text "fair"] twoSlotDay htA htB (by decide) (by decide)
    (by decide)
  ⟨h.1.2.2, h.2.1, h.2.2.2.1⟩

end RunnerOrchestrator
