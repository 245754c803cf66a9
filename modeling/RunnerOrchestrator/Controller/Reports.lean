import RunnerOrchestrator.Common.Numerals
import RunnerOrchestrator.Controller.Completion
import RunnerOrchestrator.Controller.Waiting
import RunnerOrchestrator.Controller.Status

/-! # Reading the log and the status back

`log.txt` and the answer to a status request are texts put together with `snprintf`.
Both are formats: a reader that knows nothing but the text finds the completed jobs
with their durations, and the two queues as they are shown.
-/

namespace RunnerOrchestrator

open Reading Removal

/-! ## Fields -/

def userIdFormat : Format Int32 UInt8 :=
  intFormat.view Int32.ofInt Int32.toInt Int32.ofInt_toInt

def commandIdFormat : Format Int64 UInt8 :=
  intFormat.view Int64.ofInt Int64.toInt Int64.ofInt_toInt

theorem endsNumber_cons {c : UInt8} (h : isDigit c = false) (rest : CString) :
    EndsNumber (c :: rest) := by
  intro d hd
  rw [List.head?_cons, Option.mem_some_iff] at hd
  rw [← hd]
  exact h

/-- What the lines of `log.txt` and of a status answer begin with. -/
def userField : Format Int32 UInt8 :=
  (userIdFormat.closed (text " - command-id ") fun rest =>
    endsNumber_cons (c := 32) (by decide) (text "- command-id " ++ rest)).after (text "user-id ")

/-! ## `log.txt` -/

structure LogRecord where
  userId : Int32
  commandId : Int64
  ms : Int
deriving Repr, DecidableEq

def commandField : Format Int64 UInt8 :=
  commandIdFormat.closed (text " - ") fun rest => endsNumber_cons (c := 32) (by decide) (text "- " ++ rest)

def msField : Format Int UInt8 :=
  intFormat.closed (text " ms\n") fun rest => endsNumber_cons (c := 32) (by decide) (text "ms\n" ++ rest)

/-- One line of `log.txt`. -/
def logRecordFormat : Format LogRecord UInt8 :=
  (userField.pair (commandField.pair msField fun _ _ _ => trivial) fun _ _ _ => trivial).view
    (fun p => ⟨p.1, p.2.1, p.2.2⟩) (fun r => (r.userId, r.commandId, r.ms)) fun _ => rfl

theorem logRecordFormat_write_ne_nil (r : LogRecord) : logRecordFormat.write r ≠ [] := by
  show text "user-id " ++ _ ++ _ ≠ []
  rw [List.append_assoc]
  exact List.append_ne_nil_of_left_ne_nil (by decide) _

def logFileFormat : Format (List LogRecord) UInt8 :=
  logRecordFormat.many (fun _ => trivial) logRecordFormat_write_ne_nil

theorem logFileFormat_write (records : List LogRecord) :
    logFileFormat.write records = records.flatMap logRecordFormat.write := rfl

/-- The clock readings are times at which `elapsed_ms` can be computed in a `long`. -/
def Env.ClockSane (env : Env) : Prop :=
  ∀ n, (env.gettimeofday n).tvSec.natAbs ≤ 2 ^ 52 ∧ (env.gettimeofday n).tvUsec.natAbs < 1000000

/-- The product and the sum in `elapsed_ms` are values of a `long`. -/
theorem elapsedMs_fits {env : Env} (hclock : env.ClockSane) (m n : Nat) :
    (((env.gettimeofday n).tvSec - (env.gettimeofday m).tvSec) * 1000).natAbs < 2 ^ 63 ∧
      (elapsedMs (env.gettimeofday n) (env.gettimeofday m)).natAbs < 2 ^ 63 := by
  rcases hclock m with ⟨hm, hm'⟩
  rcases hclock n with ⟨hn, hn'⟩
  have hfraction : (((env.gettimeofday n).tvUsec - (env.gettimeofday m).tvUsec).tdiv 1000).natAbs ≤
      2000 := by
    rw [Int.natAbs_tdiv]
    show ((env.gettimeofday n).tvUsec - (env.gettimeofday m).tvUsec).natAbs / 1000 ≤ 2000
    omega
  rw [elapsedMs]
  constructor <;> omega

def JobInfo.record (job : JobInfo) (now : Timeval) : LogRecord :=
  ⟨job.userId, job.commandId, elapsedMs now job.startTime⟩

/-- The buffer of 256 bytes holds every line. -/
theorem logLine_record {env : Env} (hclock : env.ClockSane) (job : JobInfo) (m n : Nat)
    (hstart : job.startTime = env.gettimeofday m) :
    logLine job (elapsedMs (env.gettimeofday n) job.startTime) =
      logRecordFormat.write (job.record (env.gettimeofday n)) := by
  have huser := length_decimal_int32 job.userId
  have hcommand := length_decimal_int64 job.commandId
  have hms : (decimal (elapsedMs (env.gettimeofday n) job.startTime)).length ≤ 20 := by
    apply length_decimal_le (k := 19) (by decide)
    rw [hstart]
    exact lt_of_lt_of_le (elapsedMs_fits hclock m n).2 (by decide)
  have hfront : (text "user-id ").length = 8 := by decide
  have hmiddle : (text " - command-id ").length = 14 := by decide
  have hdash : (text " - ").length = 3 := by decide
  have hend : (text " ms\n").length = 4 := by decide
  rw [logLine, bounded_of_length_lt]
  · show _ = text "user-id " ++ (decimal job.userId.toInt ++ text " - command-id ") ++
      (decimal job.commandId.toInt ++ text " - " ++
        (decimal (elapsedMs (env.gettimeofday n) job.startTime) ++ text " ms\n"))
    simp only [List.append_assoc]
  · simp only [List.length_append, hfront, hmiddle, hdash, hend]
    omega

/-- The text of a line that was written. -/
def Event.line? : Event → Option CString
  | .log _ line true => some line
  | .log _ _ false | .ack _ _ | .refusal _ _ | .farewell _ | .status _ _ _ => none

theorem Event.line?_eq_none {e : Event} (h : e.isLog = false) : e.line? = none := by
  cases e with
  | log job line written => simp [Event.isLog] at h
  | _ => rfl

/-- What a controller appends to `log.txt`. -/
def logFile (trace : List Event) : CString := (trace.filterMap Event.line?).flatten

theorem logFile_append (t t' : List Event) : logFile (t ++ t') = logFile t ++ logFile t' := by
  rw [logFile, List.filterMap_append, List.flatten_append]
  rfl

theorem logFile_silent {events : List Event} (h : ∀ e ∈ events, e.isLog = false) :
    logFile events = [] := by
  rw [logFile, List.filterMap_eq_nil_iff.mpr fun e he => Event.line?_eq_none (h e he)]
  rfl

theorem logged_silent {events : List Event} (h : ∀ e ∈ events, e.isLog = false) :
    logged events = [] := by
  apply List.filterMap_eq_nil_iff.mpr
  intro e he
  have hsilent := h e he
  cases e with
  | log job line written => cases hsilent
  | _ => rfl

/-! ## One message -/

/-- The running job that a message completes. -/
def completedJob (msg : RpcMessage) (s : ControllerState) : Option JobInfo :=
  if msg.type = .done then (queueRemoveByCommandId s.runningQueue msg.commandId).map Prod.fst
  else none

theorem completedJob_eq_some {msg : RpcMessage} {s : ControllerState} {job : JobInfo}
    (h : completedJob msg s = some job) :
    msg.type = .done ∧
      ∃ running, queueRemoveByCommandId s.runningQueue msg.commandId = some (job, running) := by
  unfold completedJob at h
  split at h
  · next ht =>
    rcases Option.map_eq_some_iff.mp h with ⟨⟨removed, running⟩, hrem, rfl⟩
    exact ⟨ht, running, hrem⟩
  · cases h

/-- The record of a completed job, with the time its DONE is handled. -/
def completion (env : Env) (msg : RpcMessage) (w : World) : List LogRecord :=
  (completedJob msg w.state).toList.map fun job => job.record (env.gettimeofday w.clocks)

theorem Served.silent {env : Env} {msg : RpcMessage} {w : World} {s : ControllerState}
    {events : List Event} (hs : Served env msg w s events)
    (hnone : completedJob msg w.state = none) : ∀ e ∈ events, e.isLog = false := by
  intro e he
  cases hs with
  | started ht hfree hslot send hsend =>
      rw [List.mem_singleton.mp he]
      rfl
  | completed ht job running hrem hfree line written hlog =>
      rw [completedJob, if_pos ht, hrem] at hnone
      cases hnone
  | promoted ht job running hrem next rest hpick line written hlog send hsend =>
      rw [completedJob, if_pos ht, hrem] at hnone
      cases hnone
  | answered ht replies hreplies =>
      rcases List.mem_map.mp he with ⟨sent, -, rfl⟩
      rfl
  | _ => exact absurd he List.not_mem_nil

theorem Handled.silent {env : Env} {msg : RpcMessage} {w : World} {ret : Bool}
    {s : ControllerState} {events : List Event} (hs : Handled env msg w ret s events)
    (hnone : completedJob msg w.state = none) : ∀ e ∈ events, e.isLog = false := by
  intro e he
  cases hs with
  | refused hlate send hsend =>
      rw [List.mem_singleton.mp he]
      rfl
  | served hlate hs hgo => exact hs.silent hnone e he
  | finished hlate hs hstop send hsend =>
      rcases List.mem_append.mp he with he | he
      · exact hs.silent hnone e he
      · rw [List.mem_singleton.mp he]
        rfl

/-- Every job carries one of the first `clocks` readings of the clock. -/
structure JobsTimed (env : Env) (clocks : Nat) (s : ControllerState) : Prop where
  waiting : ∀ job ∈ s.waitingQueue, ∃ n < clocks, job.startTime = env.gettimeofday n
  running : ∀ job ∈ s.runningQueue, ∃ n < clocks, job.startTime = env.gettimeofday n

theorem JobsTimed.mono {env : Env} {clocks clocks' : Nat} {s : ControllerState}
    (h : JobsTimed env clocks s) (hle : clocks ≤ clocks') : JobsTimed env clocks' s := by
  constructor
  · intro job hjob
    rcases h.waiting job hjob with ⟨n, hn, hstart⟩
    exact ⟨n, Nat.lt_of_lt_of_le hn hle, hstart⟩
  · intro job hjob
    rcases h.running job hjob with ⟨n, hn, hstart⟩
    exact ⟨n, Nat.lt_of_lt_of_le hn hle, hstart⟩

theorem JobsTimed.start {env : Env} {clocks : Nat} {s : ControllerState} (h : JobsTimed env clocks s)
    {job : JobInfo} (hjob : ∃ n < clocks, job.startTime = env.gettimeofday n) :
    JobsTimed env clocks (s.start job.started) := by
  refine ⟨h.waiting, fun j hj => ?_⟩
  rcases List.mem_append.mp hj with hj | hj
  · exact h.running j hj
  · rw [List.mem_singleton.mp hj]
    exact hjob

/-- A submission is given the next reading. -/
theorem Served.timed {env : Env} {msg : RpcMessage} {w : World} {s : ControllerState}
    {events : List Event} (hs : Served env msg w s events) (h : JobsTimed env w.clocks w.state)
    {clocks : Nat} (hle : w.clocks ≤ clocks) (hsubmit : msg.type = .submit → w.clocks < clocks) :
    JobsTimed env clocks s := by
  have hkept := h.mono hle
  have hnew : msg.type = .submit →
      ∃ n < clocks, (submittedJob env msg w).startTime = env.gettimeofday n := fun ht =>
    ⟨w.clocks, hsubmit ht, rfl⟩
  cases hs with
  | started ht hfree hslot send hsend =>
      have hremember : JobsTimed env clocks (w.state.remember msg.userId) :=
        ⟨by simpa using hkept.waiting, by simpa using hkept.running⟩
      exact hremember.start (hnew ht)
  | queued ht hfull =>
      refine ⟨fun j hj => ?_, by simpa using hkept.running⟩
      rcases List.mem_append.mp hj with hj | hj
      · exact hkept.waiting j hj
      · rw [List.mem_singleton.mp hj]
        exact hnew ht
  | completed ht job running hrem hfree line written hlog =>
      exact ⟨hkept.waiting, fun j hj => hkept.running j ((takeFirst_removes hrem).mem_of_mem hj)⟩
  | promoted ht job running hrem next rest hpick line written hlog send hsend =>
      have hremoves := ControllerState.pick_removes hpick
      have htaken : JobsTimed env clocks
          { w.state with
            runningQueue := running, runningCount := w.state.runningCount - 1
            waitingQueue := rest } :=
        ⟨fun j hj => hkept.waiting j (hremoves.mem_of_mem hj),
          fun j hj => hkept.running j ((takeFirst_removes hrem).mem_of_mem hj)⟩
      exact htaken.start (hkept.waiting next hremoves.mem)
  | stray ht hrem => exact hkept
  | answered ht replies hreplies => exact hkept
  | asked ht => exact ⟨hkept.waiting, hkept.running⟩
  | ignored ht => exact hkept

theorem tryFinishShutdown_clocks (env : Env) (w : World) :
    (tryFinishShutdown env w).2.clocks = w.clocks := by
  unfold tryFinishShutdown
  split <;> rfl

theorem logFinishedJob_clocks (env : Env) (job : JobInfo) (w : World) :
    (logFinishedJob env job w).clocks = w.clocks + 1 := by
  unfold logFinishedJob
  dsimp only
  split <;> rfl

theorem handleStatusReq_clocks (env : Env) (msg : RpcMessage) (w : World) :
    (handleStatusReq env msg w).clocks = w.clocks := by
  unfold handleStatusReq
  dsimp only
  split
  · rfl
  · split
    · rfl
    · split <;> rfl

/-! ## Runs -/

/-- The records of the jobs completed along a run, in order. -/
def completions (env : Env) : List RpcMessage → World → List LogRecord
  | [], _ => []
  | msg :: msgs, w => completion env msg w ++ completions env msgs (controllerHandleMessage env msg w).2

theorem completions_snoc (env : Env) (msgs : List RpcMessage) (msg : RpcMessage) (w : World) :
    completions env (msgs ++ [msg]) w =
      completions env msgs w ++ completion env msg (runMessages env msgs w) := by
  induction msgs generalizing w with
  | nil => simp [completions, runMessages]
  | cons m msgs ih =>
      rw [List.cons_append, completions, completions, ih, List.append_assoc]
      rfl

section Runs

variable {env : Env} (hm : env.AllocsSucceed)

include hm

theorem handleDone_clocks {msg : RpcMessage} {w : World} (h : SlotInv w.state) :
    w.clocks ≤ (handleDone env msg w).clocks := by
  cases hrem : queueRemoveByCommandId w.state.runningQueue msg.commandId with
  | none =>
      rw [handleDone_stray h hrem]
  | some out =>
      rcases out with ⟨job, running⟩
      have hlog := logFinishedJob_clocks env job w
      by_cases hfree : w.state.waitingQueue = []
      · rw [handleDone_complete hrem hfree]
        show w.clocks ≤ (logFinishedJob env job w).clocks
        omega
      · rcases handleDone_promote hm h hrem hfree with ⟨next, rest, mallocs, -, heq⟩
        rw [heq]
        show w.clocks ≤ (logFinishedJob env job w).clocks
        omega

theorem handleSubmit_clocks (msg : RpcMessage) (w : World) :
    (handleSubmit env msg w).clocks = w.clocks + 1 := by
  by_cases hslot : w.state.runningCount < w.state.parallelLimit
  · rcases handleSubmit_start hm msg hslot with ⟨mallocs, heq⟩
    rw [heq]
    rfl
  · rcases handleSubmit_queue hm msg hslot with ⟨mallocs, heq⟩
    rw [heq]

theorem serve_clocks (msg : RpcMessage) {w : World} (h : SlotInv w.state) :
    w.clocks ≤ (serve env msg w).clocks ∧
      (msg.type = .submit → w.clocks < (serve env msg w).clocks) := by
  unfold serve
  split
  · rw [handleSubmit_clocks hm]
    exact ⟨Nat.le_succ _, fun _ => Nat.lt_succ_self _⟩
  · next ht => exact ⟨handleDone_clocks hm h, fun hs => by rw [ht] at hs; cases hs⟩
  · next ht =>
    rw [handleStatusReq_clocks]
    exact ⟨le_rfl, fun hs => by rw [ht] at hs; cases hs⟩
  · next ht => exact ⟨le_rfl, fun hs => by rw [ht] at hs; cases hs⟩
  all_goals exact ⟨le_rfl, fun hs => by simp_all⟩

theorem controllerHandleMessage_timed (msg : RpcMessage) {w : World} (hslots : SlotInv w.state)
    (h : JobsTimed env w.clocks w.state) :
    JobsTimed env (controllerHandleMessage env msg w).2.clocks
      (controllerHandleMessage env msg w).2.state := by
  by_cases hlate : IsLate msg w.state
  · rw [controllerHandleMessage_late hlate]
    exact h
  · rcases serve_served hm msg hslots with ⟨events, -, hserved⟩
    rcases serve_clocks hm msg hslots with ⟨hle, hsubmit⟩
    have htimed := hserved.timed h hle hsubmit
    rw [controllerHandleMessage_serve hlate, tryFinishShutdown_clocks, tryFinishShutdown_state]
    exact ⟨htimed.waiting, htimed.running⟩

theorem run_timed (argv : List CString) (msgs : List RpcMessage) :
    JobsTimed env (runMessages env msgs (controllerStart argv)).clocks
      (runMessages env msgs (controllerStart argv)).state := by
  induction msgs using List.reverseRecOn with
  | nil =>
      rw [runMessages, List.foldl_nil]
      exact ⟨by simp [controllerConfigure], by simp [controllerConfigure]⟩
  | append_singleton msgs msg ih =>
      rw [runMessages_snoc]
      exact controllerHandleMessage_timed hm msg (run_slots env argv msgs) ih

/-- Behind the entry of a completion come no others. -/
theorem controllerHandleMessage_logged {msg : RpcMessage} (ht : msg.type = .done) {w : World}
    (h : SlotInv w.state) {job : JobInfo} {running : JobQueue}
    (hrem : queueRemoveByCommandId w.state.runningQueue msg.commandId = some (job, running)) :
    ∃ events, (controllerHandleMessage env msg w).2.trace = w.trace ++
        finishedAt job (env.gettimeofday w.clocks) (logWritten env w.logs) :: events ∧
      ∀ e ∈ events, e.isLog = false := by
  have hlate : ¬ IsLate msg w.state := by simp [IsLate, ht]
  have hserve : serve env msg w = handleDone env msg w := by simp [serve, ht]
  have hfinish : ∀ v : World, ∃ more, (tryFinishShutdown env v).2.trace = v.trace ++ more ∧
      ∀ e ∈ more, e.isLog = false := by
    intro v
    unfold tryFinishShutdown
    split
    · exact ⟨[], by simp, by simp⟩
    · exact ⟨_, rfl, by simp [Event.isLog]⟩
  rcases hfinish (handleDone env msg w) with ⟨more, htrace, hmore⟩
  rw [controllerHandleMessage_serve hlate, hserve, htrace]
  by_cases hfree : w.state.waitingQueue = []
  · rw [handleDone_complete hrem hfree, logFinishedJob_exact]
    exact ⟨more, by simp, hmore⟩
  · rcases handleDone_promote hm h hrem hfree with ⟨next, rest, mallocs, -, heq⟩
    rw [heq, logFinishedJob_exact]
    refine ⟨.ack next.started (ipcSendAtomic env w.ios next.runnerPid
      (ackMessage env next.started)).1 :: more, by simp [sendAckToRunner]; rfl, ?_⟩
    exact List.forall_mem_cons.mpr ⟨rfl, hmore⟩

variable (hl : env.LogsSucceed)

include hl

/-- A completion adds one line, and no other message adds any. -/
theorem controllerHandleMessage_logFile (hclock : env.ClockSane) (msg : RpcMessage) {w : World}
    (hslots : SlotInv w.state) (htimed : JobsTimed env w.clocks w.state) :
    logFile (controllerHandleMessage env msg w).2.trace =
      logFile w.trace ++ (completion env msg w).flatMap logRecordFormat.write := by
  cases hdone : completedJob msg w.state with
  | none =>
      rcases controllerHandleMessage_handled hm msg hslots with ⟨events, htrace, hhandled⟩
      rw [htrace, logFile_append, logFile_silent (hhandled.silent hdone), completion, hdone]
      rfl
  | some job =>
      rcases completedJob_eq_some hdone with ⟨ht, running, hrem⟩
      rcases controllerHandleMessage_logged hm ht hslots hrem with ⟨events, htrace, hsilent⟩
      have hwritten : logWritten env w.logs = true := by
        simp [logWritten, hl w.logs, hl (w.logs + 1)]
      rcases htimed.running job (takeFirst_removes hrem).mem with ⟨m, -, hstart⟩
      have hline : logFile [finishedAt job (env.gettimeofday w.clocks) true] =
          logRecordFormat.write (job.record (env.gettimeofday w.clocks)) := by
        rw [← logLine_record hclock job m w.clocks hstart]
        exact List.append_nil _
      rw [htrace, hwritten, logFile_append, ← List.singleton_append, logFile_append,
        logFile_silent hsilent, hline, List.append_nil, completion, hdone]
      exact congrArg (logFile w.trace ++ ·) (List.append_nil _).symm

/-- The lines of one run are the records of its completions. -/
theorem run_logFile (hclock : env.ClockSane) (argv : List CString) (msgs : List RpcMessage) :
    logFile (runMessages env msgs (controllerStart argv)).trace =
      logFileFormat.write (completions env msgs (controllerStart argv)) := by
  induction msgs using List.reverseRecOn with
  | nil => rfl
  | append_singleton msgs msg ih =>
      rw [runMessages_snoc, completions_snoc,
        controllerHandleMessage_logFile hm hl hclock msg (run_slots env argv msgs)
          (run_timed hm argv msgs), ih, logFileFormat_write, logFileFormat_write,
        List.flatMap_append]

/-- `log.txt` is opened for appending. -/
theorem run_readAll (hclock : env.ClockSane) (argv : List CString) (msgs : List RpcMessage)
    (old : List LogRecord) :
    logFileFormat.readAll
        (logFileFormat.write old ++ logFile (runMessages env msgs (controllerStart argv)).trace) =
      some (old ++ completions env msgs (controllerStart argv)) := by
  have hend : logRecordFormat.read [] = none := by decide
  rw [run_logFile hm hl hclock, logFileFormat_write, logFileFormat_write, ← List.flatMap_append]
  exact logFileFormat.readAll_write hend _

end Runs

/-- The record names this job. -/
def LogRecord.IsOf (r : LogRecord) (job : JobId) : Prop :=
  job.userId = r.userId ∧ job.commandId = r.commandId

/-- The records of the completions name the completed jobs, one for one. -/
theorem run_completions {env : Env} (hm : env.AllocsSucceed) (argv : List CString)
    (msgs : List RpcMessage) :
    List.Forall₂ LogRecord.IsOf (completions env msgs (controllerStart argv))
      (logged (runMessages env msgs (controllerStart argv)).trace) := by
  induction msgs using List.reverseRecOn with
  | nil => exact .nil
  | append_singleton msgs msg ih =>
      have hslots := run_slots env argv msgs
      rw [runMessages_snoc, completions_snoc]
      cases hdone : completedJob msg (runMessages env msgs (controllerStart argv)).state with
      | none =>
          rcases controllerHandleMessage_handled hm msg hslots with ⟨events, htrace, hhandled⟩
          rw [htrace, logged_append, logged_silent (hhandled.silent hdone), completion, hdone]
          simpa using ih
      | some job =>
          rcases completedJob_eq_some hdone with ⟨ht, running, hrem⟩
          rcases controllerHandleMessage_logged hm ht hslots hrem with ⟨events, htrace, hsilent⟩
          rw [htrace, logged_append, logged_cons, logged_silent hsilent, completion, hdone]
          exact List.rel_append ih (.cons ⟨rfl, rfl⟩ .nil)

/-- Reading `log.txt` gives the records it held before and those of the completed jobs, in
order of completion. -/
theorem log_readable {env : Env} (hm : env.AllocsSucceed) (hl : env.LogsSucceed)
    (hclock : env.ClockSane) (argv : List CString) (msgs : List RpcMessage)
    (old : List LogRecord) :
    logFileFormat.readAll
        (logFileFormat.write old ++ logFile (runMessages env msgs (controllerStart argv)).trace) =
      some (old ++ completions env msgs (controllerStart argv)) :=
  run_readAll hm hl hclock argv msgs old

/-- A machine whose clock starts again every hour. -/
def hourly : Env := Env.calm.withClock fun n => ⟨((n % 3600 : Nat) : Int), 0⟩

theorem hourly_allocsSucceed : hourly.AllocsSucceed := fun _ => rfl

theorem hourly_callsSucceed : hourly.CallsSucceed := fun _ => rfl

theorem hourly_logsSucceed : hourly.LogsSucceed := fun _ => rfl

theorem hourly_clockSane : hourly.ClockSane := by
  intro n
  constructor
  · show n % 3600 ≤ 2 ^ 52
    omega
  · show (0 : Nat) < 1000000
    decide

theorem log_readable_draining_day :
    logFileFormat.readAll
        (text "user-id -4 - command-id 9 - 12 ms\n" ++
          logFile (runMessages hourly drainingDay (controllerStart [text "controller", text "1"])).trace) =
      some [⟨-4, 9, 12⟩, ⟨1, 11, 2000⟩, ⟨2, 12, 2000⟩] := by
  have hread := log_readable hourly_allocsSucceed hourly_logsSucceed hourly_clockSane
    [text "controller", text "1"] drainingDay [⟨-4, 9, 12⟩]
  have hold : logFileFormat.write [⟨-4, 9, 12⟩] = text "user-id -4 - command-id 9 - 12 ms\n" := by
    decide
  have hnew : completions hourly drainingDay (controllerStart [text "controller", text "1"]) =
      [⟨1, 11, 2000⟩, ⟨2, 12, 2000⟩] := by decide
  rwa [hold, hnew] at hread

/-! ## Durations -/

/-- A clock reading in microseconds. -/
def Timeval.micros (t : Timeval) : Int := t.tvSec * 1000000 + t.tvUsec

/-- Readings whose microseconds stay below a second, none earlier than one before. -/
structure Env.ClockMonotone (env : Env) : Prop where
  usec : ∀ n, 0 ≤ (env.gettimeofday n).tvUsec ∧ (env.gettimeofday n).tvUsec < 1000000
  mono : ∀ m n, m ≤ n → (env.gettimeofday m).micros ≤ (env.gettimeofday n).micros

theorem natAbs_tmod_lt (usec : Int) : (usec.tmod 1000).natAbs < 1000 := by
  rw [Int.natAbs_tmod]
  exact Nat.mod_lt _ (by decide)

/-- The division by 1000 loses less than a millisecond. -/
theorem elapsedMs_accurate (now start : Timeval) :
    (1000 * elapsedMs now start - (now.micros - start.micros)).natAbs < 1000 := by
  have hsplit := Int.mul_tdiv_add_tmod (now.tvUsec - start.tvUsec) 1000
  have hrem := natAbs_tmod_lt (now.tvUsec - start.tvUsec)
  rw [elapsedMs, Timeval.micros, Timeval.micros]
  omega

theorem elapsedMs_nonneg {now start : Timeval} (hnow : 0 ≤ now.tvUsec ∧ now.tvUsec < 1000000)
    (hstart : 0 ≤ start.tvUsec ∧ start.tvUsec < 1000000) (hle : start.micros ≤ now.micros) :
    0 ≤ elapsedMs now start := by
  have hsplit := Int.mul_tdiv_add_tmod (now.tvUsec - start.tvUsec) 1000
  have hrem := natAbs_tmod_lt (now.tvUsec - start.tvUsec)
  rw [Timeval.micros, Timeval.micros] at hle
  rw [elapsedMs]
  by_cases hsec : start.tvSec < now.tvSec
  · omega
  · have hfraction : 0 ≤ (now.tvUsec - start.tvUsec).tdiv 1000 :=
      Int.tdiv_nonneg (by omega) (by decide)
    omega

/-- The record is that of an accepted job, its duration the time from the submission to
`now`, up to a millisecond, and computed without an overflow. -/
structure LogRecord.Accurate (now : Timeval) (r : LogRecord) (job : JobId) : Prop where
  userId : job.userId = r.userId
  commandId : job.commandId = r.commandId
  fits : ((now.tvSec - job.startTime.tvSec) * 1000).natAbs < 2 ^ 63 ∧ r.ms.natAbs < 2 ^ 63
  nonneg : 0 ≤ r.ms
  close : (1000 * r.ms - (now.micros - job.startTime.micros)).natAbs < 1000

/-- What runs was accepted. -/
theorem running_accepted {env : Env} (hm : env.AllocsSucceed) (argv : List CString)
    (msgs : List RpcMessage) {job : JobInfo}
    (hjob : job ∈ (runMessages env msgs (controllerStart argv)).state.runningQueue) :
    job.ident ∈ acceptedJobs env msgs (controllerStart argv) := by
  rw [← Multiset.mem_coe, (run_balanced hm argv msgs).accepted]
  exact Multiset.mem_add.mpr (.inl (Multiset.mem_add.mpr (.inr (List.mem_map_of_mem hjob))))

/-- Whatever DONE completes a job, the duration logged is the time from the submission of an
accepted job to that DONE, up to a millisecond, and it is not negative. -/
theorem durations_accurate {env : Env} (hm : env.AllocsSucceed) (hrange : env.ClockSane)
    (hclock : env.ClockMonotone) (argv : List CString) (msgs : List RpcMessage) (msg : RpcMessage) :
    let w := runMessages env msgs (controllerStart argv)
    ∀ r ∈ completion env msg w, ∃ job ∈ acceptedJobs env msgs (controllerStart argv),
      r.Accurate (env.gettimeofday w.clocks) job := by
  intro w r hr
  rcases List.mem_map.mp hr with ⟨job, hjob, rfl⟩
  rcases completedJob_eq_some (Option.mem_toList.mp hjob) with ⟨-, running, hrem⟩
  have hmem := (takeFirst_removes hrem).mem
  rcases (run_timed hm argv msgs).running job hmem with ⟨m, hlt, hstart⟩
  refine ⟨job.ident, running_accepted hm argv msgs hmem, rfl, rfl, ?_, ?_, elapsedMs_accurate _ _⟩
  · show (((env.gettimeofday w.clocks).tvSec - job.startTime.tvSec) * 1000).natAbs < 2 ^ 63 ∧
      (elapsedMs (env.gettimeofday w.clocks) job.startTime).natAbs < 2 ^ 63
    rw [hstart]
    exact elapsedMs_fits hrange m w.clocks
  · show 0 ≤ elapsedMs _ job.startTime
    rw [hstart]
    exact elapsedMs_nonneg (hclock.usec _) (hclock.usec m) (hclock.mono _ _ hlt.le)

/-- A machine whose clock stands still after an hour. -/
def oneHour : Env := Env.calm.withClock fun n => ⟨((min n 3600 : Nat) : Int), 0⟩

theorem oneHour_clockMonotone : oneHour.ClockMonotone := by
  constructor
  · intro n
    show (0 : Int) ≤ 0 ∧ (0 : Int) < 1000000
    decide
  · intro m n hle
    show ((min m 3600 : Nat) : Int) * 1000000 + 0 ≤ ((min n 3600 : Nat) : Int) * 1000000 + 0
    omega

theorem oneHour_clockSane : oneHour.ClockSane := by
  intro n
  constructor
  · show min n 3600 ≤ 2 ^ 52
    omega
  · show (0 : Nat) < 1000000
    decide

theorem durations_accurate_draining_day :
    let w := runMessages oneHour (drainingDay.take 4) (controllerStart [text "controller", text "1"])
    completion oneHour (doneOf 11) w = [⟨1, 11, 2000⟩] ∧
      ∀ r ∈ completion oneHour (doneOf 11) w,
        ∃ job ∈ acceptedJobs oneHour (drainingDay.take 4) (controllerStart [text "controller", text "1"]),
          r.Accurate (oneHour.gettimeofday w.clocks) job :=
  ⟨by decide, durations_accurate (fun _ => rfl) oneHour_clockSane oneHour_clockMonotone
    [text "controller", text "1"] (drainingDay.take 4) (doneOf 11)⟩

/-! ## The answer to a status request -/

/-- What a status line says of a job. -/
structure StatusEntry where
  userId : Int32
  commandId : Int64
deriving Repr, DecidableEq

def JobInfo.entry (job : JobInfo) : StatusEntry := ⟨job.userId, job.commandId⟩

def statusEntryFormat : Format StatusEntry UInt8 :=
  (userField.pair
      (commandIdFormat.closed (text "\n") fun rest => endsNumber_cons (c := 10) (by decide) rest)
      fun _ _ _ => trivial).view
    (fun p => ⟨p.1, p.2⟩) (fun e => (e.userId, e.commandId)) fun _ => rfl

theorem statusEntryFormat_write (job : JobInfo) :
    statusEntryFormat.write job.entry = statusLine job := by
  show text "user-id " ++ (decimal job.userId.toInt ++ text " - command-id ") ++
    (decimal job.commandId.toInt ++ text "\n") = statusLine job
  simp only [statusLine, List.append_assoc]

theorem statusEntryFormat_write_ne_nil (e : StatusEntry) : statusEntryFormat.write e ≠ [] := by
  show text "user-id " ++ _ ++ _ ≠ []
  rw [List.append_assoc]
  exact List.append_ne_nil_of_left_ne_nil (by decide) _

def statusEntriesFormat : Format (List StatusEntry) UInt8 :=
  statusEntryFormat.many (fun _ => trivial) statusEntryFormat_write_ne_nil

theorem statusEntriesFormat_write (jobs : List JobInfo) :
    statusEntriesFormat.write (jobs.map JobInfo.entry) = (jobs.map statusLine).flatten := by
  show (jobs.map JobInfo.entry).flatMap statusEntryFormat.write = _
  rw [List.flatMap_map, ← List.flatMap_def]
  simp only [statusEntryFormat_write]

/-- A header is no status line, so the lines of the first section end there. -/
theorem scheduledHeader_ends (rest : CString) :
    statusEntriesFormat.follows (scheduledHeader ++ rest) := by
  apply Format.view_read_eq_none
  apply Format.pair_read_eq_none
  apply Format.after_read_eq_none
  rintro ⟨more, hmore⟩
  have hfirst := congrArg List.head? hmore
  have huser : (text "user-id " ++ more).head? = some 117 := rfl
  have hheader : (scheduledHeader ++ rest).head? = some 45 := rfl
  rw [huser, hheader] at hfirst
  exact absurd hfirst (by decide)

/-- Running jobs, then waiting jobs. -/
def statusFormat : Format (List StatusEntry × List StatusEntry) UInt8 :=
  (statusEntriesFormat.after executingHeader).pair (statusEntriesFormat.after scheduledHeader)
    fun entries rest _ => by
      show statusEntriesFormat.follows (scheduledHeader ++ statusEntriesFormat.write entries ++ rest)
      rw [List.append_assoc]
      exact scheduledHeader_ends _

theorem statusFormat_write (running waiting : List JobInfo) :
    statusFormat.write (running.map JobInfo.entry, waiting.map JobInfo.entry) =
      (statusTexts running waiting).flatten := by
  show executingHeader ++ statusEntriesFormat.write (running.map JobInfo.entry) ++
    (scheduledHeader ++ statusEntriesFormat.write (waiting.map JobInfo.entry)) = _
  rw [statusEntriesFormat_write, statusEntriesFormat_write, statusTexts, List.flatten_append,
    List.flatten_cons, List.flatten_cons]

/-- What `runner -c` prints tells which jobs run and which wait, in the order shown. -/
theorem status_readable {env : Env} (hm : env.AllocsSucceed) (hc : env.CallsSucceed)
    (msg : RpcMessage) (w : World) :
    ∃ replies, (handleStatusReq env msg w).trace = w.trace ++ [.status msg.senderPid replies false] ∧
      statusFormat.readAll (printStatus replies) =
        some (w.state.runningQueue.map JobInfo.entry, (shownWaiting w.state).map JobInfo.entry) := by
  refine ⟨_, handleStatusReq_reply hm hc msg w, ?_⟩
  have hend : statusEntryFormat.read [] = none := by decide
  rw [printStatus_resps, map_bounded_statusTexts, ← statusFormat_write]
  exact statusFormat.readAll_write hend _

theorem status_readable_fair :
    let w := runMessages .calm (threeUsers.take 3)
      (controllerStart [text "controller", text "1", text "fair"])
    ∃ replies, (handleStatusReq .calm (statusReq 20) w).trace = w.trace ++ [.status 20 replies false] ∧
      statusFormat.readAll (printStatus replies) = some ([⟨-7, 11⟩], [⟨2, 12⟩, ⟨3, 13⟩]) := by
  intro w
  rcases status_readable Env.calm_allocsSucceed Env.calm_callsSucceed (statusReq 20) w with
    ⟨replies, htrace, hread⟩
  have hshown : (w.state.runningQueue.map JobInfo.entry, (shownWaiting w.state).map JobInfo.entry) =
      ([⟨-7, 11⟩], [⟨2, 12⟩, ⟨3, 13⟩]) := by decide
  rw [hshown] at hread
  exact ⟨replies, htrace, hread⟩

end RunnerOrchestrator
