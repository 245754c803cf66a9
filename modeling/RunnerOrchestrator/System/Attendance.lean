import RunnerOrchestrator.Controller.Reports
import RunnerOrchestrator.System.Asking
import RunnerOrchestrator.System.Processes

/-! # From the command lines to `log.txt`

The user id and the limit that are typed are the ones at work, and whoever reads `log.txt`
finds the runners that have executed their commands: each once, under the user its command
line names.
-/

namespace RunnerOrchestrator

open Removal

/-! ## Numbers on a command line -/

/-- The number in decimal, without `+` and without leading zeros, white space in front of it,
and behind it what is not a digit. -/
def Spells (word : CString) (n : Int32) : Prop :=
  ∃ pad rest, (∀ c ∈ pad, isSpace c = true) ∧ EndsNumber rest ∧
    word = pad ++ (decimal n.toInt ++ rest)

theorem Spells.atoi {word : CString} {n : Int32} (h : Spells word n) : atoi word = n := by
  rcases h with ⟨pad, rest, hpad, hrest, rfl⟩
  exact atoi_decimal n hpad hrest

/-- `runner -e <word> <command>`. -/
def executeArgs (prog word command : CString) : List CString := [prog, text "-e", word, command]

theorem runnerParseArgs_execute (prog word command : CString) :
    runnerParseArgs (executeArgs prog word command) = some ⟨.execute, atoi word, command⟩ := by
  simp [runnerParseArgs, executeArgs]

/-- Only this command line leads to a submission. -/
theorem runnerParseArgs_mode {argv : List CString} {request : RunnerRequest}
    (h : runnerParseArgs argv = some request) (hmode : request.mode = .execute) :
    ∃ prog word, argv = executeArgs prog word request.command ∧ request.userId = atoi word := by
  unfold runnerParseArgs at h
  split at h
  · cases h
    cases hmode
  · split at h
    · cases h
      cases hmode
    · split at h
      · cases h
      · next hargs =>
        rw [not_or, not_not, not_not] at hargs
        rcases hargs with ⟨hlength, hflag⟩
        match argv, hlength with
        | [prog, flag, word, command], _ =>
            cases h
            have hflag' : flag = text "-e" := hflag
            exact ⟨prog, word, by rw [hflag']; rfl, rfl⟩

/-- A limit below 1 is not taken. -/
theorem controllerConfigure_limit (prog : CString) {word : CString} {n : Int32} (h : Spells word n)
    (more : List CString) :
    (controllerConfigure (prog :: word :: more)).parallelLimit =
      if 0 < n then n.toInt.toNat else 4 := by
  show (if 1 < (prog :: word :: more).length ∧ 0 < RunnerOrchestrator.atoi word then
    (RunnerOrchestrator.atoi word).toInt.toNat else 4) = _
  rw [h.atoi]
  simp

/-! ## Submissions and jobs have the user of their runner -/

/-- A submission names the user that its runner was started for. -/
def UserNamed (requests : Int32 → RunnerRequest) (msg : RpcMessage) : Prop :=
  msg.type = .submit → msg.userId = (requests msg.senderPid).userId

theorem acceptedJobs_user {requests : Int32 → RunnerRequest} (env : Env) {msgs : List RpcMessage}
    (hmsgs : ∀ msg ∈ msgs, UserNamed requests msg) (w : World) :
    ∀ job ∈ acceptedJobs env msgs w, job.userId = (requests job.runnerPid).userId := by
  induction msgs generalizing w with
  | nil =>
      intro job hjob
      cases hjob
  | cons msg msgs ih =>
      intro job hjob
      rw [acceptedJobs] at hjob
      rcases List.mem_append.mp hjob with hjob | hjob
      · rw [acceptedJob] at hjob
        split at hjob
        · next haccepted =>
          rw [List.mem_singleton.mp hjob]
          exact hmsgs msg List.mem_cons_self haccepted.1
        · cases hjob
      · exact ih (fun m hm => hmsgs m (List.mem_cons_of_mem msg hm)) _ job hjob

def isRecordOf (pid : Int32) (r : LogRecord) : Bool := r.commandId == commandIdOf pid

namespace Orchestra

/-! ## The records of the runners -/

/-- What the controller has handled leads to the records, one for each DONE. -/
structure Attendance (env : Env) (argv : List CString) (requests : Int32 → RunnerRequest)
    (s : State) : Prop where
  world : s.world = runMessages env s.handled (controllerStart argv)
  server : ∀ msg ∈ s.server, UserNamed requests msg
  handled : ∀ msg ∈ s.handled, UserNamed requests msg
  counted : ∀ pid, (completions env s.handled (controllerStart argv)).countP (isRecordOf pid) =
    s.donesHandled pid
  named : ∀ r ∈ completions env s.handled (controllerStart argv), ∃ pid,
    (requests pid).mode = .execute ∧ r.commandId = commandIdOf pid ∧
      r.userId = (requests pid).userId

section Attendance

variable {env : Env} {argv : List CString} {requests : Int32 → RunnerRequest} {s : State}

theorem Attendance.server_send (h : Attendance env argv requests s) {msg : RpcMessage}
    (hmsg : UserNamed requests msg) : ∀ m ∈ s.server ++ [msg], UserNamed requests m :=
  List.forall_mem_append.mpr ⟨h.server, List.forall_mem_singleton.mpr hmsg⟩

theorem userNamed_askMsg (pid : Int32) : UserNamed requests (askMsg requests pid) := by
  intro ht
  rw [askMsg] at ht
  split at ht
  · cases ht
  · cases ht

/-- The DONE of a runner completes its own job. -/
theorem Inv.completion (h : Inv argv requests s) (env : Env) {msg : RpcMessage} (hmsg : msg ∈ s.server)
    (ht : msg.type = .done) :
    ∃ job ∈ s.world.state.runningQueue, job.runnerPid = msg.senderPid ∧
      job.commandId = commandIdOf msg.senderPid ∧
      completion env msg s.world = [job.record (env.gettimeofday s.world.clocks)] := by
  have hid : msg.commandId = commandIdOf msg.senderPid :=
    ((h.server msg hmsg).execute (Or.inr ht)).2
  rcases List.countP_pos_iff.mp (h.runs_of_done hmsg ht) with ⟨mine, hmine, hof⟩
  have hpid : mine.runnerPid = msg.senderPid := by simpa [isJobOf] using hof
  have hmineId : mine.commandId = msg.commandId := by
    rw [hid, ← hpid]
    exact (h.ofRunners.running mine hmine).2
  have hfound : ∃ job rest,
      queueRemoveByCommandId s.world.state.runningQueue msg.commandId = some (job, rest) :=
    exists_takeFirst hmine (by simp [hmineId])
  rcases hfound with ⟨job, rest, hrem⟩
  have hjob : job ∈ s.world.state.runningQueue := (takeFirst_removes hrem).mem
  have hjobId : job.commandId = msg.commandId := by simpa using takeFirst_pos hrem
  have hown := (h.ofRunners.running job hjob).2
  refine ⟨job, hjob, commandIdOf_injective (by rw [← hown, hjobId, hid]), by rw [hjobId, hid], ?_⟩
  simp [RunnerOrchestrator.completion, completedJob, ht, hrem]

/-- No other message completes a job. -/
theorem completion_other {msg : RpcMessage} (ht : msg.type ≠ .done) (w : World) :
    completion env msg w = [] := by
  simp [completion, completedJob, ht]

theorem Attendance.handle (hm : env.AllocsSucceed) (hinv : Inv argv requests s)
    (h : Attendance env argv requests s) {msg : RpcMessage} {rest : List RpcMessage}
    (hread : Removes s.server msg rest) :
    Attendance env argv requests (s.serve env msg rest) := by
  have hrecords : completions env (s.handled ++ [msg]) (controllerStart argv) =
      completions env s.handled (controllerStart argv) ++ completion env msg s.world := by
    rw [completions_snoc, ← h.world]
  refine
    { world := ?_
      server := fun m hm => h.server m (hread.mem_of_mem hm)
      handled := List.forall_mem_append.mpr
        ⟨h.handled, List.forall_mem_singleton.mpr (h.server msg hread.mem)⟩
      counted := fun pid => ?_
      named := fun r hr => ?_ }
  · show (controllerHandleMessage env msg s.world).2 = runMessages env (s.handled ++ [msg]) _
    rw [runMessages_snoc, ← h.world]
  · have hcounted := h.counted pid
    show (completions env (s.handled ++ [msg]) _).countP _ = (s.handled ++ [msg]).countP _
    rw [hrecords, List.countP_append, List.countP_append, hcounted]
    by_cases ht : msg.type = .done
    · rcases hinv.completion env hread.mem ht with ⟨job, -, hpid, hid, hcompletion⟩
      rw [hcompletion]
      have hsame : isRecordOf pid (job.record (env.gettimeofday s.world.clocks)) =
          isDoneOf pid msg := by
        rw [Bool.eq_iff_iff]
        simp only [isRecordOf, isDoneOf, JobInfo.record, hid, ht, beq_self_eq_true, Bool.true_and,
          beq_iff_eq]
        exact ⟨commandIdOf_injective, congrArg commandIdOf⟩
      rw [List.countP_singleton, List.countP_singleton, hsame]
      rfl
    · have hnone : isDoneOf pid msg = false := by simp [isDoneOf, ht]
      rw [completion_other ht, List.countP_singleton, hnone]
      rfl
  · have hrec : r ∈ completions env (s.handled ++ [msg]) (controllerStart argv) := hr
    rw [hrecords] at hrec
    rcases List.mem_append.mp hrec with hr | hr
    · exact h.named r hr
    · by_cases ht : msg.type = .done
      · rcases hinv.completion env hread.mem ht with ⟨job, hjob, hpid, hid, hcompletion⟩
        have hmode := ((hinv.server msg hread.mem).execute (Or.inr ht)).1
        rw [hcompletion] at hr
        rw [h.world] at hjob
        have huser := acceptedJobs_user env h.handled _ _ (running_accepted hm argv s.handled hjob)
        have huser' : job.userId = (requests job.runnerPid).userId := huser
        rw [List.mem_singleton.mp hr]
        exact ⟨msg.senderPid, hmode, hid, by rw [← hpid]; exact huser'⟩
      · rw [completion_other ht] at hr
        cases hr

theorem attendance_of_reachable (hm : env.AllocsSucceed) (hc : env.CallsSucceed)
    (h : TransitionSystem.Reachable (system env argv requests) s) :
    Attendance env argv requests s := by
  apply h.invariant_along
  · intro s hs
    rw [show s = start argv from hs]
    exact ⟨rfl, by simp [start], by simp [start], fun _ => rfl, by simp [start, completions]⟩
  · intro s l s' hreachable h hstep
    cases hstep with
    | submit pid hmode hphase =>
        exact ⟨h.world, h.server_send fun _ => rfl, h.handled, h.counted, h.named⟩
    | ask pid hmode hphase =>
        exact ⟨h.world, h.server_send (userNamed_askMsg pid), h.handled, h.counted, h.named⟩
    | notify pid hphase =>
        have hdone : ∀ ackMsg, UserNamed requests (msgDone pid ackMsg) := by
          intro ackMsg ht
          cases ht
        exact ⟨h.world, h.server_send (hdone _), h.handled, h.counted, h.named⟩
    | authorise | reject | finish | reply =>
        exact ⟨h.world, h.server, h.handled, h.counted, h.named⟩
    | handle hthere hread => exact h.handle hm (inv_of_reachable hm hc hreachable) hread

/-- The runner is in the log. -/
def Recorded (records : List LogRecord) (pid : Int32) : Prop := ∃ r ∈ records, r.commandId = commandIdOf pid

theorem Attendance.recorded_iff (h : Attendance env argv requests s) (pid : Int32) :
    Recorded (completions env s.handled (controllerStart argv)) pid ↔ 0 < s.donesHandled pid := by
  rw [← h.counted pid, List.countP_pos_iff]
  simp [Recorded, isRecordOf]

/-- Nobody is in the log twice. -/
theorem Attendance.nodup (h : Attendance env argv requests s) (hinv : Inv argv requests s) :
    ((completions env s.handled (controllerStart argv)).map LogRecord.commandId).Nodup := by
  rw [List.nodup_iff_count_le_one]
  intro id
  by_cases hid : id ∈ (completions env s.handled (controllerStart argv)).map LogRecord.commandId
  · rcases List.mem_map.mp hid with ⟨r, hr, rfl⟩
    rcases h.named r hr with ⟨pid, -, hpid, -⟩
    have hcounted := h.counted pid
    have hone := hinv.runs_le_one pid
    rw [hpid, List.count, List.countP_map]
    show (completions env s.handled (controllerStart argv)).countP (isRecordOf pid) ≤ 1
    omega
  · rw [List.count_eq_zero.mpr hid]
    exact Nat.zero_le 1

theorem phase_of_donesHandled (hinv : Inv argv requests s) {pid : Int32}
    (hhandled : 0 < s.donesHandled pid) : s.phase pid = .notified := by
  have hreported := hinv.reported pid
  cases hphase : s.phase pid with
  | notified => rfl
  | _ =>
      rw [hphase] at hreported
      simp only [Phase.reported] at hreported
      omega

/-- When the controller has left, every DONE is in. -/
theorem donesHandled_of_left (hinv : Inv argv requests s) (hleft : s.left = true) {pid : Int32}
    (hphase : s.phase pid = .notified) : 0 < s.donesHandled pid := by
  have hacks := hinv.acks pid
  have hauthorised := hinv.authorised pid
  have hruns : s.runs pid = 0 := by simp [State.runs, hinv.stopped hleft]
  rw [hphase] at hacks
  simp only [Phase.authorised] at hacks
  omega

end Attendance

end Orchestra

namespace Processes

open Orchestra (Recorded)

theorem Trail.returned_iff {requests : Int32 → RunnerRequest} {pid : Int32} {history : List Seen}
    {p : Orchestra.Phase} (h : Trail requests pid p history) :
    .returns ∈ history ↔ (∃ msg, p = .executed msg) ∨ p = .notified := by
  cases p with
  | idle | submitted =>
      simp only [Trail] at h
      simp [h]
  | executing msg | executed msg => simp [h.1]
  | notified | rejected =>
      rcases h with ⟨msg, hhistory, -⟩
      simp [hhistory]
  | asked | closed => simp [h.2]

/-- What was typed, what the processes did and what is in the log fit together. -/
structure Obeyed (argv : List CString) (argvs : Int32 → List CString) (c : State)
    (records : List LogRecord) : Prop where
  /-- No more runners at work than the controller was told. -/
  limit : ∀ {prog word more n}, argv = prog :: word :: more → Spells word n → 0 < n →
    ∀ pids : List Int32, pids.Nodup →
      (∀ pid ∈ pids, (∃ prog word command, argvs pid = executeArgs prog word command) ∧
        AtWork (c.history pid)) → (pids.length : Int) ≤ n.toInt
  once : (records.map LogRecord.commandId).Nodup
  /-- Each line is about a command that has been executed, under the user that was typed. -/
  executed : ∀ r ∈ records, ∃ pid prog word command, argvs pid = executeArgs prog word command ∧
    r.commandId = commandIdOf pid ∧ (∀ userId, Spells word userId → r.userId = userId) ∧
    .returns ∈ c.history pid
  complete : c.left = true → ∀ pid, .returns ∈ c.history pid → Recorded records pid

/-- Runners and controller do what their command lines say: at most as many commands run at a
time as was typed, and a reader of `log.txt` finds, behind the records it held before, commands
that have been executed, none twice, each under the user typed with it, and all of them once
the controller has left. -/
theorem commandLines_obeyed {env : Env} (hm : env.AllocsSucceed) (hc : env.CallsSucceed)
    (hl : env.LogsSucceed) (hclock : env.ClockSane) (old : List LogRecord) {argv : List CString}
    {argvs : Int32 → List CString} {requests : Int32 → RunnerRequest}
    (hargs : ∀ pid, runnerParseArgs (argvs pid) = some (requests pid)) {c : State}
    (h : TransitionSystem.Reachable (system env argv requests) c) :
    ∃ records,
      logFileFormat.readAll (logFileFormat.write old ++ logFile c.world.trace) =
        some (old ++ records) ∧
      Obeyed argv argvs c records := by
  rcases exists_matches h with ⟨o, ho, hmatches⟩
  have hinv := Orchestra.inv_of_reachable hm hc ho
  have hlog := Orchestra.attendance_of_reachable hm hc ho
  have htrail : ∀ pid, Trail requests pid (o.phase pid) (c.history pid) := fun pid =>
    trail_of_phaseAfter (hmatches.phase pid)
  refine ⟨completions env o.handled (controllerStart argv), ?_, ?_⟩
  · rw [← hmatches.world, hlog.world]
    exact run_readAll hm hl hclock argv o.handled old
  · refine
      { limit := fun {_ _ _ n} hargv hspells hpos pids hnodup hwork => ?_
        once := hlog.nodup hinv
        executed := fun r hr => ?_
        complete := fun hleft pid hreturned => ?_ }
    · have hlimit : pids.length ≤ (controllerConfigure argv).parallelLimit := by
        apply hinv.atWork_le_limit hnodup
        intro pid hpid
        rcases hwork pid hpid with ⟨⟨prog, word, command, htyped⟩, hatWork⟩
        have hparsed := hargs pid
        rw [htyped, runnerParseArgs_execute, Option.some.injEq] at hparsed
        exact (htrail pid).atWork (by rw [← hparsed]) hatWork
      rw [hargv, controllerConfigure_limit _ hspells, if_pos hpos] at hlimit
      have hpos' : (0 : Int) < n.toInt := Int32.lt_iff_toInt_lt.mp hpos
      omega
    · rcases hlog.named r hr with ⟨pid, hmode, hid, huser⟩
      rcases runnerParseArgs_mode (hargs pid) hmode with ⟨prog, word, htyped, hword⟩
      have hhandled := (hlog.recorded_iff pid).mp ⟨r, hr, hid⟩
      refine ⟨pid, prog, word, _, htyped, hid, fun userId hspells => ?_, ?_⟩
      · rw [huser, hword, hspells.atoi]
      · exact (htrail pid).returned_iff.mpr (.inr (Orchestra.phase_of_donesHandled hinv hhandled))
    · have hleft' : o.left = true := by rw [hmatches.left]; exact hleft
      apply (hlog.recorded_iff pid).mpr
      rcases (htrail pid).returned_iff.mp hreturned with ⟨msg, hphase⟩ | hphase
      · exact absurd (by rw [hphase]; trivial) (hinv.exit hleft' pid).1
      · exact Orchestra.donesHandled_of_left hinv hleft' hphase

/-- Runner 20 shuts the controller down, any other runs `a` for user 7. -/
def typed (pid : Int32) : List CString :=
  if pid = 20 then [text "runner", text "-s"]
  else executeArgs (text "runner") (text " 7x") (text "a")

def asked (pid : Int32) : RunnerRequest :=
  if pid = 20 then ⟨.shutdown, 0, []⟩ else ⟨.execute, 7, text "a"⟩

theorem typed_asked (pid : Int32) : runnerParseArgs (typed pid) = some (asked pid) := by
  unfold typed asked
  split
  · decide
  · decide

def ackForSeven : RpcMessage :=
  { RpcMessage.zero with type := .ack, senderPid := 100, userId := 7, commandId := 11 }

theorem commandLines_obeyed_user_seven :
    ∃ c, TransitionSystem.Reachable (system hourly [text "controller", text "1"] asked) c ∧
      c.left = true ∧
      ∃ records,
        logFileFormat.readAll (logFileFormat.write [⟨-4, 9, 12⟩] ++ logFile c.world.trace) =
          some ([⟨-4, 9, 12⟩] ++ records) ∧
        Obeyed [text "controller", text "1"] typed c records ∧ Recorded records 11 := by
  have hstart : TransitionSystem.Reachable (system hourly [text "controller", text "1"] asked)
      (start _) := .init rfl
  have hsubmit := hstart.step (Step.sends 11 (submitMsg 11 7 (text "a"))
    ⟨calmRunner 11 [], ∅, rfl, by decide⟩)
  have hserved := hsubmit.step (Step.handle rfl (removes_head _ _))
  have hread := hserved.step (Step.reads 11 ⟨calmRunner 11 [ackForSeven], ∅, rfl, by decide⟩
    (removes_head ackForSeven []))
  have hreturn := hread.step (Step.returns 11 ⟨calmRunner 11 [ackForSeven], ∅, rfl, by decide⟩)
  have hdone := hreturn.step (Step.sends 11 (msgDone 11 ackForSeven)
    ⟨calmRunner 11 [ackForSeven], ∅, rfl, by decide⟩)
  have hlogged := hdone.step (Step.handle rfl (removes_head _ _))
  have hshutdown := hlogged.step (Step.sends 20 (shutdownReq 20)
    ⟨calmRunner 20 [], ∅, rfl, by decide⟩)
  have hleft := hshutdown.step (Step.handle rfl (removes_head _ _))
  rcases commandLines_obeyed hourly_allocsSucceed hourly_callsSucceed hourly_logsSucceed
    hourly_clockSane [⟨-4, 9, 12⟩] typed_asked hleft with ⟨records, hlog, hobeyed⟩
  exact ⟨_, hleft, rfl, records, hlog, hobeyed, hobeyed.complete rfl 11 (by decide)⟩

end Processes

end RunnerOrchestrator
