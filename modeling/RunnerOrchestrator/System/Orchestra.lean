import RunnerOrchestrator.System.Accounts
import RunnerOrchestrator.Foundation.TransitionSystem

/-! # The controller among its runners

Every PID is one runner, started for one request. Messages travel through the public
FIFO and one FIFO a runner, and are read in any order or never: one that the public FIFO
discards, or that comes when nobody reads any more, stays in flight. What ties the parties
together is a count for every PID: its submission is in one place at a time.
-/

namespace RunnerOrchestrator.Orchestra

open Removal

inductive Phase
  | idle
  | submitted
  | executing (ackMsg : RpcMessage)
  | executed (ackMsg : RpcMessage)
  | notified
  | rejected
  | asked
  | closed
deriving Repr, DecidableEq

/-- `server` and `inbox` hold the messages that are written and not handled or read, `executions`
counts how often a runner went on to its command. -/
structure State where
  phase : Int32 → Phase
  server : List RpcMessage
  inbox : Int32 → List RpcMessage
  executions : Int32 → Nat
  handled : List RpcMessage
  world : World
  left : Bool

inductive Label
  | submit (pid : Int32)
  | ask (pid : Int32)
  | authorise (pid : Int32)
  | reject (pid : Int32)
  | finish (pid : Int32)
  | notify (pid : Int32)
  | reply (pid : Int32)
  | handle (msg : RpcMessage)

/-- The request of a runner that asks and waits. -/
def askMsg (requests : Int32 → RunnerRequest) (pid : Int32) : RpcMessage :=
  if (requests pid).mode = .status then statusReq pid else shutdownReq pid

/-- The message that ends its waiting. -/
def endsWait (requests : Int32 → RunnerRequest) (pid : Int32) (msg : RpcMessage) : Bool :=
  if (requests pid).mode = .status then msg.type == .statusEnd else msg.type == .shutdownAck

/-- What the controller put into a FIFO while it handled one message. -/
def newReplies (w w' : World) (pid : Int32) : List RpcMessage :=
  sentTo pid (w'.trace.drop w.trace.length)

inductive Step (env : Env) (requests : Int32 → RunnerRequest) (s : State) : Label → State → Prop
  | submit (pid : Int32) (hmode : (requests pid).mode = .execute) (hphase : s.phase pid = .idle) :
      Step env requests s (.submit pid)
        { s with
          phase := Function.update s.phase pid .submitted
          server := s.server ++ [submitMsg pid (requests pid).userId (requests pid).command] }
  | ask (pid : Int32) (hmode : (requests pid).mode ≠ .execute) (hphase : s.phase pid = .idle) :
      Step env requests s (.ask pid)
        { s with
          phase := Function.update s.phase pid .asked
          server := s.server ++ [askMsg requests pid] }
  /-- The first message read is an ACK: on to the command. -/
  | authorise (pid : Int32) {msg : RpcMessage} {rest : List RpcMessage}
      (hphase : s.phase pid = .submitted) (hread : Removes (s.inbox pid) msg rest)
      (hack : isAuthorised msg = true) :
      Step env requests s (.authorise pid)
        { s with
          phase := Function.update s.phase pid (.executing msg)
          inbox := Function.update s.inbox pid rest
          executions := Function.update s.executions pid (s.executions pid + 1) }
  | reject (pid : Int32) {msg : RpcMessage} {rest : List RpcMessage}
      (hphase : s.phase pid = .submitted) (hread : Removes (s.inbox pid) msg rest)
      (hack : isAuthorised msg = false) :
      Step env requests s (.reject pid)
        { s with
          phase := Function.update s.phase pid .rejected
          inbox := Function.update s.inbox pid rest }
  /-- `execute_pipeline` returns. -/
  | finish (pid : Int32) {msg : RpcMessage} (hphase : s.phase pid = .executing msg) :
      Step env requests s (.finish pid)
        { s with phase := Function.update s.phase pid (.executed msg) }
  | notify (pid : Int32) {msg : RpcMessage} (hphase : s.phase pid = .executed msg) :
      Step env requests s (.notify pid)
        { s with
          phase := Function.update s.phase pid .notified
          server := s.server ++ [msgDone pid msg] }
  | reply (pid : Int32) {msg : RpcMessage} {rest : List RpcMessage}
      (hphase : s.phase pid = .asked) (hread : Removes (s.inbox pid) msg rest) :
      Step env requests s (.reply pid)
        { s with
          phase := Function.update s.phase pid (if endsWait requests pid msg then .closed else .asked)
          inbox := Function.update s.inbox pid rest }
  | handle {msg : RpcMessage} {rest : List RpcMessage} (hthere : s.left = false)
      (hread : Removes s.server msg rest) :
      Step env requests s (.handle msg)
        { s with
          server := rest
          inbox := fun pid =>
            s.inbox pid ++ newReplies s.world (controllerHandleMessage env msg s.world).2 pid
          handled := s.handled ++ [msg]
          world := (controllerHandleMessage env msg s.world).2
          left := (controllerHandleMessage env msg s.world).1 }

def start (argv : List CString) : State :=
  { phase := fun _ => .idle, server := [], inbox := fun _ => [], executions := fun _ => 0,
    handled := [], world := controllerStart argv, left := false }

def system (env : Env) (argv : List CString) (requests : Int32 → RunnerRequest) :
    TransitionSystem State Label :=
  { init := fun s => s = start argv, step := Step env requests }

/-! ## Counting for one PID -/

section Counts

variable (s : State) (pid : Int32)

def State.submits : Nat := s.server.countP (isSubmitOf pid)

def State.dones : Nat := s.server.countP (isDoneOf pid)

def State.waits : Nat := s.world.state.waitingQueue.countP (isJobOf pid)

def State.runs : Nat := s.world.state.runningQueue.countP (isJobOf pid)

def State.unreadAcks : Nat := (s.inbox pid).countP isAuthorised

def State.unreadOthers : Nat := (s.inbox pid).countP fun msg => !isAuthorised msg

def State.acksSent : Nat := acksTo pid s.world.trace

def State.donesHandled : Nat := s.handled.countP (isDoneOf pid)

end Counts

def Phase.begun : Phase → Nat
  | .idle => 0
  | .submitted | .executing _ | .executed _ | .notified | .rejected | .asked | .closed => 1

def Phase.refused : Phase → Nat
  | .rejected => 1
  | .idle | .submitted | .executing _ | .executed _ | .notified | .asked | .closed => 0

/-- Has read its ACK. -/
def Phase.authorised : Phase → Nat
  | .executing _ | .executed _ | .notified => 1
  | .idle | .submitted | .rejected | .asked | .closed => 0

/-- Has sent its DONE. -/
def Phase.reported : Phase → Nat
  | .notified => 1
  | .idle | .submitted | .executing _ | .executed _ | .rejected | .asked | .closed => 0

def Phase.Fits : Phase → RunnerMode → Prop
  | .idle, _ => True
  | .asked, mode | .closed, mode => mode ≠ .execute
  | .submitted, mode | .executing _, mode | .executed _, mode | .notified, mode
  | .rejected, mode => mode = .execute

/-- The ACK read has the runner's own command id. -/
def Phase.HasId (pid : Int32) : Phase → Prop
  | .executing msg | .executed msg => msg.commandId = commandIdOf pid
  | .idle | .submitted | .notified | .rejected | .asked | .closed => True

/-! ## The invariant -/

/-- Controller, messages in flight and phases agree, PID by PID. -/
structure Inv (argv : List CString) (requests : Int32 → RunnerRequest) (s : State) : Prop where
  slots : SlotInv s.world.state
  limit : s.world.state.parallelLimit = (controllerConfigure argv).parallelLimit
  ofRunners : OfRunners requests s.world.state
  server : ∀ msg ∈ s.server, FromRunner requests msg
  ackIds : ∀ pid, ∀ msg ∈ s.inbox pid, isAuthorised msg = true → msg.commandId = commandIdOf pid
  phaseIds : ∀ pid, (s.phase pid).HasId pid
  fits : ∀ pid, (s.phase pid).Fits (requests pid).mode
  /-- The submission is in one place. -/
  placed : ∀ pid, (requests pid).mode = .execute →
    s.submits pid + s.waits pid + s.runs pid + s.unreadOthers pid + s.donesHandled pid +
      (s.phase pid).refused = (s.phase pid).begun
  authorised : ∀ pid, s.acksSent pid = s.runs pid + s.donesHandled pid
  reported : ∀ pid, s.dones pid + s.donesHandled pid = (s.phase pid).reported
  acks : ∀ pid, s.acksSent pid = s.unreadAcks pid + (s.phase pid).authorised
  executions : ∀ pid, s.executions pid = (s.phase pid).authorised
  stopped : s.left = true → s.world.state.runningQueue = []

theorem Inv.start (argv : List CString) (requests : Int32 → RunnerRequest) :
    Inv argv requests (start argv) := by
  exact
    { slots := controllerConfigure_slots argv
      limit := rfl
      ofRunners := ⟨by simp [Orchestra.start, controllerConfigure],
        by simp [Orchestra.start, controllerConfigure],
        by simp [Orchestra.start, controllerConfigure]⟩
      server := by simp [Orchestra.start]
      ackIds := by simp [Orchestra.start]
      phaseIds := fun _ => trivial
      fits := fun _ => trivial
      placed := fun _ _ => rfl
      authorised := fun _ => rfl
      reported := fun _ => rfl
      acks := fun _ => rfl
      executions := fun _ => rfl
      stopped := fun h => by cases h }

/-- A runner in the middle of its command holds one slot. -/
theorem Inv.runs_of_authorised {argv : List CString} {requests : Int32 → RunnerRequest} {s : State}
    (h : Inv argv requests s) {pid : Int32} (hauth : (s.phase pid).authorised = 1)
    (hhandled : s.donesHandled pid = 0) : 0 < s.runs pid := by
  have hacks := h.acks pid
  have hauthorised := h.authorised pid
  omega

theorem Inv.runs_eq_zero {argv : List CString} {requests : Int32 → RunnerRequest} {s : State}
    (h : Inv argv requests s) {pid : Int32} (hmode : (requests pid).mode ≠ .execute) :
    s.runs pid = 0 := by
  apply List.countP_eq_zero.mpr
  intro job hjob hmine
  have hpid : job.runnerPid = pid := by simpa [isJobOf] using hmine
  exact hmode (hpid ▸ (h.ofRunners.running job hjob).1)

/-! ## Steps of the runners -/

/-- A step of one runner leaves the controller and every other runner alone. -/
structure OneRunner (pid : Int32) (s s' : State) : Prop where
  world : s'.world = s.world
  handled : s'.handled = s.handled
  left : s'.left = s.left
  phase : ∀ q, q ≠ pid → s'.phase q = s.phase q
  inbox : ∀ q, q ≠ pid → s'.inbox q = s.inbox q
  executions : ∀ q, q ≠ pid → s'.executions q = s.executions q
  submits : ∀ q, q ≠ pid → s'.submits q = s.submits q
  dones : ∀ q, q ≠ pid → s'.dones q = s.dones q

/-- A message sent carries the PID of its sender. -/
theorem OneRunner.send (s : State) (phase : Phase) {pid : Int32} {msg : RpcMessage}
    (hsender : msg.senderPid = pid) :
    OneRunner pid s
      { s with phase := Function.update s.phase pid phase, server := s.server ++ [msg] } := by
  have hsubmit : ∀ q, q ≠ pid → isSubmitOf q msg = false := fun q hq => by
    simp [isSubmitOf, hsender, Ne.symm hq]
  have hdone : ∀ q, q ≠ pid → isDoneOf q msg = false := fun q hq => by
    simp [isDoneOf, hsender, Ne.symm hq]
  exact
    { world := rfl
      handled := rfl
      left := rfl
      phase := fun _ hq => Function.update_of_ne hq _ _
      inbox := fun _ _ => rfl
      executions := fun _ _ => rfl
      submits := fun q hq => by simp [State.submits, hsubmit q hq]
      dones := fun q hq => by simp [State.dones, hdone q hq] }

theorem OneRunner.read (s : State) (phase : Phase) (pid : Int32) (rest : List RpcMessage) :
    OneRunner pid s
      { s with
        phase := Function.update s.phase pid phase
        inbox := Function.update s.inbox pid rest } :=
  { world := rfl
    handled := rfl
    left := rfl
    phase := fun _ hq => Function.update_of_ne hq _ _
    inbox := fun _ hq => Function.update_of_ne hq _ _
    executions := fun _ _ => rfl
    submits := fun _ _ => rfl
    dones := fun _ _ => rfl }

/-- What is left to check is the account of the runner that made the step. -/
structure Settled (requests : Int32 → RunnerRequest) (pid : Int32) (s : State) : Prop where
  server : ∀ msg ∈ s.server, FromRunner requests msg
  ackIds : ∀ msg ∈ s.inbox pid, isAuthorised msg = true → msg.commandId = commandIdOf pid
  phaseIds : (s.phase pid).HasId pid
  fits : (s.phase pid).Fits (requests pid).mode
  placed : (requests pid).mode = .execute →
    s.submits pid + s.waits pid + s.runs pid + s.unreadOthers pid + s.donesHandled pid +
      (s.phase pid).refused = (s.phase pid).begun
  reported : s.dones pid + s.donesHandled pid = (s.phase pid).reported
  acks : s.acksSent pid = s.unreadAcks pid + (s.phase pid).authorised
  executions : s.executions pid = (s.phase pid).authorised

section Runners

variable {argv : List CString} {requests : Int32 → RunnerRequest} {s : State}
  (h : Inv argv requests s)

include h

theorem Inv.settled (pid : Int32) : Settled requests pid s :=
  ⟨h.server, h.ackIds pid, h.phaseIds pid, h.fits pid, h.placed pid, h.reported pid, h.acks pid,
    h.executions pid⟩

theorem Inv.oneRunner {s' : State} {pid : Int32} (hone : OneRunner pid s s')
    (hpid : Settled requests pid s') : Inv argv requests s' := by
  have hwaits : ∀ q, s'.waits q = s.waits q := fun q => by simp [State.waits, hone.world]
  have hruns : ∀ q, s'.runs q = s.runs q := fun q => by simp [State.runs, hone.world]
  have hsent : ∀ q, s'.acksSent q = s.acksSent q := fun q => by simp [State.acksSent, hone.world]
  have hhandled : ∀ q, s'.donesHandled q = s.donesHandled q := fun q => by
    simp [State.donesHandled, hone.handled]
  have hinbox : ∀ q, q ≠ pid → s'.unreadAcks q = s.unreadAcks q ∧
      s'.unreadOthers q = s.unreadOthers q := fun q hq => by
    simp [State.unreadAcks, State.unreadOthers, hone.inbox q hq]
  refine
    { slots := by rw [hone.world]; exact h.slots
      limit := by rw [hone.world]; exact h.limit
      ofRunners := by rw [hone.world]; exact h.ofRunners
      server := hpid.server
      ackIds := fun q => ?_
      phaseIds := fun q => ?_
      fits := fun q => ?_
      placed := fun q hmode => ?_
      authorised := fun q => by rw [hsent, hruns, hhandled]; exact h.authorised q
      reported := fun q => ?_
      acks := fun q => ?_
      executions := fun q => ?_
      stopped := by rw [hone.left, hone.world]; exact h.stopped }
  all_goals by_cases hq : q = pid
  · exact hq ▸ hpid.ackIds
  · rw [hone.inbox q hq]
    exact h.ackIds q
  · exact hq ▸ hpid.phaseIds
  · rw [hone.phase q hq]
    exact h.phaseIds q
  · exact hq ▸ hpid.fits
  · rw [hone.phase q hq]
    exact h.fits q
  · subst hq
    exact hpid.placed hmode
  · rw [hone.submits q hq, hwaits, hruns, (hinbox q hq).2, hhandled, hone.phase q hq]
    exact h.placed q hmode
  · exact hq ▸ hpid.reported
  · rw [hone.dones q hq, hhandled, hone.phase q hq]
    exact h.reported q
  · exact hq ▸ hpid.acks
  · rw [hsent, (hinbox q hq).1, hone.phase q hq]
    exact h.acks q
  · exact hq ▸ hpid.executions
  · rw [hone.executions q hq, hone.phase q hq]
    exact h.executions q

theorem Inv.server_send {msg : RpcMessage} (hmsg : FromRunner requests msg) :
    ∀ m ∈ s.server ++ [msg], FromRunner requests m := by
  intro m hm
  rcases List.mem_append.mp hm with hm | hm
  · exact h.server m hm
  · rw [List.mem_singleton.mp hm]
    exact hmsg

theorem Inv.submit {pid : Int32} (hmode : (requests pid).mode = .execute)
    (hphase : s.phase pid = .idle) :
    Inv argv requests
      { s with
        phase := Function.update s.phase pid .submitted
        server := s.server ++ [submitMsg pid (requests pid).userId (requests pid).command] } := by
  have hmine : isSubmitOf pid (submitMsg pid (requests pid).userId (requests pid).command) = true := by
    simp [isSubmitOf, submitMsg]
  have hdone : isDoneOf pid (submitMsg pid (requests pid).userId (requests pid).command) = false := by
    simp [isDoneOf, submitMsg]
  have hfrom : FromRunner requests (submitMsg pid (requests pid).userId (requests pid).command) := by
    simp [FromRunner, submitMsg, hmode, commandIdOf]
  obtain ⟨-, -, -, -, hplaced, hreported, hacks, hexec⟩ := h.settled pid
  rw [hphase] at hplaced hreported hacks hexec
  have hplaced := hplaced hmode
  refine h.oneRunner (.send s .submitted rfl)
    { server := h.server_send hfrom
      ackIds := h.ackIds pid
      phaseIds := by simp [Phase.HasId]
      fits := by simp [Phase.Fits, hmode]
      placed := fun _ => ?_
      reported := ?_
      acks := ?_
      executions := ?_ }
  · simp only [Function.update_self, Phase.refused, Phase.begun] at hplaced ⊢
    simp only [State.submits, State.waits, State.runs, State.unreadOthers, State.donesHandled,
      List.countP_append, List.countP_singleton, hmine, if_true] at hplaced ⊢
    omega
  · simpa [State.dones, State.donesHandled, hdone, Phase.reported] using hreported
  · simpa [State.acksSent, State.unreadAcks, Phase.authorised] using hacks
  · simpa [Phase.authorised] using hexec

theorem Inv.ask {pid : Int32} (hmode : (requests pid).mode ≠ .execute)
    (hphase : s.phase pid = .idle) :
    Inv argv requests
      { s with
        phase := Function.update s.phase pid .asked
        server := s.server ++ [askMsg requests pid] } := by
  have hsender : (askMsg requests pid).senderPid = pid := by
    unfold askMsg
    split <;> rfl
  have hdone : isDoneOf pid (askMsg requests pid) = false := by
    unfold askMsg
    split <;> rfl
  have hfrom : FromRunner requests (askMsg requests pid) := by
    cases hm : (requests pid).mode with
    | execute => exact absurd hm hmode
    | status => simp [FromRunner, askMsg, statusReq, hm]
    | shutdown => simp [FromRunner, askMsg, shutdownReq, hm]
  obtain ⟨-, -, -, -, -, hreported, hacks, hexec⟩ := h.settled pid
  rw [hphase] at hreported hacks hexec
  refine h.oneRunner (.send s .asked hsender)
    { server := h.server_send hfrom
      ackIds := h.ackIds pid
      phaseIds := by simp [Phase.HasId]
      fits := by simp [Phase.Fits, hmode]
      placed := fun hexecute => absurd hexecute hmode
      reported := ?_
      acks := ?_
      executions := ?_ }
  · simpa [State.dones, State.donesHandled, hdone, Phase.reported] using hreported
  · simpa [State.acksSent, State.unreadAcks, Phase.authorised] using hacks
  · simpa [Phase.authorised] using hexec

omit h in
/-- Reading a message takes it out of one of the two counts of the inbox. -/
theorem countP_read {l r : List RpcMessage} {msg : RpcMessage} (hread : Removes l msg r) :
    l.countP isAuthorised = r.countP isAuthorised + (if isAuthorised msg then 1 else 0) ∧
      l.countP (fun m => !isAuthorised m) =
        r.countP (fun m => !isAuthorised m) + if isAuthorised msg then 0 else 1 := by
  refine ⟨hread.countP isAuthorised, ?_⟩
  rw [hread.countP fun m => !isAuthorised m]
  cases isAuthorised msg <;> rfl

theorem Inv.authorise {pid : Int32} {msg : RpcMessage} {rest : List RpcMessage}
    (hphase : s.phase pid = .submitted) (hread : Removes (s.inbox pid) msg rest)
    (hack : isAuthorised msg = true) :
    Inv argv requests
      { s with
        phase := Function.update s.phase pid (.executing msg)
        inbox := Function.update s.inbox pid rest
        executions := Function.update s.executions pid (s.executions pid + 1) } := by
  obtain ⟨hread₁, hread₂⟩ := countP_read hread
  obtain ⟨-, -, -, hfits, hplaced, hreported, hacks, hexec⟩ := h.settled pid
  rw [hphase] at hfits hplaced hreported hacks hexec
  simp only [hack, if_true] at hread₁ hread₂
  refine h.oneRunner
    { world := rfl
      handled := rfl
      left := rfl
      phase := fun _ hq => Function.update_of_ne hq _ _
      inbox := fun _ hq => Function.update_of_ne hq _ _
      executions := fun _ hq => Function.update_of_ne hq _ _
      submits := fun _ _ => rfl
      dones := fun _ _ => rfl }
    { server := h.server
      ackIds := fun m hm => ?_
      phaseIds := ?_
      fits := by simpa [Phase.Fits] using hfits
      placed := fun hmode => ?_
      reported := by simpa [State.dones, State.donesHandled, Phase.reported] using hreported
      acks := ?_
      executions := by simpa [Phase.authorised] using hexec }
  · simp only [Function.update_self] at hm
    exact h.ackIds pid m (hread.mem_of_mem hm)
  · simp only [Function.update_self, Phase.HasId]
    exact h.ackIds pid msg hread.mem hack
  · have hplaced := hplaced hmode
    simp only [Function.update_self, Phase.refused, Phase.begun, State.submits, State.waits,
      State.runs, State.unreadOthers, State.donesHandled] at hplaced ⊢
    omega
  · simp only [Function.update_self, Phase.authorised, State.acksSent, State.unreadAcks] at hacks ⊢
    omega

theorem Inv.reject {pid : Int32} {msg : RpcMessage} {rest : List RpcMessage}
    (hphase : s.phase pid = .submitted) (hread : Removes (s.inbox pid) msg rest)
    (hack : isAuthorised msg = false) :
    Inv argv requests
      { s with
        phase := Function.update s.phase pid .rejected
        inbox := Function.update s.inbox pid rest } := by
  obtain ⟨hread₁, hread₂⟩ := countP_read hread
  obtain ⟨-, -, -, hfits, hplaced, hreported, hacks, hexec⟩ := h.settled pid
  rw [hphase] at hfits hplaced hreported hacks hexec
  simp only [hack, Bool.false_eq_true, if_false] at hread₁ hread₂
  refine h.oneRunner (.read s .rejected pid rest)
    { server := h.server
      ackIds := fun m hm => ?_
      phaseIds := by simp [Phase.HasId]
      fits := by simpa [Phase.Fits] using hfits
      placed := fun hmode => ?_
      reported := by simpa [State.dones, State.donesHandled, Phase.reported] using hreported
      acks := ?_
      executions := by simpa [Phase.authorised] using hexec }
  · simp only [Function.update_self] at hm
    exact h.ackIds pid m (hread.mem_of_mem hm)
  · have hplaced := hplaced hmode
    simp only [Function.update_self, Phase.refused, Phase.begun, State.submits, State.waits,
      State.runs, State.unreadOthers, State.donesHandled] at hplaced ⊢
    omega
  · simp only [Function.update_self, Phase.authorised, State.acksSent, State.unreadAcks] at hacks ⊢
    omega

theorem Inv.finish {pid : Int32} {msg : RpcMessage} (hphase : s.phase pid = .executing msg) :
    Inv argv requests { s with phase := Function.update s.phase pid (.executed msg) } := by
  obtain ⟨-, -, hid, hfits, hplaced, hreported, hacks, hexec⟩ := h.settled pid
  rw [hphase] at hid hfits hplaced hreported hacks hexec
  exact h.oneRunner
    { world := rfl
      handled := rfl
      left := rfl
      phase := fun _ hq => Function.update_of_ne hq _ _
      inbox := fun _ _ => rfl
      executions := fun _ _ => rfl
      submits := fun _ _ => rfl
      dones := fun _ _ => rfl }
    { server := h.server
      ackIds := h.ackIds pid
      phaseIds := by simpa [Phase.HasId] using hid
      fits := by simpa [Phase.Fits] using hfits
      placed := by simpa [State.submits, State.waits, State.runs, State.unreadOthers,
        State.donesHandled, Phase.refused, Phase.begun] using hplaced
      reported := by simpa [State.dones, State.donesHandled, Phase.reported] using hreported
      acks := by simpa [State.acksSent, State.unreadAcks, Phase.authorised] using hacks
      executions := by simpa [Phase.authorised] using hexec }

theorem Inv.notify {pid : Int32} {msg : RpcMessage} (hphase : s.phase pid = .executed msg) :
    Inv argv requests
      { s with
        phase := Function.update s.phase pid .notified
        server := s.server ++ [msgDone pid msg] } := by
  have hsubmit : isSubmitOf pid (msgDone pid msg) = false := by simp [isSubmitOf, msgDone]
  have hmine : isDoneOf pid (msgDone pid msg) = true := by simp [isDoneOf, msgDone]
  obtain ⟨-, -, hid, hfits, hplaced, hreported, hacks, hexec⟩ := h.settled pid
  rw [hphase] at hid hfits hplaced hreported hacks hexec
  have hfrom : FromRunner requests (msgDone pid msg) := by
    have hmode : (requests pid).mode = .execute := hfits
    have hids : msg.commandId = commandIdOf pid := hid
    simp [FromRunner, msgDone, hmode, hids]
  refine h.oneRunner (.send s .notified rfl)
    { server := h.server_send hfrom
      ackIds := h.ackIds pid
      phaseIds := by simp [Phase.HasId]
      fits := by simpa [Phase.Fits] using hfits
      placed := fun hmode => ?_
      reported := ?_
      acks := by simpa [State.acksSent, State.unreadAcks, Phase.authorised] using hacks
      executions := by simpa [Phase.authorised] using hexec }
  · simpa [State.submits, State.waits, State.runs, State.unreadOthers, State.donesHandled, hsubmit,
      Phase.refused, Phase.begun] using hplaced hmode
  · simp only [Function.update_self, Phase.reported, State.dones, State.donesHandled,
      List.countP_append, List.countP_singleton, hmine, if_true] at hreported ⊢
    omega

theorem Inv.reply {pid : Int32} {msg : RpcMessage} {rest : List RpcMessage}
    (hphase : s.phase pid = .asked) (hread : Removes (s.inbox pid) msg rest) :
    Inv argv requests
      { s with
        phase := Function.update s.phase pid (if endsWait requests pid msg then .closed else .asked)
        inbox := Function.update s.inbox pid rest } := by
  obtain ⟨hread₁, -⟩ := countP_read hread
  obtain ⟨-, -, -, hfits, -, hreported, hacks, hexec⟩ := h.settled pid
  rw [hphase] at hfits hreported hacks hexec
  have hmode : (requests pid).mode ≠ .execute := hfits
  -- it has no job, so no ACK was ever sent to it
  have hnoAck := h.authorised pid
  have hnoRun := h.runs_eq_zero hmode
  have hunreported : (if endsWait requests pid msg then Phase.closed else .asked).reported = 0 := by
    split <;> rfl
  have hunauthorised : (if endsWait requests pid msg then Phase.closed else .asked).authorised = 0 := by
    split <;> rfl
  refine h.oneRunner (.read s _ pid rest)
    { server := h.server
      ackIds := fun m hm => ?_
      phaseIds := ?_
      fits := ?_
      placed := fun hexecute => absurd hexecute hmode
      reported := ?_
      acks := ?_
      executions := ?_ }
  · simp only [Function.update_self] at hm
    exact h.ackIds pid m (hread.mem_of_mem hm)
  · simp only [Function.update_self]
    split <;> trivial
  · simp only [Function.update_self]
    split <;> exact hmode
  · simp only [Function.update_self, hunreported]
    exact hreported
  · have hasked : Phase.asked.authorised = 0 ∧ Phase.asked.reported = 0 := ⟨rfl, rfl⟩
    simp only [Function.update_self, hunauthorised, hasked.1, hasked.2, State.acksSent,
      State.unreadAcks] at hacks hreported hnoAck ⊢
    omega
  · simp only [Function.update_self, hunauthorised]
    exact hexec

end Runners

/-! ## The step of the controller -/

/-- A DONE in flight comes from a runner whose job is running. -/
theorem Inv.runs_of_done {argv : List CString} {requests : Int32 → RunnerRequest} {s : State}
    (h : Inv argv requests s) {msg : RpcMessage} (hmsg : msg ∈ s.server) (ht : msg.type = .done) :
    0 < s.runs msg.senderPid := by
  have hdones : 0 < s.dones msg.senderPid :=
    List.countP_pos_iff.mpr ⟨msg, hmsg, by simp [isDoneOf, ht]⟩
  have hreported := h.reported msg.senderPid
  cases hphase : s.phase msg.senderPid with
  | notified =>
      rw [hphase] at hreported
      simp only [Phase.reported] at hreported
      exact h.runs_of_authorised (by simp [hphase, Phase.authorised]) (by omega)
  | _ =>
      rw [hphase] at hreported
      simp only [Phase.reported] at hreported
      omega

theorem Inv.handle {env : Env} (hm : env.AllocsSucceed) (hc : env.CallsSucceed)
    {argv : List CString} {requests : Int32 → RunnerRequest} {s : State} (h : Inv argv requests s)
    {msg : RpcMessage} {rest : List RpcMessage} (hread : Removes s.server msg rest) :
    Inv argv requests
      { s with
        server := rest
        inbox := fun pid =>
          s.inbox pid ++ newReplies s.world (controllerHandleMessage env msg s.world).2 pid
        handled := s.handled ++ [msg]
        world := (controllerHandleMessage env msg s.world).2
        left := (controllerHandleMessage env msg s.world).1 } := by
  have hfrom := h.server msg hread.mem
  obtain ⟨events, htrace, hhandled⟩ := controllerHandleMessage_handled hm msg h.slots
  have hslots : SlotInv (controllerHandleMessage env msg s.world).2.state :=
    controllerHandleMessage_slots h.slots
  have haccount := fun pid =>
    hhandled.account hc h.ofRunners hfrom (fun ht => h.runs_of_done hread.mem ht) pid
  have hreplies : ∀ pid, newReplies s.world (controllerHandleMessage env msg s.world).2 pid =
      sentTo pid events := fun pid => by
    simp [newReplies, htrace]
  have hacksSent : ∀ pid, acksTo pid (controllerHandleMessage env msg s.world).2.trace =
      acksTo pid s.world.trace + acksTo pid events := fun pid => by
    simp [acksTo, htrace]
  refine
    { slots := hslots
      limit := (controllerHandleMessage_config env msg s.world).1.trans h.limit
      ofRunners := hhandled.ofRunners h.ofRunners hfrom
      server := fun m hmem => h.server m (hread.mem_of_mem hmem)
      ackIds := fun pid m hmem => ?_
      phaseIds := h.phaseIds
      fits := h.fits
      placed := fun pid hmode => ?_
      authorised := fun pid => ?_
      reported := fun pid => ?_
      acks := fun pid => ?_
      executions := h.executions
      stopped := fun hleft => ?_ }
  · simp only [hreplies] at hmem
    rcases List.mem_append.mp hmem with hmem | hmem
    · exact h.ackIds pid m hmem
    · exact hhandled.ackIds hc h.ofRunners hfrom pid m hmem
  · have hsubmits := hread.countP (isSubmitOf pid)
    have hplaced := h.placed pid hmode
    have hmoved := (haccount pid).placed hmode
    simp only [State.submits, State.waits, State.runs, State.unreadOthers, State.donesHandled,
      hreplies, List.countP_append, List.countP_singleton, othersTo] at hplaced hmoved ⊢
    omega
  · have hauthorised := h.authorised pid
    have hmoved := (haccount pid).authorised
    simp only [State.acksSent, State.runs, State.donesHandled, hacksSent, List.countP_append,
      List.countP_singleton] at hauthorised hmoved ⊢
    omega
  · have hdones := hread.countP (isDoneOf pid)
    have hreported := h.reported pid
    simp only [State.dones, State.donesHandled, List.countP_append,
      List.countP_singleton] at hreported ⊢
    omega
  · have hacks := h.acks pid
    have hnew : (sentTo pid events).countP isAuthorised = acksTo pid events := rfl
    simp only [State.acksSent, State.unreadAcks, hacksSent, hreplies, List.countP_append,
      hnew] at hacks ⊢
    omega
  · have hstop := (controllerHandleMessage_returns.mp hleft).2
    have hcount := hslots.count
    rw [controllerHandleMessage_finished hleft] at hcount ⊢
    have hzero := (isFinished_iff.mp hstop).2.1
    exact List.length_eq_zero_iff.mp (hcount.symm.trans hzero)

/-- The invariant holds in every state the system can reach. -/
theorem inv_of_reachable {env : Env} (hm : env.AllocsSucceed) (hc : env.CallsSucceed)
    {argv : List CString} {requests : Int32 → RunnerRequest} {s : State}
    (h : TransitionSystem.Reachable (system env argv requests) s) : Inv argv requests s := by
  refine h.invariant (fun s hs => ?_) (fun s l s' hinv hstep => ?_)
  · rw [show s = start argv from hs]
    exact Inv.start argv requests
  · cases hstep with
    | submit pid hmode hphase => exact hinv.submit hmode hphase
    | ask pid hmode hphase => exact hinv.ask hmode hphase
    | authorise pid hphase hread hack => exact hinv.authorise hphase hread hack
    | reject pid hphase hread hack => exact hinv.reject hphase hread hack
    | finish pid hphase => exact hinv.finish hphase
    | notify pid hphase => exact hinv.notify hphase
    | reply pid hphase hread => exact hinv.reply hphase hread
    | handle hthere hread => exact hinv.handle hm hc hread

/-! ## Slots and commands -/

/-- An ACK has been sent to the runner and its DONE has not been handled. -/
def State.AwaitsDone (s : State) (pid : Int32) : Prop :=
  (∃ msg ∈ sentTo pid s.world.trace, msg.type = .ack) ∧
    ∀ msg ∈ s.handled, msg.type = .done → msg.senderPid ≠ pid

/-- Between reading its ACK and sending its DONE. -/
def Phase.AtWork : Phase → Prop
  | .executing _ | .executed _ => True
  | .idle | .submitted | .notified | .rejected | .asked | .closed => False

structure Orderly (limit : Nat) (s : State) : Prop where
  nodup : (s.world.state.runningQueue.map JobInfo.runnerPid).Nodup
  running_iff : ∀ pid, pid ∈ s.world.state.runningQueue.map JobInfo.runnerPid ↔ s.AwaitsDone pid
  limited : ∀ pids : List Int32, pids.Nodup → (∀ pid ∈ pids, (s.phase pid).AtWork) →
    pids.length ≤ limit
  once : ∀ pid, s.executions pid ≤ 1
  exit : s.left = true → ∀ pid, ¬ (s.phase pid).AtWork ∧ ∀ msg ∈ s.inbox pid, msg.type ≠ .ack

theorem mem_running_iff {s : State} {pid : Int32} :
    pid ∈ s.world.state.runningQueue.map JobInfo.runnerPid ↔ 0 < s.runs pid := by
  simp [State.runs, List.countP_pos_iff, isJobOf]

theorem awaitsDone_iff {s : State} {pid : Int32} :
    s.AwaitsDone pid ↔ 0 < s.acksSent pid ∧ s.donesHandled pid = 0 := by
  simp [State.AwaitsDone, State.acksSent, State.donesHandled, acksTo, List.countP_pos_iff,
    List.countP_eq_zero, isAuthorised, isDoneOf]

section Orderly

variable {argv : List CString} {requests : Int32 → RunnerRequest} {s : State}
  (h : Inv argv requests s)

include h

/-- Nobody has two jobs, and a job that runs has not been reported. -/
theorem Inv.runs_le_one (pid : Int32) : s.runs pid + s.donesHandled pid ≤ 1 := by
  by_cases hmode : (requests pid).mode = .execute
  · have hplaced := h.placed pid hmode
    have hbegun : (s.phase pid).begun ≤ 1 := by cases s.phase pid <;> simp [Phase.begun]
    omega
  · have hzero := h.runs_eq_zero hmode
    have hreported := h.reported pid
    have hle : (s.phase pid).reported ≤ 1 := by cases s.phase pid <;> simp [Phase.reported]
    omega

theorem Inv.runs_of_atWork {pid : Int32} (hwork : (s.phase pid).AtWork) : 0 < s.runs pid := by
  have hreported := h.reported pid
  cases hphase : s.phase pid with
  | executing msg | executed msg =>
      rw [hphase] at hreported
      simp only [Phase.reported] at hreported
      exact h.runs_of_authorised (by rw [hphase]; rfl) (by omega)
  | _ =>
      rw [hphase] at hwork
      exact absurd hwork id

theorem Inv.nodup_running : (s.world.state.runningQueue.map JobInfo.runnerPid).Nodup := by
  rw [List.nodup_iff_count_le_one]
  intro pid
  have hone := h.runs_le_one pid
  have hcount : (s.world.state.runningQueue.map JobInfo.runnerPid).count pid = s.runs pid := by
    rw [List.count, List.countP_map]
    rfl
  omega

theorem Inv.running_iff_awaitsDone (pid : Int32) : 0 < s.runs pid ↔ s.AwaitsDone pid := by
  rw [awaitsDone_iff]
  have hone := h.runs_le_one pid
  have hauthorised := h.authorised pid
  constructor
  · intro hruns
    constructor <;> omega
  · intro hawaits
    omega

theorem Inv.atWork_le_limit {pids : List Int32} (hnodup : pids.Nodup)
    (hwork : ∀ pid ∈ pids, (s.phase pid).AtWork) :
    pids.length ≤ (controllerConfigure argv).parallelLimit := by
  have hsub : pids ⊆ s.world.state.runningQueue.map JobInfo.runnerPid := fun pid hpid =>
    mem_running_iff.mpr (h.runs_of_atWork (hwork pid hpid))
  calc pids.length
      ≤ (s.world.state.runningQueue.map JobInfo.runnerPid).length :=
        (hnodup.subperm hsub).length_le
    _ = s.world.state.runningCount := by rw [List.length_map, h.slots.count]
    _ ≤ s.world.state.parallelLimit := h.slots.bounded
    _ = (controllerConfigure argv).parallelLimit := h.limit

theorem Inv.exit (hleft : s.left = true) (pid : Int32) :
    ¬ (s.phase pid).AtWork ∧ ∀ msg ∈ s.inbox pid, msg.type ≠ .ack := by
  have hzero : s.runs pid = 0 := by simp [State.runs, h.stopped hleft]
  constructor
  · intro hwork
    have hruns := h.runs_of_atWork hwork
    omega
  · have hauthorised := h.authorised pid
    have hreported := h.reported pid
    have hacks := h.acks pid
    have hle : (s.phase pid).reported ≤ (s.phase pid).authorised := by
      cases s.phase pid <;> simp [Phase.reported, Phase.authorised]
    have hnone : s.unreadAcks pid = 0 := by omega
    simpa [State.unreadAcks, List.countP_eq_zero, isAuthorised] using hnone

end Orderly

/-- Running jobs are the runners told to start whose DONE is not in yet: at most the
limit of them work at a time, each once, and none when the controller leaves. -/
theorem orderly_of_reachable {env : Env} (hm : env.AllocsSucceed) (hc : env.CallsSucceed)
    {argv : List CString} {requests : Int32 → RunnerRequest} {s : State}
    (h : TransitionSystem.Reachable (system env argv requests) s) :
    Orderly (controllerConfigure argv).parallelLimit s := by
  have hinv := inv_of_reachable hm hc h
  exact
    { nodup := hinv.nodup_running
      running_iff := fun pid => mem_running_iff.trans (hinv.running_iff_awaitsDone pid)
      limited := fun pids hnodup hwork => hinv.atWork_le_limit hnodup hwork
      once := fun pid => by
        have hexec := hinv.executions pid
        have hle : (s.phase pid).authorised ≤ 1 := by
          cases s.phase pid <;> simp [Phase.authorised]
        omega
      exit := hinv.exit }

/-- Two runners and one slot: the first is at work, the second waits. -/
theorem orderly_of_reachable_two_runners :
    ∃ s, TransitionSystem.Reachable (system .calm [text "controller", text "1", text "fair"]
          fun pid => ⟨.execute, pid, text "a"⟩) s ∧
        (s.phase 11).AtWork ∧ s.world.state.waitingQueue.map JobInfo.runnerPid = [12] ∧
        Orderly (controllerConfigure [text "controller", text "1", text "fair"]).parallelLimit s := by
  have hstart : TransitionSystem.Reachable (system .calm [text "controller", text "1", text "fair"]
      fun pid => ⟨.execute, pid, text "a"⟩) (start _) := .init rfl
  have hfirst := hstart.step (Step.submit 11 rfl rfl)
  have hsecond := hfirst.step (Step.submit 12 rfl rfl)
  have hserved := hsecond.step (Step.handle rfl (removes_head _ _))
  have hqueued := hserved.step (Step.handle rfl (removes_head _ _))
  have hwork := hqueued.step (Step.authorise 11 rfl (removes_head _ []) rfl)
  exact ⟨_, hwork, trivial, by decide,
    orderly_of_reachable Env.calm_allocsSucceed Env.calm_callsSucceed hwork⟩

end RunnerOrchestrator.Orchestra
