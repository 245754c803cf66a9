import RunnerOrchestrator.System.Asking

/-! # Where the system comes to rest

Runners start whenever they like; everything else is work that has begun. At rest no
such work can go on. While the controller is there this means that everybody has been
served, and after it has left it means that nobody else will be.
-/

namespace RunnerOrchestrator.Orchestra

open Removal

/-- Somebody starts a runner. -/
def Label.starts : Label → Bool
  | .submit _ | .ask _ => true
  | .authorise _ | .reject _ | .finish _ | .notify _ | .reply _ | .handle _ => false

/-- Only new runners can make a step. -/
def Quiescent (env : Env) (requests : Int32 → RunnerRequest) (s : State) : Prop :=
  ∀ l s', Step env requests s l s' → l.starts = true

/-- In its blocking read. -/
def Phase.Waiting : Phase → Prop
  | .submitted | .asked => True
  | .idle | .executing _ | .executed _ | .notified | .rejected | .closed => False

/-- A runner has got what it was started for. -/
def Phase.Satisfied (phase : Phase) (mode : RunnerMode) (executions : Nat) : Prop :=
  match mode with
  | .execute => phase = .notified ∧ executions = 1
  | .status | .shutdown => phase = .closed

/-- It waits for nothing more. -/
theorem Phase.Satisfied.not_waiting {phase : Phase} {mode : RunnerMode} {executions : Nat}
    (h : phase.Satisfied mode executions) : ¬ phase.Waiting := by
  cases mode with
  | execute => simp [h.1, Phase.Waiting]
  | status | shutdown =>
      have hclosed : phase = .closed := h
      simp [hclosed, Phase.Waiting]

def State.Satisfied (requests : Int32 → RunnerRequest) (s : State) (pid : Int32) : Prop :=
  (s.phase pid).Satisfied (requests pid).mode (s.executions pid)

/-! ## Nothing is enabled -/

section Quiescent

variable {env : Env} {requests : Int32 → RunnerRequest} {s : State}
  (h : Quiescent env requests s)

include h

theorem Quiescent.server (hthere : s.left = false) : s.server = [] := by
  cases hserver : s.server with
  | nil => rfl
  | cons msg rest =>
      have hread : Removes s.server msg rest := hserver ▸ removes_head msg rest
      exact absurd (h _ _ (.handle hthere hread)) (by simp [Label.starts])

theorem Quiescent.inbox {pid : Int32} (hwait : (s.phase pid).Waiting) : s.inbox pid = [] := by
  cases hinbox : s.inbox pid with
  | nil => rfl
  | cons msg rest =>
      have hread : Removes (s.inbox pid) msg rest := hinbox ▸ removes_head msg rest
      cases hphase : s.phase pid with
      | submitted =>
          cases hack : isAuthorised msg with
          | true => exact absurd (h _ _ (.authorise pid hphase hread hack)) (by simp [Label.starts])
          | false => exact absurd (h _ _ (.reject pid hphase hread hack)) (by simp [Label.starts])
      | asked => exact absurd (h _ _ (.reply pid hphase hread)) (by simp [Label.starts])
      | _ =>
          rw [hphase] at hwait
          exact absurd hwait id

theorem Quiescent.not_atWork (pid : Int32) : ¬ (s.phase pid).AtWork := by
  intro hwork
  cases hphase : s.phase pid with
  | executing msg => exact absurd (h _ _ (.finish pid hphase)) (by simp [Label.starts])
  | executed msg => exact absurd (h _ _ (.notify pid hphase)) (by simp [Label.starts])
  | _ =>
      rw [hphase] at hwork
      exact absurd hwork id

end Quiescent

theorem quiescent_iff {env : Env} {requests : Int32 → RunnerRequest} {s : State} :
    Quiescent env requests s ↔
      (s.left = false → s.server = []) ∧
        ∀ pid, ¬ (s.phase pid).AtWork ∧ ((s.phase pid).Waiting → s.inbox pid = []) := by
  constructor
  · intro h
    exact ⟨h.server, fun pid => ⟨h.not_atWork pid, h.inbox⟩⟩
  · rintro ⟨hserver, hrunners⟩ l s' hstep
    cases hstep with
    | submit pid hmode hphase => rfl
    | ask pid hmode hphase => rfl
    | authorise pid hphase hread hack | reject pid hphase hread hack =>
        exact absurd ((hrunners pid).2 (by rw [hphase]; trivial)) hread.ne_nil
    | reply pid hphase hread =>
        exact absurd ((hrunners pid).2 (by rw [hphase]; trivial)) hread.ne_nil
    | finish pid hphase => exact absurd (by rw [hphase]; trivial) (hrunners pid).1
    | notify pid hphase => exact absurd (by rw [hphase]; trivial) (hrunners pid).1
    | handle hthere hread => exact absurd (hserver hthere) hread.ne_nil

/-! ## Submissions at rest -/

section Submissions

variable {argv : List CString} {requests : Int32 → RunnerRequest} {s : State}
  (h : Inv argv requests s)

include h

/-- Where the submission of a runner that waits can be. -/
theorem Inv.submitted_counts {pid : Int32} (hphase : s.phase pid = .submitted)
    (hinbox : s.inbox pid = []) :
    s.submits pid + s.waits pid = 1 ∧ s.runs pid = 0 := by
  have hmode := h.fits pid
  have hplaced := h.placed pid
  have hauthorised := h.authorised pid
  have hreported := h.reported pid
  have hacks := h.acks pid
  rw [hphase] at hmode hplaced hreported hacks
  have hplaced := hplaced hmode
  simp only [Phase.begun, Phase.refused, Phase.reported, Phase.authorised, State.unreadOthers,
    State.unreadAcks, hinbox, List.countP_nil] at hplaced hreported hacks
  omega

/-- Nobody waits in the queue of an idle controller. -/
theorem Inv.waits_eq_zero (hidle : s.world.state.runningQueue = []) (pid : Int32) :
    s.waits pid = 0 := by
  have hwaiting : s.world.state.waitingQueue = [] := by
    by_contra hne
    have hfull := h.slots.conserving hne
    have hcount := h.slots.count
    have hpos := parallelLimit_pos argv
    rw [← h.limit] at hpos
    rw [hidle, List.length_nil] at hcount
    omega
  simp [State.waits, hwaiting]

/-- The runner of a running job has its ACK or its DONE in flight, unless it is at work. -/
theorem Inv.running_moves {pid : Int32} (hruns : 0 < s.runs pid) :
    (s.phase pid).AtWork ∨ (s.phase pid = .submitted ∧ s.inbox pid ≠ []) ∨ 0 < s.dones pid := by
  have hmode : (requests pid).mode = .execute := by
    by_contra hmode
    rw [h.runs_eq_zero hmode] at hruns
    cases hruns
  have hone := h.runs_le_one pid
  have hfits := h.fits pid
  have hplaced := h.placed pid hmode
  have hauthorised := h.authorised pid
  have hreported := h.reported pid
  have hacks := h.acks pid
  cases hphase : s.phase pid with
  | executing msg => exact Or.inl trivial
  | executed msg => exact Or.inl trivial
  | submitted =>
      refine Or.inr (Or.inl ⟨rfl, fun hinbox => ?_⟩)
      rw [hphase] at hacks
      simp only [Phase.authorised, State.unreadAcks, hinbox, List.countP_nil] at hacks
      omega
  | notified =>
      refine Or.inr (Or.inr ?_)
      rw [hphase] at hreported
      simp only [Phase.reported] at hreported
      omega
  | idle | rejected =>
      rw [hphase] at hplaced
      simp only [Phase.begun, Phase.refused] at hplaced
      omega
  | asked | closed =>
      rw [hphase] at hfits
      exact absurd hmode hfits

/-- A message of an execute-mode runner that nobody will read is its submission. -/
theorem Inv.submitted_of_unread {msg : RpcMessage} (hmsg : msg ∈ s.server)
    (hmode : (requests msg.senderPid).mode = .execute)
    (hidle : s.world.state.runningQueue = []) : s.phase msg.senderPid = .submitted := by
  have hsubmits : 0 < s.submits msg.senderPid := by
    refine List.countP_pos_iff.mpr ⟨msg, hmsg, ?_⟩
    have hfrom := h.server msg hmsg
    simp only [FromRunner, hmode] at hfrom
    rcases hfrom.1 with ht | ht
    · simp [isSubmitOf, ht]
    · have hruns := h.runs_of_done hmsg ht
      simp [State.runs, hidle] at hruns
  have hfits := h.fits msg.senderPid
  have hplaced := h.placed msg.senderPid hmode
  have hauthorised := h.authorised msg.senderPid
  have hreported := h.reported msg.senderPid
  have hacks := h.acks msg.senderPid
  cases hphase : s.phase msg.senderPid with
  | submitted => rfl
  | asked | closed =>
      rw [hphase] at hfits
      exact absurd hmode hfits
  | _ =>
      rw [hphase] at hplaced hreported hacks
      simp only [Phase.begun, Phase.refused, Phase.reported, Phase.authorised] at *
      omega

end Submissions

/-! ## Requests at rest -/

section Requests

variable {requests : Int32 → RunnerRequest} {s : State} (h : Owed requests s)

include h

/-- A runner whose request is under way or handled waits or has ended its waiting. -/
theorem Owed.asked_or_closed {pid : Int32} (hfits : (s.phase pid).Fits (requests pid).mode)
    (hmode : (requests pid).mode ≠ .execute) (hbegun : 0 < s.asks pid + s.asksHandled pid) :
    s.phase pid = .asked ∨ s.phase pid = .closed := by
  obtain ⟨-, h₂, -⟩ := h.each pid
  have hcount := h₂ hmode
  cases hphase : s.phase pid with
  | asked => exact Or.inl rfl
  | closed => exact Or.inr rfl
  | idle =>
      rw [hphase] at hcount
      simp only [Phase.begun] at hcount
      omega
  | _ =>
      rw [hphase] at hfits
      exact absurd hfits hmode

/-- A request that nobody will read leaves its runner waiting. -/
theorem Owed.asked_of_unread {pid : Int32} (hfits : (s.phase pid).Fits (requests pid).mode)
    (hmode : (requests pid).mode ≠ .execute) (hasks : 0 < s.asks pid) : s.phase pid = .asked := by
  obtain ⟨-, h₂, h₃, -, -, h₆, -⟩ := h.each pid
  rcases h.asked_or_closed hfits hmode (Nat.add_pos_left hasks _) with hphase | hphase
  · exact hphase
  · have hbegun := h₂ hmode
    rw [hphase] at hbegun
    simp only [Phase.begun] at hbegun
    have hnone : s.asksHandled pid = 0 := by omega
    cases hm : (requests pid).mode with
    | execute => exact absurd hm hmode
    | status => exact absurd hphase (h₃ hm hnone).2
    | shutdown =>
        obtain ⟨hleft, hrequester⟩ := h₆ hm (Or.inr hphase)
        have hheard := h.requester (h.closing hleft)
        rw [hrequester] at hheard
        omega

/-- Whoever has sent what nobody will read waits. -/
theorem Owed.waiting_of_unread {argv : List CString} (hinv : Inv argv requests s) {msg : RpcMessage}
    (hmsg : msg ∈ s.server) (hidle : s.world.state.runningQueue = []) :
    (s.phase msg.senderPid).Waiting := by
  by_cases hmode : (requests msg.senderPid).mode = .execute
  · rw [hinv.submitted_of_unread hmsg hmode hidle]
    trivial
  · have hasks : 0 < s.asks msg.senderPid := by
      refine List.countP_pos_iff.mpr ⟨msg, hmsg, ?_⟩
      have hfrom := hinv.server msg hmsg
      cases hm : (requests msg.senderPid).mode with
      | execute => exact absurd hm hmode
      | status => simp [isAskOf, (by simpa [FromRunner, hm] using hfrom : msg.type = .statusReq)]
      | shutdown =>
          simp [isAskOf, (by simpa [FromRunner, hm] using hfrom : msg.type = .shutdownReq)]
    rw [h.asked_of_unread (hinv.fits _) hmode hasks]
    trivial

/-- A requester that was overtaken is never told of the end. -/
theorem Owed.asked_of_overtaken {pid : Int32} (hfits : (s.phase pid).Fits (requests pid).mode)
    (hmode : (requests pid).mode = .shutdown) (hhandled : 0 < s.asksHandled pid)
    (hother : s.world.state.shutdownRequesterPid ≠ pid) : s.phase pid = .asked := by
  obtain ⟨-, -, -, -, -, h₆, -⟩ := h.each pid
  rcases h.asked_or_closed hfits (by simp [hmode]) (Nat.add_pos_right _ hhandled) with hphase | hphase
  · exact hphase
  · exact absurd (h₆ hmode (Or.inr hphase)).2 hother

/-- A status request that has been handled has its end on the way. -/
theorem Owed.inbox_ne_nil {pid : Int32} (hmode : (requests pid).mode = .status)
    (hphase : s.phase pid = .asked) (hhandled : 0 < s.asksHandled pid) : s.inbox pid ≠ [] := by
  obtain ⟨-, -, -, h₄, -⟩ := h.each pid
  obtain ⟨msg, hmem, -⟩ := h₄ hmode hphase hhandled
  exact List.ne_nil_of_mem hmem

end Requests

/-! ## At rest -/

theorem Inv.satisfied {argv : List CString} {requests : Int32 → RunnerRequest} {s : State}
    (h : Inv argv requests s) {pid : Int32} (hend : s.phase pid = .notified ∨ s.phase pid = .closed) :
    s.Satisfied requests pid := by
  have hfits := h.fits pid
  have hexec := h.executions pid
  rcases hend with hphase | hphase
  · rw [hphase] at hfits hexec
    have hmode : (requests pid).mode = .execute := hfits
    simp [State.Satisfied, Phase.Satisfied, hmode, hphase, hexec, Phase.authorised]
  · rw [hphase] at hfits
    cases hmode : (requests pid).mode with
    | execute => exact absurd hmode hfits
    | status | shutdown => simp [State.Satisfied, Phase.Satisfied, hmode, hphase]

section Rest

variable {env : Env} (hm : env.AllocsSucceed) (hc : env.CallsSucceed) {argv : List CString}
  {requests : Int32 → RunnerRequest} {s : State}
  (h : TransitionSystem.Reachable (system env argv requests) s)
  (hquiet : Quiescent env requests s)

include hm hc h hquiet

/-- While the controller is there the system cannot get stuck: at rest every runner that
was started has been served, no job is left and no shutdown is under way. -/
theorem quiescent_settled (hthere : s.left = false) :
    (∀ pid, s.phase pid = .idle ∨ s.Satisfied requests pid) ∧
      s.server = [] ∧ s.world.state.waitingQueue = [] ∧ s.world.state.runningQueue = [] ∧
      s.world.state.isShuttingDown = false := by
  obtain ⟨hinv, howed⟩ := owed_of_reachable hm hc h
  have hserver := hquiet.server hthere
  have hrunning : s.world.state.runningQueue = [] := by
    apply List.eq_nil_iff_forall_not_mem.mpr
    intro job hjob
    have hruns : 0 < s.runs job.runnerPid := mem_running_iff.mp (List.mem_map_of_mem hjob)
    rcases hinv.running_moves hruns with hwork | ⟨hphase, hinbox⟩ | hdones
    · exact hquiet.not_atWork _ hwork
    · exact hinbox (hquiet.inbox (by rw [hphase]; trivial))
    · simp [State.dones, hserver] at hdones
  have hwaits := hinv.waits_eq_zero hrunning
  have hwaiting : s.world.state.waitingQueue = [] := by
    apply List.eq_nil_iff_forall_not_mem.mpr
    intro job hjob
    have hnone := List.countP_eq_zero.mp (hwaits job.runnerPid) job hjob
    simp [isJobOf] at hnone
  have hdown : s.world.state.isShuttingDown = false := by
    rw [← Bool.not_eq_true]
    intro hdown
    have hstop := (isFinished_iff_empty hinv.slots).mpr ⟨hdown, hrunning, hwaiting⟩
    rw [howed.going hthere] at hstop
    cases hstop
  refine ⟨fun pid => ?_, hserver, hwaiting, hrunning, hdown⟩
  have hfits := hinv.fits pid
  obtain ⟨h₁, h₂, -, -, h₅, -, -⟩ := howed.each pid
  have hasks : s.asks pid = 0 := by simp [State.asks, hserver]
  cases hphase : s.phase pid with
  | idle => exact Or.inl rfl
  | submitted =>
      have hwait : (s.phase pid).Waiting := by rw [hphase]; trivial
      have hcounts := hinv.submitted_counts hphase (hquiet.inbox hwait)
      have hsubmits : s.submits pid = 0 := by simp [State.submits, hserver]
      have hnobody := hwaits pid
      omega
  | executing msg | executed msg => exact absurd (by rw [hphase]; trivial) (hquiet.not_atWork pid)
  | notified => exact Or.inr (hinv.satisfied (Or.inl hphase))
  | rejected =>
      rw [hphase] at hfits
      rw [h₁ hfits (by simp [hphase, Phase.refused])] at hdown
      cases hdown
  | asked =>
      rw [hphase] at hfits
      have hwait : (s.phase pid).Waiting := by rw [hphase]; trivial
      have hinbox := hquiet.inbox hwait
      have hbegun := h₂ hfits
      rw [hphase] at hbegun
      simp only [Phase.begun] at hbegun
      have hhandled : 0 < s.asksHandled pid := by omega
      cases hmode : (requests pid).mode with
      | execute => exact absurd hmode hfits
      | status => exact absurd hinbox (howed.inbox_ne_nil hmode hphase hhandled)
      | shutdown =>
          rw [h₅ hmode hhandled] at hdown
          cases hdown
  | closed => exact Or.inr (hinv.satisfied (Or.inr hphase))

/-- After the controller has left, the runners that still wait are those whose request
it has not read and the shutdown requesters that another one overtook. All others that
were started have been served or refused. -/
theorem stranded_iff (hleft : s.left = true) (pid : Int32) :
    ((s.phase pid).Waiting ↔
      (∃ msg ∈ s.server, msg.senderPid = pid) ∨
        ((requests pid).mode = .shutdown ∧ (∃ msg ∈ s.handled, isAskOf pid msg = true) ∧
          s.world.state.shutdownRequesterPid ≠ pid)) ∧
      (¬ (s.phase pid).Waiting → s.phase pid = .idle ∨ s.Satisfied requests pid ∨
        (s.phase pid = .rejected ∧ s.executions pid = 0)) := by
  obtain ⟨hinv, howed⟩ := owed_of_reachable hm hc h
  have hrunning := hinv.stopped hleft
  have hfits := hinv.fits pid
  obtain ⟨-, h₂, -, -, -, -, h₇⟩ := howed.each pid
  refine ⟨⟨fun hwait => ?_, fun hor => ?_⟩, fun hended => ?_⟩
  · have hinbox := hquiet.inbox hwait
    cases hphase : s.phase pid with
    | submitted =>
        have hcounts := hinv.submitted_counts hphase hinbox
        have hwaits := hinv.waits_eq_zero hrunning pid
        have hsubmits : 0 < s.submits pid := by omega
        obtain ⟨msg, hmsg, hmine⟩ := List.countP_pos_iff.mp hsubmits
        exact Or.inl ⟨msg, hmsg, (by simpa [isSubmitOf] using hmine : _ ∧ _).2⟩
    | asked =>
        rw [hphase] at hfits
        have hbegun := h₂ hfits
        rw [hphase] at hbegun
        simp only [Phase.begun] at hbegun
        by_cases hasks : 0 < s.asks pid
        · obtain ⟨msg, hmsg, hmine⟩ := List.countP_pos_iff.mp hasks
          exact Or.inl ⟨msg, hmsg, (by simpa [isAskOf] using hmine : _ ∧ _).2⟩
        · have hhandled : 0 < s.asksHandled pid := by omega
          cases hmode : (requests pid).mode with
          | execute => exact absurd hmode hfits
          | status => exact absurd hinbox (howed.inbox_ne_nil hmode hphase hhandled)
          | shutdown =>
              refine Or.inr ⟨rfl, List.countP_pos_iff.mp hhandled, fun hsame => ?_⟩
              obtain ⟨msg, hmem, -⟩ := h₇ hmode hleft hsame hphase
              rw [hinbox] at hmem
              cases hmem
    | _ =>
        rw [hphase] at hwait
        exact absurd hwait id
  · rcases hor with ⟨msg, hmsg, rfl⟩ | ⟨hmode, hhandled, hother⟩
    · exact howed.waiting_of_unread hinv hmsg hrunning
    · rw [howed.asked_of_overtaken hfits hmode (List.countP_pos_iff.mpr hhandled) hother]
      trivial
  · have hexec := hinv.executions pid
    cases hphase : s.phase pid with
    | idle => exact Or.inl rfl
    | submitted | asked =>
        rw [hphase] at hended
        exact absurd trivial hended
    | executing msg | executed msg => exact absurd (by rw [hphase]; trivial) (hquiet.not_atWork pid)
    | notified => exact Or.inr (Or.inl (hinv.satisfied (Or.inl hphase)))
    | rejected =>
        rw [hphase] at hexec
        exact Or.inr (Or.inr ⟨rfl, hexec⟩)
    | closed => exact Or.inr (Or.inl (hinv.satisfied (Or.inr hphase)))

end Rest

end RunnerOrchestrator.Orchestra
