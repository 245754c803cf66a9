import Mathlib.Algebra.BigOperators.Group.Finset.Piecewise
import Mathlib.Algebra.Order.BigOperators.Group.Finset
import RunnerOrchestrator.System.Progress

/-! # Every run ends

A message pays for the replies it can bring: a status reply has a line for every job,
and there are no more jobs than runners. So the steps of a run are bounded by the
number of runners it starts.
-/

namespace RunnerOrchestrator

open Removal

/-! ## Replies to one message -/

/-- The number of messages an event can put into FIFOs. -/
def Event.replies : Event → Nat
  | .ack _ _ | .refusal _ _ | .farewell _ => 1
  | .log _ _ _ => 0
  | .status _ replies _ => replies.length

theorem sum_length_sentTo_le (who : Finset Int32) (events : List Event) :
    ∑ pid ∈ who, (sentTo pid events).length ≤ (events.map Event.replies).sum := by
  induction events with
  | nil => simp
  | cons e events ih =>
      simp only [sentTo_cons, List.length_append, Finset.sum_add_distrib, List.map_cons,
        List.sum_cons]
      refine Nat.add_le_add ?_ ih
      -- only its addressee is sent anything
      have hone : ∀ (dest : Int32) (n : Nat),
          ∑ pid ∈ who, (if dest = pid then n else 0) ≤ n := fun dest n => by
        rw [Finset.sum_ite_eq]
        split <;> simp
      cases e with
      | ack job send | refusal msg send | farewell send =>
          refine le_trans (Finset.sum_le_sum fun pid _ => ?_) (hone send.dest 1)
          simp only [Event.sentTo]
          split
          · rename_i hmine
            simp [hmine.1]
          · simp
      | log job line written => simp [Event.sentTo]
      | status dest replies killed =>
          refine le_trans (Finset.sum_le_sum fun pid _ => ?_) (hone dest replies.length)
          by_cases hdest : dest = pid <;> simp [Event.sentTo, hdest]

/-- Apart from status replies a message is answered with one message and a farewell. -/
theorem Handled.replies_le {env : Env} {msg : RpcMessage} {w : World} {ret : Bool}
    {s : ControllerState} {events : List Event} (hs : Handled env msg w ret s events)
    (ht : msg.type ≠ .statusReq) : (events.map Event.replies).sum ≤ 2 := by
  have hserved : ∀ {s events}, Served env msg w s events → (events.map Event.replies).sum ≤ 1 := by
    intro s events hs
    cases hs with
    | answered hstatus replies hreplies => exact absurd hstatus ht
    | _ => simp [Event.replies]
  cases hs with
  | refused hlate send hsend => simp [Event.replies]
  | served hlate hs hgo => exact Nat.le_succ_of_le (hserved hs)
  | finished hlate hs hstop send hsend =>
      have hone := hserved hs
      simp only [List.map_append, List.sum_append, List.map_cons, List.map_nil, List.sum_cons,
        List.sum_nil, Event.replies]
      omega

/-- A message is answered with four messages and one for every job at most. -/
theorem replies_le {env : Env} (hm : env.AllocsSucceed) (hc : env.CallsSucceed) (msg : RpcMessage)
    {w : World} (h : SlotInv w.state) :
    (((controllerHandleMessage env msg w).2.trace.drop w.trace.length).map Event.replies).sum ≤
      w.state.waitingQueue.length + w.state.runningQueue.length + 4 := by
  by_cases ht : msg.type = .statusReq
  · obtain ⟨more, htrace, hmore⟩ := controllerHandleMessage_statusReq hm hc ht w
    have hshown := (shownWaiting_subperm w.state).length_le
    have hfarewell : (more.map Event.replies).sum ≤ 1 := by
      rcases hmore with rfl | ⟨send, rfl⟩ <;> simp [Event.replies]
    rw [htrace, List.drop_left]
    simp only [List.map_cons, List.sum_cons, Event.replies, List.length_append, List.length_map,
      statusTexts, List.length_cons, List.length_nil]
    omega
  · obtain ⟨events, htrace, hhandled⟩ := controllerHandleMessage_handled hm msg h
    have htwo := hhandled.replies_le ht
    rw [htrace, List.drop_left]
    omega

/-! ## Jobs and runners -/

namespace Orchestra

/-- The runner that a step starts. -/
def Label.starter? : Label → Option Int32
  | .submit pid | .ask pid => some pid
  | .authorise _ | .reject _ | .finish _ | .notify _ | .reply _ | .handle _ => none

/-- Only runners in `who` have been started. -/
def State.Within (who : Finset Int32) (s : State) : Prop := ∀ pid, s.phase pid ≠ .idle → pid ∈ who

/-- Every job belongs to a runner of its own. -/
theorem Inv.jobs_le {argv : List CString} {requests : Int32 → RunnerRequest} {s : State}
    (h : Inv argv requests s) {who : Finset Int32} (hwho : s.Within who) :
    s.world.state.waitingQueue.length + s.world.state.runningQueue.length ≤ who.card := by
  have hcount : ∀ pid, ((s.world.state.waitingQueue ++ s.world.state.runningQueue).map
      JobInfo.runnerPid).count pid = s.waits pid + s.runs pid := fun pid => by
    rw [List.count, List.countP_map, List.countP_append]
    rfl
  have hexecute : ∀ pid, 0 < s.waits pid + s.runs pid → (requests pid).mode = .execute := by
    intro pid hpos
    by_contra hmode
    have hwaits : s.waits pid = 0 := by
      apply List.countP_eq_zero.mpr
      intro job hjob hmine
      have hpid : job.runnerPid = pid := by simpa [isJobOf] using hmine
      exact hmode (hpid ▸ (h.ofRunners.waiting job hjob).1)
    have hruns := h.runs_eq_zero hmode
    omega
  have hone : ∀ pid, 0 < s.waits pid + s.runs pid →
      s.waits pid + s.runs pid ≤ 1 ∧ s.phase pid ≠ .idle := by
    intro pid hpos
    have hplaced := h.placed pid (hexecute pid hpos)
    cases hphase : s.phase pid with
    | idle =>
        rw [hphase] at hplaced
        simp only [Phase.begun] at hplaced
        omega
    | _ =>
        rw [hphase] at hplaced
        simp only [Phase.begun] at hplaced
        exact ⟨by omega, by simp⟩
  have hnodup : ((s.world.state.waitingQueue ++ s.world.state.runningQueue).map
      JobInfo.runnerPid).Nodup := by
    rw [List.nodup_iff_count_le_one]
    intro pid
    rw [hcount]
    by_cases hpos : 0 < s.waits pid + s.runs pid
    · exact (hone pid hpos).1
    · omega
  calc s.world.state.waitingQueue.length + s.world.state.runningQueue.length
      = ((s.world.state.waitingQueue ++ s.world.state.runningQueue).map
          JobInfo.runnerPid).toFinset.card := by
        rw [List.toFinset_card_of_nodup hnodup, List.length_map, List.length_append]
    _ ≤ who.card := by
        refine Finset.card_le_card fun pid hpid => hwho pid (hone pid ?_).2
        rw [← hcount]
        exact List.count_pos_iff.mpr (List.mem_toFinset.mp hpid)

/-! ## The potential -/

/-- The steps a runner can still make before it waits or ends, its DONE being worth
`cost`. -/
def Phase.toDo (cost : Nat) : Phase → Nat
  | .submitted | .executing _ => cost + 2
  | .executed _ => cost + 1
  | .idle | .notified | .rejected | .asked | .closed => 0

def messageCost (who : Finset Int32) : Nat := who.card + 5

def State.potential (who : Finset Int32) (s : State) : Nat :=
  messageCost who * s.server.length +
    ∑ pid ∈ who, ((s.inbox pid).length + (s.phase pid).toDo (messageCost who))

def Label.credit (who : Finset Int32) (l : Label) : Nat :=
  if l.starts then 2 * messageCost who + 3 else 0

/-! ## Every step is paid for -/

section Steps

variable {who : Finset Int32} {s s' : State} {pid : Int32}

/-- A step of one runner changes one term of the potential, and what it sends. -/
theorem OneRunner.potential (hone : OneRunner pid s s') (hpid : pid ∈ who) :
    s'.potential who + (messageCost who * s.server.length + (s.inbox pid).length +
        (s.phase pid).toDo (messageCost who)) =
      s.potential who + (messageCost who * s'.server.length + (s'.inbox pid).length +
        (s'.phase pid).toDo (messageCost who)) := by
  have hsum := TransitionSystem.sum_changed (f := fun q => (s.inbox q).length + (s.phase q).toDo (messageCost who))
    (g := fun q => (s'.inbox q).length + (s'.phase q).toDo (messageCost who)) hpid fun q hq => by
      simp only [hone.inbox q hq, hone.phase q hq]
  simp only [State.potential]
  omega

theorem OneRunner.within (hone : OneRunner pid s s') (h : s.Within who) (hpid : pid ∈ who) :
    s'.Within who := by
  intro q hq
  by_cases hsame : q = pid
  · rw [hsame]
    exact hpid
  · rw [hone.phase q hsame] at hq
    exact h q hq

/-- A runner reads on, works or ends: one step of what it had to do. -/
theorem OneRunner.paid (hone : OneRunner pid s s') (hwho : s.Within who) {l : Label}
    (hstarted : s.phase pid ≠ .idle) (hserver : s'.server = s.server)
    (hless : (s'.inbox pid).length + (s'.phase pid).toDo (messageCost who) + 1 ≤
      (s.inbox pid).length + (s.phase pid).toDo (messageCost who)) :
    s'.Within who ∧ s'.potential who + 1 ≤ s.potential who + l.credit who := by
  have hpid := hwho pid hstarted
  have hpotential := hone.potential hpid
  rw [hserver] at hpotential
  exact ⟨hone.within hwho hpid, by omega⟩

theorem sends_paid {phase : Phase} {msg : RpcMessage} (hsender : msg.senderPid = pid)
    (hwho : s.Within who) (hpid : pid ∈ who) {l : Label}
    (hpaid : messageCost who + phase.toDo (messageCost who) + 1 ≤
      (s.phase pid).toDo (messageCost who) + l.credit who) :
    State.Within who
        { s with phase := Function.update s.phase pid phase, server := s.server ++ [msg] } ∧
      State.potential who
          { s with phase := Function.update s.phase pid phase, server := s.server ++ [msg] } + 1 ≤
        s.potential who + l.credit who := by
  have hone := OneRunner.send s phase hsender
  have hpotential := hone.potential hpid
  simp only [List.length_append, List.length_singleton, Function.update_self, Nat.mul_add,
    Nat.mul_one] at hpotential
  exact ⟨hone.within hwho hpid, by omega⟩

end Steps

theorem serve_paid {env : Env} (hm : env.AllocsSucceed) (hc : env.CallsSucceed)
    {argv : List CString} {requests : Int32 → RunnerRequest} {who : Finset Int32} {s : State}
    (h : Inv argv requests s) (hwho : s.Within who) {msg : RpcMessage} {rest : List RpcMessage}
    (hread : Removes s.server msg rest) :
    (s.serve env msg rest).potential who + 1 ≤ s.potential who := by
  have hjobs := h.jobs_le hwho
  have hreplies := replies_le hm hc msg h.slots
  have hsent := sum_length_sentTo_le who
    ((controllerHandleMessage env msg s.world).2.trace.drop s.world.trace.length)
  have hsum : ∑ pid ∈ who, (((s.serve env msg rest).inbox pid).length +
        ((s.serve env msg rest).phase pid).toDo (messageCost who)) =
      ∑ pid ∈ who, ((s.inbox pid).length + (s.phase pid).toDo (messageCost who)) +
        ∑ pid ∈ who, (sentTo pid ((controllerHandleMessage env msg s.world).2.trace.drop
          s.world.trace.length)).length := by
    rw [← Finset.sum_add_distrib]
    refine Finset.sum_congr rfl fun pid _ => ?_
    simp only [State.serve, newReplies, List.length_append]
    omega
  have hlength : s.server.length = (s.serve env msg rest).server.length + 1 := hread.length
  simp only [State.potential, hsum, hlength, Nat.mul_add, Nat.mul_one]
  simp only [messageCost]
  omega

theorem step_paid {env : Env} (hm : env.AllocsSucceed) (hc : env.CallsSucceed)
    {argv : List CString} {requests : Int32 → RunnerRequest} {who : Finset Int32} {s s' : State}
    {l : Label} (h : Inv argv requests s) (hwho : s.Within who)
    (hlabel : ∀ pid, l.starter? = some pid → pid ∈ who) (hstep : Step env requests s l s') :
    s'.Within who ∧ s'.potential who + 1 ≤ s.potential who + l.credit who := by
  cases hstep with
  | submit pid hmode hphase =>
      have hsender : (submitMsg pid (requests pid).userId (requests pid).command).senderPid = pid :=
        rfl
      refine sends_paid hsender hwho (hlabel pid rfl) ?_
      simp only [hphase, Phase.toDo, Label.credit, Label.starts, if_true]
      omega
  | ask pid hmode hphase =>
      refine sends_paid (senderPid_askMsg requests pid) hwho (hlabel pid rfl) ?_
      simp only [hphase, Phase.toDo, Label.credit, Label.starts, if_true]
      omega
  | authorise pid hphase hread hack =>
      refine (OneRunner.authorise s pid _ _).paid hwho (by simp [hphase]) rfl ?_
      simp only [Function.update_self, hphase, Phase.toDo, hread.length]
      omega
  | reject pid hphase hread hack =>
      refine (OneRunner.read s .rejected pid _).paid hwho (by simp [hphase]) rfl ?_
      simp only [Function.update_self, hphase, Phase.toDo, hread.length]
      omega
  | finish pid hphase =>
      refine (OneRunner.finish s pid _).paid hwho (by simp [hphase]) rfl ?_
      simp only [Function.update_self, hphase, Phase.toDo]
      omega
  | @notify pid msg hphase =>
      have hsender : (msgDone pid msg).senderPid = pid := rfl
      refine sends_paid hsender hwho (hwho pid (by simp [hphase])) ?_
      simp only [hphase, Phase.toDo]
      omega
  | reply pid hphase hread =>
      refine (OneRunner.read s _ pid _).paid hwho (by simp [hphase]) rfl ?_
      have hnothing : ∀ msg, (if endsWait requests pid msg then Phase.closed else .asked).toDo
          (messageCost who) = 0 := fun msg => by
        split <;> rfl
      simp only [Function.update_self, hphase, hnothing, hread.length]
      simp only [Phase.toDo]
      omega
  | handle hthere hread =>
      refine ⟨hwho, Nat.le_trans (serve_paid hm hc h hwho hread) (Nat.le_add_right _ _)⟩

/-! ## Runs -/

/-- The runners started along a run. -/
def started (past : List (State × Label)) : List Int32 := past.filterMap fun t => t.2.starter?

theorem sum_credit (who : Finset Int32) (past : List (State × Label)) :
    (past.map fun t => t.2.credit who).sum = (started past).length * (2 * messageCost who + 3) := by
  induction past with
  | nil => simp [started]
  | cons t past ih =>
      obtain ⟨s, l⟩ := t
      simp only [List.map_cons, List.sum_cons, ih, started, List.filterMap_cons]
      cases l <;> simp [Label.credit, Label.starts, Label.starter?, Nat.add_mul, Nat.add_comm]

/-- A run that starts n runners makes at most n (2n + 13) steps, whatever the order of the
messages: nobody can be kept busy for ever. -/
theorem run_length_le {env : Env} (hm : env.AllocsSucceed) (hc : env.CallsSucceed)
    {argv : List CString} {requests : Int32 → RunnerRequest} {past : List (State × Label)} {s : State}
    (h : TransitionSystem.Run (system env argv requests) past s) :
    past.length ≤ (started past).length * (2 * (started past).length + 13) := by
  have hcard : (started past).toFinset.card ≤ (started past).length := List.toFinset_card_le _
  have hinit : ∀ t, (system env argv requests).init t →
      (TransitionSystem.Reachable (system env argv requests) t ∧
        t.Within (started past).toFinset) ∧ t.potential (started past).toFinset ≤ 0 := by
    intro t ht
    refine ⟨⟨.init ht, ?_⟩, ?_⟩
    · rw [show t = start argv from ht]
      exact fun pid hpid => absurd rfl hpid
    · rw [show t = start argv from ht]
      simp [State.potential, start, Phase.toDo]
  have hpaid := (h.length_le (State.potential (started past).toFinset) 0
    (Label.credit (started past).toFinset)
    (G := fun l => ∀ pid, l.starter? = some pid → pid ∈ (started past).toFinset) hinit
    (fun t l t' ht hlabel hstep => by
      obtain ⟨hwithin, hcost⟩ := step_paid hm hc (inv_of_reachable hm hc ht.1) ht.2 hlabel hstep
      exact ⟨⟨ht.1.step hstep, hwithin⟩, hcost⟩)
    (fun t ht pid hpid => List.mem_toFinset.mpr (List.mem_filterMap.mpr ⟨t, ht, hpid⟩))).2
  rw [sum_credit, Nat.zero_add] at hpaid
  have hcost : 2 * messageCost (started past).toFinset + 3 ≤ 2 * (started past).length + 13 := by
    simp only [messageCost]
    omega
  calc past.length
      ≤ (started past).length * (2 * messageCost (started past).toFinset + 3) :=
        Nat.le_trans (Nat.le_add_right _ _) hpaid
    _ ≤ (started past).length * (2 * (started past).length + 13) := Nat.mul_le_mul_left _ hcost

theorem run_length_le_one_runner :
    ∃ past s, TransitionSystem.Run (system .calm [text "controller"]
          fun pid => ⟨.execute, pid, text "a"⟩) past s ∧ s.phase 11 = .notified ∧
        past.length ≤ (started past).length * (2 * (started past).length + 13) := by
  have hstart : TransitionSystem.Run (system .calm [text "controller"]
      fun pid => ⟨.execute, pid, text "a"⟩) [] (start _) := .init rfl
  have hsubmit := hstart.step (Step.submit 11 rfl rfl)
  have hserved := hsubmit.step (Step.handle rfl (removes_head _ _))
  have hwork := hserved.step (Step.authorise 11 rfl (removes_head _ []) rfl)
  have hfinish := hwork.step (Step.finish 11 rfl)
  have hnotify := hfinish.step (Step.notify 11 rfl)
  exact ⟨_, _, hnotify, rfl, run_length_le Env.calm_allocsSucceed Env.calm_callsSucceed hnotify⟩

end Orchestra

end RunnerOrchestrator
