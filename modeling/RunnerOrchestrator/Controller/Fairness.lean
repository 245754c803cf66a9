import RunnerOrchestrator.Controller.Ledger

/-! # The fair policy gives everybody a turn

While a user waits, every promotion goes round the table of known users, and the
table only grows behind the user's back. A stretch of messages is a stretch of the
cyclic choice, which serves nobody twice.
-/

namespace RunnerOrchestrator

open Removal

/-- The user of every waiting job is known, and so is the last one served, as soon
as anybody has been. -/
structure FairInv (s : ControllerState) : Prop where
  nodup : s.fairUsers.Nodup
  waiting_known : ∀ job ∈ s.waitingQueue, job.userId ∈ s.fairUsers
  last_known : s.lastScheduledUser ∈ s.fairUsers ∨ s.runningQueue = [] ∧ s.waitingQueue = []

/-! ## The table of users -/

theorem ControllerState.remember_fairUsers (s : ControllerState) (userId : Int32) :
    (userId ∈ s.fairUsers ∧ (s.remember userId).fairUsers = s.fairUsers) ∨
      (userId ∉ s.fairUsers ∧ (s.remember userId).fairUsers = s.fairUsers ++ [userId]) := by
  unfold ControllerState.remember
  split
  · exact Or.inl ⟨userExists_iff.mp ‹_›, rfl⟩
  · rename_i h
    exact Or.inr ⟨fun hmem => h (userExists_iff.mpr hmem), rfl⟩

theorem ControllerState.mem_remember (s : ControllerState) (userId : Int32) {u : Int32} :
    u ∈ (s.remember userId).fairUsers ↔ u ∈ s.fairUsers ∨ u = userId := by
  rcases s.remember_fairUsers userId with ⟨hmem, heq⟩ | ⟨-, heq⟩
  · rw [heq]
    constructor
    · exact Or.inl
    · rintro (h | rfl)
      · exact h
      · exact hmem
  · simp [heq]

theorem ControllerState.nodup_remember {s : ControllerState} (h : s.fairUsers.Nodup)
    (userId : Int32) : (s.remember userId).fairUsers.Nodup := by
  rcases s.remember_fairUsers userId with ⟨-, heq⟩ | ⟨hnew, heq⟩
  · rwa [heq]
  · rw [heq, ← List.concat_eq_append]
    exact h.concat hnew

@[simp] theorem ControllerState.remember_lastScheduledUser (s : ControllerState) (userId : Int32) :
    (s.remember userId).lastScheduledUser = s.lastScheduledUser := by
  unfold ControllerState.remember
  split <;> rfl

/-! ## The invariant -/

theorem Served.fair {env : Env} {msg : RpcMessage} {w : World} {s : ControllerState}
    {events : List Event} (hs : Served env msg w s events) (h : FairInv w.state)
    (hslots : SlotInv w.state) (hpos : 1 ≤ w.state.parallelLimit) : FairInv s := by
  cases hs with
  | started ht hfree hslot send hsend =>
      refine ⟨ControllerState.nodup_remember h.nodup _, ?_, Or.inl ?_⟩
      · simp [ControllerState.start, hfree]
      · exact (ControllerState.mem_remember _ _).mpr (Or.inr rfl)
  | queued ht hfull =>
      have hbusy : w.state.runningQueue ≠ [] := by
        rintro hnil
        have := hslots.count
        simp [hnil] at this
        omega
      have hlast : w.state.lastScheduledUser ∈ w.state.fairUsers :=
        h.last_known.resolve_right fun hidle => hbusy hidle.1
      refine ⟨ControllerState.nodup_remember h.nodup _, fun job hjob => ?_, Or.inl ?_⟩
      · rw [ControllerState.mem_remember]
        rcases List.mem_append.mp hjob with hjob | hjob
        · exact Or.inl (h.waiting_known job hjob)
        · rw [List.mem_singleton.mp hjob]
          exact Or.inr rfl
      · simpa [ControllerState.mem_remember] using Or.inl hlast
  | completed ht job running hrem hfree line written hlog =>
      refine ⟨h.nodup, h.waiting_known, ?_⟩
      refine h.last_known.imp_right fun hidle => ?_
      exact absurd hidle.1 (takeFirst_removes hrem).ne_nil
  | promoted ht job running hrem next rest hpick line written hlog send hsend =>
      have hremoves := ControllerState.pick_removes hpick
      exact ⟨h.nodup, fun j hj => h.waiting_known j (hremoves.mem_of_mem hj),
        Or.inl (h.waiting_known next hremoves.mem)⟩
  | stray ht hrem => exact h
  | answered ht replies hreplies => exact h
  | asked ht => exact ⟨h.nodup, h.waiting_known, h.last_known⟩
  | ignored ht => exact h

theorem run_fair {env : Env} (hm : env.AllocsSucceed) (argv : List CString)
    (msgs : List RpcMessage) : FairInv (runMessages env msgs (controllerStart argv)).state := by
  apply run_invariant hm argv (P := FairInv)
  · exact ⟨List.nodup_nil, by simp [controllerConfigure], Or.inr ⟨rfl, rfl⟩⟩
  · intro msg w s events hslots hpos hs h
    exact hs.fair h hslots hpos
  · intro s h
    exact ⟨h.nodup, h.waiting_known, h.last_known⟩

/-! ## Stretches -/

/-- Under "fair" the promoted job belongs to the cyclic choice among the waiting users. -/
theorem pick_fair {s : ControllerState} (hpolicy : s.policy = text "fair") (hinv : FairInv s)
    {v : Int32} (hv : ∃ job ∈ s.waitingQueue, job.userId = v) {rand : Nat} {next : JobInfo}
    {rest : JobQueue} (hpick : s.pick rand = some (next, rest)) :
    CyclicChoice.choose (userExists (queuedUsers s.waitingQueue)) s.fairUsers s.lastScheduledUser =
      some next.userId := by
  obtain ⟨last, hout⟩ := ControllerState.pick_fair_eq hpolicy hpick
  obtain ⟨waiting, hwaiting, rfl⟩ := hv
  rw [queueDequeueFair_choice hout]
  exact choose_of_chooseNextFairUser (mem_queuedUsers.mpr ⟨waiting, hwaiting, rfl⟩)
    (hinv.waiting_known waiting hwaiting) _

/-- One message of a stretch in which `v` waits and gets nothing. -/
theorem Served.stretch {env : Env} {msg : RpcMessage} {w : World} {s : ControllerState}
    {events : List Event} (hs : Served env msg w s events) (hpolicy : w.state.policy = text "fair")
    (hinv : FairInv w.state) {v : Int32} (hv : ∃ job ∈ w.state.waitingQueue, job.userId = v)
    (hnot : ∀ k ∈ acked events, k.userId ≠ v) {table₀ served : List Int32} {last₀ : Int32}
    (h : CyclicChoice.Stretch v table₀ last₀ served w.state.fairUsers w.state.lastScheduledUser) :
    CyclicChoice.Stretch v table₀ last₀ (served ++ (acked events).map JobId.userId) s.fairUsers
      s.lastScheduledUser := by
  have hwaits : w.state.waitingQueue ≠ [] := by
    obtain ⟨job, hjob, -⟩ := hv
    exact List.ne_nil_of_mem hjob
  cases hs with
  | started ht hfree hslot send hsend => exact absurd hfree hwaits
  | queued ht hfull =>
      simp only [acked_nil, List.map_nil, List.append_nil, ControllerState.remember_lastScheduledUser]
      rcases w.state.remember_fairUsers msg.userId with ⟨-, heq⟩ | ⟨hnew, heq⟩
      · rwa [heq]
      · rw [heq]
        exact h.enrol hnew
  | completed ht job running hrem hfree line written hlog => exact absurd hfree hwaits
  | promoted ht job running hrem next rest hpick line written hlog send hsend =>
      have hother : next.userId ≠ v := hnot next.ident (by simp)
      have hactive : userExists (queuedUsers w.state.waitingQueue) v = true := by
        rw [userExists_iff, mem_queuedUsers]
        exact hv
      have hserve := h.serve hactive (pick_fair hpolicy hinv hv hpick) hother
      exact hserve
  | stray ht hrem => simpa using h
  | answered ht replies hreplies => simpa using h
  | asked ht => simpa using h
  | ignored ht => simpa using h

theorem Handled.stretch {env : Env} {msg : RpcMessage} {w : World} {ret : Bool}
    {s : ControllerState} {events : List Event} (hs : Handled env msg w ret s events)
    (hpolicy : w.state.policy = text "fair") (hinv : FairInv w.state) {v : Int32}
    (hv : ∃ job ∈ w.state.waitingQueue, job.userId = v) (hnot : ∀ k ∈ acked events, k.userId ≠ v)
    {table₀ served : List Int32} {last₀ : Int32}
    (h : CyclicChoice.Stretch v table₀ last₀ served w.state.fairUsers w.state.lastScheduledUser) :
    CyclicChoice.Stretch v table₀ last₀ (served ++ (acked events).map JobId.userId) s.fairUsers
      s.lastScheduledUser := by
  cases hs with
  | refused hlate send hsend => simpa using h
  | served hlate hs hgo => exact hs.stretch hpolicy hinv hv hnot h
  | finished hlate hs hstop send hsend =>
      simpa using hs.stretch hpolicy hinv hv (by simpa using hnot) h

section Stretches

variable {env : Env} (hm : env.AllocsSucceed) (argv : List CString) (before : List RpcMessage)

/-- The jobs whose ACK is sent while `stretch` is handled, after `before`. -/
def ackedDuring (env : Env) (argv : List CString) (before stretch : List RpcMessage) : List JobId :=
  acked ((runMessages env (before ++ stretch) (controllerStart argv)).trace.drop
    (runMessages env before (controllerStart argv)).trace.length)

omit hm in
theorem trace_length_le (env : Env) (msgs : List RpcMessage) (w : World) :
    w.trace.length ≤ (runMessages env msgs w).trace.length := by
  refine runMessages_invariant (P := fun v => w.trace.length ≤ v.trace.length) (fun msg v h => ?_)
    msgs le_rfl
  obtain ⟨events, htrace, -⟩ := controllerHandleMessage_genuine env msg v
  rw [htrace, List.length_append]
  omega

include hm

theorem ackedDuring_snoc (stretch : List RpcMessage) (msg : RpcMessage) :
    ∃ events,
      ackedDuring env argv before (stretch ++ [msg]) =
        ackedDuring env argv before stretch ++ acked events ∧
      ∃ ret, Handled env msg (runMessages env (before ++ stretch) (controllerStart argv)) ret
        (runMessages env (before ++ (stretch ++ [msg])) (controllerStart argv)).state events := by
  obtain ⟨events, htrace, hhandled⟩ := controllerHandleMessage_handled hm msg
    (run_slots env argv (before ++ stretch))
  rw [← runMessages_snoc, List.append_assoc] at htrace hhandled
  have hlen := trace_length_le env stretch (runMessages env before (controllerStart argv))
  rw [← runMessages_append] at hlen
  refine ⟨events, ?_, _, hhandled⟩
  rw [ackedDuring, htrace, List.drop_append_of_le_length hlen, acked_append]
  rfl

/-- A stretch of messages is a stretch of the cyclic choice. -/
theorem run_stretch (hpolicy : (controllerConfigure argv).policy = text "fair")
    (stretch : List RpcMessage) {v : Int32}
    (hwait : ∀ part, part <+: stretch →
      ∃ job ∈ (runMessages env (before ++ part) (controllerStart argv)).state.waitingQueue,
        job.userId = v)
    (hnot : ∀ k ∈ ackedDuring env argv before stretch, k.userId ≠ v) :
    let w₀ := runMessages env before (controllerStart argv)
    let w := runMessages env (before ++ stretch) (controllerStart argv)
    CyclicChoice.Stretch v w₀.state.fairUsers w₀.state.lastScheduledUser
      ((ackedDuring env argv before stretch).map JobId.userId) w.state.fairUsers
      w.state.lastScheduledUser := by
  induction stretch using List.reverseRecOn with
  | nil => simpa [ackedDuring] using CyclicChoice.Stretch.start
  | append_singleton stretch msg ih =>
      obtain ⟨events, hacked, ret, hhandled⟩ := ackedDuring_snoc hm argv before stretch msg
      rw [hacked] at hnot
      have hprev := ih (fun part hpart => hwait part (hpart.trans (List.prefix_append _ _)))
        (fun k hk => hnot k (List.mem_append_left _ hk))
      have hinv := run_fair hm argv (before ++ stretch)
      have hconfig := (run_config env argv (before ++ stretch)).2
      simp only [hacked, List.map_append]
      exact hhandled.stretch (hconfig.trans hpolicy) hinv (hwait stretch (List.prefix_append _ _))
        (fun k hk => hnot k (List.mem_append_right _ hk)) hprev

end Stretches

/-- While `v` waits and gets nothing, nobody else is authorised twice, and the last
user scheduled before the stretch not even once. -/
theorem fair_no_monopoly {env : Env} (hm : env.AllocsSucceed) {argv : List CString}
    (hpolicy : (controllerConfigure argv).policy = text "fair") (before stretch : List RpcMessage)
    {v : Int32}
    (hwait : ∀ part, part <+: stretch →
      ∃ job ∈ (runMessages env (before ++ part) (controllerStart argv)).state.waitingQueue,
        job.userId = v)
    (hnot : ∀ k ∈ ackedDuring env argv before stretch, k.userId ≠ v) :
    let served := (ackedDuring env argv before stretch).map JobId.userId
    ∀ u, u ≠ v → served.count u ≤ 1 ∧
      ((runMessages env before (controllerStart argv)).state.lastScheduledUser = u →
        u ∉ served) := by
  intro served u hu
  have hinv := run_fair hm argv before
  obtain ⟨job, hjob, rfl⟩ := hwait [] List.nil_prefix
  rw [List.append_nil] at hjob
  have hlast := hinv.last_known.resolve_right fun hidle => by simp [hidle.2] at hjob
  have hknown := hinv.waiting_known job hjob
  have hnodup : (CyclicChoice.past job.userId
      (runMessages env before (controllerStart argv)).state.lastScheduledUser served).Nodup :=
    (run_stretch hm argv before hpolicy stretch hwait hnot).nodup_past hinv.nodup hlast hknown
  constructor
  · exact List.nodup_iff_count_le_one.mp (hnodup.sublist (List.sublist_append_right _ _)) u
  · rintro rfl hmem
    rw [CyclicChoice.past, if_neg hu] at hnodup
    exact (List.nodup_cons.mp hnodup).1 hmem

/-- One slot and three users; the first one asks for more while the others wait. -/
def threeUsers : List RpcMessage :=
  [submitMsg 11 (-7) (text "a"), submitMsg 12 2 (text "b"), submitMsg 13 3 (text "c"),
    submitMsg 14 (-7) (text "d")]

theorem fair_no_monopoly_three_users :
    let stretch := [{ RpcMessage.zero with type := .done, senderPid := 11, commandId := 11 }]
    let argv := [text "controller", text "1", text "fair"]
    let served := (ackedDuring .calm argv threeUsers stretch).map JobId.userId
    served = [2] ∧ ∀ u, u ≠ 3 → served.count u ≤ 1 ∧
      ((runMessages .calm threeUsers (controllerStart argv)).state.lastScheduledUser = u →
        u ∉ served) := by
  intro stretch argv
  have hwait : ∀ part ∈ stretch.inits,
      ∃ job ∈ (runMessages .calm (threeUsers ++ part) (controllerStart argv)).state.waitingQueue,
        job.userId = 3 := by decide
  exact ⟨by decide, fair_no_monopoly Env.calm_allocsSucceed (by decide) threeUsers stretch
    (fun part hpart => hwait part ((List.mem_inits part stretch).mpr hpart)) (by decide)⟩

end RunnerOrchestrator
