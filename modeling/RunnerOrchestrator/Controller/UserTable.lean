import RunnerOrchestrator.Controller.Fairness
import RunnerOrchestrator.Controller.Preview

/-! # The table of known users

The cyclic choice is exact for any table. Over whole runs the table lists the users
of the accepted jobs, each once, in order of first submission, so the choice always
finds somebody in it and the two exits that do without are dead.
-/

namespace RunnerOrchestrator

open Removal CyclicChoice

/-! ## The choice for an arbitrary table -/

/-- Each index belongs to exactly one of the offsets 1 to n. -/
theorem offset_unique {users : List Int32} {i : Nat} (hi : i < users.length) (lastUserId : Int32) :
    ∃! offset : Nat, (1 ≤ offset ∧ offset ≤ users.length) ∧
      (lastIndex users lastUserId + offset + users.length) % (users.length : Int) = i := by
  have hstart := start_le_length users lastUserId
  have hindex : ∀ k < users.length,
      ((lastIndex users lastUserId + ((k + 1 : Nat) : Int) + users.length) %
          (users.length : Int) = i ↔
        start users lastUserId + k = i ∨ start users lastUserId + k = i + users.length) := by
    intro k hk
    rw [offset_index, Int.natCast_inj, turn_eq_iff hstart hk hi]
  have hexists : ∃ k < users.length,
      start users lastUserId + k = i ∨ start users lastUserId + k = i + users.length := by
    by_cases hlap : start users lastUserId ≤ i
    · exact ⟨i - start users lastUserId, by omega, by omega⟩
    · exact ⟨i + users.length - start users lastUserId, by omega, by omega⟩
  obtain ⟨k, hk, hmeet⟩ := hexists
  refine ⟨k + 1, ⟨⟨by omega, hk⟩, (hindex k hk).mpr hmeet⟩, ?_⟩
  rintro offset ⟨⟨hone, hle⟩, hoffset⟩
  obtain ⟨j, rfl⟩ : ∃ j, offset = j + 1 := ⟨offset - 1, by omega⟩
  have hother := (hindex j hle).mp hoffset
  omega

/-- The sum under the remainder is not negative and stays below three times n. -/
theorem offset_sum_range {users : List Int32} {offset : Nat} (lastUserId : Int32)
    (hone : 1 ≤ offset) (hle : offset ≤ users.length) :
    0 ≤ lastIndex users lastUserId + offset + users.length ∧
      lastIndex users lastUserId + offset + users.length < 3 * users.length := by
  have hnext := lastIndex_add_one users lastUserId
  have hstart := start_le_length users lastUserId
  omega

/-- The loop finds the first active entry of the tour. -/
theorem chooseNextFairUser_first {activeUsers fairUsers : List Int32}
    (hknown : ∃ u ∈ fairUsers, u ∈ activeUsers) (lastUserId : Int32) :
    ∃ k < fairUsers.length,
      fairUsers[(start fairUsers lastUserId + k) % fairUsers.length]? =
        some (chooseNextFairUser activeUsers fairUsers lastUserId) ∧
      ∀ j < k, ∀ u ∈ fairUsers[(start fairUsers lastUserId + j) % fairUsers.length]?,
        u ∉ activeUsers := by
  obtain ⟨v, hfair, hactive⟩ := hknown
  have hchoose := choose_of_chooseNextFairUser hactive hfair lastUserId
  obtain ⟨-, k, hk, hget, hbefore⟩ := List.find?_eq_some_iff_getElem.mp hchoose
  have hlt : k < fairUsers.length := by rwa [length_tour] at hk
  refine ⟨k, hlt, ?_, fun j hj u hu hin => ?_⟩
  · rw [← getElem?_tour hlt, List.getElem?_eq_getElem hk, hget]
  · rw [← getElem?_tour (Nat.lt_trans hj hlt)] at hu
    obtain ⟨_, rfl⟩ := List.getElem?_eq_some_iff.mp hu
    simpa [userExists_iff.mpr hin] using hbefore j hj

theorem chooseNextFairUser_unknown {activeUsers fairUsers : List Int32} (hfair : fairUsers ≠ [])
    (hunknown : ∀ u ∈ fairUsers, u ∉ activeUsers) (lastUserId : Int32) (hactive : activeUsers ≠ []) :
    activeUsers.head? = some (chooseNextFairUser activeUsers fairUsers lastUserId) := by
  cases activeUsers with
  | nil => exact absurd rfl hactive
  | cons first rest =>
      have hnone : choose (userExists (first :: rest)) fairUsers lastUserId = none := by
        refine List.find?_eq_none.mpr fun u hu hexists => ?_
        exact hunknown u (mem_tour.mp hu) (userExists_iff.mp hexists)
      simp only [chooseNextFairUser, if_neg hfair, scanFairUsers_eq_choose, hnone]
      rfl

/-- The indices at the offsets 1 to n are a round of the table, and the active user
chosen is the first one met on it; the last user's own position ends the round. -/
theorem choice_cyclic {activeUsers fairUsers : List Int32} (hactive : activeUsers ≠ [])
    (hfair : fairUsers ≠ []) (lastUserId : Int32) :
    chooseNextFairUser activeUsers fairUsers lastUserId ∈ activeUsers ∧
    let n := fairUsers.length
    let sum := fun offset : Nat => lastIndex fairUsers lastUserId + offset + n
    let after := if lastUserId ∈ fairUsers then fairUsers.idxOf lastUserId + 1 else 0
    let chosen := chooseNextFairUser activeUsers fairUsers lastUserId
    (∀ offset, 1 ≤ offset → offset ≤ n → 0 ≤ sum offset ∧ sum offset < 3 * n ∧
      0 ≤ sum offset % (n : Int) ∧ sum offset % (n : Int) < n) ∧
    (∀ i < n, ∃! offset, (1 ≤ offset ∧ offset ≤ n) ∧ sum offset % (n : Int) = i) ∧
    ((∃ u ∈ fairUsers, u ∈ activeUsers) →
      ∃ k < n, fairUsers[(after + k) % n]? = some chosen ∧
        ∀ j < k, ∀ u ∈ fairUsers[(after + j) % n]?, u ∉ activeUsers) ∧
    (lastUserId ∈ fairUsers → (after + (n - 1)) % n = fairUsers.idxOf lastUserId) ∧
    ((∀ u ∈ fairUsers, u ∉ activeUsers) → activeUsers.head? = some chosen) := by
  refine ⟨chooseNextFairUser_mem hactive fairUsers lastUserId, ?_⟩
  intro n sum after chosen
  have hpos : (0 : Int) < n := Int.natCast_pos.mpr (List.length_pos_of_ne_nil hfair)
  refine ⟨fun offset hone hle => ?_, fun i hi => offset_unique hi lastUserId, fun hknown => ?_,
    start_last, fun hnone => ?_⟩
  · obtain ⟨hnonneg, hlt⟩ := offset_sum_range lastUserId hone hle
    exact ⟨hnonneg, hlt, Int.emod_nonneg _ (Int.ne_of_gt hpos), Int.emod_lt_of_pos _ hpos⟩
  · exact chooseNextFairUser_first hknown lastUserId
  · exact chooseNextFairUser_unknown hfair hnone lastUserId hactive

theorem choice_cyclic_repeated_entry :
    chooseNextFairUser [5, 2, 9] [7, 2, 7, 9] 7 = 2 ∧
      ∃ k < 4, [7, 2, 7, (9 : Int32)][(1 + k) % 4]? = some 2 := by
  have hcyclic := @choice_cyclic [5, 2, 9] [7, 2, 7, 9] (by decide) (by decide) 7
  obtain ⟨k, hk, hget, -⟩ := hcyclic.2.2.2.1 ⟨2, by decide, by decide⟩
  exact ⟨by decide, k, hk, hget⟩

/-! ## The table along a run -/

/-- What the code does to the table is registration. -/
theorem addUser_eq_register (users : List Int32) (userId : Int32) :
    addUser users userId = register users userId := by
  unfold addUser register
  simp only [userExists_iff]

theorem ControllerState.remember_register (s : ControllerState) (userId : Int32) :
    (s.remember userId).fairUsers = register s.fairUsers userId := by
  rw [← addUser_eq_register, addUser, ControllerState.remember]
  split <;> rfl

/-- The entry that a new user gets is inside the array. -/
theorem ControllerState.remember_room {s : ControllerState}
    (h : s.fairUsers.length ≤ s.fairUserCapacity) {userId : Int32} (hnew : userId ∉ s.fairUsers) :
    s.fairUsers.length < (s.remember userId).fairUserCapacity := by
  have hunknown : ¬ userExists s.fairUsers userId = true := fun hknown =>
    hnew (userExists_iff.mp hknown)
  rw [ControllerState.remember, if_neg hunknown]
  dsimp only
  split
  · split <;> omega
  · omega

theorem ControllerState.remember_fits {s : ControllerState}
    (h : s.fairUsers.length ≤ s.fairUserCapacity) (userId : Int32) :
    (s.remember userId).fairUsers.length ≤ (s.remember userId).fairUserCapacity := by
  by_cases hknown : userId ∈ s.fairUsers
  · rwa [ControllerState.remember, if_pos (userExists_iff.mpr hknown)]
  · have hroom := ControllerState.remember_room h hknown
    rw [ControllerState.remember_register, register, if_neg hknown, List.length_append]
    exact hroom

/-- The array is large enough, and everybody who runs or was the last to be scheduled
is in it. -/
structure UserTable (s : ControllerState) : Prop where
  fits : s.fairUsers.length ≤ s.fairUserCapacity
  running : ∀ job ∈ s.runningQueue, job.userId ∈ s.fairUsers
  last : s.fairUsers = [] ∨ s.lastScheduledUser ∈ s.fairUsers

theorem UserTable.start {s : ControllerState} (h : UserTable s) {job : JobInfo}
    (hknown : job.userId ∈ s.fairUsers) : UserTable (s.start job) := by
  refine ⟨h.fits, fun j hj => ?_, Or.inr hknown⟩
  rcases List.mem_append.mp hj with hj | hj
  · exact h.running j hj
  · rw [List.mem_singleton.mp hj]
    exact hknown

theorem UserTable.unlink {s : ControllerState} (h : UserTable s) {job : JobInfo}
    {running : JobQueue} (count : Nat) (hrem : Removes s.runningQueue job running) :
    UserTable { s with runningQueue := running, runningCount := count } :=
  ⟨h.fits, fun j hj => h.running j (hrem.mem_of_mem hj), h.last⟩

theorem Served.userTable {env : Env} {msg : RpcMessage} {w : World} {s : ControllerState}
    {events : List Event} (hs : Served env msg w s events) (h : UserTable w.state)
    (hfair : FairInv w.state) (hslots : SlotInv w.state) (hpos : 1 ≤ w.state.parallelLimit) :
    UserTable s := by
  have hmem : ∀ {u}, u ∈ w.state.fairUsers → u ∈ (w.state.remember msg.userId).fairUsers :=
    fun hu => (ControllerState.mem_remember _ _).mpr (Or.inl hu)
  have hself : msg.userId ∈ (w.state.remember msg.userId).fairUsers :=
    (ControllerState.mem_remember _ _).mpr (Or.inr rfl)
  have hfits := ControllerState.remember_fits h.fits msg.userId
  have hrunning : ∀ job ∈ (w.state.remember msg.userId).runningQueue,
      job.userId ∈ (w.state.remember msg.userId).fairUsers := by
    intro job hjob
    rw [ControllerState.remember_runningQueue] at hjob
    exact hmem (h.running job hjob)
  cases hs with
  | started ht hfree hslot send hsend =>
      refine ⟨hfits, fun job hjob => ?_, Or.inr hself⟩
      rcases List.mem_append.mp hjob with hjob | hjob
      · exact hrunning job hjob
      · rw [List.mem_singleton.mp hjob]
        exact hself
  | queued ht hfull =>
      have hlast : w.state.lastScheduledUser ∈ w.state.fairUsers := by
        refine h.last.resolve_left fun hnone => ?_
        obtain ⟨job, hjob⟩ : ∃ job, job ∈ w.state.runningQueue := by
          refine List.exists_mem_of_length_pos ?_
          rw [← hslots.count]
          omega
        have hknown := h.running job hjob
        rw [hnone] at hknown
        cases hknown
      refine ⟨hfits, hrunning, Or.inr ?_⟩
      simp only [ControllerState.remember_lastScheduledUser]
      exact hmem hlast
  | completed ht job running hrem hfree line written hlog =>
      exact h.unlink _ (takeFirst_removes hrem)
  | promoted ht job running hrem next rest hpick line written hlog send hsend =>
      have hnext := hfair.waiting_known next (ControllerState.pick_removes hpick).mem
      have hunlinked := h.unlink (w.state.runningCount - 1) (takeFirst_removes hrem)
      have hrest : UserTable { w.state with
          runningQueue := running, runningCount := w.state.runningCount - 1
          waitingQueue := rest } := ⟨hunlinked.fits, hunlinked.running, hunlinked.last⟩
      exact hrest.start hnext
  | stray ht hrem => exact h
  | answered ht replies hreplies => exact h
  | asked ht => exact ⟨h.fits, h.running, h.last⟩
  | ignored ht => exact h

/-- A message registers the users of the jobs it is accepted as. -/
theorem Served.fairUsers {env : Env} {msg : RpcMessage} {w : World} {s : ControllerState}
    {events : List Event} (hs : Served env msg w s events) (hlate : ¬ IsLate msg w.state) :
    s.fairUsers = ((acceptedJob env msg w).map JobId.userId).foldl register w.state.fairUsers := by
  cases hs with
  | started ht hfree hslot send hsend =>
      rw [acceptedJob_submit ht hlate]
      exact ControllerState.remember_register w.state msg.userId
  | queued ht hfull =>
      rw [acceptedJob_submit ht hlate]
      exact ControllerState.remember_register w.state msg.userId
  | completed ht job running hrem hfree line written hlog =>
      rw [acceptedJob_other (by simp [ht])]
      rfl
  | promoted ht job running hrem next rest hpick line written hlog send hsend =>
      rw [acceptedJob_other (by simp [ht])]
      rfl
  | stray ht hrem =>
      rw [acceptedJob_other (by simp [ht])]
      rfl
  | answered ht replies hreplies =>
      rw [acceptedJob_other (by simp [ht])]
      rfl
  | asked ht =>
      rw [acceptedJob_other (by simp [ht])]
      rfl
  | ignored ht =>
      rw [acceptedJob_other ht.1]
      rfl

theorem Handled.fairUsers {env : Env} {msg : RpcMessage} {w : World} {ret : Bool}
    {s : ControllerState} {events : List Event} (hs : Handled env msg w ret s events) :
    s.fairUsers = ((acceptedJob env msg w).map JobId.userId).foldl register w.state.fairUsers := by
  cases hs with
  | refused hlate send hsend =>
      rw [acceptedJob_late hlate]
      rfl
  | served hlate hs hgo => exact hs.fairUsers hlate
  | finished hlate hs hstop send hsend => exact hs.fairUsers hlate

section Runs

variable {env : Env} (hm : env.AllocsSucceed) (argv : List CString) (msgs : List RpcMessage)

include hm

theorem run_userTable :
    UserTable (runMessages env msgs (controllerStart argv)).state := by
  have hboth : FairInv (runMessages env msgs (controllerStart argv)).state ∧
      UserTable (runMessages env msgs (controllerStart argv)).state := by
    apply run_invariant hm argv (P := fun s => FairInv s ∧ UserTable s)
    · exact ⟨run_fair hm argv [], Nat.zero_le _, by simp [controllerConfigure], Or.inl rfl⟩
    · intro msg w s events hslots hpos hs h
      exact ⟨hs.fair h.1 hslots hpos, hs.userTable h.2 h.1 hslots hpos⟩
    · intro s h
      exact ⟨⟨h.1.nodup, h.1.waiting_known, h.1.last_known⟩, ⟨h.2.fits, h.2.running, h.2.last⟩⟩
  exact hboth.2

theorem run_fairUsers :
    (runMessages env msgs (controllerStart argv)).state.fairUsers =
      ((acceptedJobs env msgs (controllerStart argv)).map JobId.userId).foldl register [] := by
  induction msgs using List.reverseRecOn with
  | nil => rfl
  | append_singleton msgs msg ih =>
      obtain ⟨events, -, hhandled⟩ := controllerHandleMessage_handled hm msg (run_slots env argv msgs)
      rw [runMessages_snoc, hhandled.fairUsers, ih, acceptedJobs_snoc, List.map_append,
        List.foldl_append]

theorem run_fairUsers_prefix {before : List RpcMessage} (hbefore : before <+: msgs) :
    (runMessages env before (controllerStart argv)).state.fairUsers <+:
      (runMessages env msgs (controllerStart argv)).state.fairUsers := by
  obtain ⟨more, rfl⟩ := hbefore
  rw [run_fairUsers hm argv (before ++ more), acceptedJobs_append, List.map_append,
    List.foldl_append, ← run_fairUsers hm argv before]
  exact prefix_foldl_register _ _

omit hm in
/-- With users who are all in the table the loop of offsets finds one. -/
theorem scanFairUsers_known {activeUsers fairUsers : List Int32} (hactive : activeUsers ≠ [])
    (hknown : ∀ u ∈ activeUsers, u ∈ fairUsers) (lastUserId : Int32) :
    fairUsers ≠ [] ∧ (scanFairUsers activeUsers fairUsers (lastIndex fairUsers lastUserId) 1
      fairUsers.length).isSome := by
  obtain ⟨u, hu⟩ := List.exists_mem_of_ne_nil activeUsers hactive
  refine ⟨List.ne_nil_of_mem (hknown u hu), ?_⟩
  rw [scanFairUsers_eq_choose, choose_of_chooseNextFairUser hu (hknown u hu)]
  rfl

end Runs

/-- In every state reached the table lists the submitters once, in order of first
submission; writes stay inside the array, and the fair choice finds its user there. -/
theorem user_table_exact {env : Env} (hm : env.AllocsSucceed) (argv : List CString)
    (msgs : List RpcMessage) :
    let w := runMessages env msgs (controllerStart argv)
    let s := w.state
    let submitters := (acceptedJobs env msgs (controllerStart argv)).map JobId.userId
    let finds := fun activeUsers lastUserId => s.fairUsers ≠ [] ∧
      (scanFairUsers activeUsers s.fairUsers (lastIndex s.fairUsers lastUserId) 1
        s.fairUsers.length).isSome
    s.fairUsers.Nodup ∧ (∀ u, u ∈ s.fairUsers ↔ u ∈ submitters) ∧
    s.fairUsers.Pairwise (fun u v => submitters.idxOf u < submitters.idxOf v) ∧
    (∀ before, before <+: msgs →
      (runMessages env before (controllerStart argv)).state.fairUsers <+: s.fairUsers) ∧
    s.fairUsers.length ≤ s.fairUserCapacity ∧
    (∀ userId ∉ s.fairUsers,
      (rememberFairUser env userId w).state.fairUsers = s.fairUsers ++ [userId] ∧
      s.fairUsers.length < (rememberFairUser env userId w).state.fairUserCapacity) ∧
    (∀ job, job ∈ s.waitingQueue ∨ job ∈ s.runningQueue → job.userId ∈ s.fairUsers) ∧
    (submitters ≠ [] → s.lastScheduledUser ∈ s.fairUsers) ∧
    (s.waitingQueue ≠ [] → ∀ last, finds (queuedUsers s.waitingQueue) last) ∧
    (∀ used, unusedUsers s.waitingQueue used ≠ [] →
      ∀ last, finds (unusedUsers s.waitingQueue used) last) := by
  intro w s submitters finds
  have hregisters : Registers submitters s.fairUsers := by
    have hfold : s.fairUsers = submitters.foldl register [] := run_fairUsers hm argv msgs
    rw [hfold]
    exact registers_foldl submitters
  have hfair : FairInv s := run_fair hm argv msgs
  have htable : UserTable s := run_userTable hm argv msgs
  refine ⟨hregisters.nodup, hregisters.mem, hregisters.order,
    fun before hbefore => run_fairUsers_prefix hm argv msgs hbefore, htable.fits,
    fun userId hnew => ?_, fun job hjob => hjob.elim (hfair.waiting_known job) (htable.running job),
    fun hne => ?_, fun hwaits last => ?_, fun used hne last => ?_⟩
  · rw [rememberFairUser_state hm, ControllerState.remember_register, register, if_neg hnew]
    exact ⟨rfl, ControllerState.remember_room htable.fits hnew⟩
  · refine htable.last.resolve_left fun hnone => ?_
    obtain ⟨u, hu⟩ := List.exists_mem_of_ne_nil submitters hne
    have hknown := (hregisters.mem u).mpr hu
    rw [hnone] at hknown
    cases hknown
  · refine scanFairUsers_known (queuedUsers_ne_nil hwaits) (fun u hu => ?_) last
    obtain ⟨job, hjob, rfl⟩ := mem_queuedUsers.mp hu
    exact hfair.waiting_known job hjob
  · refine scanFairUsers_known hne (fun u hu => ?_) last
    rw [unusedUsers_eq] at hu
    obtain ⟨job, hjob, rfl⟩ := mem_queuedUsers.mp hu
    exact hfair.waiting_known job (mem_of_mem_remaining hjob)

theorem user_table_exact_three_users :
    let s := (runMessages .calm threeUsers
      (controllerStart [text "controller", text "1", text "fair"])).state
    s.fairUsers = [-7, 2, 3] ∧ s.fairUsers.length ≤ s.fairUserCapacity := by
  have htable := user_table_exact Env.calm_allocsSucceed
    [text "controller", text "1", text "fair"] threeUsers
  exact ⟨by decide, htable.2.2.2.2.1⟩

end RunnerOrchestrator
