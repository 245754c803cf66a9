import RunnerOrchestrator.Controller.Waiting

/-! # Runners that never report

Only a DONE takes a job off the running queue. A runner that is killed after its ACK sends
none, so its slot stays taken, the shutdown waits for it, and with every slot taken in
this way nobody is started any more.
-/

namespace RunnerOrchestrator

open Removal

/-- The running jobs whose runners will not report. -/
def lostJobs (lost : List Int64) (s : ControllerState) : JobQueue :=
  s.runningQueue.filter fun job => decide (job.commandId ∈ lost)

/-- No DONE for any of them is among the messages. -/
def NeverDone (lost : List Int64) (msgs : List RpcMessage) : Prop :=
  ∀ msg ∈ msgs, msg.type = .done → msg.commandId ∉ lost

instance (lost : List Int64) (msgs : List RpcMessage) : Decidable (NeverDone lost msgs) :=
  inferInstanceAs (Decidable (∀ msg ∈ msgs, msg.type = .done → msg.commandId ∉ lost))

/-- A DONE for another job leaves them where they are. -/
theorem filter_lost_removed {lost : List Int64} {q running : JobQueue} {job : JobInfo}
    {commandId : Int64} (hrem : queueRemoveByCommandId q commandId = some (job, running))
    (hother : commandId ∉ lost) :
    (running.filter fun job => decide (job.commandId ∈ lost)) =
      q.filter fun job => decide (job.commandId ∈ lost) := by
  have hid : job.commandId = commandId := by simpa using takeFirst_pos hrem
  have hnot : decide (job.commandId ∈ lost) = false := by
    rw [hid]
    exact decide_eq_false hother
  have hfilter := takeFirst_filter (c := fun job : JobInfo => decide (job.commandId ∈ lost)) hrem
    fun h => absurd h (by simp [hnot])
  simpa [hnot] using hfilter.symm

theorem Served.keeps_lost {env : Env} {msg : RpcMessage} {w : World} {s : ControllerState}
    {events : List Event} (hs : Served env msg w s events) {lost : List Int64}
    (hnone : msg.type = .done → msg.commandId ∉ lost) : lostJobs lost w.state <+: lostJobs lost s := by
  cases hs with
  | started ht hfree hslot send hsend =>
      simp only [lostJobs, ControllerState.start, ControllerState.remember_runningQueue,
        List.filter_append]
      exact List.prefix_append _ _
  | queued ht hfull =>
      simp only [lostJobs, ControllerState.remember_runningQueue]
      exact List.prefix_rfl
  | completed ht job running hrem hfree line written hlog =>
      simp only [lostJobs, filter_lost_removed hrem (hnone ht)]
      exact List.prefix_rfl
  | promoted ht job running hrem next rest hpick line written hlog send hsend =>
      simp only [lostJobs, ControllerState.start, List.filter_append,
        filter_lost_removed hrem (hnone ht)]
      exact List.prefix_append _ _
  | stray ht hrem => exact List.prefix_rfl
  | answered ht replies hreplies => exact List.prefix_rfl
  | asked ht => exact List.prefix_rfl
  | ignored ht => exact List.prefix_rfl

/-- With lost jobs in every slot nothing is authorised. -/
theorem Served.silent_when_lost {env : Env} {msg : RpcMessage} {w : World} {s : ControllerState}
    {events : List Event} (hs : Served env msg w s events) {lost : List Int64}
    (hnone : msg.type = .done → msg.commandId ∉ lost) (hslots : SlotInv w.state)
    (hfull : w.state.parallelLimit ≤ (lostJobs lost w.state).length) : acked events = [] := by
  have hcount := hslots.count
  have hbound := hslots.bounded
  have hle : (lostJobs lost w.state).length ≤ w.state.runningQueue.length :=
    List.length_filter_le _ _
  have hall : ∀ job ∈ w.state.runningQueue, job.commandId ∈ lost := by
    have hlen : (lostJobs lost w.state).length = w.state.runningQueue.length := by omega
    intro job hjob
    simpa using List.length_filter_eq_length_iff.mp hlen job hjob
  have hstray : ∀ {job : JobInfo} {running : JobQueue}, msg.type = .done →
      queueRemoveByCommandId w.state.runningQueue msg.commandId ≠ some (job, running) := by
    intro job running ht hrem
    have hid : job.commandId = msg.commandId := by simpa using takeFirst_pos hrem
    exact hnone ht (hid ▸ hall job (takeFirst_removes hrem).mem)
  cases hs with
  | started ht hfree hslot send hsend => omega
  | queued ht hbusy => rfl
  | completed ht job running hrem hfree line written hlog => exact absurd hrem (hstray ht)
  | promoted ht job running hrem next rest hpick line written hlog send hsend =>
      exact absurd hrem (hstray ht)
  | stray ht hrem => rfl
  | answered ht replies hreplies => exact acked_status _ _
  | asked ht => rfl
  | ignored ht => rfl

theorem Handled.keeps_lost {env : Env} {msg : RpcMessage} {w : World} {ret : Bool}
    {s : ControllerState} {events : List Event} (hs : Handled env msg w ret s events)
    {lost : List Int64} (hnone : msg.type = .done → msg.commandId ∉ lost) :
    lostJobs lost w.state <+: lostJobs lost s := by
  cases hs with
  | refused hlate send hsend => exact List.prefix_rfl
  | served hlate hs hgo => exact hs.keeps_lost hnone
  | finished hlate hs hstop send hsend => exact hs.keeps_lost hnone

theorem Handled.silent_when_lost {env : Env} {msg : RpcMessage} {w : World} {ret : Bool}
    {s : ControllerState} {events : List Event} (hs : Handled env msg w ret s events)
    {lost : List Int64} (hnone : msg.type = .done → msg.commandId ∉ lost)
    (hslots : SlotInv w.state) (hfull : w.state.parallelLimit ≤ (lostJobs lost w.state).length) :
    acked events = [] := by
  cases hs with
  | refused hlate send hsend => rfl
  | served hlate hs hgo => exact hs.silent_when_lost hnone hslots hfull
  | finished hlate hs hstop send hsend =>
      simpa using hs.silent_when_lost hnone hslots hfull

section Runs

variable {env : Env} (hm : env.AllocsSucceed) (argv : List CString) (before : List RpcMessage)
  {lost : List Int64} {stretch : List RpcMessage} (hlost : NeverDone lost stretch)

include hm hlost

theorem run_keeps_lost :
    lostJobs lost (runMessages env before (controllerStart argv)).state <+:
      lostJobs lost (runMessages env (before ++ stretch) (controllerStart argv)).state := by
  induction stretch using List.reverseRecOn with
  | nil => rw [List.append_nil]
  | append_singleton stretch msg ih =>
      have hprev := ih fun m hmem => hlost m (List.mem_append_left _ hmem)
      rcases eventsDuring_snoc hm argv before stretch msg with ⟨events, ret, -, hhandled⟩
      exact hprev.trans (hhandled.keeps_lost (hlost msg (List.mem_append_right _ List.mem_cons_self)))

theorem run_silent_when_lost
    (hfull : (controllerConfigure argv).parallelLimit ≤
      (lostJobs lost (runMessages env before (controllerStart argv)).state).length) :
    ackedDuring env argv before stretch = [] := by
  induction stretch using List.reverseRecOn with
  | nil => rw [ackedDuring_eq, eventsDuring_nil, acked_nil]
  | append_singleton stretch msg ih =>
      have hpast : NeverDone lost stretch := fun m hmem => hlost m (List.mem_append_left _ hmem)
      have hmsg := hlost msg (List.mem_append_right _ List.mem_cons_self)
      have hkept := (run_keeps_lost hm argv before hpast).length_le
      have hslots := run_slots env argv (before ++ stretch)
      have hlimit := (run_config env argv (before ++ stretch)).1
      rcases eventsDuring_snoc hm argv before stretch msg with ⟨events, ret, hevents, hhandled⟩
      have hsilent := hhandled.silent_when_lost hmsg hslots (by omega)
      rw [ackedDuring_eq] at ih ⊢
      rw [hevents, acked_append, hsilent, ih hpast, List.append_nil]

end Runs

/-- As long as no DONE comes for them, lost jobs stay in the running queue and keep the
controller from finishing; when they fill all slots, no ACK is sent any more. -/
theorem crashed_runners_block {env : Env} (hm : env.AllocsSucceed) (argv : List CString)
    (before : List RpcMessage) {lost : List Int64} {stretch : List RpcMessage}
    (hlost : NeverDone lost stretch) :
    let w₀ := runMessages env before (controllerStart argv)
    let w := runMessages env (before ++ stretch) (controllerStart argv)
    lostJobs lost w₀.state <+: lostJobs lost w.state ∧
      (lostJobs lost w₀.state ≠ [] → ∀ part msg, part ++ [msg] <+: stretch →
        (controllerHandleMessage env msg
          (runMessages env (before ++ part) (controllerStart argv))).1 = false) ∧
      ((lostJobs lost w₀.state).length = w₀.state.parallelLimit →
        ackedDuring env argv before stretch = []) := by
  intro w₀ w
  refine ⟨run_keeps_lost hm argv before hlost, fun hsome part msg hpart => ?_, fun hfull => ?_⟩
  · by_contra hret
    rw [Bool.not_eq_false] at hret
    have hpast : NeverDone lost (part ++ [msg]) := fun m hmem => hlost m (hpart.subset hmem)
    have hkept := run_keeps_lost hm argv before hpast
    have hidle := (run_stopped hret).2
    rw [← List.append_assoc, lostJobs, lostJobs, hidle, List.filter_nil] at hkept
    exact hsome (List.prefix_nil.mp hkept)
  · apply run_silent_when_lost hm argv before hlost
    rw [← (run_config env argv before).1]
    exact hfull.ge

/-- The only runner with a slot is killed while two others wait. -/
theorem crashed_runners_block_one_slot :
    let argv := [text "controller", text "1"]
    let stretch := [shutdownReq 20, doneOf 12, statusReq 21, doneOf 13]
    let w₀ := runMessages .calm threeUsers (controllerStart argv)
    let w := runMessages .calm (threeUsers ++ stretch) (controllerStart argv)
    lostJobs [11] w₀.state <+: lostJobs [11] w.state ∧
      (lostJobs [11] w₀.state ≠ [] → ∀ part msg, part ++ [msg] <+: stretch →
        (controllerHandleMessage .calm msg
          (runMessages .calm (threeUsers ++ part) (controllerStart argv))).1 = false) ∧
      ((lostJobs [11] w₀.state).length = w₀.state.parallelLimit →
        ackedDuring .calm argv threeUsers stretch = []) :=
  crashed_runners_block Env.calm_allocsSucceed [text "controller", text "1"] threeUsers (by decide)

end RunnerOrchestrator
