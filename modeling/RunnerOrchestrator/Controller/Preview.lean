import RunnerOrchestrator.Controller.Frame

/-! # The fair preview

The preview marks jobs in `used` where the scheduler unlinks them. The jobs not
marked are the queue of the simulated scheduler, and one round of the copying loop
is one fair dequeue, except that the loop stops at user -1.
-/

namespace RunnerOrchestrator

open Removal

/-- The jobs that repeated calls of `queue_dequeue_fair` remove, in order. -/
def fairOrder (fairUsers : List Int32) : Nat → Int32 → JobQueue → List JobInfo
  | 0, _, _ => []
  | steps + 1, last, q =>
      match queueDequeueFair true fairUsers last q with
      | none => []
      | some (job, rest, last') => job :: fairOrder fairUsers steps last' rest

/-- The jobs not yet marked. -/
def remaining (jobs : List JobInfo) (used : List Bool) : JobQueue :=
  ((jobs.zip used).filter fun slot => !slot.2).map Prod.fst

theorem remaining_none_used (jobs : List JobInfo) :
    remaining jobs (List.replicate jobs.length false) = jobs := by
  induction jobs with
  | nil => rfl
  | cons job jobs ih =>
      simp only [remaining, List.length_cons, List.replicate_succ, List.zip_cons_cons] at ih ⊢
      simp [ih]

theorem mem_of_mem_remaining {jobs : List JobInfo} {used : List Bool} {job : JobInfo}
    (h : job ∈ remaining jobs used) : job ∈ jobs := by
  obtain ⟨slot, hslot, rfl⟩ := List.mem_map.mp h
  exact (List.of_mem_zip (List.mem_of_mem_filter hslot)).1

/-! ## The fair order -/

theorem length_fairOrder (fairUsers : List Int32) {steps : Nat} {last : Int32} {q : JobQueue}
    (h : steps ≤ q.length) : (fairOrder fairUsers steps last q).length = steps := by
  induction steps generalizing last q with
  | zero => rfl
  | succ steps ih =>
      have hq : q ≠ [] := List.ne_nil_of_length_pos (by omega)
      obtain ⟨job, rest, hout⟩ := exists_queueDequeueFair true fairUsers last hq
      have hlen := (queueDequeueFair_removes hout).1.length
      have hrest : steps ≤ rest.length := by omega
      simp [fairOrder, hout, ih hrest]

/-- Dequeuing as often as there are jobs takes every job once. -/
theorem fairOrder_perm (fairUsers : List Int32) (last : Int32) (q : JobQueue) :
    (fairOrder fairUsers q.length last q).Perm q := by
  induction hn : q.length generalizing last q with
  | zero =>
      rw [List.length_eq_zero_iff.mp hn]
      exact List.Perm.nil
  | succ n ih =>
      have hq : q ≠ [] := List.ne_nil_of_length_pos (by omega)
      obtain ⟨job, rest, hout⟩ := exists_queueDequeueFair true fairUsers last hq
      have hrem := (queueDequeueFair_removes hout).1
      have hlen : rest.length = n := by
        have := hrem.length
        omega
      have hrest : (fairOrder fairUsers n job.userId rest).Perm rest := ih job.userId rest hlen
      simp only [fairOrder, hout]
      exact (hrest.cons job).trans hrem.perm.symm

theorem fairOrder_subset {fairUsers : List Int32} {steps : Nat} {last : Int32} {q : JobQueue} :
    ∀ job ∈ fairOrder fairUsers steps last q, job ∈ q := by
  induction steps generalizing last q with
  | zero =>
      intro job hjob
      simp [fairOrder] at hjob
  | succ steps ih =>
      intro job hjob
      cases hout : queueDequeueFair true fairUsers last q with
      | none => simp [fairOrder, hout] at hjob
      | some out =>
          obtain ⟨next, rest, last'⟩ := out
          have hrem := (queueDequeueFair_removes hout).1
          simp only [fairOrder, hout] at hjob
          rcases List.mem_cons.mp hjob with hhead | htail
          · rw [hhead]
            exact hrem.mem
          · exact hrem.mem_of_mem (ih job htail)

/-! ## One round of the loop -/

theorem foldl_unused (slots : List (JobInfo × Bool)) (users : List Int32) :
    slots.foldl
        (fun users slot =>
          if !slot.2 && !userExists users slot.1.userId then users ++ [slot.1.userId] else users)
        users =
      ((slots.filter fun slot => !slot.2).map Prod.fst).foldl
        (fun users job => addUser users job.userId) users := by
  induction slots generalizing users with
  | nil => rfl
  | cons slot slots ih =>
      obtain ⟨job, mark⟩ := slot
      cases mark with
      | true => simpa using ih users
      | false =>
          cases hknown : userExists users job.userId with
          | true => simpa [hknown, addUser] using ih users
          | false => simpa [hknown, addUser] using ih (users ++ [job.userId])

theorem unusedUsers_eq (jobs : List JobInfo) (used : List Bool) :
    unusedUsers jobs used = queuedUsers (remaining jobs used) :=
  foldl_unused (jobs.zip used) []

theorem targetIndex_none {jobs : List JobInfo} {used : List Bool} {target : Int32}
    (h : targetIndex jobs used target = none) :
    takeFirst (fun job => job.userId == target) (remaining jobs used) = none := by
  rw [takeFirst_eq_none]
  intro job hjob
  obtain ⟨slot, hslot, rfl⟩ := List.mem_map.mp hjob
  obtain ⟨hin, hfree⟩ := List.mem_filter.mp hslot
  have hno := List.findIdx?_eq_none_iff.mp h slot hin
  simpa [hfree] using hno

/-- Marking the slot found is unlinking the job found. -/
theorem targetIndex_some {jobs : List JobInfo} {used : List Bool} {target : Int32} {i : Nat}
    (h : targetIndex jobs used target = some i) :
    ∃ job, jobs[i]? = some job ∧
      takeFirst (fun job => job.userId == target) (remaining jobs used) =
        some (job, remaining jobs (used.set i true)) := by
  induction jobs generalizing used i with
  | nil => simp [targetIndex] at h
  | cons job jobs ih =>
      cases used with
      | nil => simp [targetIndex] at h
      | cons mark used =>
          simp only [targetIndex, List.zip_cons_cons, List.findIdx?_cons] at h
          cases hmark : mark with
          | true =>
              subst hmark
              simp only [Bool.not_true, Bool.false_and, Bool.false_eq_true, if_false] at h
              obtain ⟨k, hk, rfl⟩ := Option.map_eq_some_iff.mp h
              obtain ⟨found, hget, htake⟩ := ih hk
              exact ⟨found, by simpa using hget, by simpa [remaining] using htake⟩
          | false =>
              subst hmark
              by_cases huser : job.userId = target
              · simp only [huser, beq_self_eq_true, Bool.not_false, Bool.and_self, if_true,
                  Option.some.injEq] at h
                subst h
                exact ⟨job, rfl, by simp [remaining, takeFirst, huser]⟩
              · simp only [Bool.not_false, Bool.true_and, beq_iff_eq, huser, if_false] at h
                obtain ⟨k, hk, rfl⟩ := Option.map_eq_some_iff.mp h
                obtain ⟨found, hget, htake⟩ := ih hk
                refine ⟨found, by simpa using hget, ?_⟩
                simp only [remaining] at htake
                simp [remaining, takeFirst, huser, htake]

/-- The loop makes the fair order, up to the first job of user -1. -/
theorem copyFairLoop_eq {malloc : Nat → Bool} (hm : ∀ n, malloc n = true) (jobs : List JobInfo)
    (fairUsers : List Int32) (steps mallocs : Nat) (used : List Bool) (last : Int32) :
    (copyFairLoop malloc jobs fairUsers steps mallocs used last).1 =
      (fairOrder fairUsers steps last (remaining jobs used)).takeWhile fun job => job.userId != -1 := by
  induction steps generalizing mallocs used last with
  | zero => rfl
  | succ steps ih =>
      rw [copyFairLoop]
      simp only [hm, Bool.not_true, Bool.false_eq_true, if_false, unusedUsers_eq]
      by_cases hq : remaining jobs used = []
      · have hnobody : chooseNextFairUser (queuedUsers []) fairUsers last = -1 := rfl
        simp [hnobody, fairOrder, queueDequeueFair, hq]
      · obtain ⟨job, rest, hout⟩ := exists_queueDequeueFair true fairUsers last hq
        have huser := queueDequeueFair_choice hout
        simp only [fairOrder, hout, ← huser]
        by_cases hsentinel : job.userId = -1
        · simp [hsentinel]
        · rw [if_neg hsentinel, List.takeWhile_cons_of_pos (by simpa using hsentinel)]
          cases hidx : targetIndex jobs used job.userId with
          | none =>
              have hnone := targetIndex_none hidx
              simp [queueDequeueFair, hq, ← huser, hnone] at hout
          | some i =>
              obtain ⟨found, hget, htake⟩ := targetIndex_some hidx
              simp only [queueDequeueFair, if_neg hq, ← huser, htake] at hout
              obtain ⟨rfl, rfl⟩ : found = job ∧ remaining jobs (used.set i true) = rest := by
                simpa using hout
              simp [hget, ih]

theorem queueCopyFairToArray_eq {malloc : Nat → Bool} (hm : ∀ n, malloc n = true) (mallocs : Nat)
    (q : JobQueue) (maxSize : Nat) (last : Int32) (fairUsers : List Int32) :
    (queueCopyFairToArray malloc mallocs q maxSize last fairUsers).1 =
      (fairOrder fairUsers (min maxSize q.length) last q).takeWhile fun job => job.userId != -1 := by
  unfold queueCopyFairToArray
  split
  · rename_i hempty
    have hzero : min maxSize q.length = 0 := by
      rcases hempty with hmax | hq
      · simp [hmax]
      · simp [hq]
    simp [hzero, fairOrder]
  · have hcopy : queueCopyToArray q q.length = q := List.take_length
    simp only [hm, Bool.and_self, Bool.not_true, Bool.false_eq_true, if_false, hcopy,
      copyFairLoop_eq hm, remaining_none_used]

/-- The preview is the order in which the fair scheduler would dequeue, and asking for
it changes nothing. -/
theorem preview_agrees {malloc : Nat → Bool} (hm : ∀ n, malloc n = true) (mallocs : Nat)
    {q : JobQueue} (huser : ∀ job ∈ q, job.userId ≠ -1) (fairUsers : List Int32) (last : Int32)
    (maxSize : Nat) :
    let copied := (queueCopyFairToArray malloc mallocs q maxSize last fairUsers).1
    copied.length = min maxSize q.length ∧
      copied = fairOrder fairUsers (min maxSize q.length) last q ∧
      ∀ env msg w, (handleStatusReq env msg w).state = w.state := by
  have hall : (queueCopyFairToArray malloc mallocs q maxSize last fairUsers).1 =
      fairOrder fairUsers (min maxSize q.length) last q := by
    rw [queueCopyFairToArray_eq hm, List.takeWhile_eq_self_iff]
    intro job hjob
    simpa using huser job (fairOrder_subset job hjob)
  intro copied
  refine ⟨?_, hall, fun env msg w => handleStatusReq_state env msg w⟩
  show (queueCopyFairToArray malloc mallocs q maxSize last fairUsers).1.length = _
  rw [hall]
  exact length_fairOrder fairUsers (Nat.min_le_right _ _)

/-- Two users out of turn, one of them not in the table. -/
def mixedQueue : JobQueue :=
  [⟨1, 4, .queued, 11, ⟨0, 0⟩⟩, ⟨2, 4, .queued, 12, ⟨1, 0⟩⟩, ⟨3, -9, .queued, 13, ⟨2, 0⟩⟩]

theorem preview_agrees_mixed_queue :
    let copied := (queueCopyFairToArray (fun _ => true) 0 mixedQueue 5 4 [4, 8, 4]).1
    copied.length = min 5 mixedQueue.length ∧
      copied = fairOrder [4, 8, 4] (min 5 mixedQueue.length) 4 mixedQueue ∧
      ∀ env msg w, (handleStatusReq env msg w).state = w.state :=
  preview_agrees (fun _ => rfl) 0 (by decide) [4, 8, 4] 4 5

end RunnerOrchestrator
