import Mathlib.Data.List.GetD
import RunnerOrchestrator.Common.Ipc
import RunnerOrchestrator.Foundation.Removal
import RunnerOrchestrator.Foundation.CyclicChoice

/-! # Job queues and scheduling policies

The operations of the scheduler on the list a queue represents, head first. An
operation that returns 0 is `none`; out-parameters are components of the result.
-/

namespace RunnerOrchestrator

open Removal

inductive JobState
  | queued | running
deriving Repr, DecidableEq

structure JobInfo where
  commandId : Int64
  userId : Int32
  state : JobState
  runnerPid : Int32
  startTime : Timeval
deriving Repr, DecidableEq

abbrev JobQueue := List JobInfo

def queueCreate : JobQueue := []

/-- The answer of `malloc` is passed in. -/
def queueEnqueue (malloc : Bool) (q : JobQueue) (job : JobInfo) : Option JobQueue :=
  if malloc then some (q ++ [job]) else none

def queueDequeue : JobQueue → Option (JobInfo × JobQueue)
  | [] => none
  | head :: rest => some (head, rest)

/-- Walks to position `rand() % size` and unlinks there. -/
def queueDequeueRandom (rand : Nat) (q : JobQueue) : Option (JobInfo × JobQueue) :=
  if q = [] then none
  else
    let targetIdx := rand % q.length
    if targetIdx = 0 then queueDequeue q else takeAt targetIdx q

def queueRemoveByCommandId (q : JobQueue) (commandId : Int64) : Option (JobInfo × JobQueue) :=
  takeFirst (fun job => job.commandId == commandId) q

def queueIsEmpty (q : JobQueue) : Bool := q.length == 0

def queueGetSize (q : JobQueue) : Nat := q.length

def queueCopyToArray (q : JobQueue) (maxSize : Nat) : List JobInfo := q.take maxSize

/-! ## The fair policy -/

def userExists (users : List Int32) (userId : Int32) : Bool := users.any fun user => user == userId

/-- The search loop for `last_user_id`: the first index, or -1. -/
def lastIndex (users : List Int32) (lastUserId : Int32) : Int :=
  match users.findIdx? fun user => user == lastUserId with
  | some i => i
  | none => -1

def chooseNextUser (users : List Int32) (lastUserId : Int32) : Int32 :=
  match users with
  | [] => -1
  | first :: _ =>
      let lastIdx := lastIndex users lastUserId
      if lastIdx = -1 ∨ lastIdx = users.length - 1 then first
      else users.getD (lastIdx + 1).toNat first

/-- The offset loop: `count` more offsets, from `offset` on. -/
def scanFairUsers (activeUsers fairUsers : List Int32) (lastIdx : Int) :
    Nat → Nat → Option Int32
  | _, 0 => none
  | offset, count + 1 =>
      let idx := (lastIdx + offset + fairUsers.length) % (fairUsers.length : Int)
      let user := fairUsers.getD idx.toNat 0
      if userExists activeUsers user then some user
      else scanFairUsers activeUsers fairUsers lastIdx (offset + 1) count

def chooseNextFairUser (activeUsers fairUsers : List Int32) (lastUserId : Int32) : Int32 :=
  match activeUsers with
  | [] => -1
  | first :: _ =>
      if fairUsers = [] then chooseNextUser activeUsers lastUserId
      else
        let lastIdx := lastIndex fairUsers lastUserId
        (scanFairUsers activeUsers fairUsers lastIdx 1 fairUsers.length).getD first

def addUser (users : List Int32) (userId : Int32) : List Int32 :=
  if userExists users userId then users else users ++ [userId]

/-- The users with a queued job, in order of their first one. -/
def queuedUsers (q : JobQueue) : List Int32 := q.foldl (fun users job => addUser users job.userId) []

/-- Returns the job, the queue left and the new last user. Without memory for the
user table the head is taken. -/
def queueDequeueFair (malloc : Bool) (fairUsers : List Int32) (lastUserId : Int32)
    (q : JobQueue) : Option (JobInfo × JobQueue × Int32) :=
  if q = [] then none
  else if !malloc then (queueDequeue q).map fun out => (out.1, out.2, out.1.userId)
  else
    let targetUser := chooseNextFairUser (queuedUsers q) fairUsers lastUserId
    (takeFirst (fun job => job.userId == targetUser) q).map fun out => (out.1, out.2, targetUser)

/-! ## The fair preview -/

/-- The users of the jobs not yet marked in `used`. -/
def unusedUsers (jobs : List JobInfo) (used : List Bool) : List Int32 :=
  (jobs.zip used).foldl
    (fun users slot =>
      if !slot.2 && !userExists users slot.1.userId then users ++ [slot.1.userId] else users) []

def targetIndex (jobs : List JobInfo) (used : List Bool) (targetUser : Int32) : Option Nat :=
  (jobs.zip used).findIdx? fun slot => !slot.2 && slot.1.userId == targetUser

/-- `steps` more rounds of the copying loop; also returns the allocations made. -/
def copyFairLoop (malloc : Nat → Bool) (jobs : List JobInfo) (fairUsers : List Int32) :
    Nat → Nat → List Bool → Int32 → List JobInfo × Nat
  | 0, mallocs, _, _ => ([], mallocs)
  | steps + 1, mallocs, used, currentLastUser =>
      if !malloc mallocs then ([], mallocs + 1)
      else
        let targetUser := chooseNextFairUser (unusedUsers jobs used) fairUsers currentLastUser
        if targetUser = -1 then ([], mallocs + 1)
        else
          match targetIndex jobs used targetUser with
          | none => ([], mallocs + 1)
          | some i =>
              let rest := copyFairLoop malloc jobs fairUsers steps (mallocs + 1)
                (used.set i true) targetUser
              (jobs[i]?.toList ++ rest.1, rest.2)

/-- The jobs copied, in order, and the number of allocations made so far. -/
def queueCopyFairToArray (malloc : Nat → Bool) (mallocs : Nat) (q : JobQueue) (maxSize : Nat)
    (lastUserId : Int32) (fairUsers : List Int32) : List JobInfo × Nat :=
  if maxSize = 0 ∨ q = [] then ([], mallocs)
  else if !(malloc mallocs && malloc (mallocs + 1)) then (queueCopyToArray q maxSize, mallocs + 2)
  else
    copyFairLoop malloc (queueCopyToArray q q.length) fairUsers (min maxSize q.length)
      (mallocs + 2) (List.replicate q.length false) lastUserId

/-! ## Every dequeue removes one job -/

theorem queueDequeue_removes {q r : JobQueue} {job : JobInfo}
    (h : queueDequeue q = some (job, r)) : Removes q job r := by
  cases q with
  | nil => simp [queueDequeue] at h
  | cons head rest =>
      obtain ⟨rfl, rfl⟩ : head = job ∧ rest = r := by simpa [queueDequeue] using h
      exact removes_head _ _

theorem exists_queueDequeue {q : JobQueue} (hq : q ≠ []) : ∃ job r, queueDequeue q = some (job, r) := by
  cases q with
  | nil => exact absurd rfl hq
  | cons head rest => exact ⟨head, rest, rfl⟩

theorem queueDequeueRandom_removes {rand : Nat} {q r : JobQueue} {job : JobInfo}
    (h : queueDequeueRandom rand q = some (job, r)) : Removes q job r := by
  unfold queueDequeueRandom at h
  dsimp only at h
  split at h
  · cases h
  · split at h
    · exact queueDequeue_removes h
    · exact takeAt_removes h

/-- The index is in range, so the `curr == NULL` exit is never taken. -/
theorem exists_queueDequeueRandom (rand : Nat) {q : JobQueue} (hq : q ≠ []) :
    ∃ job r, queueDequeueRandom rand q = some (job, r) := by
  unfold queueDequeueRandom
  rw [if_neg hq]
  dsimp only
  split
  · exact exists_queueDequeue hq
  · exact exists_takeAt (Nat.mod_lt _ (List.length_pos_of_ne_nil hq))

/-! ## The users of a queue -/

theorem userExists_iff {users : List Int32} {userId : Int32} :
    userExists users userId = true ↔ userId ∈ users := by
  simp [userExists]

theorem mem_addUser {users : List Int32} {userId u : Int32} :
    u ∈ addUser users userId ↔ u ∈ users ∨ u = userId := by
  unfold addUser
  split
  · rename_i h
    constructor
    · exact Or.inl
    · rintro (hu | rfl)
      · exact hu
      · exact userExists_iff.mp h
  · simp

theorem mem_foldl_addUser {q : JobQueue} {users : List Int32} {u : Int32} :
    u ∈ q.foldl (fun users job => addUser users job.userId) users ↔
      u ∈ users ∨ ∃ job ∈ q, job.userId = u := by
  induction q generalizing users with
  | nil => simp
  | cons job q ih =>
      rw [List.foldl_cons, ih, mem_addUser]
      simp [or_assoc, eq_comm]

theorem mem_queuedUsers {q : JobQueue} {u : Int32} :
    u ∈ queuedUsers q ↔ ∃ job ∈ q, job.userId = u := by
  simp [queuedUsers, mem_foldl_addUser]

theorem queuedUsers_ne_nil {q : JobQueue} (hq : q ≠ []) : queuedUsers q ≠ [] := by
  obtain ⟨job, hjob⟩ := List.exists_mem_of_ne_nil q hq
  exact List.ne_nil_of_mem (mem_queuedUsers.mpr ⟨job, hjob, rfl⟩)

/-! ## The cyclic choice -/

theorem lastIndex_of_mem {users : List Int32} {lastUserId : Int32} (h : lastUserId ∈ users) :
    lastIndex users lastUserId = users.idxOf lastUserId := by
  have hfind : users.findIdx? (fun user => user == lastUserId) = some (users.idxOf lastUserId) :=
    List.findIdx?_eq_some_iff_findIdx_eq.mpr ⟨List.idxOf_lt_length_of_mem h, rfl⟩
  simp [lastIndex, hfind]

theorem lastIndex_of_not_mem {users : List Int32} {lastUserId : Int32} (h : lastUserId ∉ users) :
    lastIndex users lastUserId = -1 := by
  have hfind : users.findIdx? (fun user => user == lastUserId) = none := by
    rw [List.findIdx?_eq_none_iff]
    intro user hu
    simpa using fun heq : user = lastUserId => h (heq ▸ hu)
  simp [lastIndex, hfind]

theorem scanFairUsers_eq_find (activeUsers fairUsers : List Int32) (lastIdx : Int)
    (offset count : Nat) :
    scanFairUsers activeUsers fairUsers lastIdx offset count =
      ((List.range' offset count).map fun o : Nat =>
        fairUsers.getD ((lastIdx + o + fairUsers.length) % (fairUsers.length : Int)).toNat 0).find?
        (userExists activeUsers) := by
  induction count generalizing offset with
  | zero => rfl
  | succ count ih =>
      rw [scanFairUsers, List.range'_succ, List.map_cons, List.find?_cons, ih]
      cases userExists activeUsers (fairUsers.getD
        ((lastIdx + offset + fairUsers.length) % (fairUsers.length : Int)).toNat 0) <;> rfl

theorem lastIndex_add_one (users : List Int32) (lastUserId : Int32) :
    lastIndex users lastUserId + 1 = CyclicChoice.start users lastUserId := by
  unfold CyclicChoice.start
  split
  · next hmem => rw [lastIndex_of_mem hmem, Int.natCast_add, Int.natCast_one]
  · next hmem => rw [lastIndex_of_not_mem hmem]; rfl

/-- The index at the offset `k + 1`. -/
theorem offset_index (users : List Int32) (lastUserId : Int32) (k : Nat) :
    (lastIndex users lastUserId + ((k + 1 : Nat) : Int) + users.length) % (users.length : Int) =
      (((CyclicChoice.start users lastUserId + k) % users.length : Nat) : Int) := by
  have hsum : lastIndex users lastUserId + ((k + 1 : Nat) : Int) =
      ((CyclicChoice.start users lastUserId + k : Nat) : Int) := by
    have hnext := lastIndex_add_one users lastUserId
    omega
  rw [Int.add_emod_right, hsum, Int.natCast_emod]

/-- The offsets 1 to n walk the tour that starts after the last user. -/
theorem offsets_eq_tour (fairUsers : List Int32) (lastUserId : Int32) :
    ((List.range' 1 fairUsers.length).map fun o : Nat =>
        fairUsers.getD ((lastIndex fairUsers lastUserId + o + fairUsers.length) %
          (fairUsers.length : Int)).toNat 0) =
      CyclicChoice.tour fairUsers lastUserId := by
  apply List.ext_getElem
  · simp [CyclicChoice.length_tour]
  · intro k hk hk'
    have hkn : k < fairUsers.length := by simpa using hk
    have hlt : (CyclicChoice.start fairUsers lastUserId + k) % fairUsers.length <
        fairUsers.length := Nat.mod_lt _ (Nat.zero_lt_of_lt hkn)
    have htour := CyclicChoice.getElem?_tour hkn lastUserId
    rw [List.getElem?_eq_getElem hk', List.getElem?_eq_getElem hlt] at htour
    simp only [List.getElem_map, List.getElem_range', Nat.one_mul]
    rw [Nat.add_comm 1 k, offset_index, Int.toNat_natCast, List.getD_eq_getElem _ _ hlt]
    exact (Option.some.inj htour).symm

/-- The offset loop is the cyclic choice over the table of known users. -/
theorem scanFairUsers_eq_choose (activeUsers fairUsers : List Int32) (lastUserId : Int32) :
    scanFairUsers activeUsers fairUsers (lastIndex fairUsers lastUserId) 1 fairUsers.length =
      CyclicChoice.choose (userExists activeUsers) fairUsers lastUserId := by
  rw [scanFairUsers_eq_find, offsets_eq_tour, CyclicChoice.choose]

theorem chooseNextUser_mem {users : List Int32} (h : users ≠ []) (lastUserId : Int32) :
    chooseNextUser users lastUserId ∈ users := by
  cases users with
  | nil => exact absurd rfl h
  | cons first rest =>
      simp only [chooseNextUser]
      split
      · exact List.mem_cons_self
      · rename_i hidx
        by_cases hmem : lastUserId ∈ first :: rest
        · have hlt := List.idxOf_lt_length_of_mem hmem
          rw [lastIndex_of_mem hmem] at hidx ⊢
          have hnext : ((((first :: rest).idxOf lastUserId : Nat) : Int) + 1).toNat =
              (first :: rest).idxOf lastUserId + 1 := by omega
          rw [hnext, List.getD_eq_getElem _ _ (by omega)]
          exact List.getElem_mem _
        · simp [lastIndex_of_not_mem hmem] at hidx

/-- The user chosen is active; -1 stands for "no user" only when nobody is. -/
theorem chooseNextFairUser_mem {activeUsers : List Int32} (h : activeUsers ≠ [])
    (fairUsers : List Int32) (lastUserId : Int32) :
    chooseNextFairUser activeUsers fairUsers lastUserId ∈ activeUsers := by
  cases activeUsers with
  | nil => exact absurd rfl h
  | cons first rest =>
      simp only [chooseNextFairUser]
      split
      · exact chooseNextUser_mem h lastUserId
      · rw [scanFairUsers_eq_choose]
        cases hc : CyclicChoice.choose (userExists (first :: rest)) fairUsers lastUserId with
        | none => simp
        | some u => exact userExists_iff.mp (List.find?_some hc)

/-- With an active user in the table the choice is the cyclic one. -/
theorem choose_of_chooseNextFairUser {activeUsers fairUsers : List Int32} {v : Int32}
    (hv : v ∈ activeUsers) (hknown : v ∈ fairUsers) (lastUserId : Int32) :
    CyclicChoice.choose (userExists activeUsers) fairUsers lastUserId =
      some (chooseNextFairUser activeUsers fairUsers lastUserId) := by
  cases activeUsers with
  | nil => simp at hv
  | cons first rest =>
      have hne : fairUsers ≠ [] := List.ne_nil_of_mem hknown
      simp only [chooseNextFairUser, if_neg hne, scanFairUsers_eq_choose]
      cases hc : CyclicChoice.choose (userExists (first :: rest)) fairUsers lastUserId with
      | some u => rfl
      | none =>
          have hnone := List.find?_eq_none.mp hc v (CyclicChoice.mem_tour.mpr hknown)
          exact absurd (userExists_iff.mpr hv) hnone

/-! ## The fair dequeue -/

theorem queueDequeueFair_removes {malloc : Bool} {fairUsers : List Int32} {last last' : Int32}
    {q r : JobQueue} {job : JobInfo}
    (h : queueDequeueFair malloc fairUsers last q = some (job, r, last')) :
    Removes q job r ∧ last' = job.userId := by
  unfold queueDequeueFair at h
  dsimp only at h
  split at h
  · cases h
  · split at h
    · obtain ⟨out, hout, heq⟩ := Option.map_eq_some_iff.mp h
      cases heq
      exact ⟨queueDequeue_removes hout, rfl⟩
    · obtain ⟨out, hout, heq⟩ := Option.map_eq_some_iff.mp h
      cases heq
      exact ⟨takeFirst_removes hout, (by simpa using takeFirst_pos hout : out.1.userId = _).symm⟩

/-- With memory the job taken is the first one of the user of the fair choice. -/
theorem queueDequeueFair_chosen {fairUsers : List Int32} {last last' : Int32} {q r : JobQueue}
    {job : JobInfo} (h : queueDequeueFair true fairUsers last q = some (job, r, last')) :
    takeFirst (fun other => other.userId == chooseNextFairUser (queuedUsers q) fairUsers last) q =
      some (job, r) := by
  unfold queueDequeueFair at h
  dsimp only at h
  split at h
  · cases h
  · simp only [Bool.not_true, Bool.false_eq_true, if_false] at h
    obtain ⟨out, hout, heq⟩ := Option.map_eq_some_iff.mp h
    cases heq
    exact hout

theorem queueDequeueFair_choice {fairUsers : List Int32} {last last' : Int32} {q r : JobQueue}
    {job : JobInfo} (h : queueDequeueFair true fairUsers last q = some (job, r, last')) :
    job.userId = chooseNextFairUser (queuedUsers q) fairUsers last := by
  simpa using takeFirst_pos (queueDequeueFair_chosen h)

theorem queueDequeueFair_takeFirst {fairUsers : List Int32} {last last' : Int32} {q r : JobQueue}
    {job : JobInfo} (h : queueDequeueFair true fairUsers last q = some (job, r, last')) :
    takeFirst (fun other => other.userId == job.userId) q = some (job, r) := by
  rw [queueDequeueFair_choice h]
  exact queueDequeueFair_chosen h

/-- The chosen user has a queued job, so the search never runs off the end. -/
theorem exists_queueDequeueFair (malloc : Bool) (fairUsers : List Int32) (last : Int32)
    {q : JobQueue} (hq : q ≠ []) :
    ∃ job r, queueDequeueFair malloc fairUsers last q = some (job, r, job.userId) := by
  suffices h : ∃ out, queueDequeueFair malloc fairUsers last q = some out by
    obtain ⟨⟨job, r, last'⟩, hout⟩ := h
    obtain ⟨-, rfl⟩ := queueDequeueFair_removes hout
    exact ⟨job, r, hout⟩
  unfold queueDequeueFair
  rw [if_neg hq]
  split
  · obtain ⟨job, r, hout⟩ := exists_queueDequeue hq
    exact ⟨_, by rw [hout]; rfl⟩
  · obtain ⟨job, hjob, hu⟩ :=
      mem_queuedUsers.mp (chooseNextFairUser_mem (queuedUsers_ne_nil hq) fairUsers last)
    obtain ⟨y, r, hout⟩ := exists_takeFirst
      (p := fun job => job.userId == chooseNextFairUser (queuedUsers q) fairUsers last)
      hjob (by simpa using hu)
    exact ⟨_, by dsimp only; rw [hout]; rfl⟩

end RunnerOrchestrator
