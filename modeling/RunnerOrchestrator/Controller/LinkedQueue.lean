import RunnerOrchestrator.Controller.Scheduler
import RunnerOrchestrator.Foundation.LinkedList

/-! # The queue as it is stored

`job_queue_t` with its nodes in a store. An operation that would follow NULL or a
freed node, divide by zero, write past its array or walk further than the queue is
long has no result; none of this happens on a queue built by these operations, and
each of them does to the represented list what the scheduler's list operation does.
-/

namespace RunnerOrchestrator.LinkedQueue

open Removal LinkedList

/-- The fields of the queue beside the store of its nodes. -/
structure Memory where
  store : Store JobInfo
  head : Option Ref
  tail : Option Ref
  size : Int

/-- The value returned: 0, or 1 with what `*out_job` is set to. -/
inductive Reply
  | zero
  | stored
  | removed (job : JobInfo)
deriving Repr, DecidableEq

def queueCreate (store : Store JobInfo) : Memory := ⟨store, none, none, 0⟩

/-- The reference of the new node, or NULL, is passed in. -/
def queueEnqueue (malloc : Option Ref) (job : JobInfo) (q : Memory) : Option (Reply × Memory) :=
  match malloc with
  | none => some (.zero, q)
  | some newNode =>
      let store := q.store.set newNode ⟨job, none⟩
      match q.tail with
      | none => some (.stored, ⟨store, some newNode, some newNode, q.size + 1⟩)
      | some tail =>
          (store tail).map fun node =>
            (.stored, ⟨store.set tail { node with next := some newNode }, q.head, some newNode,
              q.size + 1⟩)

def queueDequeue (q : Memory) : Option (Reply × Memory) :=
  match q.head with
  | none => some (.zero, q)
  | some oldHead =>
      (q.store oldHead).map fun node =>
        (.removed node.val,
          { store := q.store.free oldHead, head := node.next
            tail := if node.next = none then none else q.tail, size := q.size - 1 })

/-- The loop of `queue_dequeue_random`, for the given number of rounds: `prev` and `curr`. -/
def walk (store : Store JobInfo) : Nat → Ref → Option Ref → Option (Ref × Option Ref)
  | 0, prev, curr => some (prev, curr)
  | _ + 1, prev, none => some (prev, none)
  | rounds + 1, _, some curr => (store curr).bind fun node => walk store rounds curr node.next

def queueDequeueRandom (rand : Nat) (q : Memory) : Option (Reply × Memory) :=
  match q.head with
  | none => some (.zero, q)
  | some head =>
      if q.size = 0 then none
      else
        let targetIdx := (rand : Int).tmod q.size
        if targetIdx = 0 then queueDequeue q
        else do
          let first ← q.store head
          let out ← walk q.store (targetIdx - 1).toNat head first.next
          match out.2 with
          | none => some (.zero, q)
          | some curr =>
              let node ← q.store curr
              let store ← detach q.store (some out.1) curr node.next
              some (.removed node.val,
                { store := store, head := q.head
                  tail := if node.next = none then some out.1 else q.tail, size := q.size - 1 })

/-- The loop that unlinks the first job with property `p`, shared by the fair dequeue and
the removal by command id. -/
def unlinkFirst (p : JobInfo → Bool) (q : Memory) :
    Nat → Option Ref → Option Ref → Option (Reply × Memory)
  | _, _, none => some (.zero, q)
  | 0, _, some _ => none
  | fuel + 1, prev, some curr => do
      let node ← q.store curr
      if p node.val then
        let store ← detach q.store prev curr node.next
        some (.removed node.val,
          { store := store, head := if prev = none then node.next else q.head
            tail := if q.tail = some curr then prev else q.tail, size := q.size - 1 })
      else unlinkFirst p q fuel (some curr) node.next

def queueRemoveByCommandId (commandId : Int64) (q : Memory) : Option (Reply × Memory) :=
  unlinkFirst (fun job => job.commandId == commandId) q q.size.toNat none q.head

/-- The users of the nodes from `curr` on, collected in an array with room for `size`. -/
def collectUsers (store : Store JobInfo) (size : Nat) :
    Nat → Option Ref → List Int32 → Option (List Int32)
  | _, none, users => some users
  | 0, some _, _ => none
  | fuel + 1, some curr, users => do
      let node ← store curr
      if userExists users node.val.userId then collectUsers store size fuel node.next users
      else if users.length < size then
        collectUsers store size fuel node.next (users ++ [node.val.userId])
      else none

/-- Also returns what `*last_user_id` holds afterwards. -/
def queueDequeueFair (malloc : Bool) (fairUsers : List Int32) (lastUserId : Int32) (q : Memory) :
    Option (Reply × Int32 × Memory) :=
  match q.head with
  | none => some (.zero, lastUserId, q)
  | some _ =>
      if !malloc then do
        let out ← queueDequeue q
        match out.1 with
        | .removed job => some (out.1, job.userId, out.2)
        | .zero | .stored => some (.zero, lastUserId, out.2)
      else do
        let users ← collectUsers q.store q.size.toNat q.size.toNat q.head []
        let targetUser := chooseNextFairUser users fairUsers lastUserId
        let out ← unlinkFirst (fun job => job.userId == targetUser) q q.size.toNat none q.head
        match out.1 with
        | .removed _ => some (out.1, targetUser, out.2)
        | .zero | .stored => some (.zero, lastUserId, out.2)

/-! ## The list a queue represents -/

structure Represents (q : Memory) (cells : List (Ref × JobInfo)) : Prop where
  holds : Holds q.store q.head q.tail cells
  size : q.size = cells.length

theorem represents_create (store : Store JobInfo) : Represents (queueCreate store) [] :=
  ⟨holds_nil store, rfl⟩

/-- What an operation returned is what the list operation selected; nothing selected means
nothing changed. -/
def Refines (sel : Option (JobInfo × JobQueue)) (q : Memory) (out : Reply × Memory) : Prop :=
  match sel with
  | none => out = (.zero, q)
  | some (job, rest) => out.1 = .removed job ∧ ∃ cells, Represents out.2 cells ∧ values cells = rest

theorem Represents.unlink {q : Memory} {a b : List (Ref × JobInfo)} {r : Ref} {job : JobInfo}
    (h : Represents q (a ++ (r, job) :: b)) {next : Option Ref}
    (hnode : q.store r = some ⟨job, next⟩) :
    ∃ store, detach q.store (last? a) r next = some store ∧
      Represents ⟨store, if a = [] then next else q.head, if b = [] then last? a else q.tail,
        q.size - 1⟩ (a ++ b) := by
  obtain ⟨store, hdetach, hholds⟩ := h.holds.detach hnode
  refine ⟨store, hdetach, hholds, ?_⟩
  have hsize := h.size
  simp only [List.length_append, List.length_cons] at hsize ⊢
  omega

theorem queueEnqueue_spec {q : Memory} {cells : List (Ref × JobInfo)} (h : Represents q cells)
    {r : Ref} (hfree : q.store r = none) (job : JobInfo) :
    ∃ out, queueEnqueue (some r) job q = some out ∧ out.1 = .stored ∧
      Represents out.2 (cells ++ [(r, job)]) := by
  have hsize : q.size + 1 = ((cells ++ [(r, job)]).length : Int) := by
    rw [h.size]
    simp
  cases htail : q.tail with
  | none =>
      refine ⟨_, by simp only [queueEnqueue, htail]; rfl, rfl, ?_, hsize⟩
      exact h.holds.push_nil job htail
  | some t =>
      obtain ⟨node, hnode, hpush⟩ := h.holds.push hfree job htail
      exact ⟨_, by simp only [queueEnqueue, htail, hnode]; rfl, rfl, hpush, hsize⟩

theorem queueDequeue_spec {q : Memory} {cells : List (Ref × JobInfo)} (h : Represents q cells) :
    ∃ out, queueDequeue q = some out ∧
      Refines (RunnerOrchestrator.queueDequeue (values cells)) q out := by
  cases cells with
  | nil =>
      have hhead : q.head = none := h.holds.head_eq_none_iff.mpr rfl
      exact ⟨(.zero, q), by simp [queueDequeue, hhead], rfl⟩
  | cons cell cells =>
      obtain ⟨r, job⟩ := cell
      obtain ⟨hhead, next, hnode, hrest⟩ := h.holds.segment
      obtain ⟨store, hdetach, hunlink⟩ := Represents.unlink (a := []) h hnode
      obtain rfl : q.store.free r = store := by simpa [detach] using hdetach
      refine ⟨_, by simp only [queueDequeue, hhead, hnode, Option.map_some]; rfl, rfl, cells, ?_, rfl⟩
      have htail : (if next = none then none else q.tail) = if cells = [] then none else q.tail := by
        simp only [hrest.eq_none_iff]
      simpa [htail] using hunlink

/-! ## Searching and unlinking -/

/-- The loop stands behind `front`, none of which has the property, and before `rest`. -/
theorem unlinkFirst_spec {p : JobInfo → Bool} {q : Memory} {front rest : List (Ref × JobInfo)}
    {curr : Option Ref} {fuel : Nat} (h : Represents q (front ++ rest))
    (hcurr : Segment q.store curr rest none) (hfront : ∀ job ∈ values front, p job = false)
    (hfuel : rest.length ≤ fuel) :
    ∃ out, unlinkFirst p q fuel (last? front) curr = some out ∧
      Refines (takeFirst p (values (front ++ rest))) q out := by
  induction rest generalizing front curr fuel with
  | nil =>
      have hmiss : takeFirst p (values (front ++ [])) = none := by
        rw [List.append_nil]
        exact takeFirst_eq_none.mpr hfront
      cases hcurr
      refine ⟨(.zero, q), by cases fuel <;> rfl, ?_⟩
      rw [hmiss]
      rfl
  | cons cell rest ih =>
      obtain ⟨r, job⟩ := cell
      obtain ⟨rfl, next, hnode, hrest⟩ := hcurr
      obtain ⟨fuel, rfl⟩ : ∃ k, fuel = k + 1 := ⟨fuel - 1, by simp at hfuel; omega⟩
      by_cases hp : p job = true
      · obtain ⟨store, hdetach, hunlink⟩ := h.unlink hnode
        have hfound : takeFirst p (values (front ++ (r, job) :: rest)) =
            some (job, values (front ++ rest)) :=
          takeFirst_eq_some.mpr
            ⟨values front, values rest, by simp [values], by simp, hp, hfront⟩
        have hhead : (if last? front = none then next else q.head) =
            if front = [] then next else q.head := by
          simp only [last?_eq_none_iff]
        have htail : (if q.tail = some r then last? front else q.tail) =
            if rest = [] then last? front else q.tail := by
          simp only [h.holds.tail_iff]
        rw [hfound]
        refine ⟨(.removed job, ⟨store, if last? front = none then next else q.head,
          if q.tail = some r then last? front else q.tail, q.size - 1⟩), ?_, rfl, front ++ rest, ?_, rfl⟩
        · simp only [unlinkFirst, hnode, Option.bind_eq_bind, Option.bind_some, hdetach, hp, if_true]
        · rw [hhead, htail]
          exact hunlink
      · have hmore : Represents q ((front ++ [(r, job)]) ++ rest) := by simpa using h
        have hpassed : ∀ y ∈ values (front ++ [(r, job)]), p y = false := by
          intro y hy
          rw [values_append] at hy
          rcases List.mem_append.mp hy with hy | hy
          · exact hfront y hy
          · rw [List.mem_singleton.mp hy]
            simpa using hp
        have hleft : rest.length ≤ fuel := by simpa using hfuel
        obtain ⟨out, hout, hrefines⟩ := ih hmore hrest hpassed hleft
        refine ⟨out, ?_, by simpa using hrefines⟩
        rw [last?_snoc] at hout
        simp only [unlinkFirst, hnode, Option.bind_eq_bind, Option.bind_some, if_neg hp]
        exact hout

/-- A search that begins at the head with the size of the queue for fuel. -/
theorem unlinkFirst_head {q : Memory} {cells : List (Ref × JobInfo)} (h : Represents q cells)
    (p : JobInfo → Bool) :
    ∃ out, unlinkFirst p q q.size.toNat none q.head = some out ∧
      Refines (takeFirst p (values cells)) q out := by
  have hfuel : cells.length ≤ q.size.toNat := by
    rw [h.size, Int.toNat_natCast]
  have hnone : ∀ job ∈ values ([] : List (Ref × JobInfo)), p job = false := by simp [values]
  exact unlinkFirst_spec h h.holds.segment hnone hfuel

theorem queueRemoveByCommandId_spec {q : Memory} {cells : List (Ref × JobInfo)}
    (h : Represents q cells) (commandId : Int64) :
    ∃ out, queueRemoveByCommandId commandId q = some out ∧
      Refines (RunnerOrchestrator.queueRemoveByCommandId (values cells) commandId) q out :=
  unlinkFirst_head h _

/-! ## Walking to a position -/

/-- After `rounds` rounds the loop stands at the node that many places on. -/
theorem walk_spec {store : Store JobInfo} {front rest : List (Ref × JobInfo)} {rounds : Nat}
    {prev : Ref} {curr : Option Ref} (hcurr : Segment store curr rest none)
    (hprev : last? front = some prev) (hrounds : rounds < rest.length) :
    ∃ a r job b prev', rest = a ++ (r, job) :: b ∧ a.length = rounds ∧
      last? (front ++ a) = some prev' ∧ walk store rounds prev curr = some (prev', some r) := by
  induction rest generalizing front rounds prev curr with
  | nil => simp at hrounds
  | cons cell rest ih =>
      obtain ⟨r, job⟩ := cell
      obtain ⟨rfl, next, hnode, hrest⟩ := hcurr
      cases rounds with
      | zero => exact ⟨[], r, job, rest, prev, rfl, rfl, by simpa using hprev, rfl⟩
      | succ rounds =>
          have hleft : rounds < rest.length := by simpa using hrounds
          obtain ⟨a, r', job', b, prev', rfl, hlen, hlast, hwalk⟩ :=
            ih hrest (last?_snoc front r job) hleft
          refine ⟨(r, job) :: a, r', job', b, prev', rfl, by simp [hlen], by simpa using hlast, ?_⟩
          simp only [walk, hnode, Option.bind_some]
          exact hwalk

theorem queueDequeueRandom_spec {q : Memory} {cells : List (Ref × JobInfo)}
    (h : Represents q cells) (rand : Nat) :
    ∃ out, queueDequeueRandom rand q = some out ∧
      Refines (RunnerOrchestrator.queueDequeueRandom rand (values cells)) q out := by
  cases cells with
  | nil =>
      have hhead : q.head = none := h.holds.head_eq_none_iff.mpr rfl
      exact ⟨(.zero, q), by simp [queueDequeueRandom, hhead], rfl⟩
  | cons cell cells =>
      obtain ⟨r₀, job₀⟩ := cell
      obtain ⟨hhead, next₀, hnode₀, hrest⟩ := h.holds.segment
      have hlen : (values ((r₀, job₀) :: cells)).length = cells.length + 1 := by simp [values]
      have hsize : q.size = ((cells.length + 1 : Nat) : Int) := by simpa using h.size
      have hne : values ((r₀, job₀) :: cells) ≠ [] := by simp [values]
      have hidx : (rand : Int).tmod q.size = ((rand % (cells.length + 1) : Nat) : Int) := by
        rw [hsize]
        exact (Int.ofNat_tmod _ _).symm
      have hlt : rand % (cells.length + 1) < cells.length + 1 := Nat.mod_lt _ (by omega)
      unfold queueDequeueRandom RunnerOrchestrator.queueDequeueRandom
      rw [if_neg hne, hlen, hhead]
      dsimp only
      rw [if_neg (by omega), hidx]
      generalize hk : rand % (cells.length + 1) = k at hlt
      by_cases hzero : k = 0
      · rw [if_pos (by omega), if_pos hzero]
        exact queueDequeue_spec h
      · rw [if_neg (by omega), if_neg hzero]
        -- position k of the queue is position k - 1 behind its head
        have hrounds : ((k : Int) - 1).toNat < cells.length := by omega
        have hfirst : last? [(r₀, job₀)] = some r₀ := rfl
        obtain ⟨a, r, job, b, prev, rfl, hpos, hlast, hwalk⟩ := walk_spec hrest hfirst hrounds
        have hwhole : Represents q (((r₀, job₀) :: a) ++ (r, job) :: b) := h
        obtain ⟨next, hnode, -, hb⟩ := hwhole.holds.at_cell
        obtain ⟨store, hdetach, hunlink⟩ := hwhole.unlink hnode
        rw [show last? ((r₀, job₀) :: a) = some prev from hlast] at hdetach hunlink
        have hcount : (values ((r₀, job₀) :: a)).length = k := by
          simp [values]
          omega
        have htake : takeAt k (values ((r₀, job₀) :: (a ++ (r, job) :: b))) =
            some (job, values (((r₀, job₀) :: a) ++ b)) := by
          have hfound := takeAt_length (values ((r₀, job₀) :: a)) (values b) job
          rw [hcount] at hfound
          simpa [values] using hfound
        rw [htake]
        have htail : (if next = none then some prev else q.tail) =
            if b = [] then some prev else q.tail := by
          simp only [hb.eq_none_iff]
        refine ⟨(.removed job, ⟨store, some r₀, if next = none then some prev else q.tail, q.size - 1⟩),
          ?_, rfl, ((r₀, job₀) :: a) ++ b, ?_, rfl⟩
        · simp only [hnode₀, Option.bind_eq_bind, Option.bind_some, hwalk, hnode, hdetach]
        · rw [htail, ← hhead]
          exact hunlink

/-! ## The fair dequeue -/

/-- The array never overflows: each node adds at most one user. -/
theorem collectUsers_spec {store : Store JobInfo} {size fuel : Nat} {curr : Option Ref}
    {cells : List (Ref × JobInfo)} {users : List Int32} (h : Segment store curr cells none)
    (hfuel : cells.length ≤ fuel) (hroom : users.length + cells.length ≤ size) :
    collectUsers store size fuel curr users =
      some ((values cells).foldl (fun users job => addUser users job.userId) users) := by
  induction cells generalizing curr fuel users with
  | nil =>
      cases h
      cases fuel <;> rfl
  | cons cell cells ih =>
      obtain ⟨r, job⟩ := cell
      obtain ⟨rfl, next, hnode, hrest⟩ := h
      obtain ⟨fuel, rfl⟩ : ∃ k, fuel = k + 1 := ⟨fuel - 1, by simp at hfuel; omega⟩
      simp only [List.length_cons] at hfuel hroom
      simp only [collectUsers, hnode, Option.bind_eq_bind, Option.bind_some]
      show _ = some ((values cells).foldl _ (addUser users job.userId))
      by_cases hknown : userExists users job.userId = true
      · rw [if_pos hknown, addUser, if_pos hknown]
        exact ih hrest (by omega) (by omega)
      · rw [if_neg hknown, if_pos (by omega), addUser, if_neg hknown]
        exact ih hrest (by omega) (by rw [List.length_append, List.length_singleton]; omega)

/-- What the fair dequeue did, with the new last user. -/
def RefinesFair (sel : Option (JobInfo × JobQueue × Int32)) (lastUserId : Int32) (q : Memory)
    (out : Reply × Int32 × Memory) : Prop :=
  Refines (sel.map fun taken => (taken.1, taken.2.1)) q (out.1, out.2.2) ∧
    out.2.1 = (sel.map fun taken => taken.2.2).getD lastUserId

theorem queueDequeueFair_spec {q : Memory} {cells : List (Ref × JobInfo)} (h : Represents q cells)
    (malloc : Bool) (fairUsers : List Int32) (lastUserId : Int32) :
    ∃ out, queueDequeueFair malloc fairUsers lastUserId q = some out ∧
      RefinesFair (RunnerOrchestrator.queueDequeueFair malloc fairUsers lastUserId (values cells))
        lastUserId q out := by
  cases cells with
  | nil =>
      have hhead : q.head = none := h.holds.head_eq_none_iff.mpr rfl
      exact ⟨(.zero, lastUserId, q), by simp [queueDequeueFair, hhead], rfl, rfl⟩
  | cons cell cells =>
      obtain ⟨r, job⟩ := cell
      obtain ⟨hhead, -⟩ := h.holds.segment
      have hne : values ((r, job) :: cells) ≠ [] := by simp [values]
      unfold queueDequeueFair RunnerOrchestrator.queueDequeueFair
      rw [if_neg hne, hhead]
      dsimp only
      cases malloc with
      | false =>
          obtain ⟨out, hout, hrefines⟩ := queueDequeue_spec h
          obtain ⟨hreply, hcells⟩ : out.1 = .removed job ∧ ∃ cells', Represents out.2 cells' ∧
              values cells' = values cells := hrefines
          refine ⟨(.removed job, job.userId, out.2), ?_, ?_⟩
          · simp [hout, hreply]
          · exact ⟨⟨rfl, hcells⟩, rfl⟩
      | true =>
          have hlen : ((r, job) :: cells).length ≤ q.size.toNat := by
            rw [h.size, Int.toNat_natCast]
          have husers : collectUsers q.store q.size.toNat q.size.toNat (some r) [] =
              some (queuedUsers (values ((r, job) :: cells))) := by
            rw [← hhead]
            exact collectUsers_spec h.holds.segment hlen (by simpa using hlen)
          obtain ⟨out, hout, hrefines⟩ := unlinkFirst_head h fun other => other.userId ==
            chooseNextFairUser (queuedUsers (values ((r, job) :: cells))) fairUsers lastUserId
          rw [hhead] at hout
          simp only [Bool.not_true, Bool.false_eq_true, if_false, husers, Option.bind_eq_bind,
            Option.bind_some, hout]
          cases hsel : takeFirst (fun other => other.userId ==
              chooseNextFairUser (queuedUsers (values ((r, job) :: cells))) fairUsers lastUserId)
              (values ((r, job) :: cells)) with
          | none =>
              rw [hsel] at hrefines
              obtain rfl : out = (.zero, q) := hrefines
              exact ⟨_, rfl, rfl, rfl⟩
          | some taken =>
              rw [hsel] at hrefines
              obtain ⟨hreply, hcells⟩ := hrefines
              refine ⟨(out.1, _, out.2), by rw [hreply], ⟨hreply, hcells⟩, rfl⟩

/-! ## Sequences of calls -/

/-- `malloc` for nodes: the answer to the n-th call may be NULL, and is a reference not in
use otherwise. -/
structure Allocator where
  malloc : Nat → Store JobInfo → Option Ref
  fresh : ∀ n store r, malloc n store = some r → store r = none

inductive Call
  | enqueue (job : JobInfo)
  | dequeue
  | dequeueRandom (rand : Nat)
  | dequeueFair (malloc : Bool) (fairUsers : List Int32) (lastUserId : Int32)
  | removeByCommandId (commandId : Int64)
deriving Repr, DecidableEq

/-- The n-th call. -/
def Call.perform (alloc : Allocator) (n : Nat) (call : Call) (q : Memory) : Option (Reply × Memory) :=
  match call with
  | .enqueue job => queueEnqueue (alloc.malloc n q.store) job q
  | .dequeue => queueDequeue q
  | .dequeueRandom rand => queueDequeueRandom rand q
  | .dequeueFair malloc fairUsers lastUserId =>
      (queueDequeueFair malloc fairUsers lastUserId q).map fun out => (out.1, out.2.2)
  | .removeByCommandId commandId => queueRemoveByCommandId commandId q

/-- The queue after the calls made so far, the latest one first. -/
def afterCalls (alloc : Allocator) (store : Store JobInfo) : List Call → Option Memory
  | [] => some (queueCreate store)
  | call :: past =>
      (afterCalls alloc store past).bind fun q =>
        (call.perform alloc past.length q).map Prod.snd

/-- What was selected is returned and the rest is left; with nothing selected the call
returns 0. -/
def Selects (sel : Option (JobInfo × JobQueue)) (q : JobQueue) (reply : Reply) (q' : JobQueue) : Prop :=
  match sel with
  | none => reply = .zero ∧ q' = q
  | some (job, rest) => reply = .removed job ∧ q' = rest

/-- The job at a position, and the others. -/
def atPosition (n : Nat) (q : JobQueue) : Option (JobInfo × JobQueue) :=
  q[n]?.map fun job => (job, q.eraseIdx n)

/-- The first job with a property, and the others. -/
def firstWith (p : JobInfo → Bool) (q : JobQueue) : Option (JobInfo × JobQueue) :=
  (q.find? p).map fun job => (job, q.eraseP p)

/-- What a call does to the represented list, from `q` to `q'`. -/
def Call.Effect (call : Call) (allocated : Bool) (q : JobQueue) (reply : Reply) (q' : JobQueue) :
    Prop :=
  match call with
  | .enqueue job =>
      if allocated then reply = .stored ∧ q' = q ++ [job] else reply = .zero ∧ q' = q
  | .dequeue => Selects (atPosition 0 q) q reply q'
  | .dequeueRandom rand => Selects (atPosition (rand % q.length) q) q reply q'
  | .dequeueFair malloc _ _ =>
      if malloc then
        (q = [] ∧ reply = .zero ∧ q' = q) ∨
          ∃ user ∈ queuedUsers q, Selects (firstWith (fun job => job.userId == user) q) q reply q'
      else Selects (atPosition 0 q) q reply q'
  | .removeByCommandId commandId =>
      Selects (firstWith (fun job => job.commandId == commandId) q) q reply q'

/-- The calls that ask for any job at all. -/
def Call.isDequeue : Call → Bool
  | .dequeue | .dequeueRandom _ | .dequeueFair _ _ _ => true
  | .enqueue _ | .removeByCommandId _ => false

theorem Selects.eq_none {sel : Option (JobInfo × JobQueue)} {q q' : JobQueue}
    (h : Selects sel q .zero q') : sel = none := by
  cases sel with
  | none => rfl
  | some taken => cases h.1

theorem atPosition_eq_none {n : Nat} {q : JobQueue} (h : atPosition n q = none) : q.length ≤ n := by
  simpa [atPosition] using h

/-- A dequeue returns 0 on an empty queue only: a position or a user that is drawn exists. -/
theorem Call.Effect.eq_nil {call : Call} {allocated : Bool} {q q' : JobQueue}
    (h : call.Effect allocated q .zero q') (hcall : call.isDequeue = true) : q = [] := by
  cases call with
  | enqueue job => cases hcall
  | dequeue => exact List.length_eq_zero_iff.mp (Nat.le_zero.mp (atPosition_eq_none (Selects.eq_none h)))
  | dequeueRandom rand =>
      have hpast := atPosition_eq_none (Selects.eq_none h)
      by_contra hne
      have hlt := Nat.mod_lt rand (List.length_pos_of_ne_nil hne)
      omega
  | dequeueFair malloc fairUsers lastUserId =>
      cases malloc with
      | false =>
          exact List.length_eq_zero_iff.mp (Nat.le_zero.mp (atPosition_eq_none (Selects.eq_none h)))
      | true =>
          rcases h with h | ⟨user, huser, h⟩
          · exact h.1
          · obtain ⟨job, hjob, hid⟩ := mem_queuedUsers.mp huser
            have hnone : q.find? (fun job => job.userId == user) = none := by
              simpa [firstWith] using Selects.eq_none h
            have hmiss := List.find?_eq_none.mp hnone job hjob
            simp [hid] at hmiss
  | removeByCommandId commandId => cases hcall

theorem Refines.selects {sel : Option (JobInfo × JobQueue)} {q : Memory}
    {cells : List (Ref × JobInfo)} {out : Reply × Memory} (h : Refines sel q out)
    (hq : Represents q cells) :
    ∃ cells', Represents out.2 cells' ∧ Selects sel (values cells) out.1 (values cells') ∧
      (out.1 = .zero → out.2 = q) := by
  cases sel with
  | none =>
      obtain rfl : out = (.zero, q) := h
      exact ⟨cells, hq, ⟨rfl, rfl⟩, fun _ => rfl⟩
  | some taken =>
      obtain ⟨hreply, cells', hcells', hvalues⟩ := h
      refine ⟨cells', hcells', ⟨hreply, hvalues⟩, fun hzero => ?_⟩
      rw [hreply] at hzero
      cases hzero

theorem queueDequeue_eq_atPosition (q : JobQueue) : RunnerOrchestrator.queueDequeue q = atPosition 0 q := by
  cases q with
  | nil => rfl
  | cons job q => rfl

theorem queueDequeueRandom_eq_atPosition (rand : Nat) (q : JobQueue) :
    RunnerOrchestrator.queueDequeueRandom rand q = atPosition (rand % q.length) q := by
  unfold RunnerOrchestrator.queueDequeueRandom atPosition
  dsimp only
  split
  · rename_i hnil
    simp [hnil]
  · split
    · rename_i hzero
      rw [queueDequeue_eq_atPosition, hzero]
      rfl
    · exact takeAt_eq_getElem _ _

/-- With its array the fair dequeue takes the first job of a user who has one. -/
theorem queueDequeueFair_firstWith (fairUsers : List Int32) (lastUserId : Int32) {q : JobQueue}
    (hq : q ≠ []) :
    ∃ user ∈ queuedUsers q,
      (RunnerOrchestrator.queueDequeueFair true fairUsers lastUserId q).map
          (fun taken => (taken.1, taken.2.1)) =
        firstWith (fun job => job.userId == user) q := by
  refine ⟨chooseNextFairUser (queuedUsers q) fairUsers lastUserId,
    chooseNextFairUser_mem (queuedUsers_ne_nil hq) fairUsers lastUserId, ?_⟩
  unfold RunnerOrchestrator.queueDequeueFair firstWith
  simp only [if_neg hq, Bool.not_true, Bool.false_eq_true, if_false, takeFirst_eq_find, Option.map_map]
  rfl

/-- Without it the head is taken. -/
theorem queueDequeueFair_atPosition (fairUsers : List Int32) (lastUserId : Int32) (q : JobQueue) :
    (RunnerOrchestrator.queueDequeueFair false fairUsers lastUserId q).map
        (fun taken => (taken.1, taken.2.1)) =
      atPosition 0 q := by
  cases q with
  | nil => rfl
  | cons job q => rfl

/-- Every call on a represented queue returns and acts on the list. -/
theorem Represents.call {q : Memory} {cells : List (Ref × JobInfo)} (h : Represents q cells)
    (alloc : Allocator) (n : Nat) (call : Call) :
    ∃ out cells', call.perform alloc n q = some out ∧ Represents out.2 cells' ∧
      call.Effect (alloc.malloc n q.store).isSome (values cells) out.1 (values cells') ∧
      (out.1 = .zero → out.2 = q) := by
  cases call with
  | enqueue job =>
      cases hmalloc : alloc.malloc n q.store with
      | none =>
          exact ⟨(.zero, q), cells, by rw [Call.perform, hmalloc]; rfl, h, ⟨rfl, rfl⟩, fun _ => rfl⟩
      | some r =>
          obtain ⟨out, hout, hreply, hcells⟩ := queueEnqueue_spec h (alloc.fresh n q.store r hmalloc) job
          refine ⟨out, _, by rw [Call.perform, hmalloc, hout], hcells, ⟨hreply, by simp [values]⟩, ?_⟩
          intro hzero
          rw [hreply] at hzero
          cases hzero
  | dequeue =>
      obtain ⟨out, hout, hrefines⟩ := queueDequeue_spec h
      obtain ⟨cells', hcells', hselects, hsame⟩ := hrefines.selects h
      rw [queueDequeue_eq_atPosition] at hselects
      exact ⟨out, cells', hout, hcells', hselects, hsame⟩
  | dequeueRandom rand =>
      obtain ⟨out, hout, hrefines⟩ := queueDequeueRandom_spec h rand
      obtain ⟨cells', hcells', hselects, hsame⟩ := hrefines.selects h
      rw [queueDequeueRandom_eq_atPosition] at hselects
      exact ⟨out, cells', hout, hcells', hselects, hsame⟩
  | dequeueFair malloc fairUsers lastUserId =>
      obtain ⟨out, hout, hrefines, -⟩ := queueDequeueFair_spec h malloc fairUsers lastUserId
      obtain ⟨cells', hcells', hselects, hsame⟩ := hrefines.selects h
      refine ⟨(out.1, out.2.2), cells', by rw [Call.perform, hout]; rfl, hcells', ?_, hsame⟩
      cases malloc with
      | false =>
          rw [queueDequeueFair_atPosition] at hselects
          exact hselects
      | true =>
          by_cases hnil : values cells = []
          · rw [hnil] at hselects
            exact Or.inl ⟨hnil, hselects.1, hselects.2.trans hnil.symm⟩
          · obtain ⟨user, huser, heq⟩ := queueDequeueFair_firstWith fairUsers lastUserId hnil
            rw [heq] at hselects
            exact Or.inr ⟨user, huser, hselects⟩
  | removeByCommandId commandId =>
      obtain ⟨out, hout, hrefines⟩ := queueRemoveByCommandId_spec h commandId
      obtain ⟨cells', hcells', hselects, hsame⟩ := hrefines.selects h
      rw [RunnerOrchestrator.queueRemoveByCommandId, takeFirst_eq_find] at hselects
      exact ⟨out, cells', hout, hcells', hselects, hsame⟩

/-- After any calls on a new queue the nodes from `head` on are as many as `size` says, all
different, and end in NULL with the last of them in `tail`; and the next call, whichever
it is, returns and does to the list of their jobs what its name says. A dequeue fails on
an empty queue only. -/
theorem queue_implements_list (alloc : Allocator) (store : Store JobInfo) (past : List Call) :
    ∃ q cells, afterCalls alloc store past = some q ∧
      (Segment q.store q.head cells none ∧ (refs cells).Nodup ∧ q.tail = (refs cells).getLast? ∧
        q.size = cells.length) ∧
      (q.head = none ↔ q.tail = none) ∧ (q.head = none ↔ q.size = 0) ∧
      ∀ call : Call, ∃ reply q' cells',
        call.perform alloc past.length q = some (reply, q') ∧
          afterCalls alloc store (call :: past) = some q' ∧
          Segment q'.store q'.head cells' none ∧
          call.Effect (alloc.malloc past.length q.store).isSome (values cells) reply (values cells') ∧
          (reply = .zero → q' = q) ∧
          (reply = .zero → call.isDequeue = true → q.head = none) := by
  have hreach : ∃ q cells, afterCalls alloc store past = some q ∧ Represents q cells := by
    induction past with
    | nil => exact ⟨_, [], rfl, represents_create store⟩
    | cons call past ih =>
        obtain ⟨q, cells, hafter, hq⟩ := ih
        obtain ⟨out, cells', hout, hcells', -, -⟩ := hq.call alloc past.length call
        exact ⟨out.2, cells', by rw [afterCalls, hafter, Option.bind_some, hout]; rfl, hcells'⟩
  obtain ⟨q, cells, hafter, hq⟩ := hreach
  refine ⟨q, cells, hafter, ⟨hq.holds.segment, hq.holds.nodup, hq.holds.tail_eq, hq.size⟩, ?_, ?_,
    fun call => ?_⟩
  · rw [hq.holds.head_eq_none_iff, hq.holds.tail_eq_none_iff]
  · rw [hq.holds.head_eq_none_iff, hq.size]
    simp
  · obtain ⟨out, cells', hout, hcells', heffect, hsame⟩ := hq.call alloc past.length call
    refine ⟨out.1, out.2, cells', hout, ?_, hcells'.holds.segment, heffect, hsame, ?_⟩
    · rw [afterCalls, hafter, Option.bind_some, hout]
      rfl
    · intro hzero hcall
      rw [hzero] at heffect
      have hempty := heffect.eq_nil hcall
      rw [hq.holds.head_eq_none_iff]
      simpa [values] using hempty

/-- Hands out the references 0, 1, 2 and so on while they are free. -/
def Allocator.counting : Allocator :=
  ⟨fun n store => if store n = none then some n else none, fun n store r h => by
    split at h
    · cases h
      assumption
    · cases h⟩

/-- The last of three nodes is unlinked, and the tail moves back to the second. -/
example :
    let job : JobInfo := ⟨11, 1, .queued, 11, ⟨0, 0⟩⟩
    (afterCalls .counting (fun _ => none)
        [.dequeueRandom 5, .enqueue job, .enqueue job, .enqueue job]).map
        (fun q => (q.head, q.tail, q.size)) = some (some 0, some 1, 2) := by
  decide

end RunnerOrchestrator.LinkedQueue
