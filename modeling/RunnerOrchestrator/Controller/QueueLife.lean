import RunnerOrchestrator.Controller.LinkedQueue
import RunnerOrchestrator.Foundation.Separation

/-! # The life of a queue in a shared heap

The heap holds more than one queue. An operation on a queue follows and changes its own
nodes only, whatever else is in the heap, and gives back every node it unlinks. When the
queue is destroyed the heap is what it would be without it.
-/

namespace RunnerOrchestrator.LinkedQueue

open Removal LinkedList

/-- `while (curr != NULL)`, for as many nodes as the queue counts; what is left of the heap. -/
def queueDestroy (q : Memory) : Option (Store JobInfo) := freeFrom q.store q.size.toNat q.head

/-- The copying loop: `room` more places, from `curr` on. -/
def copyNodes (store : Store JobInfo) : Nat → Option Ref → Option (List JobInfo)
  | 0, _ => some []
  | _ + 1, none => some []
  | room + 1, some curr =>
      (store curr).bind fun node =>
        (copyNodes store room node.next).map fun copied => node.val :: copied

def queueCopyToArray (q : Memory) (maxSize : Int) : Option (List JobInfo) :=
  copyNodes q.store maxSize.toNat q.head

/-- Works on the copy once it is made; also returns the allocations made. -/
def queueCopyFairToArray (malloc : Nat → Bool) (mallocs : Nat) (q : Memory) (maxSize : Int)
    (lastUserId : Int32) (fairUsers : List Int32) : Option (List JobInfo × Nat) :=
  if maxSize ≤ 0 ∨ q.size ≤ 0 then some ([], mallocs)
  else if !(malloc mallocs && malloc (mallocs + 1)) then
    (queueCopyToArray q maxSize).map fun copied => (copied, mallocs + 2)
  else
    (queueCopyToArray q q.size).map fun jobs =>
      copyFairLoop malloc jobs fairUsers (min maxSize q.size).toNat (mallocs + 2)
        (List.replicate q.size.toNat false) lastUserId

/-- The queue in a heap that holds `t` as well. -/
def Memory.beside (q : Memory) (t : Store JobInfo) : Memory := { q with store := q.store.union t }

/-- The queue's part of the heap holds its nodes and no other. -/
structure Owns (q : Memory) (cells : List (Ref × JobInfo)) : Prop where
  owned : Owned q.store q.head q.tail cells
  size : q.size = cells.length

theorem Owns.represents {q : Memory} {cells : List (Ref × JobInfo)} (h : Owns q cells) :
    Represents q cells :=
  ⟨h.owned.holds, h.size⟩

theorem owns_create : Owns (queueCreate .empty) [] := ⟨owned_nil, rfl⟩

/-! ## Copies -/

theorem copyNodes_spec {store : Store JobInfo} {room : Nat} {curr : Option Ref}
    {cells : List (Ref × JobInfo)} (h : Segment store curr cells none) :
    copyNodes store room curr = some ((values cells).take room) := by
  induction cells generalizing room curr with
  | nil =>
      cases h
      cases room <;> rfl
  | cons cell cells ih =>
      obtain ⟨r, job⟩ := cell
      obtain ⟨rfl, next, hnode, hrest⟩ := h
      cases room with
      | zero => rfl
      | succ room =>
          rw [copyNodes, hnode, Option.bind_some, ih hrest]
          rfl

theorem queueCopyToArray_spec {q : Memory} {cells : List (Ref × JobInfo)} (h : Represents q cells)
    (maxSize : Int) :
    queueCopyToArray q maxSize =
      some (RunnerOrchestrator.queueCopyToArray (values cells) maxSize.toNat) :=
  copyNodes_spec h.holds.segment

theorem queueCopyFairToArray_spec {q : Memory} {cells : List (Ref × JobInfo)}
    (h : Represents q cells) (malloc : Nat → Bool) (mallocs : Nat) (maxSize : Int)
    (lastUserId : Int32) (fairUsers : List Int32) :
    queueCopyFairToArray malloc mallocs q maxSize lastUserId fairUsers =
      some (RunnerOrchestrator.queueCopyFairToArray malloc mallocs (values cells) maxSize.toNat
        lastUserId fairUsers) := by
  have hlength : (values cells).length = cells.length := by simp [values]
  have hnil : values cells = [] ↔ cells.length = 0 := by
    rw [← hlength, List.length_eq_zero_iff]
  have hsize : q.size.toNat = cells.length := by
    rw [h.size, Int.toNat_natCast]
  have hempty : (maxSize ≤ 0 ∨ q.size ≤ 0) ↔ (maxSize.toNat = 0 ∨ values cells = []) := by
    rw [hnil]
    omega
  have hsteps : (min maxSize q.size).toNat = min maxSize.toNat (values cells).length := by
    omega
  unfold queueCopyFairToArray RunnerOrchestrator.queueCopyFairToArray
  simp only [hempty, queueCopyToArray_spec h, Option.map_some, hsteps, hsize, hlength]
  split
  · rfl
  · split
    · rfl
    · rfl

/-! ## Operations on a part of the heap -/

/-- The operation loses one node at most, and does the same whatever else is in the heap. -/
structure Confined {ρ : Type} (f : Memory → Option (ρ × Memory)) (q : Memory) (out : ρ × Memory) :
    Prop where
  store : out.2 = q ∨ out.2.size = q.size - 1 ∧ ∃ r, Loses q.store out.2.store r
  frame : ∀ t, q.store.Apart t → f (q.beside t) = some (out.1, out.2.beside t)

section Confined

variable {q : Memory} {t : Store JobInfo}

theorem queueDequeue_confined {out : Reply × Memory} (h : queueDequeue q = some out) :
    Confined queueDequeue q out := by
  unfold queueDequeue at h
  cases hhead : q.head with
  | none =>
      rw [hhead] at h
      cases h
      exact ⟨Or.inl rfl, fun t _ => by simp [queueDequeue, Memory.beside, hhead]⟩
  | some r =>
      rw [hhead] at h
      obtain ⟨node, hnode, rfl⟩ := Option.map_eq_some_iff.mp h
      refine ⟨Or.inr ⟨rfl, r, free_loses (by simp [hnode]) fun _ => Iff.rfl⟩, fun t ht => ?_⟩
      simp only [queueDequeue, Memory.beside, hhead, Store.union_of_some hnode, Option.map_some,
        Store.free_union _ (ht.right hnode)]

theorem walk_union {store : Store JobInfo} {rounds : Nat} {prev : Ref} {curr : Option Ref}
    {out : Ref × Option Ref} (h : walk store rounds prev curr = some out) (t : Store JobInfo) :
    walk (store.union t) rounds prev curr = some out := by
  induction rounds generalizing prev curr with
  | zero => exact h
  | succ rounds ih =>
      cases curr with
      | none => exact h
      | some r =>
          obtain ⟨node, hnode, hrest⟩ := Option.bind_eq_some_iff.mp h
          rw [walk, Store.union_of_some hnode, Option.bind_some]
          exact ih hrest

/-- Unlinking with `detach` is confined to the queue's own nodes. -/
theorem detached {prev next : Option Ref} {r : Ref} {node : Node JobInfo}
    {store : Store JobInfo} (hnode : q.store r = some node)
    (h : detach q.store prev r next = some store) :
    (∃ r, Loses q.store store r) ∧
      ∀ t, q.store.Apart t → detach (q.beside t).store prev r next = some (store.union t) :=
  ⟨⟨r, detach_loses hnode h⟩, fun _ ht => detach_union hnode h ht⟩

theorem queueDequeueRandom_confined {rand : Nat} {out : Reply × Memory}
    (h : queueDequeueRandom rand q = some out) : Confined (queueDequeueRandom rand) q out := by
  unfold queueDequeueRandom at h
  cases hhead : q.head with
  | none =>
      rw [hhead] at h
      cases h
      exact ⟨Or.inl rfl, fun t _ => by simp [queueDequeueRandom, Memory.beside, hhead]⟩
  | some head =>
      rw [hhead] at h
      dsimp only at h
      split at h
      · cases h
      · rename_i hsize
        split at h
        · rename_i hzero
          have hdequeue := queueDequeue_confined h
          refine ⟨hdequeue.store, fun t ht => ?_⟩
          have hframe := hdequeue.frame t ht
          simp only [queueDequeueRandom, Memory.beside, hhead, if_neg hsize, if_pos hzero] at hframe ⊢
          exact hframe
        · rename_i hpos
          obtain ⟨first, hfirst, h⟩ := Option.bind_eq_some_iff.mp h
          obtain ⟨⟨prev, curr⟩, hwalk, h⟩ := Option.bind_eq_some_iff.mp h
          cases curr with
          | none =>
              cases h
              refine ⟨Or.inl rfl, fun t _ => ?_⟩
              simp only [queueDequeueRandom, Memory.beside, hhead, if_neg hsize, if_neg hpos,
                Store.union_of_some hfirst, Option.bind_eq_bind, Option.bind_some,
                walk_union hwalk]
          | some r =>
              obtain ⟨node, hnode, h⟩ := Option.bind_eq_some_iff.mp h
              obtain ⟨store, hdetach, h⟩ := Option.bind_eq_some_iff.mp h
              cases h
              obtain ⟨hloses, hframe⟩ := detached hnode hdetach
              refine ⟨Or.inr ⟨rfl, hloses⟩, fun t ht => ?_⟩
              have hunion := hframe t ht
              simp only [Memory.beside] at hunion
              simp only [queueDequeueRandom, Memory.beside, hhead, if_neg hsize, if_neg hpos,
                Store.union_of_some hfirst, Option.bind_eq_bind, Option.bind_some,
                walk_union hwalk, Store.union_of_some hnode, hunion]

theorem unlinkFirst_confined {p : JobInfo → Bool} {fuel : Nat} {prev curr : Option Ref}
    {out : Reply × Memory} (h : unlinkFirst p q fuel prev curr = some out) :
    Confined (fun q => unlinkFirst p q fuel prev curr) q out := by
  induction fuel generalizing prev curr with
  | zero =>
      cases curr with
      | none =>
          cases h
          exact ⟨Or.inl rfl, fun _ _ => rfl⟩
      | some r => cases h
  | succ fuel ih =>
      cases curr with
      | none =>
          cases h
          exact ⟨Or.inl rfl, fun _ _ => rfl⟩
      | some r =>
          obtain ⟨node, hnode, h⟩ := Option.bind_eq_some_iff.mp h
          by_cases hp : p node.val = true
          · rw [if_pos hp] at h
            obtain ⟨store, hdetach, h⟩ := Option.bind_eq_some_iff.mp h
            cases h
            obtain ⟨hloses, hframe⟩ := detached hnode hdetach
            refine ⟨Or.inr ⟨rfl, hloses⟩, fun t ht => ?_⟩
            have hunion := hframe t ht
            simp only [Memory.beside] at hunion
            simp only [unlinkFirst, Memory.beside, Store.union_of_some hnode, Option.bind_eq_bind,
              Option.bind_some, if_pos hp, hunion]
            rfl
          · rw [if_neg hp] at h
            have hrest := ih h
            refine ⟨hrest.store, fun t ht => ?_⟩
            have hframe := hrest.frame t ht
            simp only [unlinkFirst, Memory.beside, Store.union_of_some hnode, Option.bind_eq_bind,
              Option.bind_some, if_neg hp]
            exact hframe

theorem collectUsers_union {store : Store JobInfo} {size fuel : Nat} {curr : Option Ref}
    {users found : List Int32} (h : collectUsers store size fuel curr users = some found)
    (t : Store JobInfo) : collectUsers (store.union t) size fuel curr users = some found := by
  induction fuel generalizing curr users with
  | zero =>
      cases curr with
      | none => exact h
      | some r => cases h
  | succ fuel ih =>
      cases curr with
      | none => exact h
      | some r =>
          obtain ⟨node, hnode, h⟩ := Option.bind_eq_some_iff.mp h
          rw [collectUsers, Store.union_of_some hnode]
          simp only [Option.bind_eq_bind, Option.bind_some]
          split at h
          · rw [if_pos ‹_›]
            exact ih h
          · rw [if_neg ‹_›]
            split at h
            · rw [if_pos ‹_›]
              exact ih h
            · cases h

/-- What comes out of a confined operation may be read off in another form. -/
theorem Confined.map {ρ σ : Type} {f : Memory → Option (ρ × Memory)}
    {g : Memory → Option (σ × Memory)} {ψ : ρ → σ} {a : ρ × Memory} (h : Confined f q a)
    (hg : ∀ t, q.store.Apart t →
      g (q.beside t) = (f (q.beside t)).map fun out => (ψ out.1, out.2)) :
    Confined g q (ψ a.1, a.2) := by
  refine ⟨h.store, fun t ht => ?_⟩
  rw [hg t ht, h.frame t ht]
  rfl

/-- The fair dequeue with the last user beside the reply. -/
def fairDequeue (malloc : Bool) (fairUsers : List Int32) (lastUserId : Int32) (q : Memory) :
    Option ((Reply × Int32) × Memory) :=
  (queueDequeueFair malloc fairUsers lastUserId q).map fun out => ((out.1, out.2.1), out.2.2)

/-- The new last user is `user` of the job when one was removed. -/
def Reply.withUser (user : JobInfo → Int32) (lastUserId : Int32) : Reply → Reply × Int32
  | .removed job => (.removed job, user job)
  | .zero | .stored => (.zero, lastUserId)

theorem fairDequeue_head {head : Ref} (hhead : q.head = some head) (fairUsers : List Int32)
    (lastUserId : Int32) :
    fairDequeue false fairUsers lastUserId q =
      (queueDequeue q).map fun out => (out.1.withUser JobInfo.userId lastUserId, out.2) := by
  unfold fairDequeue queueDequeueFair
  rw [hhead]
  cases queueDequeue q with
  | none => rfl
  | some out =>
      obtain ⟨reply, q'⟩ := out
      cases reply <;> rfl

theorem fairDequeue_users {head : Ref} (hhead : q.head = some head) {users : List Int32}
    (husers : collectUsers q.store q.size.toNat q.size.toNat q.head [] = some users)
    (fairUsers : List Int32) (lastUserId : Int32) :
    fairDequeue true fairUsers lastUserId q =
      (unlinkFirst (fun job => job.userId == chooseNextFairUser users fairUsers lastUserId) q
        q.size.toNat none q.head).map fun out =>
          (out.1.withUser (fun _ => chooseNextFairUser users fairUsers lastUserId) lastUserId,
            out.2) := by
  unfold fairDequeue queueDequeueFair
  rw [husers, hhead]
  simp only [Bool.not_true, Bool.false_eq_true, if_false, Option.bind_eq_bind, Option.bind_some]
  cases unlinkFirst (fun job => job.userId == chooseNextFairUser users fairUsers lastUserId) q
      q.size.toNat none (some head) with
  | none => rfl
  | some out =>
      obtain ⟨reply, q'⟩ := out
      cases reply <;> rfl

theorem fairDequeue_confined {malloc : Bool} {fairUsers : List Int32} {lastUserId : Int32}
    {out : (Reply × Int32) × Memory} (h : fairDequeue malloc fairUsers lastUserId q = some out) :
    Confined (fairDequeue malloc fairUsers lastUserId) q out := by
  cases hhead : q.head with
  | none =>
      rw [fairDequeue, queueDequeueFair, hhead] at h
      cases h
      exact ⟨Or.inl rfl, fun t _ => by simp [fairDequeue, queueDequeueFair, Memory.beside, hhead]⟩
  | some head =>
      cases malloc with
      | false =>
          rw [fairDequeue_head hhead] at h
          obtain ⟨taken, htaken, rfl⟩ := Option.map_eq_some_iff.mp h
          exact (queueDequeue_confined htaken).map fun t _ =>
            fairDequeue_head (q := q.beside t) hhead fairUsers lastUserId
      | true =>
          obtain ⟨whole, hwhole, -⟩ := Option.map_eq_some_iff.mp h
          unfold queueDequeueFair at hwhole
          rw [hhead] at hwhole
          obtain ⟨users, husers, -⟩ := Option.bind_eq_some_iff.mp hwhole
          rw [← hhead] at husers
          rw [fairDequeue_users hhead husers] at h
          obtain ⟨taken, htaken, rfl⟩ := Option.map_eq_some_iff.mp h
          exact (unlinkFirst_confined htaken).map fun t _ =>
            fairDequeue_users (q := q.beside t) hhead (collectUsers_union husers t) fairUsers lastUserId

theorem Confined.apart {ρ : Type} {f : Memory → Option (ρ × Memory)} {out : ρ × Memory}
    (h : Confined f q out) (ht : q.store.Apart t) : out.2.store.Apart t := by
  rcases h.store with heq | ⟨-, r, hloses⟩
  · rw [heq]
    exact ht
  · exact hloses.apart ht

theorem Owns.confined {ρ : Type} {f : Memory → Option (ρ × Memory)} {out : ρ × Memory}
    {cells cells' : List (Ref × JobInfo)} (h : Owns q cells) (hconf : Confined f q out)
    (h' : Represents out.2 cells') : Owns out.2 cells' := by
  refine ⟨?_, h'.size⟩
  have hsize := h.size
  have hsize' := h'.size
  rcases hconf.store with heq | ⟨hless, r, hloses⟩
  · rw [heq] at h' hsize' ⊢
    exact h.owned.same h'.holds (by omega)
  · exact h.owned.loses hloses h'.holds (by omega)

end Confined

/-! ## A queue in the heap -/

/-- The queue owns its part of the heap, and `t` is the rest of it. -/
def InHeap (q : Memory) (cells : List (Ref × JobInfo)) (t : Store JobInfo) : Prop :=
  ∃ own : Memory, Owns own cells ∧ own.store.Apart t ∧ q = own.beside t

section InHeap

variable {q : Memory} {cells : List (Ref × JobInfo)} {t : Store JobInfo}

theorem inHeap_create (t : Store JobInfo) : InHeap (queueCreate t) [] t :=
  ⟨queueCreate .empty, owns_create, fun _ => Or.inl rfl, rfl⟩

theorem InHeap.represents (h : InHeap q cells t) : Represents q cells := by
  obtain ⟨own, howns, happart, rfl⟩ := h
  have hsegment : Segment (own.beside t).store own.head cells none := by
    apply howns.owned.holds.segment.congr
    intro r hr
    obtain ⟨node, hnode⟩ := howns.owned.holds.segment.exists_node hr
    rw [hnode]
    exact Store.union_of_some hnode t
  exact ⟨⟨hsegment, howns.owned.holds.nodup, howns.owned.holds.tail_eq⟩, howns.size⟩

/-- A confined operation does in the heap what it does to the queue alone. -/
theorem InHeap.confined {ρ : Type} {f : Memory → Option (ρ × Memory)}
    {P : ρ → List (Ref × JobInfo) → Prop} (h : InHeap q cells t)
    (hf : ∀ own, Represents own cells → ∃ out cells', f own = some out ∧ Confined f own out ∧
      Represents out.2 cells' ∧ P out.1 cells') :
    ∃ out cells', f q = some out ∧ InHeap out.2 cells' t ∧ P out.1 cells' := by
  obtain ⟨own, howns, happart, rfl⟩ := h
  obtain ⟨out, cells', -, hconf, hrep, hp⟩ := hf own howns.represents
  exact ⟨(out.1, out.2.beside t), cells', hconf.frame t happart,
    ⟨out.2, howns.confined hconf hrep, hconf.apart happart, rfl⟩, hp⟩

/-- The same for an operation that refines a list operation. -/
theorem InHeap.refines {f : Memory → Option (Reply × Memory)}
    {sel : Option (JobInfo × JobQueue)} (h : InHeap q cells t)
    (hf : ∀ own, Represents own cells → ∃ out, f own = some out ∧ Refines sel own out)
    (hconf : ∀ own out, f own = some out → Confined f own out) :
    ∃ out cells', f q = some out ∧ InHeap out.2 cells' t ∧
      Selects sel (values cells) out.1 (values cells') := by
  apply h.confined (P := fun reply cells' => Selects sel (values cells) reply (values cells'))
  intro own hown
  obtain ⟨out, hout, hrefines⟩ := hf own hown
  obtain ⟨cells', hcells', hselects, -⟩ := hrefines.selects hown
  exact ⟨out, cells', hout, hconf own out hout, hcells', hselects⟩

theorem InHeap.dequeue (h : InHeap q cells t) :
    ∃ out cells', queueDequeue q = some out ∧ InHeap out.2 cells' t ∧
      Selects (RunnerOrchestrator.queueDequeue (values cells)) (values cells) out.1
        (values cells') :=
  h.refines (fun _ hown => queueDequeue_spec hown) fun _ _ => queueDequeue_confined

theorem InHeap.dequeueRandom (h : InHeap q cells t) (rand : Nat) :
    ∃ out cells', queueDequeueRandom rand q = some out ∧ InHeap out.2 cells' t ∧
      Selects (RunnerOrchestrator.queueDequeueRandom rand (values cells)) (values cells) out.1
        (values cells') :=
  h.refines (fun _ hown => queueDequeueRandom_spec hown rand) fun _ _ => queueDequeueRandom_confined

theorem InHeap.removeByCommandId (h : InHeap q cells t) (commandId : Int64) :
    ∃ out cells', queueRemoveByCommandId commandId q = some out ∧ InHeap out.2 cells' t ∧
      Selects (RunnerOrchestrator.queueRemoveByCommandId (values cells) commandId) (values cells)
        out.1 (values cells') := by
  apply h.refines (fun _ hown => queueRemoveByCommandId_spec hown commandId)
  intro own out hout
  have hconf := unlinkFirst_confined hout
  exact ⟨hconf.store, fun t ht => hconf.frame t ht⟩

theorem InHeap.dequeueFair (h : InHeap q cells t) (malloc : Bool) (fairUsers : List Int32)
    (lastUserId : Int32) :
    ∃ out cells', queueDequeueFair malloc fairUsers lastUserId q = some out ∧
      InHeap out.2.2 cells' t ∧
      Selects ((RunnerOrchestrator.queueDequeueFair malloc fairUsers lastUserId (values cells)).map
        fun taken => (taken.1, taken.2.1)) (values cells) out.1 (values cells') ∧
      out.2.1 = ((RunnerOrchestrator.queueDequeueFair malloc fairUsers lastUserId
        (values cells)).map fun taken => taken.2.2).getD lastUserId := by
  have hfair : ∀ own, Represents own cells →
      ∃ out cells', fairDequeue malloc fairUsers lastUserId own = some out ∧
        Confined (fairDequeue malloc fairUsers lastUserId) own out ∧ Represents out.2 cells' ∧
        Selects ((RunnerOrchestrator.queueDequeueFair malloc fairUsers lastUserId
          (values cells)).map fun taken => (taken.1, taken.2.1)) (values cells) out.1.1
          (values cells') ∧
        out.1.2 = ((RunnerOrchestrator.queueDequeueFair malloc fairUsers lastUserId
          (values cells)).map fun taken => taken.2.2).getD lastUserId := by
    intro own hown
    obtain ⟨out, hout, hrefines, hlast⟩ := queueDequeueFair_spec hown malloc fairUsers lastUserId
    obtain ⟨cells', hcells', hselects, -⟩ := hrefines.selects hown
    have hregrouped : fairDequeue malloc fairUsers lastUserId own =
        some ((out.1, out.2.1), out.2.2) := by
      rw [fairDequeue, hout]
      rfl
    exact ⟨_, cells', hregrouped, fairDequeue_confined hregrouped, hcells', hselects, hlast⟩
  obtain ⟨out, cells', hout, hin, hselects, hlast⟩ := h.confined
    (P := fun (reply : Reply × Int32) cells' =>
      Selects _ (values cells) reply.1 (values cells') ∧ reply.2 = _) hfair
  obtain ⟨whole, hwhole, rfl⟩ := Option.map_eq_some_iff.mp hout
  exact ⟨whole, cells', hwhole, hin, hselects, hlast⟩

theorem queueEnqueue_beside {malloc : Option Ref} {job : JobInfo} {out : Reply × Memory}
    (h : queueEnqueue malloc job q = some out) (t : Store JobInfo) :
    queueEnqueue malloc job (q.beside t) = some (out.1, out.2.beside t) := by
  cases malloc with
  | none =>
      cases h
      rfl
  | some r =>
      cases htail : q.tail with
      | none =>
          simp only [queueEnqueue, htail] at h
          cases h
          simp only [queueEnqueue, Memory.beside, htail, Store.set_union]
      | some tail =>
          simp only [queueEnqueue, htail] at h
          obtain ⟨node, hnode, rfl⟩ := Option.map_eq_some_iff.mp h
          have hwhole := Store.union_of_some hnode t
          rw [Store.set_union] at hwhole
          simp only [queueEnqueue, Memory.beside, htail, hwhole, Option.map_some, Store.set_union]

/-- The new node and no other joins the queue's part. -/
theorem queueEnqueue_part {r : Ref} {job : JobInfo} {out : Reply × Memory}
    (h : queueEnqueue (some r) job q = some out) {r' : Ref} (hne : r' ≠ r) :
    out.2.store r' = none ↔ q.store r' = none := by
  cases htail : q.tail with
  | none =>
      simp only [queueEnqueue, htail] at h
      cases h
      show q.store.set r _ r' = none ↔ _
      rw [Store.set_of_ne hne]
  | some tail =>
      simp only [queueEnqueue, htail] at h
      obtain ⟨node, hnode, rfl⟩ := Option.map_eq_some_iff.mp h
      show (q.store.set r _).set tail _ r' = none ↔ _
      by_cases heq : r' = tail
      · rw [← heq, Store.set_of_ne hne] at hnode
        rw [← heq, hnode]
        simp
      · rw [Store.set_of_ne heq, Store.set_of_ne hne]

theorem InHeap.enqueue (h : InHeap q cells t) {r : Ref} (hr : q.store r = none) (job : JobInfo) :
    ∃ out, queueEnqueue (some r) job q = some out ∧ out.1 = .stored ∧
      InHeap out.2 (cells ++ [(r, job)]) t := by
  obtain ⟨own, howns, happart, rfl⟩ := h
  obtain ⟨hown, ht⟩ := Option.or_eq_none_iff.mp hr
  obtain ⟨out, hout, hreply, hrep⟩ := queueEnqueue_spec howns.represents hown job
  have hpart : Owns out.2 (cells ++ [(r, job)]) :=
    ⟨howns.owned.gains (fun _ hne => queueEnqueue_part hout hne) hrep.holds, hrep.size⟩
  refine ⟨(out.1, out.2.beside t), queueEnqueue_beside hout t, hreply, out.2, hpart, ?_, rfl⟩
  intro r'
  by_cases heq : r' = r
  · rw [heq]
    exact Or.inr ht
  · exact (happart r').imp_left (queueEnqueue_part hout heq).mpr

theorem InHeap.destroy (h : InHeap q cells t) : queueDestroy q = some t := by
  obtain ⟨own, howns, happart, rfl⟩ := h
  apply howns.owned.freeFrom happart
  show cells.length ≤ own.size.toNat
  rw [howns.size, Int.toNat_natCast]

theorem InHeap.call (h : InHeap q cells t) (alloc : Allocator) (n : Nat) (call : Call) :
    ∃ out cells', call.perform alloc n q = some out ∧ InHeap out.2 cells' t := by
  cases call with
  | enqueue job =>
      cases hmalloc : alloc.malloc n q.store with
      | none => exact ⟨(.zero, q), cells, by rw [Call.perform, hmalloc]; rfl, h⟩
      | some r =>
          obtain ⟨out, hout, -, hin⟩ := h.enqueue (alloc.fresh n q.store r hmalloc) job
          exact ⟨out, _, by rw [Call.perform, hmalloc, hout], hin⟩
  | dequeue =>
      obtain ⟨out, cells', hout, hin, -⟩ := h.dequeue
      exact ⟨out, cells', hout, hin⟩
  | dequeueRandom rand =>
      obtain ⟨out, cells', hout, hin, -⟩ := h.dequeueRandom rand
      exact ⟨out, cells', hout, hin⟩
  | dequeueFair malloc fairUsers lastUserId =>
      obtain ⟨out, cells', hout, hin, -⟩ := h.dequeueFair malloc fairUsers lastUserId
      exact ⟨(out.1, out.2.2), cells', by rw [Call.perform, hout]; rfl, hin⟩
  | removeByCommandId commandId =>
      obtain ⟨out, cells', hout, hin, -⟩ := h.removeByCommandId commandId
      exact ⟨out, cells', hout, hin⟩

end InHeap

/-- After any calls on a new queue, `queue_destroy` finds each of its nodes still allocated,
and leaves the heap as it was before the queue was created. -/
theorem queueDestroy_afterCalls (alloc : Allocator) (heap : Store JobInfo) (past : List Call) :
    (afterCalls alloc heap past).bind queueDestroy = some heap := by
  have hreach : ∃ q cells, afterCalls alloc heap past = some q ∧ InHeap q cells heap := by
    induction past with
    | nil => exact ⟨_, [], rfl, inHeap_create heap⟩
    | cons call past ih =>
        obtain ⟨q, cells, hafter, hin⟩ := ih
        obtain ⟨out, cells', hout, hin'⟩ := hin.call alloc past.length call
        exact ⟨out.2, cells', by rw [afterCalls, hafter, Option.bind_some, hout]; rfl, hin'⟩
  obtain ⟨q, cells, hafter, hin⟩ := hreach
  rw [hafter, Option.bind_some]
  exact hin.destroy

end RunnerOrchestrator.LinkedQueue
