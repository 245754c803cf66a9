import RunnerOrchestrator.Controller.QueueLife
import RunnerOrchestrator.Controller.Effects

/-! # The controller with its queues in the heap

Both queues of `controller_state_t` are headers whose nodes lie in one heap. The handlers
follow the source statement by statement; one that would touch memory the queues do not
hold, or go round its loop more often than the waiting queue is long, has no result. What
they do is compared with the handlers on lists of jobs.
-/

namespace RunnerOrchestrator.HeapController

open LinkedList
open LinkedQueue (Memory InHeap Owns)

/-- `job_queue_t`, without the nodes. -/
structure Header where
  head : Option Ref
  tail : Option Ref
  size : Int

def Header.on (h : Header) (heap : Store JobInfo) : Memory := ⟨heap, h.head, h.tail, h.size⟩

def Header.of (q : Memory) : Header := ⟨q.head, q.tail, q.size⟩

/-- The queues in `world.state` are not used. -/
structure Controller where
  world : World
  waiting : Header
  running : Header
  heap : Store JobInfo

def Controller.waitingQueue (c : Controller) : Memory := c.waiting.on c.heap

def Controller.runningQueue (c : Controller) : Memory := c.running.on c.heap

def Controller.setWaiting (c : Controller) (q : Memory) : Controller :=
  { c with waiting := Header.of q, heap := q.store }

def Controller.setRunning (c : Controller) (q : Memory) : Controller :=
  { c with running := Header.of q, heap := q.store }

/-- Where a successful `malloc` puts a node: a place not in use. -/
structure Placement where
  place : Nat → Store JobInfo → Ref
  fresh : ∀ n (heap : Store JobInfo), heap.inUse.Finite → heap (place n heap) = none

/-- The next `malloc`, for a node. -/
def newNode (place : Placement) (env : Env) (c : Controller) : Option Ref :=
  if env.malloc c.world.mallocs then some (place.place c.world.mallocs c.heap) else none

section

variable (place : Placement) (env : Env)

def startJob (job : JobInfo) (c : Controller) : Option Controller := do
  let (reply, q) ← LinkedQueue.queueEnqueue (newNode place env c) job c.runningQueue
  let w := { c.world with mallocs := c.world.mallocs + 1 }
  match reply with
  | .zero => some { c.setRunning q with world := w }
  | .stored | .removed _ =>
      some { c.setRunning q with world := sendAckToRunner env job { w with state := { w.state with
        runningCount := w.state.runningCount + 1
        lastScheduledUser := job.userId } } }

/-- Called with a job waiting only, so that `rand()` is drawn once under "random" and the
array of users allocated once under "fair". -/
def dequeueByPolicy (c : Controller) : Option (LinkedQueue.Reply × Controller) :=
  let w := c.world
  if isRandomPolicy w.state then
    (LinkedQueue.queueDequeueRandom (env.rand w.rands) c.waitingQueue).map fun out =>
      (out.1, { c.setWaiting out.2 with world := { w with rands := w.rands + 1 } })
  else if isFairPolicy w.state then
    (LinkedQueue.queueDequeueFair (env.malloc w.mallocs) w.state.fairUsers
        w.state.lastScheduledUser c.waitingQueue).map fun out =>
      (out.1, { c.setWaiting out.2.2 with world := { w with
        state := { w.state with lastScheduledUser := out.2.1 }
        mallocs := w.mallocs + 1 } })
  else
    (LinkedQueue.queueDequeue c.waitingQueue).map fun out => (out.1, c.setWaiting out.2)

def canStart (c : Controller) : Bool :=
  c.world.state.runningCount < c.world.state.parallelLimit && !(c.waiting.size == 0)

/-- The promotion loop; with no round left its test must fail. -/
def startWaitingRounds : Nat → Controller → Option Controller
  | 0, c => if canStart c then none else some c
  | rounds + 1, c =>
      if canStart c then do
        let (reply, c) ← dequeueByPolicy env c
        match reply with
        | .zero | .stored => some c
        | .removed nextJob => do
            let c ← startJob place env { nextJob with state := .running } c
            startWaitingRounds rounds c
      else some c

def startWaitingJobs (c : Controller) : Option Controller :=
  startWaitingRounds place env c.waiting.size.toNat c

def handleSubmit (msg : RpcMessage) (c : Controller) : Option Controller :=
  let job := submittedJob env msg c.world
  let w := rememberFairUser env job.userId { c.world with clocks := c.world.clocks + 1 }
  let c := { c with world := w }
  if w.state.runningCount < w.state.parallelLimit then
    startJob place env { job with state := .running } c
  else
    (LinkedQueue.queueEnqueue (newNode place env c) job c.waitingQueue).map fun out =>
      { c.setWaiting out.2 with world := { w with mallocs := w.mallocs + 1 } }

def handleDone (msg : RpcMessage) (c : Controller) : Option Controller := do
  let (reply, q) ← LinkedQueue.queueRemoveByCommandId msg.commandId c.runningQueue
  match reply with
  | .zero | .stored => startWaitingJobs place env (c.setRunning q)
  | .removed finishedJob =>
      let w := logFinishedJob env finishedJob c.world
      startWaitingJobs place env { c.setRunning q with world := { w with
        state := { w.state with runningCount := w.state.runningCount - 1 } } }

def waitingSnapshot (mallocs : Nat) (c : Controller) : Option (List JobInfo × Nat) :=
  let s := c.world.state
  if isFairPolicy s then
    LinkedQueue.queueCopyFairToArray env.malloc mallocs c.waitingQueue c.waiting.size
      s.lastScheduledUser s.fairUsers
  else
    (LinkedQueue.queueCopyToArray c.waitingQueue c.waiting.size).map fun copied => (copied, mallocs)

def handleStatusReq (msg : RpcMessage) (c : Controller) : Option Controller :=
  let w := c.world
  let runSize := c.running.size.toNat
  let runMallocs := w.mallocs + snapshotMallocs runSize
  if snapshotFails env w.mallocs runSize then some { c with world := { w with mallocs := runMallocs } }
  else
    let waitSize := c.waiting.size.toNat
    let waitMallocs := runMallocs + snapshotMallocs waitSize
    if snapshotFails env runMallocs waitSize then
      some { c with world := { w with mallocs := waitMallocs } }
    else do
      let running ← LinkedQueue.queueCopyToArray c.runningQueue c.running.size
      let waiting ← waitingSnapshot env waitMallocs c
      if env.io w.ios then
        let reply := writeStatus env running waiting.1 ⟨w.ios + 1, [], false⟩
        some { c with world := { w with
          mallocs := waiting.2, ios := reply.ios + 1
          trace := w.trace ++ [.status msg.senderPid reply.sent reply.killed] } }
      else some { c with world := { w with mallocs := waiting.2, ios := w.ios + 1 } }

def isFinished (c : Controller) : Bool :=
  c.world.state.isShuttingDown && c.world.state.runningCount == 0 && c.waiting.size == 0

def tryFinishShutdown (c : Controller) : Bool × Controller :=
  let w := c.world
  if !isFinished c then (false, c)
  else
    let sent := ipcSendAtomic env w.ios w.state.shutdownRequesterPid farewellMessage
    (true, { c with world := { w with
      state := { w.state with keepRunning := false }
      ios := sent.2
      trace := w.trace ++ [.farewell sent.1] } })

def controllerHandleMessage (msg : RpcMessage) (c : Controller) : Option (Bool × Controller) :=
  if msg.type = .submit ∧ c.world.state.isShuttingDown = true then
    some (false, { c with world := sendShutdownAckToRunner env msg c.world })
  else
    (if msg.type = .submit then handleSubmit place env msg c else some c).bind fun c =>
    (if msg.type = .done then handleDone place env msg c else some c).bind fun c =>
    (if msg.type = .statusReq then handleStatusReq env msg c else some c).bind fun c =>
    let c := if msg.type = .shutdownReq then { c with world := handleShutdownReq msg c.world } else c
    some (tryFinishShutdown env c)

def runMessages : List RpcMessage → Controller → Option Controller
  | [], c => some c
  | msg :: msgs, c => (controllerHandleMessage place env msg c).bind fun out => runMessages msgs out.2

end

/-- The controller when its main loop begins, in a heap that is in use already. -/
def controllerStart (argv : List CString) (heap : Store JobInfo) : Controller :=
  ⟨RunnerOrchestrator.controllerStart argv, Header.of (LinkedQueue.queueCreate heap),
    Header.of (LinkedQueue.queueCreate heap), heap⟩

/-- What is left of the heap. -/
def controllerDestroyQueues (c : Controller) : Option (Store JobInfo) :=
  (LinkedQueue.queueDestroy c.waitingQueue).bind fun heap =>
    LinkedQueue.queueDestroy (c.running.on heap)

/-! ## The layout of the heap -/

/-- Each queue owns a part of the heap, and `rest` is what is left. -/
def Layout (c : Controller) (waiting running : List (Ref × JobInfo)) (rest : Store JobInfo) : Prop :=
  ∃ w r : Store JobInfo, Owns (c.waiting.on w) waiting ∧ Owns (c.running.on r) running ∧
    w.Apart (r.union rest) ∧ r.Apart rest ∧ c.heap = w.union (r.union rest)

section Layout

variable {c : Controller} {cw cr : List (Ref × JobInfo)} {rest : Store JobInfo}

theorem layout_start (argv : List CString) (heap : Store JobInfo) :
    Layout (controllerStart argv heap) [] [] heap :=
  ⟨.empty, .empty, LinkedQueue.owns_create, LinkedQueue.owns_create, fun _ => Or.inl rfl,
    fun _ => Or.inl rfl, rfl⟩

/-- An operation on the waiting queue leaves the layout of the rest as it is. -/
theorem Layout.waiting (h : Layout c cw cr rest) :
    ∃ t, InHeap c.waitingQueue cw t ∧
      ∀ q cells, InHeap q cells t → Layout (c.setWaiting q) cells cr rest := by
  obtain ⟨w, r, hw, hr, hapart, hrest, hheap⟩ := h
  refine ⟨r.union rest, ⟨c.waiting.on w, hw, hapart, ?_⟩, ?_⟩
  · rw [Controller.waitingQueue, hheap]
    rfl
  · rintro q cells ⟨own, hown, happart, rfl⟩
    exact ⟨own.store, r, hown, hr, happart, hrest, rfl⟩

theorem Layout.running (h : Layout c cw cr rest) :
    ∃ t, InHeap c.runningQueue cr t ∧
      ∀ q cells, InHeap q cells t → Layout (c.setRunning q) cw cells rest := by
  obtain ⟨w, r, hw, hr, hapart, hrest, hheap⟩ := h
  obtain ⟨hwr, hwrest⟩ := Store.apart_union.mp hapart
  refine ⟨w.union rest, ⟨c.running.on r, hr, Store.apart_union.mpr ⟨hwr.symm, hrest⟩, ?_⟩, ?_⟩
  · rw [Controller.runningQueue, hheap, ← Store.union_assoc, Store.union_comm hwr,
      Store.union_assoc]
    rfl
  · rintro q cells ⟨own, hown, happart, rfl⟩
    obtain ⟨hownw, hownrest⟩ := Store.apart_union.mp happart
    refine ⟨w, own.store, hw, hown, Store.apart_union.mpr ⟨hownw.symm, hwrest⟩, hownrest, ?_⟩
    show own.store.union (w.union rest) = w.union (own.store.union rest)
    rw [← Store.union_assoc, Store.union_comm hownw, Store.union_assoc]

theorem Layout.destroy (h : Layout c cw cr rest) : controllerDestroyQueues c = some rest := by
  obtain ⟨w, r, hw, hr, hapart, hrest, hheap⟩ := h
  have hwaiting : InHeap c.waitingQueue cw (r.union rest) :=
    ⟨c.waiting.on w, hw, hapart, by rw [Controller.waitingQueue, hheap]; rfl⟩
  have hrunning : InHeap (c.running.on (r.union rest)) cr rest :=
    ⟨c.running.on r, hr, hrest, rfl⟩
  rw [controllerDestroyQueues, hwaiting.destroy, Option.bind_some]
  exact hrunning.destroy

theorem Layout.finite (h : Layout c cw cr rest) (hrest : rest.inUse.Finite) : c.heap.inUse.Finite := by
  obtain ⟨w, r, hw, hr, -, -, hheap⟩ := h
  rw [hheap]
  apply (hw.owned.finite.union (hr.owned.finite.union hrest)).subset
  exact (Store.inUse_union w _).trans (Set.union_subset_union_right _ (Store.inUse_union r rest))

end Layout

/-! ## The handlers on lists -/

/-- The world as the handlers on lists see it. -/
def withQueues (w : World) (waiting running : JobQueue) : World :=
  { w with state := { w.state with waitingQueue := waiting, runningQueue := running } }

/-- The heap represents the two lists of the world `w`; all else is the same in both. -/
structure Models (c : Controller) (w : World) (rest : Store JobInfo) : Prop where
  free : rest.inUse.Finite
  lists : ∃ waiting running, Layout c waiting running rest ∧
    w = withQueues c.world (values waiting) (values running)

section Models

variable {c : Controller} {w : World} {rest : Store JobInfo}

theorem Models.waiting_size (h : Models c w rest) : c.waiting.size = w.state.waitingQueue.length := by
  obtain ⟨-, cw, cr, hlayout, rfl⟩ := h
  obtain ⟨t, hin, -⟩ := hlayout.waiting
  have hsize : c.waiting.size = cw.length := hin.represents.size
  simpa [withQueues, values] using hsize

theorem Models.running_size (h : Models c w rest) : c.running.size = w.state.runningQueue.length := by
  obtain ⟨-, cw, cr, hlayout, rfl⟩ := h
  obtain ⟨t, hin, -⟩ := hlayout.running
  have hsize : c.running.size = cr.length := hin.represents.size
  simpa [withQueues, values] using hsize

/-- What does not touch the queues does the same to both worlds. -/
theorem Models.world (h : Models c w rest) {f : World → World}
    (hf : ∀ v a b, f (withQueues v a b) = withQueues (f v) a b) :
    Models { c with world := f c.world } (f w) rest := by
  obtain ⟨hfree, cw, cr, hlayout, rfl⟩ := h
  exact ⟨hfree, cw, cr, hlayout, hf _ _ _⟩

theorem rememberFairUser_withQueues (env : Env) (userId : Int32) (v : World) (a b : JobQueue) :
    rememberFairUser env userId (withQueues v a b) =
      withQueues (rememberFairUser env userId v) a b := by
  unfold rememberFairUser
  by_cases hknown : userExists v.state.fairUsers userId = true
  · rw [if_pos hknown]
    exact if_pos hknown
  · by_cases hfull : v.state.fairUsers.length = v.state.fairUserCapacity
    · rw [if_neg hknown, if_pos hfull]
      refine (if_neg hknown).trans ((if_pos hfull).trans ?_)
      cases hm : env.malloc v.mallocs with
      | true =>
          simp only [withQueues, hm, ControllerState.appendUser, if_true]
          rfl
      | false => simp [withQueues, hm]
    · rw [if_neg hknown, if_neg hfull]
      exact (if_neg hknown).trans (if_neg hfull)

theorem logFinishedJob_withQueues (env : Env) (job : JobInfo) (v : World) (a b : JobQueue) :
    logFinishedJob env job (withQueues v a b) = withQueues (logFinishedJob env job v) a b := by
  unfold logFinishedJob
  cases hio : env.logIo v.logs <;> simp [withQueues, hio]

theorem Models.waiting_empty (h : Models c w rest) :
    (c.waiting.size == 0) = queueIsEmpty w.state.waitingQueue := by
  rw [h.waiting_size]
  simp [queueIsEmpty]

theorem Models.isFinished_eq (h : Models c w rest) : isFinished c = w.state.isFinished := by
  have hempty := h.waiting_empty
  obtain ⟨-, cw, cr, hlayout, rfl⟩ := h
  unfold isFinished ControllerState.isFinished
  rw [hempty]
  rfl

theorem Models.canStart_eq (h : Models c w rest) : canStart c = w.state.canStart := by
  have hempty := h.waiting_empty
  obtain ⟨-, cw, cr, hlayout, rfl⟩ := h
  unfold canStart ControllerState.canStart
  rw [hempty]
  rfl

/-- A node for the running queue, or for the waiting queue, is allocated where nothing is. -/
theorem Models.newNode_fresh (h : Models c w rest) {place : Placement} {env : Env} {r : Ref}
    (hr : newNode place env c = some r) : c.heap r = none := by
  obtain ⟨hfree, cw, cr, hlayout, -⟩ := h
  unfold newNode at hr
  split at hr
  · cases hr
    exact place.fresh _ _ (hlayout.finite hfree)
  · cases hr

theorem startJob_waitingQueue (env : Env) (job : JobInfo) (v : World) :
    (RunnerOrchestrator.startJob env job v).state.waitingQueue = v.state.waitingQueue := by
  cases hm : env.malloc v.mallocs with
  | true =>
      rw [startJob_of_malloc hm]
      rfl
  | false => rw [startJob_of_no_malloc hm]

theorem Models.startJob (h : Models c w rest) (place : Placement) (env : Env) (job : JobInfo) :
    ∃ c', startJob place env job c = some c' ∧ Models c' (RunnerOrchestrator.startJob env job w) rest := by
  have hfresh : ∀ r, newNode place env c = some r → c.heap r = none := fun _ => h.newNode_fresh
  obtain ⟨hfree, cw, cr, hlayout, rfl⟩ := h
  obtain ⟨t, hin, hput⟩ := hlayout.running
  unfold HeapController.startJob
  cases hm : env.malloc c.world.mallocs with
  | false =>
      have hnull : newNode place env c = none := by simp [newNode, hm]
      rw [hnull, startJob_of_no_malloc (by exact hm)]
      exact ⟨_, rfl, hfree, cw, cr, hlayout, rfl⟩
  | true =>
      have hnode : newNode place env c = some (place.place c.world.mallocs c.heap) := by
        simp [newNode, hm]
      obtain ⟨out, hout, hreply, hin'⟩ := hin.enqueue (hfresh _ hnode) job
      rw [hnode, startJob_of_malloc (by exact hm)]
      simp only [hout, Option.bind_eq_bind, Option.bind_some, hreply]
      refine ⟨_, rfl, hfree, cw, _, hput _ _ hin', ?_⟩
      simp [sendAckToRunner, withQueues, ControllerState.start, values]

/-- Every policy takes from the heap the job it takes from the list. -/
theorem Models.dequeueByPolicy (h : Models c w rest) (env : Env) (hne : w.state.waitingQueue ≠ []) :
    ∃ job c' w', dequeueByPolicy env c = some (.removed job, c') ∧
      RunnerOrchestrator.dequeueByPolicy env w = some (job, w') ∧ Models c' w' rest := by
  obtain ⟨hfree, cw, cr, hlayout, rfl⟩ := h
  obtain ⟨t, hin, hput⟩ := hlayout.waiting
  have hvalues : values cw ≠ [] := hne
  -- the world `v` beside the queues afterwards
  have hmodels : ∀ (v : World) (q : Memory) cw', InHeap q cw' t →
      Models { c.setWaiting q with world := v } (withQueues v (values cw') (values cr)) rest :=
    fun _ q cw' hin' => ⟨hfree, cw', cr, hput q cw' hin', rfl⟩
  unfold HeapController.dequeueByPolicy RunnerOrchestrator.dequeueByPolicy
  by_cases hr : isRandomPolicy c.world.state = true
  · obtain ⟨out, cw', hout, hin', hselects⟩ := hin.dequeueRandom (env.rand c.world.rands)
    obtain ⟨job, left, hsel⟩ := exists_queueDequeueRandom (env.rand c.world.rands) hvalues
    rw [hsel] at hselects
    obtain ⟨hreply, rfl⟩ := hselects
    refine ⟨job, _, _, ?_, ?_, hmodels { c.world with rands := c.world.rands + 1 } out.2 cw' hin'⟩
    · simp only [if_pos hr, hout, Option.map_some, hreply]
    · exact (if_pos hr).trans (by simp [withQueues, hsel])
  · by_cases hf : isFairPolicy c.world.state = true
    · obtain ⟨out, cw', hout, hin', hselects, hlast⟩ := hin.dequeueFair
        (env.malloc c.world.mallocs) c.world.state.fairUsers c.world.state.lastScheduledUser
      obtain ⟨job, left, hsel⟩ := exists_queueDequeueFair (env.malloc c.world.mallocs)
        c.world.state.fairUsers c.world.state.lastScheduledUser hvalues
      rw [hsel] at hselects hlast
      obtain ⟨hreply, rfl⟩ := hselects
      refine ⟨job, _, _, ?_, ?_, hmodels { c.world with
        state := { c.world.state with lastScheduledUser := out.2.1 }
        mallocs := c.world.mallocs + 1 } out.2.2 cw' hin'⟩
      · simp only [if_neg hr, if_pos hf, hout, Option.map_some, hreply]
      · exact (if_neg hr).trans ((if_pos hf).trans (by simp [withQueues, hsel, hlast]))
    · obtain ⟨out, cw', hout, hin', hselects⟩ := hin.dequeue
      obtain ⟨job, left, hsel⟩ := exists_queueDequeue hvalues
      rw [hsel] at hselects
      obtain ⟨hreply, rfl⟩ := hselects
      refine ⟨job, _, _, ?_, ?_, hmodels c.world out.2 cw' hin'⟩
      · simp only [if_neg hr, if_neg hf, hout, Option.map_some, hreply]
        rfl
      · exact (if_neg hr).trans ((if_neg hf).trans (by simp [withQueues, hsel]))

theorem Models.startWaitingRounds (h : Models c w rest) (place : Placement) (env : Env)
    {rounds : Nat} (hrounds : w.state.waitingQueue.length = rounds) :
    ∃ c', startWaitingRounds place env rounds c = some c' ∧
      Models c' (RunnerOrchestrator.startWaitingRounds env rounds w) rest := by
  induction rounds generalizing c w with
  | zero =>
      have hidle : canStart c = false := by
        rw [h.canStart_eq, ← Bool.not_eq_true, canStart_iff]
        exact fun hcan => hcan.2 (List.length_eq_zero_iff.mp hrounds)
      exact ⟨c, by simp [HeapController.startWaitingRounds, hidle], h⟩
  | succ rounds ih =>
      unfold HeapController.startWaitingRounds RunnerOrchestrator.startWaitingRounds
      rw [h.canStart_eq]
      by_cases hcan : w.state.canStart = true
      · obtain ⟨-, hne⟩ := canStart_iff.mp hcan
        obtain ⟨job, c₁, w₁, hdeq, hdeqw, h₁⟩ := h.dequeueByPolicy env hne
        obtain ⟨left, last, hremoves, rfl⟩ := dequeueByPolicy_frame hdeqw
        obtain ⟨c₂, hstart, h₂⟩ := h₁.startJob place env { job with state := .running }
        rw [if_pos hcan, if_pos hcan, hdeq, hdeqw]
        simp only [Option.bind_eq_bind, Option.bind_some, hstart]
        apply ih h₂
        rw [startJob_waitingQueue]
        have hlength := hremoves.length
        show left.length = rounds
        omega
      · rw [if_neg hcan, if_neg hcan]
        exact ⟨c, rfl, h⟩

theorem Models.startWaitingJobs (h : Models c w rest) (place : Placement) (env : Env) :
    ∃ c', startWaitingJobs place env c = some c' ∧
      Models c' (RunnerOrchestrator.startWaitingJobs env w) rest := by
  unfold HeapController.startWaitingJobs RunnerOrchestrator.startWaitingJobs
  rw [h.waiting_size, Int.toNat_natCast]
  exact h.startWaitingRounds place env rfl

/-- A job put behind the waiting ones, or left out for want of memory. -/
theorem Models.enqueueWaiting (h : Models c w rest) (place : Placement) (env : Env) (job : JobInfo) :
    ∃ c', (LinkedQueue.queueEnqueue (newNode place env c) job c.waitingQueue).map (fun out =>
        { c.setWaiting out.2 with world := { c.world with mallocs := c.world.mallocs + 1 } }) =
          some c' ∧
      Models c' (match queueEnqueue (env.malloc w.mallocs) w.state.waitingQueue job with
        | none => { w with mallocs := w.mallocs + 1 }
        | some waiting => { w with
            state := { w.state with waitingQueue := waiting }, mallocs := w.mallocs + 1 }) rest := by
  have hfresh : ∀ r, newNode place env c = some r → c.heap r = none := fun _ => h.newNode_fresh
  obtain ⟨hfree, cw, cr, hlayout, rfl⟩ := h
  obtain ⟨t, hin, hput⟩ := hlayout.waiting
  cases hm : env.malloc c.world.mallocs with
  | false =>
      have hnull : newNode place env c = none := by simp [newNode, hm]
      rw [hnull]
      refine ⟨_, rfl, hfree, cw, cr, hlayout, ?_⟩
      simp [queueEnqueue, withQueues, hm]
  | true =>
      have hnode : newNode place env c = some (place.place c.world.mallocs c.heap) := by
        simp [newNode, hm]
      obtain ⟨out, hout, -, hin'⟩ := hin.enqueue (hfresh _ hnode) job
      rw [hnode, hout]
      refine ⟨_, rfl, hfree, _, cr, hput _ _ hin', ?_⟩
      simp [queueEnqueue, withQueues, hm, values]

theorem Models.handleSubmit (h : Models c w rest) (place : Placement) (env : Env)
    (msg : RpcMessage) :
    ∃ c', handleSubmit place env msg c = some c' ∧
      Models c' (RunnerOrchestrator.handleSubmit env msg w) rest := by
  have hclock : Models { c with world := { c.world with clocks := c.world.clocks + 1 } }
      { w with clocks := w.clocks + 1 } rest :=
    h.world (f := fun v => { v with clocks := v.clocks + 1 }) fun _ _ _ => rfl
  have hknown := hclock.world fun v a b => rememberFairUser_withQueues env msg.userId v a b
  have hjob : submittedJob env msg c.world = submittedJob env msg w := by
    obtain ⟨-, cw, cr, -, rfl⟩ := h
    rfl
  have htest : ((rememberFairUser env msg.userId
        { c.world with clocks := c.world.clocks + 1 }).state.runningCount <
      (rememberFairUser env msg.userId
        { c.world with clocks := c.world.clocks + 1 }).state.parallelLimit) ↔
      (rememberFairUser env msg.userId { w with clocks := w.clocks + 1 }).state.runningCount <
        (rememberFairUser env msg.userId { w with clocks := w.clocks + 1 }).state.parallelLimit := by
    obtain ⟨-, cw, cr, -, heq⟩ := hknown
    rw [heq]
    rfl
  unfold HeapController.handleSubmit
  rw [handleSubmit_of_remembered rfl, hjob]
  dsimp only [submittedJob]
  by_cases hslot : (rememberFairUser env msg.userId
      { w with clocks := w.clocks + 1 }).state.runningCount <
    (rememberFairUser env msg.userId { w with clocks := w.clocks + 1 }).state.parallelLimit
  · rw [if_pos hslot, if_pos (htest.mpr hslot)]
    exact hknown.startJob place env _
  · rw [if_neg hslot, if_neg (htest.not.mpr hslot)]
    exact hknown.enqueueWaiting place env _

theorem Models.handleDone (h : Models c w rest) (place : Placement) (env : Env)
    (msg : RpcMessage) :
    ∃ c', handleDone place env msg c = some c' ∧
      Models c' (RunnerOrchestrator.handleDone env msg w) rest := by
  obtain ⟨hfree, cw, cr, hlayout, rfl⟩ := h
  obtain ⟨t, hin, hput⟩ := hlayout.running
  obtain ⟨out, cr', hout, hin', hselects⟩ := hin.removeByCommandId msg.commandId
  unfold HeapController.handleDone RunnerOrchestrator.handleDone
  simp only [hout, Option.bind_eq_bind, Option.bind_some]
  have hstate : (withQueues c.world (values cw) (values cr)).state.runningQueue = values cr := rfl
  rw [hstate]
  have hmodels : ∀ v : World, Models { c.setRunning out.2 with world := v }
      (withQueues v (values cw) (values cr')) rest :=
    fun _ => ⟨hfree, cw, cr', hput _ _ hin', rfl⟩
  cases hsel : queueRemoveByCommandId (values cr) msg.commandId with
  | none =>
      rw [hsel] at hselects
      obtain ⟨hreply, hsame⟩ := hselects
      rw [hreply, ← hsame]
      exact (hmodels c.world).startWaitingJobs place env
  | some found =>
      obtain ⟨job, left⟩ := found
      rw [hsel] at hselects
      obtain ⟨hreply, rfl⟩ := hselects
      have hlogged := (hmodels (logFinishedJob env job c.world)).world
        (f := fun v => { v with
          state := { v.state with runningCount := v.state.runningCount - 1 } }) fun _ _ _ => rfl
      rw [← logFinishedJob_withQueues] at hlogged
      rw [hreply]
      exact hlogged.startWaitingJobs place env

theorem Models.waitingSnapshot (h : Models c w rest) (env : Env) (mallocs : Nat) :
    waitingSnapshot env mallocs c = some (RunnerOrchestrator.waitingSnapshot env mallocs w.state) := by
  have hsize := h.waiting_size
  obtain ⟨-, cw, cr, hlayout, rfl⟩ := h
  obtain ⟨t, hin, -⟩ := hlayout.waiting
  have hrep := hin.represents
  unfold HeapController.waitingSnapshot RunnerOrchestrator.waitingSnapshot
  by_cases hf : isFairPolicy c.world.state = true
  · dsimp only
    rw [if_pos hf, LinkedQueue.queueCopyFairToArray_spec hrep, hsize, Int.toNat_natCast]
    exact congrArg some (if_pos hf).symm
  · dsimp only
    rw [if_neg hf, LinkedQueue.queueCopyToArray_spec hrep, hsize, Int.toNat_natCast]
    exact congrArg some (if_neg hf).symm

theorem Models.handleStatusReq (h : Models c w rest) (env : Env) (msg : RpcMessage) :
    ∃ c', handleStatusReq env msg c = some c' ∧
      Models c' (RunnerOrchestrator.handleStatusReq env msg w) rest := by
  have hrun : c.running.size.toNat = queueGetSize w.state.runningQueue := by
    rw [h.running_size, Int.toNat_natCast]
    rfl
  have hwait : c.waiting.size.toNat = queueGetSize w.state.waitingQueue := by
    rw [h.waiting_size, Int.toNat_natCast]
    rfl
  have hcopy : LinkedQueue.queueCopyToArray c.runningQueue c.running.size =
      some (queueCopyToArray w.state.runningQueue (queueGetSize w.state.runningQueue)) := by
    rw [← hrun]
    obtain ⟨-, cw, cr, hlayout, rfl⟩ := h
    obtain ⟨t, hin, -⟩ := hlayout.running
    exact LinkedQueue.queueCopyToArray_spec hin.represents _
  have hanswers : ∀ mallocs ios trace,
      Models { c with world := { c.world with mallocs := mallocs, ios := ios, trace := trace } }
        { w with mallocs := mallocs, ios := ios, trace := trace } rest :=
    fun mallocs ios trace =>
      h.world (f := fun v => { v with mallocs := mallocs, ios := ios, trace := trace }) fun _ _ _ => rfl
  obtain ⟨hmallocs, hios, htrace⟩ :
      w.mallocs = c.world.mallocs ∧ w.ios = c.world.ios ∧ w.trace = c.world.trace := by
    obtain ⟨-, cw, cr, -, rfl⟩ := h
    exact ⟨rfl, rfl, rfl⟩
  unfold HeapController.handleStatusReq RunnerOrchestrator.handleStatusReq
  simp only [hrun, hwait, hcopy, h.waitingSnapshot, hmallocs, hios, htrace, Option.bind_eq_bind,
    Option.bind_some]
  split
  · exact ⟨_, rfl, hanswers _ _ _⟩
  · split
    · exact ⟨_, rfl, hanswers _ _ _⟩
    · split
      · exact ⟨_, rfl, hanswers _ _ _⟩
      · exact ⟨_, rfl, hanswers _ _ _⟩

theorem Models.tryFinishShutdown (h : Models c w rest) (env : Env) :
    (tryFinishShutdown env c).1 = (RunnerOrchestrator.tryFinishShutdown env w).1 ∧
      Models (tryFinishShutdown env c).2 (RunnerOrchestrator.tryFinishShutdown env w).2 rest := by
  have hfinished := h.isFinished_eq
  obtain ⟨hfree, cw, cr, hlayout, rfl⟩ := h
  unfold HeapController.tryFinishShutdown RunnerOrchestrator.tryFinishShutdown
  dsimp only
  rw [hfinished]
  split
  · exact ⟨rfl, hfree, cw, cr, hlayout, rfl⟩
  · exact ⟨rfl, hfree, cw, cr, hlayout, rfl⟩

/-- A handler that is called for one type of message only. -/
theorem Models.when (h : Models c w rest) (p : Prop) [Decidable p]
    {f : Controller → Option Controller} {g : World → World}
    (hf : Models c w rest → ∃ c', f c = some c' ∧ Models c' (g w) rest) :
    ∃ c', (if p then f c else some c) = some c' ∧ Models c' (if p then g w else w) rest := by
  split
  · exact hf h
  · exact ⟨c, rfl, h⟩

theorem Models.mode (h : Models c w rest) (p : Prop) [Decidable p] {f : Controller → Controller}
    {g : World → World} (hf : Models c w rest → Models (f c) (g w) rest) :
    Models (if p then f c else c) (if p then g w else w) rest := by
  split
  · exact hf h
  · exact h

/-- One message: the same value is returned, and the heap represents the state afterwards. -/
theorem Models.controllerHandleMessage (h : Models c w rest) (place : Placement) (env : Env)
    (msg : RpcMessage) :
    ∃ c', controllerHandleMessage place env msg c =
        some ((RunnerOrchestrator.controllerHandleMessage env msg w).1, c') ∧
      Models c' (RunnerOrchestrator.controllerHandleMessage env msg w).2 rest := by
  have hmode : c.world.state.isShuttingDown = w.state.isShuttingDown := by
    obtain ⟨-, cw, cr, -, rfl⟩ := h
    rfl
  unfold HeapController.controllerHandleMessage RunnerOrchestrator.controllerHandleMessage
  rw [hmode]
  by_cases hlate : msg.type = .submit ∧ w.state.isShuttingDown = true
  · rw [if_pos hlate, if_pos hlate]
    exact ⟨_, rfl, h.world fun _ _ _ => rfl⟩
  · rw [if_neg hlate, if_neg hlate]
    obtain ⟨c₁, hc₁, h₁⟩ := h.when (msg.type = .submit) fun h => h.handleSubmit place env msg
    obtain ⟨c₂, hc₂, h₂⟩ := h₁.when (msg.type = .done) fun h => h.handleDone place env msg
    obtain ⟨c₃, hc₃, h₃⟩ := h₂.when (msg.type = .statusReq) fun h => h.handleStatusReq env msg
    have hasked := h₃.mode (msg.type = .shutdownReq)
      (f := fun c => { c with world := handleShutdownReq msg c.world })
      (g := handleShutdownReq msg) fun h => h.world fun _ _ _ => rfl
    have hfinish := hasked.tryFinishShutdown env
    simp only [hc₁, hc₂, hc₃, Option.bind_some]
    exact ⟨_, congrArg some (Prod.ext hfinish.1 rfl), hfinish.2⟩

/-- The run of the main loop over any messages. -/
theorem Models.runMessages (h : Models c w rest) (place : Placement) (env : Env)
    (msgs : List RpcMessage) :
    ∃ c', runMessages place env msgs c = some c' ∧
      Models c' (RunnerOrchestrator.runMessages env msgs w) rest := by
  induction msgs generalizing c w with
  | nil => exact ⟨c, rfl, h⟩
  | cons msg msgs ih =>
      obtain ⟨c₁, hc₁, h₁⟩ := h.controllerHandleMessage place env msg
      obtain ⟨c', hc', h'⟩ := ih h₁
      exact ⟨c', by rw [HeapController.runMessages, hc₁, Option.bind_some, hc'], h'⟩

end Models

/-- Whatever messages arrive, whichever calls of the system fail and wherever the nodes are
put, the controller with its queues in the heap never follows a pointer it should not, its
loops end, and it does what the controller on lists does: the two chains of nodes hold the
two lists, and all the rest, the events included, is the same. Then destroying the queues
leaves the heap as the controller found it. -/
theorem heapController_refines (place : Placement) (env : Env) (argv : List CString)
    (heap : Store JobInfo) (hheap : heap.inUse.Finite) (msgs : List RpcMessage) :
    ∃ c waiting running, runMessages place env msgs (controllerStart argv heap) = some c ∧
      Segment c.heap c.waiting.head waiting none ∧ Segment c.heap c.running.head running none ∧
      RunnerOrchestrator.runMessages env msgs (RunnerOrchestrator.controllerStart argv) =
        withQueues c.world (values waiting) (values running) ∧
      controllerDestroyQueues c = some heap := by
  have hstart : Models (controllerStart argv heap) (RunnerOrchestrator.controllerStart argv) heap :=
    ⟨hheap, [], [], layout_start argv heap, rfl⟩
  obtain ⟨c, hc, hmodels⟩ := hstart.runMessages place env msgs
  obtain ⟨-, cw, cr, hlayout, hworld⟩ := hmodels
  obtain ⟨t, hwaiting, -⟩ := hlayout.waiting
  obtain ⟨t', hrunning, -⟩ := hlayout.running
  exact ⟨c, cw, cr, hc, hwaiting.represents.holds.segment, hrunning.represents.holds.segment,
    hworld, hlayout.destroy⟩

/-- Any place that is free. -/
noncomputable def Placement.anywhere : Placement where
  place _ heap := Classical.epsilon fun r => heap r = none
  fresh _ heap hheap := by
    obtain ⟨r, hr⟩ := hheap.exists_notMem
    exact Classical.epsilon_spec (p := fun r => heap r = none) ⟨r, by_contra hr⟩

theorem finite_empty : (Store.empty : Store JobInfo).inUse.Finite :=
  Set.finite_empty.subset fun _ hr => absurd rfl hr

/-- One slot and two submissions, in an empty heap. -/
theorem heapController_refines_two_jobs :
    ∃ c waiting running,
      runMessages .anywhere .calm [{ RpcMessage.zero with type := .submit, commandId := 1 },
        { RpcMessage.zero with type := .submit, commandId := 2 }]
        (controllerStart [[], text "1"] .empty) = some c ∧
      Segment c.heap c.waiting.head waiting none ∧ Segment c.heap c.running.head running none ∧
      RunnerOrchestrator.runMessages .calm [{ RpcMessage.zero with type := .submit, commandId := 1 },
        { RpcMessage.zero with type := .submit, commandId := 2 }]
        (RunnerOrchestrator.controllerStart [[], text "1"]) =
          withQueues c.world (values waiting) (values running) ∧
      controllerDestroyQueues c = some .empty :=
  heapController_refines .anywhere .calm [[], text "1"] .empty finite_empty _

end RunnerOrchestrator.HeapController
