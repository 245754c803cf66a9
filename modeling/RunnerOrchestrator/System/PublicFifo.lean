import RunnerOrchestrator.Controller.Shutdown
import RunnerOrchestrator.Foundation.TransitionSystem

/-! # The public FIFO across reopenings

The controller closes and reopens the FIFO whenever it reads end of file. Runners
open, write once and close at any point in between. What is unread when the last
descriptor goes is discarded.
-/

namespace RunnerOrchestrator.PublicFifo

/-- The controller's main loop. In `opening` it is blocked in `open`; the flag says
whether a writer has the FIFO open or has had it open since. -/
inductive Loop
  | atOpen
  | opening (met : Bool)
  | reading
  | atClose
  | left
deriving Repr, DecidableEq

/-- One `ipc_send_atomic`, from the return of its `open` on. In `broken` SIGPIPE has killed the
runner in its write, and its descriptor is not closed yet. -/
inductive Sender
  | opened (msg : RpcMessage)
  | written (msg : RpcMessage)
  | broken
  | succeeded (msg : RpcMessage)
  | failed
deriving Repr, DecidableEq

/-- Has a descriptor on the FIFO. -/
def Sender.holds : Sender → Bool
  | .opened _ | .written _ | .broken => true
  | .succeeded _ | .failed => false

/-- The message of a successful write. -/
def Sender.sent? : Sender → Option RpcMessage
  | .written msg | .succeeded msg => some msg
  | .opened _ | .broken | .failed => none

/-- Senders are numbered in the order in which they opened the FIFO, and messages
carry the number of their sender. -/
structure State where
  loop : Loop
  senders : List Sender
  buffer : List (Nat × RpcMessage)
  handled : List (Nat × RpcMessage)
  world : World

def Loop.holds : Loop → Bool
  | .opening _ | .reading | .atClose => true
  | .atOpen | .left => false

def State.writerOpen (s : State) : Bool := s.senders.any Sender.holds

/-- The FIFO after a `close`: unread bytes go with the last descriptor. -/
def State.settle (s : State) : State :=
  if s.loop.holds || s.writerOpen then s else { s with buffer := [] }

inductive Label
  | arrive
  | openFor (msg : RpcMessage)
  | enter
  | write (i : Nat)
  | close (i : Nat)
  | read
  | eof
  | shut
deriving Repr, DecidableEq

inductive Step (env : Env) (s : State) : Label → State → Prop
  /-- The controller calls `open`; it will not block if a writer is there. -/
  | arrive (hloop : s.loop = .atOpen) (hrun : s.world.state.keepRunning = true) :
      Step env s .arrive { s with loop := .opening s.writerOpen }
  /-- A runner's `open` returns; a blocked controller is woken. -/
  | openFor (msg : RpcMessage) (hreader : s.loop.holds = true) :
      Step env s (.openFor msg)
        { s with
          senders := s.senders ++ [.opened msg]
          loop := if s.loop = .opening false then .opening true else s.loop }
  /-- The controller's `open` returns. -/
  | enter (hloop : s.loop = .opening true) : Step env s .enter { s with loop := .reading }
  | write {i : Nat} {msg : RpcMessage} (hsender : s.senders[i]? = some (.opened msg))
      (hreader : s.loop.holds = true) :
      Step env s (.write i)
        { s with senders := s.senders.set i (.written msg), buffer := s.buffer ++ [(i, msg)] }
  /-- Without a reader the write kills the runner. -/
  | breaks {i : Nat} {msg : RpcMessage} (hsender : s.senders[i]? = some (.opened msg))
      (hreader : s.loop.holds = false) :
      Step env s (.write i) { s with senders := s.senders.set i .broken }
  /-- `ipc_send_atomic` returns success. -/
  | close {i : Nat} {msg : RpcMessage} (hsender : s.senders[i]? = some (.written msg)) :
      Step env s (.close i) (State.settle { s with senders := s.senders.set i (.succeeded msg) })
  /-- The system closes the descriptor of the killed runner. -/
  | giveUp {i : Nat} (hsender : s.senders[i]? = some .broken) :
      Step env s (.close i) (State.settle { s with senders := s.senders.set i .failed })
  | read {i : Nat} {msg : RpcMessage} {rest : List (Nat × RpcMessage)}
      (hloop : s.loop = .reading) (hbuffer : s.buffer = (i, msg) :: rest) :
      Step env s .read
        { s with
          buffer := rest, handled := s.handled ++ [(i, msg)]
          world := (controllerHandleMessage env msg s.world).2
          loop := if (controllerHandleMessage env msg s.world).1 then .atClose else .reading }
  | eof (hloop : s.loop = .reading) (hbuffer : s.buffer = []) (hwriter : s.writerOpen = false) :
      Step env s .eof { s with loop := .atClose }
  /-- The controller closes and tests `keep_running`. -/
  | shut (hloop : s.loop = .atClose) :
      Step env s .shut
        (State.settle
          { s with loop := if s.world.state.keepRunning then .atOpen else .left })

def start (argv : List CString) : State := ⟨.atOpen, [], [], [], controllerStart argv⟩

def system (env : Env) (argv : List CString) : TransitionSystem State Label :=
  { init := fun s => s = start argv, step := Step env }

/-- While the controller runs, every message whose send succeeded has been handled once
or is unread in the FIFO. -/
def Accounted (s : State) : Prop :=
  s.world.state.keepRunning = true → ∀ i msg, s.senders[i]? = some (.succeeded msg) →
    s.handled.count (i, msg) + s.buffer.count (i, msg) = 1

/-- While the controller runs, a descriptor is closed only if another one is open or
nothing is unread. -/
def KeepsUnread (s : State) (l : Label) : Prop :=
  s.world.state.keepRunning = true →
    match l with
    | .shut => s.writerOpen = true ∨ s.buffer = []
    | .close i => s.loop.holds = true ∨
        (∃ j sender, j ≠ i ∧ s.senders[j]? = some sender ∧ sender.holds = true) ∨ s.buffer = []
    | .arrive | .openFor _ | .enter | .write _ | .read | .eof => True

/-! ## Senders -/

/-- The message that sender `i` has written. -/
def State.sentBy (s : State) (i : Nat) : Option RpcMessage := s.senders[i]?.bind Sender.sent?

@[simp] theorem settle_senders (s : State) : s.settle.senders = s.senders := by
  unfold State.settle
  split <;> rfl

@[simp] theorem settle_handled (s : State) : s.settle.handled = s.handled := by
  unfold State.settle
  split <;> rfl

@[simp] theorem settle_world (s : State) : s.settle.world = s.world := by
  unfold State.settle
  split <;> rfl

theorem settle_buffer_of_holds {s : State} (h : s.loop.holds = true ∨ s.writerOpen = true) :
    s.settle.buffer = s.buffer := by
  unfold State.settle
  rw [if_pos (by simpa using h)]

theorem settle_buffer_of_empty {s : State} (h : s.buffer = []) : s.settle.buffer = s.buffer := by
  unfold State.settle
  split
  · rfl
  · exact h.symm

theorem settle_buffer_last {s : State} (hl : s.loop.holds = false) (hw : s.writerOpen = false) :
    s.settle.buffer = [] := by
  simp [State.settle, hl, hw]

theorem writerOpen_iff {s : State} :
    s.writerOpen = true ↔
      ∃ (i : Nat) (sender : Sender), s.senders[i]? = some sender ∧ sender.holds = true := by
  simp only [State.writerOpen, List.any_eq_true, List.mem_iff_getElem?]
  constructor
  · intro h
    obtain ⟨sender, ⟨i, hi⟩, hholds⟩ := h
    exact ⟨i, sender, hi, hholds⟩
  · intro h
    obtain ⟨i, sender, hi, hholds⟩ := h
    exact ⟨sender, ⟨i, hi⟩, hholds⟩

/-- With no writer left, a message written is a message sent. -/
theorem succeeded_of_sentBy {s : State} {i : Nat} {msg : RpcMessage}
    (hw : s.writerOpen = false) (h : s.sentBy i = some msg) :
    s.senders[i]? = some (.succeeded msg) := by
  obtain ⟨sender, hsender, hsent⟩ := Option.bind_eq_some_iff.mp h
  cases sender with
  | succeeded m =>
      obtain rfl : m = msg := by simpa [Sender.sent?] using hsent
      exact hsender
  | written m =>
      have hopen : s.writerOpen = true := writerOpen_iff.mpr ⟨i, _, hsender, rfl⟩
      rw [hw] at hopen
      cases hopen
  | opened m => simp [Sender.sent?] at hsent
  | broken => simp [Sender.sent?] at hsent
  | failed => simp [Sender.sent?] at hsent

/-! ## The invariant -/

/-- Each message written is in exactly one place, once. -/
structure Placed (s : State) : Prop where
  nodup : (s.handled ++ s.buffer).Nodup
  mem_iff : ∀ i msg, (i, msg) ∈ s.handled ++ s.buffer ↔ s.sentBy i = some msg

/-- Nothing but the order of handled and unread messages has changed. -/
theorem Placed.perm {s s' : State} (h : Placed s)
    (hplaces : (s'.handled ++ s'.buffer).Perm (s.handled ++ s.buffer))
    (hsent : ∀ i, s'.sentBy i = s.sentBy i) : Placed s' := by
  refine ⟨hplaces.nodup_iff.mpr h.nodup, fun i msg => ?_⟩
  rw [hplaces.mem_iff, hsent]
  exact h.mem_iff i msg

theorem Placed.congr {s s' : State} (h : Placed s)
    (hplaces : s'.handled ++ s'.buffer = s.handled ++ s.buffer)
    (hsent : ∀ i, s'.sentBy i = s.sentBy i) : Placed s' :=
  h.perm (by rw [hplaces]) hsent

theorem sentBy_set {s : State} {i : Nat} {old : Sender} (new : Sender)
    (hold : s.senders[i]? = some old) (heq : new.sent? = old.sent?) (j : Nat) :
    (s.senders.set i new)[j]?.bind Sender.sent? = s.sentBy j := by
  by_cases hj : i = j
  · subst hj
    have hlt : i < s.senders.length := (List.getElem?_eq_some_iff.mp hold).choose
    simp [State.sentBy, List.getElem?_set_self hlt, hold, heq]
  · simp [State.sentBy, List.getElem?_set_ne hj]

theorem sentBy_append (senders : List Sender) (msg : RpcMessage) (j : Nat) :
    (senders ++ [.opened msg])[j]?.bind Sender.sent? = senders[j]?.bind Sender.sent? := by
  rcases Nat.lt_trichotomy j senders.length with hlt | heq | hgt
  · rw [List.getElem?_append_left hlt]
  · subst heq
    simp [Sender.sent?]
  · rw [List.getElem?_eq_none (by simp; omega), List.getElem?_eq_none (by omega)]

theorem Placed.write {s : State} {i : Nat} {msg : RpcMessage} (h : Placed s)
    (hsender : s.senders[i]? = some (.opened msg)) :
    Placed { s with senders := s.senders.set i (.written msg), buffer := s.buffer ++ [(i, msg)] } := by
  have hlt : i < s.senders.length := (List.getElem?_eq_some_iff.mp hsender).choose
  have hnone : s.sentBy i = none := by simp [State.sentBy, hsender, Sender.sent?]
  have hfresh : ∀ m, (i, m) ∉ s.handled ++ s.buffer := fun m hmem => by
    rw [h.mem_iff, hnone] at hmem
    cases hmem
  refine ⟨?_, fun j m => ?_⟩
  · show (s.handled ++ (s.buffer ++ [(i, msg)])).Nodup
    rw [← List.append_assoc, ← List.concat_eq_append]
    exact h.nodup.concat (hfresh msg)
  · show (j, m) ∈ s.handled ++ (s.buffer ++ [(i, msg)]) ↔
      (s.senders.set i (.written msg))[j]?.bind Sender.sent? = some m
    rw [← List.append_assoc, List.mem_append, h.mem_iff, List.mem_singleton, Prod.mk.injEq]
    by_cases hj : i = j
    · subst hj
      simp [hnone, List.getElem?_set_self hlt, Sender.sent?, eq_comm]
    · simp [State.sentBy, List.getElem?_set_ne hj, Ne.symm hj]

theorem Placed.settle {s : State} (h : Placed s)
    (hkeep : s.loop.holds = true ∨ s.writerOpen = true ∨ s.buffer = []) : Placed s.settle := by
  apply h.congr
  · rw [settle_handled]
    rcases hkeep with hl | hw | hb
    · rw [settle_buffer_of_holds (Or.inl hl)]
    · rw [settle_buffer_of_holds (Or.inr hw)]
    · rw [settle_buffer_of_empty hb]
  · intro i
    simp [State.sentBy]

/-- Closing one descriptor while another writer has the FIFO open. -/
theorem writerOpen_set {s : State} {i j : Nat} {new sender : Sender} (hj : j ≠ i)
    (hsender : s.senders[j]? = some sender) (hholds : sender.holds = true) :
    State.writerOpen { s with senders := s.senders.set i new } = true :=
  writerOpen_iff.mpr ⟨j, sender, by simpa [List.getElem?_set_ne hj.symm] using hsender, hholds⟩

theorem Placed.closeSender {s : State} {i : Nat} {old new : Sender} (h : Placed s)
    (hold : s.senders[i]? = some old) (heq : new.sent? = old.sent?)
    (hguard : s.loop.holds = true ∨
      (∃ j sender, j ≠ i ∧ s.senders[j]? = some sender ∧ sender.holds = true) ∨ s.buffer = []) :
    Placed (State.settle { s with senders := s.senders.set i new }) := by
  have hset : Placed { s with senders := s.senders.set i new } :=
    h.congr rfl fun j => sentBy_set new hold heq j
  apply hset.settle
  rcases hguard with hl | ⟨j, sender, hj, hsender, hholds⟩ | hb
  · exact Or.inl hl
  · exact Or.inr (Or.inl (writerOpen_set hj hsender hholds))
  · exact Or.inr (Or.inr hb)

theorem Placed.step {env : Env} {s s' : State} {l : Label} (h : Placed s) (hs : Step env s l s')
    (hrun : s.world.state.keepRunning = true) (hguard : KeepsUnread s l) : Placed s' := by
  have hguard := hguard hrun
  cases hs with
  | arrive hloop hrun => exact h.congr rfl fun _ => rfl
  | openFor msg hreader => exact h.congr rfl fun j => sentBy_append s.senders msg j
  | enter hloop => exact h.congr rfl fun _ => rfl
  | write hsender hreader => exact h.write hsender
  | breaks hsender hreader => exact h.congr rfl fun j => sentBy_set .broken hsender rfl j
  | close hsender => exact h.closeSender hsender rfl hguard
  | giveUp hsender => exact h.closeSender hsender rfl hguard
  | read hloop hbuffer => exact h.congr (by simp [hbuffer]) fun _ => rfl
  | eof hloop hbuffer hwriter => exact h.congr rfl fun _ => rfl
  | shut hloop =>
      have hshut : Placed { s with loop := if s.world.state.keepRunning then .atOpen else .left } :=
        h.congr rfl fun _ => rfl
      exact hshut.settle (Or.inr hguard)

theorem Placed.accounted {s : State} (h : Placed s) {i : Nat} {msg : RpcMessage}
    (hsender : s.senders[i]? = some (.succeeded msg)) :
    s.handled.count (i, msg) + s.buffer.count (i, msg) = 1 := by
  have hmem : (i, msg) ∈ s.handled ++ s.buffer :=
    (h.mem_iff i msg).mpr (by simp [State.sentBy, hsender, Sender.sent?])
  rw [← List.count_append]
  exact List.count_eq_one_of_mem h.nodup hmem

/-! ## Discarded messages -/

/-- What is unread when the last descriptor is closed is lost. -/
theorem lost_of_settle {s : State} (h : Placed s) (hl : s.loop.holds = false)
    (hw : s.writerOpen = false) (hb : s.buffer ≠ [])
    (hrun : s.world.state.keepRunning = true) : ¬ Accounted s.settle := by
  intro hacc
  obtain ⟨⟨i, msg⟩, hmem⟩ := List.exists_mem_of_ne_nil _ hb
  have hsent : s.sentBy i = some msg := (h.mem_iff i msg).mp (List.mem_append_right _ hmem)
  have hunhandled : (i, msg) ∉ s.handled := fun hin =>
    (List.nodup_append.mp h.nodup).2.2 _ hin _ hmem rfl
  have hone := hacc (by simpa using hrun) i msg (by simpa using succeeded_of_sentBy hw hsent)
  rw [settle_handled, settle_buffer_last hl hw, List.count_eq_zero.mpr hunhandled,
    List.count_nil] at hone
  omega

theorem lost_of_close {s : State} {i : Nat} {old new : Sender} (h : Placed s)
    (hold : s.senders[i]? = some old) (heq : new.sent? = old.sent?) (hnew : new.holds = false)
    (hrun : s.world.state.keepRunning = true)
    (hbad : ¬ (s.loop.holds = true ∨
      (∃ j sender, j ≠ i ∧ s.senders[j]? = some sender ∧ sender.holds = true) ∨ s.buffer = [])) :
    ¬ Accounted (State.settle { s with senders := s.senders.set i new }) := by
  simp only [not_or] at hbad
  obtain ⟨hl, hothers, hb⟩ := hbad
  have hset : Placed { s with senders := s.senders.set i new } :=
    h.congr rfl fun j => sentBy_set new hold heq j
  refine lost_of_settle hset (by simpa using hl) ?_ hb hrun
  rw [← Bool.not_eq_true, writerOpen_iff]
  intro hopen
  obtain ⟨j, sender, hsender, hholds⟩ := hopen
  by_cases hj : i = j
  · subst hj
    have hlt : i < s.senders.length := (List.getElem?_eq_some_iff.mp hold).choose
    obtain rfl : new = sender := by simpa [List.getElem?_set_self hlt] using hsender
    rw [hnew] at hholds
    cases hholds
  · exact hothers ⟨j, sender, Ne.symm hj, by simpa [List.getElem?_set_ne hj] using hsender, hholds⟩

/-- A step never turns `keep_running` on. -/
theorem keepRunning_of_step {env : Env} {s s' : State} {l : Label} (hs : Step env s l s')
    (h : s'.world.state.keepRunning = true) : s.world.state.keepRunning = true := by
  cases hs with
  | read hloop hbuffer =>
      rw [controllerHandleMessage_keepRunning, Bool.and_eq_true] at h
      exact h.1
  | close hsender => simpa using h
  | giveUp hsender => simpa using h
  | shut hloop => simpa using h
  | _ => exact h

/-! ## The cycle -/

/-- Where the controller is in its loop, and what the FIFO holds there. -/
structure Cycle (s : State) : Prop where
  running : s.loop ≠ .atClose → (s.world.state.keepRunning = true ↔ s.loop ≠ .left)
  drained : s.loop.holds = false → s.writerOpen = false → s.buffer = []
  blocked : s.loop = .opening false → s.writerOpen = false ∧ s.buffer = []

@[simp] theorem settle_loop (s : State) : s.settle.loop = s.loop := by
  unfold State.settle
  split <;> rfl

@[simp] theorem settle_writerOpen (s : State) : s.settle.writerOpen = s.writerOpen := by
  simp [State.writerOpen]

theorem settle_sublist (s : State) : s.settle.buffer.Sublist s.buffer := by
  unfold State.settle
  split
  · exact List.Sublist.refl _
  · exact List.nil_sublist _

theorem writerOpen_of_sender {s : State} {i : Nat} {sender : Sender}
    (hsender : s.senders[i]? = some sender) (hholds : sender.holds = true) :
    s.writerOpen = true :=
  writerOpen_iff.mpr ⟨i, sender, hsender, hholds⟩

/-- A sender has closed: nobody is blocked in `open` while it still had the FIFO open. -/
theorem Cycle.closeSender {s : State} {i : Nat} {old : Sender} (new : Sender) (h : Cycle s)
    (hold : s.senders[i]? = some old) (hholds : old.holds = true) :
    Cycle (State.settle { s with senders := s.senders.set i new }) := by
  refine ⟨by simpa using h.running, fun hl hw => ?_, fun hblocked => ?_⟩
  · exact settle_buffer_last (by simpa using hl) (by simpa using hw)
  · have hopen := writerOpen_of_sender hold hholds
    rw [(h.blocked (by simpa using hblocked)).1] at hopen
    cases hopen

theorem Cycle.step {env : Env} {s s' : State} {l : Label} (h : Cycle s) (hs : Step env s l s') :
    Cycle s' := by
  cases hs with
  | arrive hloop hrun =>
      refine ⟨fun _ => by simp [hrun], fun hl => by simp [Loop.holds] at hl, fun hblocked => ?_⟩
      have hw : s.writerOpen = false := by simpa using hblocked
      exact ⟨hw, h.drained (by rw [hloop]; rfl) hw⟩
  | openFor msg hreader =>
      by_cases hblocked : s.loop = .opening false
      · have hrunning := h.running (by simp [hblocked])
        refine ⟨fun _ => ?_, fun hl => ?_, fun hl => ?_⟩
        · simpa [hblocked] using hrunning
        · simp [hblocked, Loop.holds] at hl
        · simp [hblocked] at hl
      · refine ⟨by simpa [hblocked] using h.running, fun hl => ?_, fun hl => ?_⟩
        · simp [hblocked, hreader] at hl
        · simp [hblocked] at hl
  | enter hloop =>
      have hrunning := h.running (by simp [hloop])
      exact ⟨fun _ => by simpa [hloop] using hrunning, nofun, nofun⟩
  | @write i msg hsender hreader =>
      refine ⟨h.running, fun hl => ?_, fun hl => ?_⟩
      · rw [show s.loop.holds = false from hl] at hreader
        cases hreader
      · have hopen := writerOpen_of_sender hsender rfl
        rw [(h.blocked hl).1] at hopen
        cases hopen
  | @breaks i msg hsender hreader =>
      have hlt : i < s.senders.length := (List.getElem?_eq_some_iff.mp hsender).choose
      refine ⟨h.running, fun _ hw => ?_, fun hl => ?_⟩
      · have hopen : State.writerOpen { s with senders := s.senders.set i .broken } = true :=
          writerOpen_of_sender (List.getElem?_set_self hlt) rfl
        rw [hw] at hopen
        cases hopen
      · rw [show s.loop = .opening false from hl] at hreader
        cases hreader
  | close hsender => exact h.closeSender _ hsender rfl
  | giveUp hsender => exact h.closeSender _ hsender rfl
  | @read i msg rest hloop hbuffer =>
      have hrun : s.world.state.keepRunning = true := (h.running (by simp [hloop])).mpr (by simp [hloop])
      have hkeep := controllerHandleMessage_keepRunning env msg s.world
      rw [hrun] at hkeep
      cases hret : (controllerHandleMessage env msg s.world).1 with
      | true => exact ⟨fun hl => absurd rfl hl, nofun, nofun⟩
      | false =>
          rw [hret] at hkeep
          exact ⟨fun _ => by simpa using hkeep, nofun, nofun⟩
  | eof hloop hbuffer hwriter =>
      exact ⟨fun hl => absurd rfl hl, fun _ _ => hbuffer, nofun⟩
  | shut hloop =>
      refine ⟨fun _ => ?_, fun hl hw => ?_, fun hl => ?_⟩
      · cases hrun : s.world.state.keepRunning <;> simp [hrun]
      · exact settle_buffer_last (by simpa using hl) (by simpa using hw)
      · cases hrun : s.world.state.keepRunning <;> simp [hrun] at hl

theorem cycle_of_reachable {env : Env} {argv : List CString} {s : State}
    (h : TransitionSystem.Reachable (system env argv) s) : Cycle s := by
  refine h.invariant (fun s hs => ?_) fun s l s' hcycle hstep => hcycle.step hstep
  rw [show s = start argv from hs]
  exact ⟨fun _ => ⟨fun _ => nofun, fun _ => rfl⟩, fun _ _ => rfl, nofun⟩

/-! ## Along a run -/

theorem exactGuard (env : Env) (argv : List CString) :
    TransitionSystem.ExactGuard (system env argv) Accounted KeepsUnread
      (fun s => s.world.state.keepRunning = true → Placed s) := by
  refine ⟨?_, ?_, ?_, ?_⟩
  · rintro s rfl -
    exact ⟨List.nodup_nil, by simp [start, State.sentBy]⟩
  · intro s l s' hinv hstep hguard hrun
    have hrun' := keepRunning_of_step hstep hrun
    exact (hinv hrun').step hstep hrun' hguard
  · intro s hinv hrun i msg hsender
    exact (hinv hrun).accounted hsender
  · intro s l s' hinv hstep hbad
    have hrun : s.world.state.keepRunning = true := by
      by_contra hstop
      exact hbad fun hgo => absurd hgo hstop
    have hplaced := hinv hrun
    have hbad' : ¬ _ := fun hgood => hbad fun _ => hgood
    cases hstep with
    | close hsender => exact lost_of_close hplaced hsender rfl rfl hrun hbad'
    | giveUp hsender => exact lost_of_close hplaced hsender rfl rfl hrun hbad'
    | shut hloop =>
        simp only [not_or] at hbad'
        have hshut : Placed { s with loop := if s.world.state.keepRunning then .atOpen else .left } :=
          hplaced.congr rfl fun _ => rfl
        have hwriter : s.writerOpen = false := by simpa using hbad'.1
        exact lost_of_settle hshut (by simp [hrun, Loop.holds]) hwriter hbad'.2 hrun
    | _ => exact absurd trivial hbad'

/-- Along a run no message is lost exactly if no step closes the last descriptor of the
FIFO while a message is unread. -/
theorem no_message_lost_iff (env : Env) (argv : List CString) {past : List (State × Label)}
    {s : State} (h : TransitionSystem.Run (system env argv) past s) :
    (∀ t ∈ TransitionSystem.statesOf past s, Accounted t) ↔ ∀ t ∈ past, KeepsUnread t.1 t.2 :=
  (exactGuard env argv).run_iff h

/-- One send, read while the FIFO is open. -/
theorem no_message_lost_iff_one_send :
    ∃ past s, TransitionSystem.Run (system .calm [text "controller"]) past s ∧
      s.handled.map Prod.fst = [0] ∧
      ((∀ t ∈ TransitionSystem.statesOf past s, Accounted t) ↔
        ∀ t ∈ past, KeepsUnread t.1 t.2) := by
  have hstart : TransitionSystem.Run (system .calm [text "controller"]) [] (start _) := .init rfl
  have harrive := hstart.step (Step.arrive rfl rfl)
  have hopen := harrive.step (Step.openFor (submitMsg 11 1 (text "a")) rfl)
  have henter := hopen.step (Step.enter rfl)
  have hwrite := henter.step (Step.write (i := 0) rfl rfl)
  have hclose := hwrite.step (Step.close (i := 0) rfl)
  have hread := hclose.step (Step.read rfl rfl)
  exact ⟨_, _, hread, rfl, no_message_lost_iff .calm [text "controller"] hread⟩

/-- The second runner opens, writes and closes between the controller's end of file and
its `close`: its send succeeds and its SUBMIT is gone. -/
theorem submit_lost_before_reopen :
    ∃ past s, TransitionSystem.Run (system .calm [text "controller"]) past s ∧
      s.world.state.keepRunning = true ∧
      s.senders[1]? = some (.succeeded (submitMsg 12 2 (text "b"))) ∧
      s.handled.map Prod.fst = [0] ∧ s.buffer = [] ∧
      ¬ ∀ t ∈ TransitionSystem.statesOf past s, Accounted t := by
  have hstart : TransitionSystem.Run (system .calm [text "controller"]) [] (start _) := .init rfl
  have harrive := hstart.step (Step.arrive rfl rfl)
  have hopen := harrive.step (Step.openFor (submitMsg 11 1 (text "a")) rfl)
  have henter := hopen.step (Step.enter rfl)
  have hwrite := henter.step (Step.write (i := 0) rfl rfl)
  have hclose := hwrite.step (Step.close (i := 0) rfl)
  have hread := hclose.step (Step.read rfl rfl)
  have heof := hread.step (Step.eof rfl rfl rfl)
  have hopen' := heof.step (Step.openFor (submitMsg 12 2 (text "b")) rfl)
  have hwrite' := hopen'.step (Step.write (i := 1) rfl rfl)
  have hclose' := hwrite'.step (Step.close (i := 1) rfl)
  have hshut := hclose'.step (Step.shut rfl)
  refine ⟨_, _, hshut, rfl, rfl, rfl, rfl, fun hall => ?_⟩
  have hone := hall _ (List.mem_append_right _ (List.mem_singleton_self _)) rfl 1 _ rfl
  revert hone
  decide

end RunnerOrchestrator.PublicFifo
