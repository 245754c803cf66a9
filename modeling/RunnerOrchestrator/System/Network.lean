import RunnerOrchestrator.System.Progress
import RunnerOrchestrator.System.PublicFifo

/-! # The runners on the public FIFO

The requests and DONEs of the runners go through the FIFO that the controller opens and
closes: a message is lost where the FIFO discards it, and a runner that writes while the
controller has it closed is killed. On the level of phases the lost messages are those that
stay unread for ever.
-/

namespace RunnerOrchestrator.Network

open Orchestra (Phase askMsg endsWait newReplies isAskOf)
open PublicFifo (Sender Loop)
open Removal

/-- A runner's end of the public FIFO. -/
inductive Link
  | apart
  /-- From the return of `open` to that of `close`, in the send with this number. -/
  | on (i : Nat)
  /-- SIGPIPE has killed the runner. -/
  | killed
deriving DecidableEq

structure State where
  fifo : PublicFifo.State
  link : Int32 → Link
  phase : Int32 → Phase
  inbox : Int32 → List RpcMessage
  executions : Int32 → Nat

section

variable (env : Env) (requests : Int32 → RunnerRequest)

/-- What a runner sends in a phase, and its phase once this is written. -/
def outgoing (pid : Int32) : Phase → Option (RpcMessage × Phase)
  | .idle =>
      if (requests pid).mode = .execute then
        some (submitMsg pid (requests pid).userId (requests pid).command, .submitted)
      else some (askMsg requests pid, .asked)
  | .executed ackMsg => some (msgDone pid ackMsg, .notified)
  | .submitted | .executing _ | .notified | .rejected | .asked | .closed => none

inductive Label
  | opens (pid : Int32)
  | writes (pid : Int32)
  | breaks (pid : Int32)
  | closes (pid : Int32)
  | authorise (pid : Int32)
  | reject (pid : Int32)
  | finish (pid : Int32)
  | reply (pid : Int32)
  | controller (l : PublicFifo.Label)
  | handle

/-- Steps of the controller's loop other than a read. -/
def ofLoop : PublicFifo.Label → Bool
  | .arrive | .enter | .eof | .shut => true
  | .openFor _ | .write _ | .close _ | .read => false

inductive Step (s : State) : Label → State → Prop
  | opens (pid : Int32) {msg : RpcMessage} {next : Phase} {fifo : PublicFifo.State}
      (hlink : s.link pid = .apart) (hout : outgoing requests pid (s.phase pid) = some (msg, next))
      (hfifo : PublicFifo.Step env s.fifo (.openFor msg) fifo) :
      Step s (.opens pid)
        { s with fifo := fifo, link := Function.update s.link pid (.on s.fifo.senders.length) }
  | writes (pid : Int32) {i : Nat} {msg : RpcMessage} {next : Phase} {fifo : PublicFifo.State}
      (hlink : s.link pid = .on i) (hout : outgoing requests pid (s.phase pid) = some (msg, next))
      (hreader : s.fifo.loop.holds = true) (hfifo : PublicFifo.Step env s.fifo (.write i) fifo) :
      Step s (.writes pid) { s with fifo := fifo, phase := Function.update s.phase pid next }
  /-- SIGPIPE kills the runner, and the system closes its descriptor. -/
  | breaks (pid : Int32) {i : Nat} {broken fifo : PublicFifo.State}
      (hlink : s.link pid = .on i) (hreader : s.fifo.loop.holds = false)
      (hwrite : PublicFifo.Step env s.fifo (.write i) broken)
      (hclose : PublicFifo.Step env broken (.close i) fifo) :
      Step s (.breaks pid) { s with fifo := fifo, link := Function.update s.link pid .killed }
  | closes (pid : Int32) {i : Nat} {fifo : PublicFifo.State} (hlink : s.link pid = .on i)
      (hfifo : PublicFifo.Step env s.fifo (.close i) fifo) :
      Step s (.closes pid) { s with fifo := fifo, link := Function.update s.link pid .apart }
  /-- The first message read is an ACK: on to the command. -/
  | authorise (pid : Int32) {msg : RpcMessage} {rest : List RpcMessage}
      (hlink : s.link pid = .apart) (hphase : s.phase pid = .submitted)
      (hread : Removes (s.inbox pid) msg rest) (hack : isAuthorised msg = true) :
      Step s (.authorise pid)
        { s with
          phase := Function.update s.phase pid (.executing msg)
          inbox := Function.update s.inbox pid rest
          executions := Function.update s.executions pid (s.executions pid + 1) }
  | reject (pid : Int32) {msg : RpcMessage} {rest : List RpcMessage}
      (hlink : s.link pid = .apart) (hphase : s.phase pid = .submitted)
      (hread : Removes (s.inbox pid) msg rest) (hack : isAuthorised msg = false) :
      Step s (.reject pid)
        { s with
          phase := Function.update s.phase pid .rejected
          inbox := Function.update s.inbox pid rest }
  | finish (pid : Int32) {msg : RpcMessage} (hlink : s.link pid = .apart)
      (hphase : s.phase pid = .executing msg) :
      Step s (.finish pid) { s with phase := Function.update s.phase pid (.executed msg) }
  | reply (pid : Int32) {msg : RpcMessage} {rest : List RpcMessage}
      (hlink : s.link pid = .apart) (hphase : s.phase pid = .asked)
      (hread : Removes (s.inbox pid) msg rest) :
      Step s (.reply pid)
        { s with
          phase := Function.update s.phase pid (if endsWait requests pid msg then .closed else .asked)
          inbox := Function.update s.inbox pid rest }
  | controller {l : PublicFifo.Label} {fifo : PublicFifo.State} (hloop : ofLoop l = true)
      (hfifo : PublicFifo.Step env s.fifo l fifo) :
      Step s (.controller l) { s with fifo := fifo }
  | handle {fifo : PublicFifo.State} (hfifo : PublicFifo.Step env s.fifo .read fifo) :
      Step s .handle
        { s with
          fifo := fifo
          inbox := fun pid => s.inbox pid ++ newReplies s.fifo.world fifo.world pid }

def start (argv : List CString) : State :=
  { fifo := PublicFifo.start argv, link := fun _ => .apart, phase := fun _ => .idle
    inbox := fun _ => [], executions := fun _ => 0 }

def system (argv : List CString) : TransitionSystem State Label :=
  { init := fun s => s = start argv, step := Step env requests }

end

/-! ## The phases alone -/

/-- The system with phases holds every message that is written and not handled, be it in the
FIFO or lost. -/
structure Carries (s : State) (o : Orchestra.State) : Prop where
  phase : o.phase = s.phase
  inbox : o.inbox = s.inbox
  executions : o.executions = s.executions
  handled : o.handled = s.fifo.handled.map Prod.snd
  world : o.world = s.fifo.world
  left : o.left = !s.fifo.world.state.keepRunning
  unread : ∃ unread, o.server = unread.map Prod.snd ∧ s.fifo.buffer.Sublist unread ∧
    PublicFifo.Placed { s.fifo with buffer := unread }

/-- A step that handles nothing and writes nothing can only discard messages. -/
structure Discards (f f' : PublicFifo.State) : Prop where
  handled : f'.handled = f.handled
  world : f'.world = f.world
  buffer : f'.buffer.Sublist f.buffer
  sentBy : ∀ i, f'.sentBy i = f.sentBy i

section Simulation

variable {env : Env} {requests : Int32 → RunnerRequest} {s : State} {o : Orchestra.State}

theorem Discards.trans {f₁ f₂ f₃ : PublicFifo.State} (h₁ : Discards f₁ f₂) (h₂ : Discards f₂ f₃) :
    Discards f₁ f₃ :=
  ⟨h₂.handled.trans h₁.handled, h₂.world.trans h₁.world, h₂.buffer.trans h₁.buffer,
    fun i => (h₂.sentBy i).trans (h₁.sentBy i)⟩

theorem discards_closeSender {f : PublicFifo.State} {i : Nat} {old : Sender} (new : Sender)
    (hold : f.senders[i]? = some old) (heq : new.sent? = old.sent?) :
    Discards f (PublicFifo.State.settle { f with senders := f.senders.set i new }) :=
  ⟨by simp, by simp, PublicFifo.settle_sublist _, fun j => by
    simpa [PublicFifo.State.sentBy] using PublicFifo.sentBy_set new hold heq j⟩

theorem discards_close {f f' : PublicFifo.State} {i : Nat}
    (h : PublicFifo.Step env f (.close i) f') : Discards f f' := by
  cases h with
  | close hsender => exact discards_closeSender _ hsender rfl
  | giveUp hsender => exact discards_closeSender _ hsender rfl

theorem discards_openFor {f f' : PublicFifo.State} {msg : RpcMessage}
    (h : PublicFifo.Step env f (.openFor msg) f') : Discards f f' := by
  cases h with
  | openFor msg hreader =>
      exact ⟨rfl, rfl, List.Sublist.refl _, PublicFifo.sentBy_append f.senders msg⟩

theorem discards_ofLoop {f f' : PublicFifo.State} {l : PublicFifo.Label} (hl : ofLoop l = true)
    (h : PublicFifo.Step env f l f') : Discards f f' := by
  cases h with
  | arrive hloop hrun => exact ⟨rfl, rfl, List.Sublist.refl _, fun _ => rfl⟩
  | enter hloop => exact ⟨rfl, rfl, List.Sublist.refl _, fun _ => rfl⟩
  | eof hloop hbuffer hwriter => exact ⟨rfl, rfl, List.Sublist.refl _, fun _ => rfl⟩
  | shut hloop =>
      exact ⟨by simp, by simp, PublicFifo.settle_sublist _, fun i => by
        simp [PublicFifo.State.sentBy]⟩
  | _ => cases hl

theorem discards_breaks {f broken f' : PublicFifo.State} {i : Nat} (hreader : f.loop.holds = false)
    (hwrite : PublicFifo.Step env f (.write i) broken)
    (hclose : PublicFifo.Step env broken (.close i) f') : Discards f f' := by
  refine Discards.trans ?_ (discards_close hclose)
  cases hwrite with
  | write hsender hholds =>
      rw [hreader] at hholds
      cases hholds
  | breaks hsender _ =>
      exact ⟨rfl, rfl, List.Sublist.refl _, PublicFifo.sentBy_set .broken hsender rfl⟩

/-- Nothing is seen of such a step. -/
theorem Carries.discards (h : Carries s o) {fifo : PublicFifo.State} (hd : Discards s.fifo fifo)
    (link : Int32 → Link) : Carries { s with fifo := fifo, link := link } o := by
  obtain ⟨unread, hserver, hbuffer, hplaced⟩ := h.unread
  refine ⟨h.phase, h.inbox, h.executions, by rw [h.handled, hd.handled], by rw [h.world, hd.world],
    by rw [h.left, hd.world], unread, hserver, hd.buffer.trans hbuffer, ?_⟩
  refine hplaced.congr ?_ hd.sentBy
  show fifo.handled ++ unread = s.fifo.handled ++ unread
  rw [hd.handled]

end Simulation

/-! ## Runners and their sends -/

/-- What the FIFO and the phase of a runner say of its link. -/
def Link.Fits (requests : Int32 → RunnerRequest) (fifo : PublicFifo.State) (pid : Int32)
    (phase : Phase) : Link → Prop
  | .apart => True
  | .on i =>
      (∃ msg next, fifo.senders[i]? = some (.opened msg) ∧
        outgoing requests pid phase = some (msg, next)) ∨
      ∃ msg, fifo.senders[i]? = some (.written msg)
  | .killed => (outgoing requests pid phase).isSome = true

/-- Every open descriptor of the FIFO is that of the one runner whose send it is. -/
structure Linked (requests : Int32 → RunnerRequest) (s : State) : Prop where
  cycle : PublicFifo.Cycle s.fifo
  fits : ∀ pid, (s.link pid).Fits requests s.fifo pid (s.phase pid)
  once : ∀ pid q i, s.link pid = .on i → s.link q = .on i → pid = q
  held : ∀ i sender, s.fifo.senders[i]? = some sender → sender.holds = true → ∃ pid, s.link pid = .on i

section Linked

variable {env : Env} {argv : List CString} {requests : Int32 → RunnerRequest} {s : State}

theorem Link.Fits.lt {fifo : PublicFifo.State} {pid : Int32} {phase : Phase} {i : Nat}
    (h : (Link.on i).Fits requests fifo pid phase) : i < fifo.senders.length := by
  rcases h with ⟨msg, next, hsender, -⟩ | ⟨msg, hsender⟩
  · exact (List.getElem?_eq_some_iff.mp hsender).choose
  · exact (List.getElem?_eq_some_iff.mp hsender).choose

theorem Link.Fits.congr {link : Link} {fifo fifo' : PublicFifo.State} {pid : Int32} {phase : Phase}
    (h : link.Fits requests fifo pid phase)
    (hsenders : ∀ i, link = .on i → fifo'.senders[i]? = fifo.senders[i]?) :
    link.Fits requests fifo' pid phase := by
  cases link with
  | apart | killed => exact h
  | on i =>
      rw [Link.Fits, hsenders i rfl]
      exact h

/-- The link of one runner changes, and with it at most the send it is in or comes into. -/
theorem Linked.relink (h : Linked requests s) {pid : Int32} (link : Link) (phase : Phase)
    {fifo : PublicFifo.State} (hcycle : PublicFifo.Cycle fifo)
    (hmine : link.Fits requests fifo pid phase)
    (hothers : ∀ q i, q ≠ pid → s.link q = .on i →
      fifo.senders[i]? = s.fifo.senders[i]? ∧ link ≠ .on i)
    (hheld : ∀ i sender, fifo.senders[i]? = some sender → sender.holds = true →
      link = .on i ∨ ∃ q, q ≠ pid ∧ s.link q = .on i) :
    Linked requests
      { s with
        fifo := fifo
        link := Function.update s.link pid link
        phase := Function.update s.phase pid phase } := by
  refine ⟨hcycle, fun q => ?_, fun q r i hq hr => ?_, fun i sender hi hholds => ?_⟩
  · by_cases hpid : q = pid
    · subst hpid
      simpa using hmine
    · simp only [Function.update_of_ne hpid]
      exact (h.fits q).congr fun i hi => (hothers q i hpid hi).1
  · simp only [Function.update_apply] at hq hr
    split at hq
    · split at hr
      · simp [*]
      · rename_i hr'
        exact absurd hq (hothers r i hr' hr).2
    · rename_i hq'
      split at hr
      · exact absurd hr (hothers q i hq' hq).2
      · exact h.once q r i hq hr
  · rcases hheld i sender hi hholds with hlink | ⟨q, hpid, hq⟩
    · exact ⟨pid, by simpa using hlink⟩
    · exact ⟨q, by simpa [Function.update_of_ne hpid] using hq⟩

theorem Linked.opens (h : Linked requests s) {pid : Int32} {msg : RpcMessage} {next : Phase}
    (hlink : s.link pid = .apart) (hout : outgoing requests pid (s.phase pid) = some (msg, next))
    {fifo : PublicFifo.State} (hcycle : PublicFifo.Cycle fifo)
    (hsenders : fifo.senders = s.fifo.senders ++ [.opened msg]) :
    Linked requests
      { s with fifo := fifo, link := Function.update s.link pid (.on s.fifo.senders.length) } := by
  have hnew : fifo.senders[s.fifo.senders.length]? = some (.opened msg) := by
    rw [hsenders, List.getElem?_concat_length]
  have hsame : ∀ i, i < s.fifo.senders.length → fifo.senders[i]? = s.fifo.senders[i]? := by
    intro i hi
    rw [hsenders, List.getElem?_append_left hi]
  have hrelinked := h.relink (.on s.fifo.senders.length) (s.phase pid) hcycle
    (Or.inl ⟨msg, next, hnew, hout⟩) (fun q i _ hq => ?_) (fun i sender hi hholds => ?_)
  · simpa using hrelinked
  · have hlt : i < s.fifo.senders.length := by
      have hfits := h.fits q
      rw [hq] at hfits
      exact hfits.lt
    exact ⟨hsame i hlt, fun heq => absurd (Link.on.inj heq) (Nat.ne_of_gt hlt)⟩
  · by_cases hlt : i < s.fifo.senders.length
    · rw [hsame i hlt] at hi
      obtain ⟨q, hq⟩ := h.held i sender hi hholds
      refine Or.inr ⟨q, ?_, hq⟩
      rintro rfl
      rw [hlink] at hq
      cases hq
    · have hbound := (List.getElem?_eq_some_iff.mp hi).choose
      rw [hsenders, List.length_append, List.length_singleton] at hbound
      exact Or.inl (congrArg Link.on (by omega))

/-- The send of one runner goes on or ends. -/
theorem Linked.set (h : Linked requests s) {pid : Int32} {i : Nat} (new : Sender) (link : Link)
    (phase : Phase) (hlink : s.link pid = .on i) {fifo : PublicFifo.State}
    (hcycle : PublicFifo.Cycle fifo) (hsenders : fifo.senders = s.fifo.senders.set i new)
    (hmine : link.Fits requests fifo pid phase) (hnew : new.holds = true → link = .on i)
    (hlink' : ∀ j, link = .on j → j = i) :
    Linked requests
      { s with
        fifo := fifo
        link := Function.update s.link pid link
        phase := Function.update s.phase pid phase } := by
  have hlt : i < s.fifo.senders.length := by
    have hfits := h.fits pid
    rw [hlink] at hfits
    exact hfits.lt
  refine h.relink link phase hcycle hmine (fun q j hq hj => ?_) fun j sender hj hholds => ?_
  · have hne : j ≠ i := by
      rintro rfl
      exact hq (h.once q pid j hj hlink)
    exact ⟨by rw [hsenders, List.getElem?_set_ne hne.symm], fun heq => hne (hlink' j heq)⟩
  · by_cases hji : j = i
    · subst hji
      rw [hsenders, List.getElem?_set_self hlt, Option.some.injEq] at hj
      exact Or.inl (hnew (by rw [hj]; exact hholds))
    · rw [hsenders, List.getElem?_set_ne (Ne.symm hji)] at hj
      obtain ⟨q, hq⟩ := h.held j sender hj hholds
      refine Or.inr ⟨q, ?_, hq⟩
      rintro rfl
      rw [hlink] at hq
      exact hji (Link.on.inj hq).symm

/-- A runner that is in no send takes a step of its own. -/
theorem Linked.runner (h : Linked requests s) {pid : Int32} (hlink : s.link pid = .apart)
    (phase : Phase) (inbox : Int32 → List RpcMessage) (executions : Int32 → Nat) :
    Linked requests
      { s with
        phase := Function.update s.phase pid phase
        inbox := inbox
        executions := executions } := by
  refine ⟨h.cycle, fun q => ?_, h.once, h.held⟩
  by_cases hq : q = pid
  · subst hq
    rw [hlink]
    trivial
  · simp only [Function.update_of_ne hq]
    exact h.fits q

/-- The controller's own steps touch no send. -/
theorem Linked.fifo (h : Linked requests s) {fifo : PublicFifo.State}
    (hcycle : PublicFifo.Cycle fifo) (hsenders : fifo.senders = s.fifo.senders)
    (inbox : Int32 → List RpcMessage) : Linked requests { s with fifo := fifo, inbox := inbox } := by
  refine ⟨hcycle, fun q => (h.fits q).congr fun i _ => ?_, h.once, fun i sender hi hholds => ?_⟩
  · exact congrArg (fun senders => senders[i]?) hsenders
  · exact h.held i sender (hsenders ▸ hi) hholds

theorem senders_of_ofLoop {f f' : PublicFifo.State} {l : PublicFifo.Label} (hl : ofLoop l = true)
    (h : PublicFifo.Step env f l f') : f'.senders = f.senders := by
  cases h with
  | arrive hloop hrun => rfl
  | enter hloop => rfl
  | eof hloop hbuffer hwriter => rfl
  | shut hloop => simp
  | _ => cases hl

theorem Linked.step (h : Linked requests s) {l : Label} {s' : State} (hs : Step env requests s l s') :
    Linked requests s' := by
  cases hs with
  | opens pid hlink hout hfifo =>
      refine h.opens hlink hout (h.cycle.step hfifo) ?_
      cases hfifo with
      | openFor msg hreader => rfl
  | @writes pid i msg next fifo hlink hout hreader hfifo =>
      have hcycle := h.cycle.step hfifo
      have hlt : i < s.fifo.senders.length := by
        have hfits := h.fits pid
        rw [hlink] at hfits
        exact hfits.lt
      cases hfifo with
      | @write i m hsender hholds =>
          have hwritten : (s.fifo.senders.set i (.written m))[i]? = some (.written m) :=
            List.getElem?_set_self hlt
          have hset := h.set (.written m) (.on i) next hlink hcycle rfl (Or.inr ⟨m, hwritten⟩)
            (fun _ => rfl) (fun j hj => (Link.on.inj hj).symm)
          rwa [← hlink, Function.update_eq_self] at hset
      | breaks hsender hnone =>
          rw [hreader] at hnone
          cases hnone
  | @breaks pid i broken fifo hlink hreader hwrite hclose =>
      have hcycle := (h.cycle.step hwrite).step hclose
      have hfits := h.fits pid
      rw [hlink] at hfits
      cases hwrite with
      | write hsender hholds =>
          rw [hreader] at hholds
          cases hholds
      | @breaks i m hsender hnone =>
          have hkilled : (outgoing requests pid (s.phase pid)).isSome = true := by
            rcases hfits with ⟨msg, next, -, hout⟩ | ⟨msg, hwritten⟩
            · rw [hout]
              rfl
            · rw [hsender] at hwritten
              cases hwritten
          have hbroken : (s.fifo.senders.set i .broken)[i]? = some .broken :=
            List.getElem?_set_self hfits.lt
          have hsenders : fifo.senders = s.fifo.senders.set i .failed := by
            cases hclose with
            | close hold =>
                rw [hbroken] at hold
                cases hold
            | giveUp hold => simp
          have hset := h.set .failed .killed (s.phase pid) hlink hcycle hsenders hkilled nofun nofun
          rwa [Function.update_eq_self] at hset
  | @closes pid i fifo hlink hfifo =>
      have hcycle := h.cycle.step hfifo
      cases hfifo with
      | @close i m hsender =>
          have hset := h.set (.succeeded m) .apart (s.phase pid) hlink hcycle (by simp) trivial
            nofun nofun
          rwa [Function.update_eq_self] at hset
      | @giveUp i hsender =>
          have hset := h.set .failed .apart (s.phase pid) hlink hcycle (by simp) trivial nofun nofun
          rwa [Function.update_eq_self] at hset
  | authorise pid hlink hphase hread hack => exact h.runner hlink _ _ _
  | reject pid hlink hphase hread hack => exact h.runner hlink _ _ _
  | finish pid hlink hphase => exact h.runner hlink _ _ _
  | reply pid hlink hphase hread => exact h.runner hlink _ _ _
  | controller hloop hfifo =>
      exact h.fifo (h.cycle.step hfifo) (senders_of_ofLoop hloop hfifo) _
  | handle hfifo =>
      refine h.fifo (h.cycle.step hfifo) ?_ _
      cases hfifo with
      | read hloop hbuffer => rfl

theorem linked_of_reachable (h : TransitionSystem.Reachable (system env requests argv) s) :
    Linked requests s := by
  refine h.invariant (fun s hs => ?_) fun s l s' hlinked hstep => hlinked.step hstep
  rw [show s = start argv from hs]
  exact
    { cycle := @PublicFifo.cycle_of_reachable env argv _ (.init rfl)
      fits := fun _ => trivial
      once := nofun
      held := nofun }

/-- A runner writes the message of its phase. -/
theorem Linked.opened_eq (h : Linked requests s) {pid : Int32} {i : Nat} (hlink : s.link pid = .on i)
    {msg m : RpcMessage} {next : Phase}
    (hout : outgoing requests pid (s.phase pid) = some (msg, next))
    (hsender : s.fifo.senders[i]? = some (.opened m)) : m = msg := by
  have hfits := h.fits pid
  rw [hlink] at hfits
  rcases hfits with ⟨msg', next', hopened, hout'⟩ | ⟨msg', hwritten⟩
  · rw [hsender] at hopened
    rw [hout] at hout'
    cases hopened
    cases hout'
    rfl
  · rw [hsender] at hwritten
    cases hwritten

end Linked

/-! ## The simulation -/

section Simulation

variable {env : Env} {argv : List CString} {requests : Int32 → RunnerRequest} {s : State}
  {o : Orchestra.State}

/-- A runner moves from one phase to the next in its write. -/
theorem Carries.writes (h : Carries s o) {pid : Int32} {i : Nat} {msg : RpcMessage} {next : Phase}
    (hout : outgoing requests pid (s.phase pid) = some (msg, next))
    (hsender : s.fifo.senders[i]? = some (.opened msg)) :
    ∃ l o', Orchestra.Step env requests o l o' ∧
      Carries
        { s with
          fifo := { s.fifo with
            senders := s.fifo.senders.set i (.written msg)
            buffer := s.fifo.buffer ++ [(i, msg)] }
          phase := Function.update s.phase pid next } o' := by
  obtain ⟨unread, hserver, hbuffer, hplaced⟩ := h.unread
  have hcarries : Carries
      { s with
        fifo := { s.fifo with
          senders := s.fifo.senders.set i (.written msg)
          buffer := s.fifo.buffer ++ [(i, msg)] }
        phase := Function.update s.phase pid next }
      { o with phase := Function.update o.phase pid next, server := o.server ++ [msg] } := by
    refine ⟨by rw [h.phase], h.inbox, h.executions, h.handled, h.world, h.left,
      unread ++ [(i, msg)], by simp [hserver], hbuffer.append (List.Sublist.refl _), ?_⟩
    exact hplaced.write hsender
  rw [← h.phase] at hout
  cases hphase : o.phase pid with
  | idle =>
      rw [hphase, outgoing] at hout
      split at hout
      · rename_i hmode
        cases hout
        exact ⟨_, _, .submit pid hmode hphase, hcarries⟩
      · rename_i hmode
        cases hout
        exact ⟨_, _, .ask pid hmode hphase, hcarries⟩
  | executed ackMsg =>
      rw [hphase] at hout
      cases hout
      exact ⟨_, _, .notify pid hphase, hcarries⟩
  | _ =>
      rw [hphase] at hout
      cases hout

/-- The controller reads a message that is not lost. -/
theorem Carries.handle (h : Carries s o) (hcycle : PublicFifo.Cycle s.fifo)
    {fifo : PublicFifo.State} (hfifo : PublicFifo.Step env s.fifo .read fifo) :
    ∃ l o', Orchestra.Step env requests o l o' ∧
      Carries
        { s with
          fifo := fifo
          inbox := fun pid => s.inbox pid ++ newReplies s.fifo.world fifo.world pid } o' := by
  obtain ⟨unread, hserver, hbuffer, hplaced⟩ := h.unread
  cases hfifo with
  | @read i msg rest hloop hhead =>
      have hrun : s.fifo.world.state.keepRunning = true :=
        (hcycle.running (by simp [hloop])).mpr (by simp [hloop])
      have hkeep := controllerHandleMessage_keepRunning env msg s.fifo.world
      rw [hrun, Bool.true_and] at hkeep
      rw [hhead] at hbuffer
      have hmem : (i, msg) ∈ unread := hbuffer.subset (List.mem_cons_self)
      have herase : Removes unread (i, msg) (unread.erase (i, msg)) := by
        obtain ⟨a, b, -, hl, hr⟩ := List.exists_erase_eq hmem
        exact ⟨a, b, hl, hr⟩
      have hread : Removes o.server msg ((unread.erase (i, msg)).map Prod.snd) := by
        rw [hserver]
        exact herase.map Prod.snd
      have hrest : rest.Sublist (unread.erase (i, msg)) := by
        simpa using hbuffer.erase (i, msg)
      have hthere : o.left = false := by rw [h.left, hrun]; rfl
      refine ⟨_, _, .handle hthere hread, h.phase, ?_, h.executions, ?_, ?_, ?_,
        unread.erase (i, msg), rfl, hrest, ?_⟩
      · simp only [h.inbox, h.world]
      · simp [h.handled]
      · simp only [h.world]
      · simp only [h.world, hkeep, Bool.not_not]
      · refine hplaced.perm ?_ fun _ => rfl
        show ((s.fifo.handled ++ [(i, msg)]) ++ unread.erase (i, msg)).Perm (s.fifo.handled ++ unread)
        rw [List.append_assoc]
        exact (List.perm_cons_erase hmem).symm.append_left s.fifo.handled

/-- Sends, losses and the loop of the controller are not seen; all other steps are those of
the system with phases. -/
theorem Carries.step (h : Carries s o) (hlinked : Linked requests s) {l : Label} {s' : State}
    (hs : Step env requests s l s') :
    Carries s' o ∨ ∃ k o', Orchestra.Step env requests o k o' ∧ Carries s' o' := by
  cases hs with
  | opens pid hlink hout hfifo => exact Or.inl (h.discards (discards_openFor hfifo) _)
  | breaks pid hlink hreader hwrite hclose =>
      exact Or.inl (h.discards (discards_breaks hreader hwrite hclose) _)
  | closes pid hlink hfifo => exact Or.inl (h.discards (discards_close hfifo) _)
  | controller hloop hfifo => exact Or.inl (h.discards (discards_ofLoop hloop hfifo) _)
  | @writes pid i msg next fifo hlink hout hreader hfifo =>
      cases hfifo with
      | write hsender hholds =>
          obtain rfl := hlinked.opened_eq hlink hout hsender
          exact Or.inr (h.writes hout hsender)
      | breaks hsender hnone =>
          rw [hreader] at hnone
          cases hnone
  | handle hfifo => exact Or.inr (h.handle hlinked.cycle hfifo)
  | authorise pid hlink hphase hread hack =>
      rw [← h.phase] at hphase
      rw [← h.inbox] at hread
      exact Or.inr ⟨_, _, .authorise pid hphase hread hack, by rw [h.phase], by rw [h.inbox],
        by rw [h.executions], h.handled, h.world, h.left, h.unread⟩
  | reject pid hlink hphase hread hack =>
      rw [← h.phase] at hphase
      rw [← h.inbox] at hread
      exact Or.inr ⟨_, _, .reject pid hphase hread hack, by rw [h.phase], by rw [h.inbox],
        h.executions, h.handled, h.world, h.left, h.unread⟩
  | finish pid hlink hphase =>
      rw [← h.phase] at hphase
      exact Or.inr ⟨_, _, .finish pid hphase, by rw [h.phase], h.inbox, h.executions, h.handled,
        h.world, h.left, h.unread⟩
  | reply pid hlink hphase hread =>
      rw [← h.phase] at hphase
      rw [← h.inbox] at hread
      exact Or.inr ⟨_, _, .reply pid hphase hread, by rw [h.phase], by rw [h.inbox], h.executions,
        h.handled, h.world, h.left, h.unread⟩

/-- Every run over the public FIFO is one of the system with phases in which what is lost
stays unread. -/
theorem exists_carries (h : TransitionSystem.Reachable (system env requests argv) s) :
    ∃ o, TransitionSystem.Reachable (Orchestra.system env argv requests) o ∧ Carries s o := by
  refine h.simulates (fun s hs => ?_) fun s l s' o hreached _ hcarries hstep =>
    hcarries.step (linked_of_reachable hreached) hstep
  rw [show s = start argv from hs]
  refine ⟨Orchestra.start argv, rfl, rfl, rfl, rfl, rfl, rfl, rfl, [], rfl, List.Sublist.refl _, ?_⟩
  exact ⟨List.nodup_nil, by simp [start, PublicFifo.start, PublicFifo.State.sentBy]⟩

theorem Carries.mem_server_iff (h : Carries s o) {msg : RpcMessage} :
    msg ∈ o.server ↔ ∃ i, s.fifo.sentBy i = some msg ∧ (i, msg) ∉ s.fifo.handled := by
  obtain ⟨unread, hserver, -, hplaced⟩ := h.unread
  have hmem : ∀ i, (i, msg) ∈ s.fifo.handled ++ unread ↔ s.fifo.sentBy i = some msg := fun i =>
    hplaced.mem_iff i msg
  have hapart : ∀ {x}, x ∈ s.fifo.handled → x ∈ unread → False := fun hin hun =>
    (List.nodup_append.mp hplaced.nodup).2.2 _ hin _ hun rfl
  rw [hserver, List.mem_map]
  constructor
  · rintro ⟨⟨i, m⟩, hun, rfl⟩
    exact ⟨i, (hmem i).mp (List.mem_append_right _ hun), fun hin => hapart hin hun⟩
  · rintro ⟨i, hsent, hnot⟩
    exact ⟨(i, msg), (List.mem_append.mp ((hmem i).mpr hsent)).resolve_left hnot, rfl⟩

end Simulation

/-! ## At rest -/

/-- Only runners that have not sent their request can make a step. -/
def Quiescent (env : Env) (requests : Int32 → RunnerRequest) (s : State) : Prop :=
  ∀ l s', Step env requests s l s' → ∃ pid, l = .opens pid ∧ s.phase pid = .idle

section Quiescent

variable {env : Env} {requests : Int32 → RunnerRequest} {s : State}
  (h : Quiescent env requests s) (hlinked : Linked requests s)

include h hlinked

/-- A send comes to its end, by a `close` or by SIGPIPE. -/
theorem Quiescent.not_on (pid : Int32) (i : Nat) : s.link pid ≠ .on i := by
  intro hlink
  have hfits := hlinked.fits pid
  rw [hlink] at hfits
  rcases hfits with ⟨msg, next, hsender, hout⟩ | ⟨msg, hsender⟩
  · cases hreader : s.fifo.loop.holds with
    | true =>
        obtain ⟨q, hq, -⟩ := h _ _ (.writes pid hlink hout hreader (.write hsender hreader))
        cases hq
    | false =>
        have hlt := (List.getElem?_eq_some_iff.mp hsender).choose
        have hbroken : (s.fifo.senders.set i .broken)[i]? = some .broken :=
          List.getElem?_set_self hlt
        obtain ⟨q, hq, -⟩ :=
          h _ _ (.breaks pid hlink hreader (.breaks hsender hreader) (.giveUp hbroken))
        cases hq
  · obtain ⟨q, hq, -⟩ := h _ _ (.closes pid hlink (.close hsender))
    cases hq

theorem Quiescent.writerOpen : s.fifo.writerOpen = false := by
  rw [← Bool.not_eq_true, PublicFifo.writerOpen_iff]
  rintro ⟨i, sender, hsender, hholds⟩
  obtain ⟨pid, hlink⟩ := hlinked.held i sender hsender hholds
  exact h.not_on hlinked pid i hlink

/-- The controller is blocked in its `open`, or has left. -/
theorem Quiescent.loop : s.fifo.loop = .opening false ∨ s.fifo.loop = .left := by
  cases hloop : s.fifo.loop with
  | atOpen =>
      have hrun := (hlinked.cycle.running (by simp [hloop])).mpr (by simp [hloop])
      obtain ⟨q, hq, -⟩ := h _ _ (.controller rfl (.arrive hloop hrun))
      cases hq
  | opening met =>
      cases met with
      | false => exact Or.inl rfl
      | true =>
          obtain ⟨q, hq, -⟩ := h _ _ (.controller rfl (.enter hloop))
          cases hq
  | reading =>
      cases hbuffer : s.fifo.buffer with
      | nil =>
          obtain ⟨q, hq, -⟩ := h _ _ (.controller rfl (.eof hloop hbuffer (h.writerOpen hlinked)))
          cases hq
      | cons head rest =>
          obtain ⟨i, msg⟩ := head
          obtain ⟨q, hq, -⟩ := h _ _ (.handle (.read hloop hbuffer))
          cases hq
  | atClose =>
      obtain ⟨q, hq, -⟩ := h _ _ (.controller rfl (.shut hloop))
      cases hq
  | left => exact Or.inr rfl

/-- A runner that waits has been told nothing more. -/
theorem Quiescent.inbox {pid : Int32} (hwait : (s.phase pid).Waiting) : s.inbox pid = [] := by
  have hlink : s.link pid = .apart := by
    have hfits := hlinked.fits pid
    cases hlink : s.link pid with
    | apart => rfl
    | on i => exact absurd hlink (h.not_on hlinked pid i)
    | killed =>
        rw [hlink, Link.Fits] at hfits
        cases hphase : s.phase pid <;> rw [hphase] at hfits hwait <;>
          first | exact absurd hwait id | cases hfits
  cases hinbox : s.inbox pid with
  | nil => rfl
  | cons msg rest =>
      have hread : Removes (s.inbox pid) msg rest := hinbox ▸ removes_head msg rest
      cases hphase : s.phase pid with
      | submitted =>
          cases hack : isAuthorised msg with
          | true =>
              obtain ⟨q, hq, -⟩ := h _ _ (.authorise pid hlink hphase hread hack)
              cases hq
          | false =>
              obtain ⟨q, hq, -⟩ := h _ _ (.reject pid hlink hphase hread hack)
              cases hq
      | asked =>
          obtain ⟨q, hq, -⟩ := h _ _ (.reply pid hlink hphase hread)
          cases hq
      | _ =>
          rw [hphase] at hwait
          exact absurd hwait id

/-- Between its ACK and its DONE there is at most a runner that SIGPIPE has killed. -/
theorem Quiescent.killed_of_atWork {pid : Int32} (hwork : (s.phase pid).AtWork)
    (hthere : s.fifo.loop ≠ .left) : s.link pid = .killed := by
  have hreader : s.fifo.loop.holds = true := by
    rw [(h.loop hlinked).resolve_right hthere]
    rfl
  have hfits := hlinked.fits pid
  cases hlink : s.link pid with
  | killed => rfl
  | on i => exact absurd hlink (h.not_on hlinked pid i)
  | apart =>
      cases hphase : s.phase pid with
      | executing msg =>
          obtain ⟨q, hq, -⟩ := h _ _ (.finish pid hlink hphase)
          cases hq
      | executed msg =>
          have hout : outgoing requests pid (s.phase pid) = some (msgDone pid msg, .notified) := by
            rw [hphase]
            rfl
          obtain ⟨q, hq, hidle⟩ := h _ _ (.opens pid hlink hout (.openFor _ hreader))
          cases hq
          rw [hphase] at hidle
          cases hidle
      | _ =>
          rw [hphase] at hwork
          exact absurd hwork id

/-- Nothing else goes on where all that was written is handled, or after the end. -/
theorem Quiescent.phases {o : Orchestra.State} (hcarries : Carries s o)
    (hserver : o.left = false → o.server = []) (hwork : ∀ pid, ¬ (s.phase pid).AtWork) :
    Orchestra.Quiescent env requests o := by
  rw [Orchestra.quiescent_iff, hcarries.phase, hcarries.inbox]
  exact ⟨hserver, fun pid => ⟨hwork pid, h.inbox hlinked⟩⟩

end Quiescent

/-- The other way round: with no send under way and no runner at work or about to read. -/
theorem quiescent_of {env : Env} {requests : Int32 → RunnerRequest} {s : State}
    (hloop : s.fifo.loop = .opening false ∨ s.fifo.loop = .left)
    (hlinks : ∀ pid i, s.link pid ≠ .on i)
    (hrunners : ∀ pid, ¬ (s.phase pid).AtWork ∧ ((s.phase pid).Waiting → s.inbox pid = [])) :
    Quiescent env requests s := by
  have hnot : ∀ l, s.fifo.loop = l → l = .opening false ∨ l = .left := fun l hl => hl ▸ hloop
  intro l s' hs
  cases hs with
  | @opens pid msg next fifo hlink hout hfifo =>
      refine ⟨pid, rfl, ?_⟩
      have hwork := (hrunners pid).1
      cases hphase : s.phase pid with
      | idle => rfl
      | executed ackMsg => exact absurd (by rw [hphase]; trivial) hwork
      | _ =>
          rw [hphase] at hout
          cases hout
  | writes pid hlink hout hreader hfifo => exact absurd hlink (hlinks pid _)
  | breaks pid hlink hreader hwrite hclose => exact absurd hlink (hlinks pid _)
  | closes pid hlink hfifo => exact absurd hlink (hlinks pid _)
  | authorise pid hlink hphase hread hack | reject pid hlink hphase hread hack =>
      exact absurd ((hrunners pid).2 (by rw [hphase]; trivial)) hread.ne_nil
  | reply pid hlink hphase hread =>
      exact absurd ((hrunners pid).2 (by rw [hphase]; trivial)) hread.ne_nil
  | finish pid hlink hphase => exact absurd (by rw [hphase]; trivial) (hrunners pid).1
  | controller hown hfifo =>
      cases hfifo with
      | arrive hl hrun => simpa using hnot _ hl
      | enter hl => simpa using hnot _ hl
      | eof hl hbuffer hwriter => simpa using hnot _ hl
      | shut hl => simpa using hnot _ hl
      | _ => cases hown
  | handle hfifo =>
      cases hfifo with
      | read hl hbuffer => simpa using hnot _ hl

/-- Nobody waits for anything, and nobody ever will. -/
structure Settled (requests : Int32 → RunnerRequest) (s : State) : Prop where
  served : ∀ pid, s.phase pid = .idle ∨ (s.phase pid).Satisfied (requests pid).mode (s.executions pid)
  waitingQueue : s.fifo.world.state.waitingQueue = []
  runningQueue : s.fifo.world.state.runningQueue = []
  staying : s.fifo.world.state.isShuttingDown = false

section Rest

variable {env : Env} (hm : env.AllocsSucceed) (hc : env.CallsSucceed) {argv : List CString}
  {requests : Int32 → RunnerRequest} {s : State}
  (h : TransitionSystem.Reachable (system env requests argv) s)
  (hquiet : Quiescent env requests s)

include hm hc h hquiet

/-- While the controller is there, only a loss can leave anybody unserved: at rest the
controller is blocked in `open` with nothing in its FIFO, and every runner whose request was
written has been served, with no job left and no shutdown under way, exactly if no message was
lost and SIGPIPE has killed nobody between its ACK and its DONE. -/
theorem settled_iff (hthere : s.fifo.loop ≠ .left) :
    s.fifo.loop = .opening false ∧ s.fifo.buffer = [] ∧
      (Settled requests s ↔
        (∀ i msg, s.fifo.sentBy i = some msg → (i, msg) ∈ s.fifo.handled) ∧
          ∀ pid, s.link pid = .killed → s.phase pid = .idle) := by
  have hlinked := linked_of_reachable h
  have hloop := (hquiet.loop hlinked).resolve_right hthere
  have hrun : s.fifo.world.state.keepRunning = true :=
    (hlinked.cycle.running (by simp [hloop])).mpr hthere
  obtain ⟨o, ho, hcarries⟩ := exists_carries h
  obtain ⟨hinv, howed⟩ := Orchestra.owed_of_reachable hm hc ho
  have hleft : o.left = false := by rw [hcarries.left, hrun]; rfl
  refine ⟨hloop, (hlinked.cycle.blocked hloop).2, fun hsettled => ⟨fun i msg hsent => ?_,
    fun pid hkilled => ?_⟩, fun ⟨hnone, hkilled⟩ => ?_⟩
  · by_contra hnot
    have hmsg : msg ∈ o.server := hcarries.mem_server_iff.mpr ⟨i, hsent, hnot⟩
    have hwait := howed.waiting_of_unread hinv hmsg (by rw [hcarries.world]; exact hsettled.runningQueue)
    rw [hcarries.phase] at hwait
    rcases hsettled.served msg.senderPid with hidle | hserved
    · rw [hidle] at hwait
      exact hwait
    · exact hserved.not_waiting hwait
  · rcases hsettled.served pid with hidle | hserved
    · exact hidle
    · have hfits := hlinked.fits pid
      rw [hkilled, Link.Fits] at hfits
      cases hmode : (requests pid).mode with
      | execute =>
          rw [hmode] at hserved
          rw [hserved.1] at hfits
          cases hfits
      | status | shutdown =>
          rw [hmode] at hserved
          rw [show s.phase pid = .closed from hserved] at hfits
          cases hfits
  · have hserver : o.server = [] := by
      apply List.eq_nil_iff_forall_not_mem.mpr
      intro msg hmsg
      obtain ⟨i, hsent, hnot⟩ := hcarries.mem_server_iff.mp hmsg
      exact hnot (hnone i msg hsent)
    have hwork : ∀ pid, ¬ (s.phase pid).AtWork := by
      intro pid hwork
      have hidle := hkilled pid (hquiet.killed_of_atWork hlinked hwork hthere)
      rw [hidle] at hwork
      exact hwork
    have hrest := hquiet.phases hlinked hcarries (fun _ => hserver) hwork
    obtain ⟨hserved, -, hwaiting, hrunning, hopen⟩ := Orchestra.quiescent_settled hm hc ho hrest hleft
    rw [hcarries.world] at hwaiting hrunning hopen
    refine ⟨fun pid => ?_, hwaiting, hrunning, hopen⟩
    have hpid := hserved pid
    rwa [Orchestra.State.Satisfied, hcarries.phase, hcarries.executions] at hpid

/-- After the controller has left, the runners that still wait are those whose request was
written and not handled, and the shutdown requesters that another one overtook. All others
have never had their request in the FIFO, or have been served or refused. -/
theorem waiting_iff (hleft : s.fifo.loop = .left) (pid : Int32) :
    ((s.phase pid).Waiting ↔
      (∃ i msg, s.fifo.sentBy i = some msg ∧ (i, msg) ∉ s.fifo.handled ∧ msg.senderPid = pid) ∨
        ((requests pid).mode = .shutdown ∧
          (∃ out ∈ s.fifo.handled, isAskOf pid out.2 = true) ∧
          s.fifo.world.state.shutdownRequesterPid ≠ pid)) ∧
      (¬ (s.phase pid).Waiting → s.phase pid = .idle ∨
        (s.phase pid).Satisfied (requests pid).mode (s.executions pid) ∨
        (s.phase pid = .rejected ∧ s.executions pid = 0)) := by
  have hlinked := linked_of_reachable h
  have hstop : s.fifo.world.state.keepRunning = false := by
    rw [← Bool.not_eq_true, hlinked.cycle.running (by simp [hleft])]
    simp [hleft]
  obtain ⟨o, ho, hcarries⟩ := exists_carries h
  have hgone : o.left = true := by rw [hcarries.left, hstop]; rfl
  have hwork : ∀ pid, ¬ (s.phase pid).AtWork := by
    intro pid
    rw [← hcarries.phase]
    exact ((Orchestra.inv_of_reachable hm hc ho).exit hgone pid).1
  have hrest := hquiet.phases hlinked hcarries (fun hthere => by simp [hgone] at hthere) hwork
  obtain ⟨hiff, hended⟩ := Orchestra.stranded_iff hm hc ho hrest hgone pid
  rw [Orchestra.State.Satisfied, hcarries.phase, hcarries.executions] at hended
  refine ⟨?_, hended⟩
  rw [hcarries.phase, hcarries.world, hcarries.handled] at hiff
  rw [hiff]
  refine or_congr ?_ ?_
  · constructor
    · rintro ⟨msg, hmsg, hpid⟩
      obtain ⟨i, hsent, hnot⟩ := hcarries.mem_server_iff.mp hmsg
      exact ⟨i, msg, hsent, hnot, hpid⟩
    · rintro ⟨i, msg, hsent, hnot, hpid⟩
      exact ⟨msg, hcarries.mem_server_iff.mpr ⟨i, hsent, hnot⟩, hpid⟩
  · simp only [List.mem_map, exists_exists_and_eq_and]

end Rest

def ackFor (pid : Int32) : RpcMessage :=
  { RpcMessage.zero with type := .ack, senderPid := 100, userId := pid, commandId := commandIdOf pid }

/-- One runner executes its command, and the controller opens its FIFO for more. -/
theorem settled_iff_one_runner :
    ∃ s, TransitionSystem.Reachable (system .calm (fun pid => ⟨.execute, pid, text "a"⟩)
          [text "controller", text "1"]) s ∧
        s.phase 11 = .notified ∧ s.phase 12 = .idle ∧ s.fifo.loop = .opening false ∧
        Settled (fun pid => ⟨.execute, pid, text "a"⟩) s := by
  obtain ⟨s, hs, hloop, hsenders, hhandled, hrunners⟩ :
      ∃ s, TransitionSystem.Reachable (system .calm (fun pid => ⟨.execute, pid, text "a"⟩)
          [text "controller", text "1"]) s ∧ s.fifo.loop = .opening false ∧
        s.fifo.senders =
          [.succeeded (submitMsg 11 11 (text "a")), .succeeded (msgDone 11 (ackFor 11))] ∧
        s.fifo.handled = [(0, submitMsg 11 11 (text "a")), (1, msgDone 11 (ackFor 11))] ∧
        ∀ pid, s.link pid = .apart ∧ s.phase pid = if pid = 11 then .notified else .idle := by
    have hstart : TransitionSystem.Reachable (system .calm (fun pid => ⟨.execute, pid, text "a"⟩)
        [text "controller", text "1"]) (start _) := .init rfl
    have harrive := hstart.step (Step.controller rfl (.arrive rfl rfl))
    have hopen := harrive.step (Step.opens 11 rfl rfl (.openFor _ rfl))
    have henter := hopen.step (Step.controller rfl (.enter rfl))
    have hwrite := henter.step (Step.writes 11 rfl rfl rfl (.write rfl rfl))
    have hclose := hwrite.step (Step.closes 11 rfl (.close rfl))
    have hserved := hclose.step (Step.handle (.read rfl rfl))
    have hwork := hserved.step (Step.authorise 11 rfl rfl (removes_head (ackFor 11) []) rfl)
    have hfinish := hwork.step (Step.finish 11 rfl rfl)
    have hreopen := hfinish.step (Step.opens 11 rfl rfl (.openFor _ rfl))
    have hnotify := hreopen.step (Step.writes 11 rfl rfl rfl (.write rfl rfl))
    have hend := hnotify.step (Step.closes 11 rfl (.close rfl))
    have hlogged := hend.step (Step.handle (.read rfl rfl))
    have heof := hlogged.step (Step.controller rfl (.eof rfl rfl rfl))
    have hshut := heof.step (Step.controller rfl (.shut rfl))
    have hblocked := hshut.step (Step.controller rfl (.arrive rfl rfl))
    refine ⟨_, hblocked, rfl, rfl, rfl, fun pid => ?_⟩
    by_cases h11 : pid = 11
    · subst h11
      exact ⟨rfl, rfl⟩
    · simp only [Function.update_of_ne h11, h11, if_false]
      exact ⟨rfl, rfl⟩
  have hidle : ∀ pid, ¬ (s.phase pid).AtWork ∧ ((s.phase pid).Waiting → s.inbox pid = []) := by
    intro pid
    rw [(hrunners pid).2]
    split
    · exact ⟨id, fun hwait => absurd hwait id⟩
    · exact ⟨id, fun hwait => absurd hwait id⟩
  have hquiet : Quiescent .calm (fun pid => ⟨.execute, pid, text "a"⟩) s :=
    quiescent_of (Or.inl hloop) (fun pid i => by rw [(hrunners pid).1]; nofun) hidle
  refine ⟨s, hs, (hrunners 11).2, (hrunners 12).2, hloop, ?_⟩
  refine (settled_iff Env.calm_allocsSucceed Env.calm_callsSucceed hs hquiet
    (by rw [hloop]; nofun)).2.2.mpr ⟨fun i msg hsent => ?_, fun pid hkilled => ?_⟩
  · rw [PublicFifo.State.sentBy, hsenders] at hsent
    rw [hhandled]
    cases i with
    | zero =>
        obtain rfl : submitMsg 11 11 (text "a") = msg := Option.some.inj hsent
        exact List.mem_cons_self
    | succ i =>
        cases i with
        | zero =>
            obtain rfl : msgDone 11 (ackFor 11) = msg := Option.some.inj hsent
            exact List.mem_cons_of_mem _ List.mem_cons_self
        | succ i => cases hsent
  · rw [(hrunners pid).1] at hkilled
    cases hkilled

/-- The second runner's submission comes behind the request that ends the controller. -/
theorem waiting_iff_late_submit :
    ∃ s, TransitionSystem.Reachable (system .calm
          (fun pid => ⟨if pid = 11 then .shutdown else .execute, pid, text "a"⟩)
          [text "controller"]) s ∧
        s.fifo.loop = .left ∧ s.phase 11 = .closed ∧ (s.phase 12).Waiting ∧
        ∃ i msg, s.fifo.sentBy i = some msg ∧ (i, msg) ∉ s.fifo.handled ∧ msg.senderPid = 12 := by
  obtain ⟨s, hs, hloop, hinbox, hrunners⟩ :
      ∃ s, TransitionSystem.Reachable (system .calm
          (fun pid => ⟨if pid = 11 then .shutdown else .execute, pid, text "a"⟩)
          [text "controller"]) s ∧ s.fifo.loop = .left ∧ s.inbox 12 = [] ∧
        ∀ pid, s.link pid = .apart ∧
          s.phase pid = if pid = 11 then .closed else if pid = 12 then .submitted else .idle := by
    have hstart : TransitionSystem.Reachable (system .calm
        (fun pid => ⟨if pid = 11 then .shutdown else .execute, pid, text "a"⟩)
        [text "controller"]) (start _) := .init rfl
    have harrive := hstart.step (Step.controller rfl (.arrive rfl rfl))
    have hopen := harrive.step (Step.opens 11 rfl rfl (.openFor _ rfl))
    have hask := hopen.step (Step.writes 11 rfl rfl rfl (.write rfl rfl))
    have hclose := hask.step (Step.closes 11 rfl (.close rfl))
    have hopen' := hclose.step (Step.opens 12 rfl rfl (.openFor _ rfl))
    have hsubmit := hopen'.step (Step.writes 12 rfl rfl rfl (.write rfl rfl))
    have hclose' := hsubmit.step (Step.closes 12 rfl (.close rfl))
    have henter := hclose'.step (Step.controller rfl (.enter rfl))
    have hstop := henter.step (Step.handle (.read rfl rfl))
    have hleft := hstop.step (Step.controller rfl (.shut rfl))
    have hreleased := hleft.step (Step.reply 11 rfl rfl (removes_head _ []))
    refine ⟨_, hreleased, rfl, rfl, fun pid => ?_⟩
    by_cases h11 : pid = 11
    · subst h11
      exact ⟨rfl, rfl⟩
    · by_cases h12 : pid = 12
      · subst h12
        exact ⟨rfl, rfl⟩
      · simp only [Function.update_of_ne h11, Function.update_of_ne h12, h11, h12, if_false]
        exact ⟨rfl, rfl⟩
  have hrest : ∀ pid, ¬ (s.phase pid).AtWork ∧ ((s.phase pid).Waiting → s.inbox pid = []) := by
    intro pid
    rw [(hrunners pid).2]
    split
    · exact ⟨id, fun hwait => absurd hwait id⟩
    · split
      · rename_i h12
        rw [h12]
        exact ⟨id, fun _ => hinbox⟩
      · exact ⟨id, fun hwait => absurd hwait id⟩
  have hquiet : Quiescent .calm
      (fun pid => ⟨if pid = 11 then .shutdown else .execute, pid, text "a"⟩) s :=
    quiescent_of (Or.inr hloop) (fun pid i => by rw [(hrunners pid).1]; nofun) hrest
  have hwait : (s.phase 12).Waiting := by
    rw [(hrunners 12).2]
    trivial
  have hiff := (waiting_iff Env.calm_allocsSucceed Env.calm_callsSucceed hs hquiet hloop 12).1
  rcases hiff.mp hwait with hunread | ⟨hshutdown, -⟩
  · exact ⟨s, hs, hloop, (hrunners 11).2, hwait, hunread⟩
  · cases hshutdown

end RunnerOrchestrator.Network
