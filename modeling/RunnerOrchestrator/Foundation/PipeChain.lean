import RunnerOrchestrator.Foundation.Descriptors
import RunnerOrchestrator.Foundation.TransitionSystem

/-! # Processes in a chain of pipes

Processes with descriptor tables share pipes of a bounded capacity. A read from an empty pipe
waits as long as anybody has the write end open, and otherwise finds the end of the file; a
write to a full pipe waits as long as anybody has the read end open, and without a reader it
kills the writer. In a chain process `i` has no ends but the read end of the pipe before it
and the write end of the pipe behind it, numbered `i`.
-/

namespace PipeChain

open Descriptors (Fd Table)

inductive End
  | read (pipe : Nat)
  | write (pipe : Nat)
deriving Repr, DecidableEq

/-- What a program asks the system for, and how it goes on with the answer. The end of the
file is `none`. -/
inductive Request (σ β : Type*)
  | read (fd : Fd) (resume : Option β → σ)
  | write (fd : Fd) (byte : β) (resume : Bool → σ)
  | close (fd : Fd) (resume : σ)
  | dup2 (old new : Fd) (resume : σ)
  /-- Calls that leave the descriptors of the start alone, with any answer. -/
  | other (resume : Nat → σ)
  | exit (status : Nat)

inductive Process (σ α : Type*)
  | running (program : σ) (t : Table α)
  | exited (status : Nat)
  /-- By a write to a pipe without a reader. -/
  | killed

def Process.Running {σ α : Type*} : Process σ α → Prop
  | .running _ _ => True
  | .exited _ | .killed => False

/-- The processes, what is in each pipe, and its history: all bytes written to it, all bytes
read from it, and whether a reader has found the end of the file. -/
structure State (σ α β : Type*) where
  process : Nat → Process σ α
  pipe : Nat → List β
  written : Nat → List β
  taken : Nat → List β
  ended : Nat → Bool

/-- `input` is a byte that comes from outside the chain. -/
inductive Label
  | call (process : Nat)
  | input (process : Nat)

variable {σ α β : Type*} (endOf : α → Option End) (next : σ → Request σ β) (capacity : Nat)
  (parent : Table α)

/-! ## Open ends -/

/-- The end of a pipe that a descriptor refers to. -/
def endAt (t : Table α) (fd : Fd) : Option End := (t.lookup fd).bind endOf

def Holds (t : Table α) (e : End) : Prop := ∃ fd, endAt endOf t fd = some e

def State.IsOpen (s : State σ α β) (e : End) : Prop :=
  Holds endOf parent e ∨ ∃ i program t, s.process i = .running program t ∧ Holds endOf t e

/-- The process goes on. -/
def State.resume (s : State σ α β) (i : Nat) (program : σ) (t : Table α) : State σ α β :=
  { s with process := Function.update s.process i (.running program t) }

/-- The process is no more. -/
def State.stop (s : State σ α β) (i : Nat) (p : Process σ α) : State σ α β :=
  { s with process := Function.update s.process i p }

inductive Step (s : State σ α β) : Label → State σ α β → Prop
  | read {i : Nat} {program : σ} {t : Table α} {fd : Fd} {resume : Option β → σ} {j : Nat}
      {byte : β} {rest : List β} (hp : s.process i = .running program t)
      (hnext : next program = .read fd resume) (hend : endAt endOf t fd = some (.read j))
      (hpipe : s.pipe j = byte :: rest) :
      Step s (.call i)
        { s.resume i (resume (some byte)) t with
          pipe := Function.update s.pipe j rest
          taken := Function.update s.taken j (s.taken j ++ [byte]) }
  | readEnd {i : Nat} {program : σ} {t : Table α} {fd : Fd} {resume : Option β → σ} {j : Nat}
      (hp : s.process i = .running program t) (hnext : next program = .read fd resume)
      (hend : endAt endOf t fd = some (.read j)) (hempty : s.pipe j = [])
      (hclosed : ¬ s.IsOpen endOf parent (.write j)) :
      Step s (.call i)
        { s.resume i (resume none) t with ended := Function.update s.ended j true }
  | readNone {i : Nat} {program : σ} {t : Table α} {fd : Fd} {resume : Option β → σ}
      (hp : s.process i = .running program t) (hnext : next program = .read fd resume)
      (hend : ∀ j, endAt endOf t fd ≠ some (.read j)) :
      Step s (.call i) (s.resume i (resume none) t)
  | readInput {i : Nat} {program : σ} {t : Table α} {fd : Fd} {resume : Option β → σ}
      (hp : s.process i = .running program t) (hnext : next program = .read fd resume)
      (hend : ∀ j, endAt endOf t fd ≠ some (.read j)) (byte : β) :
      Step s (.input i) (s.resume i (resume (some byte)) t)
  | write {i : Nat} {program : σ} {t : Table α} {fd : Fd} {byte : β} {resume : Bool → σ} {j : Nat}
      (hp : s.process i = .running program t) (hnext : next program = .write fd byte resume)
      (hend : endAt endOf t fd = some (.write j)) (hreader : s.IsOpen endOf parent (.read j))
      (hroom : (s.pipe j).length < capacity) :
      Step s (.call i)
        { s.resume i (resume true) t with
          pipe := Function.update s.pipe j (s.pipe j ++ [byte])
          written := Function.update s.written j (s.written j ++ [byte]) }
  | writeBroken {i : Nat} {program : σ} {t : Table α} {fd : Fd} {byte : β} {resume : Bool → σ}
      {j : Nat} (hp : s.process i = .running program t)
      (hnext : next program = .write fd byte resume) (hend : endAt endOf t fd = some (.write j))
      (hbroken : ¬ s.IsOpen endOf parent (.read j)) :
      Step s (.call i) (s.stop i .killed)
  | writeOther {i : Nat} {program : σ} {t : Table α} {fd : Fd} {byte : β} {resume : Bool → σ}
      (hp : s.process i = .running program t) (hnext : next program = .write fd byte resume)
      (hend : ∀ j, endAt endOf t fd ≠ some (.write j)) (ok : Bool) :
      Step s (.call i) (s.resume i (resume ok) t)
  | close {i : Nat} {program resume : σ} {t : Table α} {fd : Fd}
      (hp : s.process i = .running program t) (hnext : next program = .close fd resume) :
      Step s (.call i) (s.resume i resume (t.erase fd))
  | dup2 {i : Nat} {program resume : σ} {t : Table α} {old new : Fd}
      (hp : s.process i = .running program t) (hnext : next program = .dup2 old new resume) :
      Step s (.call i) (s.resume i resume ((Descriptors.dup2 t old new).getD t))
  | other {i : Nat} {program : σ} {t : Table α} {resume : Nat → σ}
      (hp : s.process i = .running program t) (hnext : next program = .other resume)
      (answer : Nat) :
      Step s (.call i) (s.resume i (resume answer) t)
  | exit {i : Nat} {program : σ} {t : Table α} {status : Nat}
      (hp : s.process i = .running program t) (hnext : next program = .exit status) :
      Step s (.call i) (s.stop i (.exited status))

/-- From a given state. -/
def system (start : State σ α β) : TransitionSystem (State σ α β) Label :=
  { init := fun s => s = start, step := Step endOf next capacity parent }

/-! ## Processes only let go of their ends -/

section Ends

variable {endOf} {t : Table α} {e : End}

theorem Holds.of_erase {fd : Fd} (h : Holds endOf (t.erase fd) e) : Holds endOf t e := by
  rcases h with ⟨fd', hfd'⟩
  refine ⟨fd', ?_⟩
  by_cases heq : fd' = fd
  · rw [heq, endAt, Finmap.lookup_erase] at hfd'
    cases hfd'
  · rwa [endAt, Finmap.lookup_erase_ne heq] at hfd'

theorem Holds.of_dup2 {old new : Fd} (h : Holds endOf ((Descriptors.dup2 t old new).getD t) e) :
    Holds endOf t e := by
  rw [Descriptors.dup2] at h
  cases hold : t.lookup old with
  | none => rwa [hold] at h
  | some x =>
      rw [hold] at h
      rcases h with ⟨fd, hfd⟩
      by_cases heq : fd = new
      · have hx : endOf x = some e := by
          rw [heq, endAt, Option.map_some, Option.getD_some, Finmap.lookup_insert] at hfd
          exact hfd
        exact ⟨old, by rw [endAt, hold]; exact hx⟩
      · refine ⟨fd, ?_⟩
        rwa [endAt, Option.map_some, Option.getD_some, Finmap.lookup_insert_of_ne _ heq] at hfd

end Ends

section Step

variable {endOf next capacity parent} {s s' : State σ α β} {l : Label}

def Label.process : Label → Nat
  | .call i | .input i => i

def Label.isInput : Label → Bool
  | .call _ => false
  | .input _ => true

/-- One process moves on, with no ends that it did not have. -/
theorem Step.process (h : Step endOf next capacity parent s l s') :
    ∃ program t p, s.process l.process = .running program t ∧
      s'.process = Function.update s.process l.process p ∧
      ∀ program' t', p = .running program' t' → ∀ e, Holds endOf t' e → Holds endOf t e := by
  cases h with
  | close hp hnext =>
      refine ⟨_, _, _, hp, rfl, fun program' t' hp' e he => ?_⟩
      cases hp'
      exact he.of_erase
  | dup2 hp hnext =>
      refine ⟨_, _, _, hp, rfl, fun program' t' hp' e he => ?_⟩
      cases hp'
      exact he.of_dup2
  | writeBroken hp hnext hend hbroken | exit hp hnext =>
      refine ⟨_, _, _, hp, rfl, fun program' t' hp' => ?_⟩
      cases hp'
  | read hp | readEnd hp | readNone hp | readInput hp | write hp | writeOther hp | other hp =>
      refine ⟨_, _, _, hp, rfl, fun program' t' hp' e he => ?_⟩
      cases hp'
      exact he

theorem Step.running (h : Step endOf next capacity parent s l s') {i : Nat} {program : σ}
    {t : Table α} (hp : s'.process i = .running program t) :
    ∃ program' t', s.process i = .running program' t' ∧
      ∀ e, Holds endOf t e → Holds endOf t' e := by
  rcases h.process with ⟨program₀, t₀, p, hbefore, hafter, hends⟩
  rw [hafter] at hp
  by_cases hi : i = l.process
  · rw [hi, Function.update_self] at hp
    exact ⟨program₀, t₀, by rw [hi]; exact hbefore, hends program t hp⟩
  · rw [Function.update_of_ne hi] at hp
    exact ⟨program, t, hp, fun e he => he⟩

theorem Step.isOpen (h : Step endOf next capacity parent s l s') {e : End}
    (hopen : s'.IsOpen endOf parent e) : s.IsOpen endOf parent e := by
  rcases hopen with hparent | ⟨i, program, t, hp, he⟩
  · exact .inl hparent
  · rcases h.running hp with ⟨program', t', hp', hends⟩
    exact .inr ⟨i, program', t', hp', hends e he⟩

end Step

/-! ## The chain -/

/-- The ends that process `i` may have. -/
def InChain (i : Nat) (t : Table α) : Prop :=
  ∀ e, Holds endOf t e → (∃ j, i = j + 1 ∧ e = .read j) ∨ e = .write i

def State.Chained (s : State σ α β) : Prop :=
  ∀ i program t, s.process i = .running program t → InChain endOf i t

section Chain

variable {endOf next capacity parent} {s s' : State σ α β} {l : Label}

theorem State.Chained.step (hchain : s.Chained endOf) (h : Step endOf next capacity parent s l s') :
    s'.Chained endOf := by
  intro i program t hp e he
  rcases h.running hp with ⟨program', t', hp', hends⟩
  exact hchain i program' t' hp' e (hends e he)

variable (hparent : ∀ e, ¬ Holds endOf parent e) (hchain : s.Chained endOf)

include hparent hchain

/-- Only the process in front of a pipe can write to it. -/
theorem running_of_write {j : Nat} (hopen : s.IsOpen endOf parent (.write j)) :
    (s.process j).Running := by
  rcases hopen with hheld | ⟨i, program, t, hp, he⟩
  · exact absurd hheld (hparent _)
  · rcases hchain i program t hp _ he with ⟨j', -, heq⟩ | heq
    · cases heq
    · cases heq
      rw [hp]
      trivial

/-- Only the process behind it can read from it. -/
theorem running_of_read {j : Nat} (hopen : s.IsOpen endOf parent (.read j)) :
    (s.process (j + 1)).Running := by
  rcases hopen with hheld | ⟨i, program, t, hp, he⟩
  · exact absurd hheld (hparent _)
  · rcases hchain i program t hp _ he with ⟨j', hi, heq⟩ | heq
    · cases heq
      rw [← hi, hp]
      trivial
    · cases heq

/-- A process that cannot move waits for the one before it with the pipe between them empty,
or for the one behind it with the pipe between them full. -/
theorem blocked_cases (hcapacity : 0 < capacity) {i : Nat} (hi : (s.process i).Running)
    (hblocked : ∀ l s', l.process = i → ¬ Step endOf next capacity parent s l s') :
    (∃ j, i = j + 1 ∧ s.pipe j = [] ∧ (s.process j).Running) ∨
      (s.pipe i ≠ [] ∧ (s.process (i + 1)).Running) := by
  cases hp : s.process i with
  | exited status | killed =>
      rw [hp] at hi
      exact absurd hi id
  | running program t =>
      have hown := hchain i program t hp
      cases hnext : next program with
      | close fd resume => exact absurd (.close hp hnext) (hblocked (.call i) _ rfl)
      | dup2 old new resume => exact absurd (.dup2 hp hnext) (hblocked (.call i) _ rfl)
      | other resume => exact absurd (.other hp hnext 0) (hblocked (.call i) _ rfl)
      | exit status => exact absurd (.exit hp hnext) (hblocked (.call i) _ rfl)
      | read fd resume =>
          by_cases hend : ∃ j, endAt endOf t fd = some (.read j)
          · rcases hend with ⟨j, hend⟩
            have hbehind : i = j + 1 := by
              rcases hown _ ⟨fd, hend⟩ with ⟨j', hj', heq⟩ | heq
              · cases heq
                exact hj'
              · cases heq
            cases hpipe : s.pipe j with
            | cons byte rest => exact absurd (.read hp hnext hend hpipe) (hblocked (.call i) _ rfl)
            | nil =>
                by_cases hopen : s.IsOpen endOf parent (.write j)
                · exact .inl ⟨j, hbehind, hpipe, running_of_write hparent hchain hopen⟩
                · exact absurd (.readEnd hp hnext hend hpipe hopen) (hblocked (.call i) _ rfl)
          · exact absurd (.readNone hp hnext fun j hj => hend ⟨j, hj⟩) (hblocked (.call i) _ rfl)
      | write fd byte resume =>
          by_cases hend : ∃ j, endAt endOf t fd = some (.write j)
          · rcases hend with ⟨j, hend⟩
            have hfront : j = i := by
              rcases hown _ ⟨fd, hend⟩ with ⟨j', -, heq⟩ | heq
              · cases heq
              · cases heq
                rfl
            subst hfront
            by_cases hopen : s.IsOpen endOf parent (.read j)
            · refine .inr ⟨fun hempty => ?_, running_of_read hparent hchain hopen⟩
              have hroom : (s.pipe j).length < capacity := by rwa [hempty]
              exact hblocked (.call j) _ rfl (.write hp hnext hend hopen hroom)
            · exact absurd (.writeBroken hp hnext hend hopen) (hblocked (.call j) _ rfl)
          · exact absurd (.writeOther hp hnext (fun j hj => hend ⟨j, hj⟩) true)
              (hblocked (.call i) _ rfl)

/-- Waiting goes round in no circle: the first process that runs does not wait for one before
it, and whoever waits for the next one leaves it something to read. -/
theorem exists_step (hcapacity : 0 < capacity) {n : Nat}
    (hbound : ∀ i, n ≤ i → ¬ (s.process i).Running) {i : Nat} (hi : (s.process i).Running) :
    ∃ l s', Step endOf next capacity parent s l s' := by
  by_contra hnone
  have hstuck : ∀ l s', ¬ Step endOf next capacity parent s l s' := fun l s' hstep =>
    hnone ⟨l, s', hstep⟩
  have hblocked := fun {i : Nat} (hi : (s.process i).Running) =>
    blocked_cases hparent hchain hcapacity hi fun l s' _ => hstuck l s'
  classical
  have hfirst : ∃ i, (s.process i).Running := ⟨i, hi⟩
  have hwaits : ∀ k, s.pipe (Nat.find hfirst + k) ≠ [] ∧
      (s.process (Nat.find hfirst + k + 1)).Running := by
    intro k
    induction k with
    | zero =>
        rcases hblocked (Nat.find_spec hfirst) with ⟨j, hj, -, hrun⟩ | hfull
        · exact absurd hrun (Nat.find_min hfirst (by omega))
        · exact hfull
    | succ k ih =>
        rcases hblocked ih.2 with ⟨j, hj, hempty, -⟩ | hfull
        · have heq : j = Nat.find hfirst + k := by omega
          exact absurd (heq ▸ hempty) ih.1
        · exact hfull
  exact hbound _ (by omega) (hwaits n).2

end Chain

/-! ## What passes through a pipe -/

/-- Every byte written is read in its turn or is still there, and the end of the file is found
only behind all of them. -/
structure State.Kept (s : State σ α β) : Prop where
  split : ∀ j, s.written j = s.taken j ++ s.pipe j
  ended : ∀ j, s.ended j = true → s.pipe j = [] ∧ ¬ s.IsOpen endOf parent (.write j)
  bounded : ∀ j, (s.pipe j).length ≤ capacity

section Kept

variable {endOf next capacity parent} {s s' : State σ α β} {l : Label}

/-- A step that leaves the pipes alone. -/
theorem State.Kept.silent (hkept : s.Kept endOf capacity parent)
    (hopen : ∀ e, s'.IsOpen endOf parent e → s.IsOpen endOf parent e) (hpipe : s'.pipe = s.pipe)
    (hwritten : s'.written = s.written) (htaken : s'.taken = s.taken) (hended : s'.ended = s.ended) :
    s'.Kept endOf capacity parent := by
  refine ⟨fun j => ?_, fun j hj => ?_, fun j => ?_⟩
  · rw [hwritten, htaken, hpipe]
    exact hkept.split j
  · rw [hended] at hj
    rw [hpipe]
    exact ⟨(hkept.ended j hj).1, fun he => (hkept.ended j hj).2 (hopen _ he)⟩
  · rw [hpipe]
    exact hkept.bounded j

theorem State.Kept.step (hkept : s.Kept endOf capacity parent)
    (h : Step endOf next capacity parent s l s') : s'.Kept endOf capacity parent := by
  have hopen : ∀ e, s'.IsOpen endOf parent e → s.IsOpen endOf parent e := fun e => h.isOpen
  cases h with
  | @read i program t fd resume j byte rest hp hnext hend hpipe =>
      refine ⟨fun q => ?_, fun q hq => ⟨?_, fun he => (hkept.ended q hq).2 (hopen _ he)⟩, fun q => ?_⟩
      all_goals by_cases hqj : q = j
      · subst hqj
        have hsplit := hkept.split q
        rw [hpipe] at hsplit
        simpa [State.resume] using hsplit
      · simpa [State.resume, hqj] using hkept.split q
      · subst hqj
        have hempty := (hkept.ended q hq).1
        rw [hpipe] at hempty
        cases hempty
      · simpa [State.resume, hqj] using (hkept.ended q hq).1
      · subst hqj
        have hle := hkept.bounded q
        rw [hpipe, List.length_cons] at hle
        simpa using Nat.le_of_succ_le hle
      · simpa [State.resume, hqj] using hkept.bounded q
  | @readEnd i program t fd resume j hp hnext hend hempty hclosed =>
      refine ⟨hkept.split, fun q hq => ?_, hkept.bounded⟩
      by_cases hqj : q = j
      · subst hqj
        exact ⟨hempty, fun he => hclosed (hopen _ he)⟩
      · have hq' : s.ended q = true := by simpa [hqj] using hq
        exact ⟨(hkept.ended q hq').1, fun he => (hkept.ended q hq').2 (hopen _ he)⟩
  | @write i program t fd byte resume j hp hnext hend hreader hroom =>
      have hwriter : s.IsOpen endOf parent (.write j) := .inr ⟨i, program, t, hp, fd, hend⟩
      refine ⟨fun q => ?_, fun q hq => ⟨?_, fun he => (hkept.ended q hq).2 (hopen _ he)⟩, fun q => ?_⟩
      all_goals by_cases hqj : q = j
      · subst hqj
        have hsplit := hkept.split q
        simp [State.resume, hsplit]
      · simpa [State.resume, hqj] using hkept.split q
      · subst hqj
        exact absurd hwriter (hkept.ended q hq).2
      · simpa [State.resume, hqj] using (hkept.ended q hq).1
      · subst hqj
        simpa using Nat.succ_le_of_lt hroom
      · simpa [State.resume, hqj] using hkept.bounded q
  | readNone | readInput | writeBroken | writeOther | close | dup2 | other | exit =>
      exact hkept.silent hopen rfl rfl rfl rfl

end Kept

/-! ## Programs that come to an end -/

/-- A program that makes at most so many calls without reading, and `gain` more for each byte. -/
structure Frugal (rank : σ → Nat) (gain : Nat) : Prop where
  read : ∀ {program fd resume}, next program = .read fd resume →
    rank (resume none) < rank program ∧ ∀ byte, rank (resume (some byte)) < rank program + gain
  write : ∀ {program fd byte resume}, next program = .write fd byte resume →
    ∀ ok, rank (resume ok) < rank program
  close : ∀ {program fd resume}, next program = .close fd resume → rank resume < rank program
  dup2 : ∀ {program old new resume}, next program = .dup2 old new resume →
    rank resume < rank program
  other : ∀ {program resume}, next program = .other resume →
    ∀ answer, rank (resume answer) < rank program

/-- What a call is worth with so many processes from its own on: each byte it can write is
worth `gain` calls of the next. -/
def weight (gain : Nat) : Nat → Nat
  | 0 => 1
  | left + 1 => gain * weight gain left + 1

theorem weight_pos (gain left : Nat) : 0 < weight gain left := by
  cases left with
  | zero => exact Nat.one_pos
  | succ left => exact Nat.succ_pos _

theorem weight_mono (gain : Nat) {left left' : Nat} (h : left ≤ left') :
    weight gain left ≤ weight gain left' := by
  induction h with
  | refl => exact Nat.le_refl _
  | @step left' _ ih =>
      apply Nat.le_trans ih
      rw [weight]
      cases gain with
      | zero => cases left' <;> simp [weight]
      | succ gain =>
          rw [Nat.succ_mul]
          omega

def Process.left (rank : σ → Nat) : Process σ α → Nat
  | .running program _ => rank program + 1
  | .exited _ | .killed => 0

section Potential

variable (rank : σ → Nat) (gain n : Nat)

/-- What the processes can still do, and what is in the pipes. -/
def State.work (s : State σ α β) : Nat :=
  ∑ i ∈ Finset.range n, weight gain (n - i) * (s.process i).left rank

def State.cargo (s : State σ α β) : Nat :=
  ∑ j ∈ Finset.range n, gain * weight gain (n - (j + 1)) * (s.pipe j).length

def State.potential (s : State σ α β) : Nat := s.work rank gain n + s.cargo gain n

/-- A byte from outside comes with what it is worth. -/
def Label.credit : Label → Nat
  | .call _ => 0
  | .input i => gain * weight gain (n - i)

/-- Processes of a chain, and nothing but the first `n`. -/
structure State.Within (s : State σ α β) : Prop where
  chained : s.Chained endOf
  bound : ∀ i, n ≤ i → ¬ (s.process i).Running

variable {endOf next capacity parent rank gain n} {s s' : State σ α β} {l : Label}

theorem State.Within.lt (h : s.Within endOf n) {i : Nat} {program : σ} {t : Table α}
    (hp : s.process i = .running program t) : i < n := by
  by_contra hle
  apply h.bound i (Nat.le_of_not_lt hle)
  rw [hp]
  trivial

theorem State.Within.step (h : s.Within endOf n) (hstep : Step endOf next capacity parent s l s') :
    s'.Within endOf n := by
  refine ⟨h.chained.step hstep, fun i hi hrun => ?_⟩
  cases hp : s'.process i with
  | exited status | killed =>
      rw [hp] at hrun
      exact hrun
  | running program t =>
      rcases hstep.running hp with ⟨program', t', hp', -⟩
      have hlt := h.lt hp'
      omega

variable (rank gain) in
theorem work_changed {i : Nat} (hi : i < n) {p : Process σ α}
    (hprocess : s'.process = Function.update s.process i p) :
    s'.work rank gain n + weight gain (n - i) * (s.process i).left rank =
      s.work rank gain n + weight gain (n - i) * p.left rank := by
  have hsum := TransitionSystem.sum_changed (Finset.mem_range.mpr hi)
    (f := fun q => weight gain (n - q) * (s.process q).left rank)
    (g := fun q => weight gain (n - q) * (s'.process q).left rank) fun q hq => by
      rw [hprocess, Function.update_of_ne hq]
  rw [hprocess, Function.update_self] at hsum
  rw [State.work, hprocess]
  exact hsum

variable (gain) in
theorem cargo_changed {j : Nat} (hj : j < n) {bytes : List β}
    (hpipe : s'.pipe = Function.update s.pipe j bytes) :
    s'.cargo gain n + gain * weight gain (n - (j + 1)) * (s.pipe j).length =
      s.cargo gain n + gain * weight gain (n - (j + 1)) * bytes.length := by
  have hsum := TransitionSystem.sum_changed (Finset.mem_range.mpr hj)
    (f := fun q => gain * weight gain (n - (q + 1)) * (s.pipe q).length)
    (g := fun q => gain * weight gain (n - (q + 1)) * (s'.pipe q).length) fun q hq => by
      rw [hpipe, Function.update_of_ne hq]
  rw [hpipe, Function.update_self] at hsum
  rw [State.cargo, hpipe]
  exact hsum

/-- A call that moves no byte of a pipe. -/
theorem silent_paid {i : Nat} (hi : i < n) {p : Process σ α} (credit : Nat)
    (hprocess : s'.process = Function.update s.process i p) (hpipe : s'.pipe = s.pipe)
    (hless : p.left rank + 1 ≤ (s.process i).left rank + credit) :
    s'.potential rank gain n + 1 ≤ s.potential rank gain n + credit * weight gain (n - i) := by
  have hwork := work_changed rank gain hi hprocess
  have hcargo : s'.cargo gain n = s.cargo gain n := by rw [State.cargo, State.cargo, hpipe]
  have hpos := weight_pos gain (n - i)
  have hcost := Nat.mul_le_mul_left (weight gain (n - i)) hless
  rw [Nat.mul_add, Nat.mul_add, Nat.mul_one, Nat.mul_comm _ credit] at hcost
  rw [State.potential, State.potential, hcargo]
  omega

/-- A byte that is read pays for the calls it leads to. -/
theorem read_paid {j : Nat} (hj : j + 1 < n) {p : Process σ α} {byte : β} {rest : List β}
    (hprocess : s'.process = Function.update s.process (j + 1) p)
    (hbefore : s.pipe j = byte :: rest) (hpipe : s'.pipe = Function.update s.pipe j rest)
    (hless : p.left rank + 1 ≤ (s.process (j + 1)).left rank + gain) :
    s'.potential rank gain n + 1 ≤ s.potential rank gain n := by
  have hwork := work_changed rank gain hj hprocess
  have hcargo := cargo_changed gain (Nat.lt_of_succ_lt hj) hpipe
  have hpos := weight_pos gain (n - (j + 1))
  have hcost := Nat.mul_le_mul_left (weight gain (n - (j + 1))) hless
  rw [hbefore, List.length_cons, Nat.mul_add, Nat.mul_one] at hcargo
  rw [Nat.mul_add, Nat.mul_add, Nat.mul_one, Nat.mul_comm _ gain] at hcost
  rw [State.potential, State.potential]
  omega

/-- A byte that is written is worth less than the call. -/
theorem write_paid {i : Nat} (hi : i < n) {p : Process σ α} {byte : β}
    (hprocess : s'.process = Function.update s.process i p)
    (hpipe : s'.pipe = Function.update s.pipe i (s.pipe i ++ [byte]))
    (hless : p.left rank + 1 ≤ (s.process i).left rank) :
    s'.potential rank gain n + 1 ≤ s.potential rank gain n := by
  have hwork := work_changed rank gain hi hprocess
  have hcargo := cargo_changed gain hi hpipe
  have hcost := Nat.mul_le_mul_left (weight gain (n - i)) hless
  have hweight : weight gain (n - i) = gain * weight gain (n - (i + 1)) + 1 := by
    have hsucc : n - i = n - (i + 1) + 1 := by omega
    rw [hsucc, weight]
  rw [List.length_append, List.length_singleton, Nat.mul_add, Nat.mul_one] at hcargo
  rw [Nat.mul_add, Nat.mul_one] at hcost
  rw [State.potential, State.potential]
  omega

theorem step_paid (hfrugal : Frugal next rank gain) (hwithin : s.Within endOf n)
    (h : Step endOf next capacity parent s l s') :
    s'.potential rank gain n + 1 ≤ s.potential rank gain n + l.credit gain n := by
  have hquiet : ∀ {i program t p}, s.process i = .running program t →
      s'.process = Function.update s.process i p → s'.pipe = s.pipe →
      p.left rank ≤ rank program → s'.potential rank gain n + 1 ≤ s.potential rank gain n := by
    intro i program t p hp hprocess hpipe hless
    have hbefore : p.left rank + 1 ≤ (s.process i).left rank + 0 := by
      rw [hp]
      simpa [Process.left] using hless
    simpa using silent_paid (hwithin.lt hp) 0 hprocess hpipe hbefore
  cases h with
  | readNone hp hnext hend => exact hquiet hp rfl rfl (hfrugal.read hnext).1
  | readEnd hp hnext hend hempty hclosed => exact hquiet hp rfl rfl (hfrugal.read hnext).1
  | writeOther hp hnext hend ok => exact hquiet hp rfl rfl (hfrugal.write hnext ok)
  | close hp hnext => exact hquiet hp rfl rfl (hfrugal.close hnext)
  | dup2 hp hnext => exact hquiet hp rfl rfl (hfrugal.dup2 hnext)
  | other hp hnext answer => exact hquiet hp rfl rfl (hfrugal.other hnext answer)
  | writeBroken hp hnext hend hbroken => exact hquiet hp rfl rfl (Nat.zero_le _)
  | exit hp hnext => exact hquiet hp rfl rfl (Nat.zero_le _)
  | @readInput i program t fd resume hp hnext hend byte =>
      show _ ≤ s.potential rank gain n + gain * weight gain (n - i)
      refine silent_paid (p := .running (resume (some byte)) t) (hwithin.lt hp) gain rfl rfl ?_
      have hless := (hfrugal.read hnext).2 byte
      rw [hp]
      simp only [Process.left]
      omega
  | @read i program t fd resume j byte rest hp hnext hend hpipe =>
      have hlt := hwithin.lt hp
      rcases hwithin.chained i program t hp _ ⟨fd, hend⟩ with ⟨j', rfl, heq⟩ | heq
      · cases heq
        apply read_paid hlt rfl hpipe rfl
        have hless := (hfrugal.read hnext).2 byte
        rw [hp]
        simp only [Process.left]
        omega
      · cases heq
  | @write i program t fd byte resume j hp hnext hend hreader hroom =>
      have hlt := hwithin.lt hp
      rcases hwithin.chained i program t hp _ ⟨fd, hend⟩ with ⟨j', -, heq⟩ | heq
      · cases heq
      · cases heq
        refine write_paid (p := .running (resume true) t) hlt rfl rfl ?_
        have hless := hfrugal.write hnext true
        rw [hp]
        simp only [Process.left]
        omega

/-- The bytes from outside along a run. -/
def inputs (past : List (State σ α β × Label)) : Nat := past.countP fun t => t.2.isInput

variable (gain n) in
theorem sum_credit_le (past : List (State σ α β × Label)) :
    (past.map fun t => t.2.credit gain n).sum ≤ gain * weight gain n * inputs past := by
  induction past with
  | nil => exact Nat.zero_le _
  | cons t past ih =>
      have hone : t.2.credit gain n ≤ gain * weight gain n * if t.2.isInput then 1 else 0 := by
        cases t.2 with
        | call i => exact Nat.zero_le _
        | input i =>
            show gain * weight gain (n - i) ≤ gain * weight gain n * 1
            rw [Nat.mul_one]
            exact Nat.mul_le_mul_left gain (weight_mono gain (Nat.sub_le n i))
      rw [List.map_cons, List.sum_cons, inputs, List.countP_cons, Nat.mul_add, Nat.add_comm]
      exact Nat.add_le_add ih hone

/-- A run is no longer than what the programs can do by themselves and with the bytes that came
from outside. -/
theorem length_le_potential (hfrugal : Frugal next rank gain) {start : State σ α β}
    (hstart : start.Within endOf n) {past : List (State σ α β × Label)}
    (h : TransitionSystem.Run (system endOf next capacity parent start) past s) :
    past.length ≤ start.potential rank gain n + gain * weight gain n * inputs past := by
  have hpaid := (h.length_le (State.potential rank gain n) (start.potential rank gain n)
    (Label.credit gain n) (P := State.Within endOf n) (G := fun _ => True)
    (fun t ht => by
      rw [show t = start from ht]
      exact ⟨hstart, Nat.le_refl _⟩)
    (fun t l t' ht _ hstep => ⟨ht.step hstep, step_paid hfrugal ht hstep⟩)
    fun _ _ => trivial).2
  have hcredit := sum_credit_le gain n past
  omega

end Potential

/-! ## Runs -/

/-- What holds of every state that a chain reaches. -/
theorem kept_of_reachable {endOf : α → Option End} {next : σ → Request σ β} {capacity n : Nat}
    {parent : Table α} {start s : State σ α β} (hstart : start.Within endOf n)
    (hkept : start.Kept endOf capacity parent)
    (h : TransitionSystem.Reachable (system endOf next capacity parent start) s) :
    s.Within endOf n ∧ s.Kept endOf capacity parent := by
  refine h.invariant (P := fun s => s.Within endOf n ∧ s.Kept endOf capacity parent)
    (fun t ht => ?_) fun t l t' ht hstep => ⟨ht.1.step hstep, ht.2.step hstep⟩
  rw [show t = start from ht]
  exact ⟨hstart, hkept⟩

end PipeChain
