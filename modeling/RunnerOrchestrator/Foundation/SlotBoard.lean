import Mathlib.Algebra.Order.Group.Multiset
import Mathlib.Tactic.Abel
import RunnerOrchestrator.Foundation.Removal

/-! # A board of jobs with a fixed number of slots

The abstract scheduler: jobs wait, run in one of `limit` slots, and finish. A
board cannot be over-full, and it never keeps a slot free while a job waits. The
policy is any relation `pick q k r` that takes job `k` out of the queue `q` and
leaves `r`. The ledger and the order laws below hold of every run.
-/

namespace SlotBoard

open Removal

variable {J : Type*} {limit : Nat}

structure Board (J : Type*) (limit : Nat) where
  waiting : List J
  running : List J
  bounded : running.length ≤ limit
  conserving : waiting ≠ [] → running.length = limit

/-- Every slot free, nobody waiting. -/
def Board.empty (limit : Nat) : Board J limit := ⟨[], [], Nat.zero_le _, fun h => absurd rfl h⟩

inductive Act (J : Type*)
  | idle
  | start (job : J)
  | queue (job : J)
  | finish (done : J)
  | promote (done next : J)

def Act.accepted : Act J → List J
  | .start job | .queue job => [job]
  | .idle | .finish _ | .promote _ _ => []

def Act.authorised : Act J → List J
  | .start job => [job]
  | .promote _ next => [next]
  | .idle | .queue _ | .finish _ => []

def Act.finished : Act J → List J
  | .finish done | .promote done _ => [done]
  | .idle | .start _ | .queue _ => []

/-- One move of the board. -/
inductive Step (pick : List J → J → List J → Prop) (b b' : Board J limit) : Act J → Prop
  | idle (hw : b'.waiting = b.waiting) (hr : b'.running = b.running) : Step pick b b' .idle
  | start (job : J) (hfree : b.waiting = []) (hw : b'.waiting = [])
      (hr : b'.running = b.running ++ [job]) : Step pick b b' (.start job)
  | queue (job : J) (hw : b'.waiting = b.waiting ++ [job]) (hr : b'.running = b.running) :
      Step pick b b' (.queue job)
  | finish (done : J) (hfree : b.waiting = []) (hw : b'.waiting = [])
      (hr : Removes b.running done b'.running) : Step pick b b' (.finish done)
  | promote (done next : J) (rest : List J) (hw : pick b.waiting next b'.waiting)
      (hd : Removes b.running done rest) (hr : b'.running = rest ++ [next]) :
      Step pick b b' (.promote done next)

inductive Run (pick : List J → J → List J → Prop) (b : Board J limit) :
    List (Act J) → Board J limit → Prop
  | start : Run pick b [] b
  | step {acts : List (Act J)} {m b' : Board J limit} {a : Act J} (h : Run pick b acts m)
      (hs : Step pick m b' a) : Run pick b (acts ++ [a]) b'

/-! ## The ledger -/

theorem coe_of_removes {l r : List J} {x : J} (h : Removes l x r) :
    (l : Multiset J) = (r : Multiset J) + {x} := by
  rw [Multiset.coe_eq_coe.mpr h.perm, ← Multiset.cons_coe, ← Multiset.singleton_add, add_comm]

section Ledger

variable {pick : List J → J → List J → Prop} (hpick : ∀ q k r, pick q k r → Removes q k r)

include hpick

theorem Step.ledger {b b' : Board J limit} {a : Act J} (h : Step pick b b' a) :
    (b.waiting : Multiset J) + b.running + a.accepted = b'.waiting + b'.running + a.finished := by
  cases h with
  | idle hw hr => simp [hw, hr, Act.accepted, Act.finished]
  | start job hfree hw hr =>
      simp only [hfree, hw, hr, Act.accepted, Act.finished, ← Multiset.coe_add, Multiset.coe_nil]
      abel
  | queue job hw hr =>
      simp only [hw, hr, Act.accepted, Act.finished, ← Multiset.coe_add, Multiset.coe_nil]
      abel
  | finish done hfree hw hr =>
      simp [hfree, hw, coe_of_removes hr, Act.accepted, Act.finished]
  | promote done next rest hw hd hr =>
      rw [coe_of_removes (hpick _ _ _ hw), coe_of_removes hd, hr]
      simp only [Act.accepted, Act.finished, ← Multiset.coe_add, Multiset.coe_nil,
        Multiset.coe_singleton]
      abel

/-- Accepted jobs are waiting, running or finished, each counted once. -/
theorem Run.ledger {b b' : Board J limit} {acts : List (Act J)} (h : Run pick b acts b') :
    (b.waiting : Multiset J) + b.running + (acts.flatMap Act.accepted : List J) =
      b'.waiting + b'.running + (acts.flatMap Act.finished : List J) := by
  induction h with
  | start => simp
  | @step acts m b' a _ hs ih =>
      have hstep := hs.ledger hpick
      simp only [List.flatMap_append, List.flatMap_singleton, ← Multiset.coe_add] at ih hstep ⊢
      calc (b.waiting : Multiset J) + b.running + (acts.flatMap Act.accepted + a.accepted)
          = m.waiting + m.running + a.accepted + acts.flatMap Act.finished := by
            rw [← add_assoc, ih]; abel
        _ = b'.waiting + b'.running + (acts.flatMap Act.finished + a.finished) := by
            rw [hstep]; abel

end Ledger

section Slots

variable {pick : List J → J → List J → Prop}

theorem Step.authorised_ledger {b b' : Board J limit} {a : Act J} (h : Step pick b b' a) :
    (b.running : Multiset J) + a.authorised = b'.running + a.finished := by
  cases h with
  | idle hw hr => simp [hr, Act.authorised, Act.finished]
  | start job hfree hw hr =>
      simp only [hr, Act.authorised, Act.finished, ← Multiset.coe_add, Multiset.coe_nil, add_zero]
  | queue job hw hr => simp [hr, Act.authorised, Act.finished]
  | finish done hfree hw hr => simp [coe_of_removes hr, Act.authorised, Act.finished]
  | promote done next rest hw hd hr =>
      rw [coe_of_removes hd, hr]
      simp only [Act.authorised, Act.finished, ← Multiset.coe_add, Multiset.coe_singleton]
      abel

/-- Only running jobs finish. -/
theorem Step.finished_le {b b' : Board J limit} {a : Act J} (h : Step pick b b' a) :
    (a.finished : Multiset J) ≤ b.running := by
  cases h with
  | idle hw hr => exact Multiset.zero_le _
  | start job hfree hw hr => exact Multiset.zero_le _
  | queue job hw hr => exact Multiset.zero_le _
  | finish done hfree hw hr =>
      rw [coe_of_removes hr]
      exact Multiset.le_add_left _ _
  | promote done next rest hw hd hr =>
      rw [coe_of_removes hd]
      exact Multiset.le_add_left _ _

/-- Authorised jobs are running or finished, each counted once. -/
theorem Run.authorised_ledger {b b' : Board J limit} {acts : List (Act J)}
    (h : Run pick b acts b') :
    (b.running : Multiset J) + (acts.flatMap Act.authorised : List J) =
      b'.running + (acts.flatMap Act.finished : List J) := by
  induction h with
  | start => simp
  | @step acts m b' a _ hs ih =>
      have hstep := hs.authorised_ledger
      simp only [List.flatMap_append, List.flatMap_singleton, ← Multiset.coe_add] at ih hstep ⊢
      calc (b.running : Multiset J) + (acts.flatMap Act.authorised + a.authorised)
          = m.running + a.authorised + acts.flatMap Act.finished := by
            rw [← add_assoc, ih]; abel
        _ = b'.running + (acts.flatMap Act.finished + a.finished) := by
            rw [hstep]; abel

end Slots

/-! ## Order inside a class of jobs -/

/-- Inside the class `c` the policy takes the first waiting job. -/
def FirstOf (c : J → Bool) (pick : List J → J → List J → Prop) : Prop :=
  ∀ q k r, pick q k r → q.filter c = (if c k then [k] else []) ++ r.filter c

section Order

variable {pick : List J → J → List J → Prop} {c : J → Bool} (hfirst : FirstOf c pick)

include hfirst

theorem Step.order {b b' : Board J limit} {a : Act J} (h : Step pick b b' a) :
    b.waiting.filter c ++ a.accepted.filter c = a.authorised.filter c ++ b'.waiting.filter c := by
  cases h with
  | idle hw hr => simp [hw, Act.accepted, Act.authorised]
  | start job hfree hw hr => simp [hfree, hw, Act.accepted, Act.authorised]
  | queue job hw hr => simp [hw, Act.accepted, Act.authorised]
  | finish done hfree hw hr => simp [hfree, hw, Act.accepted, Act.authorised]
  | promote done next rest hw hd hr =>
      simp [hfirst _ _ _ hw, Act.accepted, Act.authorised, List.filter_cons]

/-- Jobs of the class are authorised in the order in which they were accepted,
and the rest of that order is what waits. -/
theorem Run.order {b b' : Board J limit} {acts : List (Act J)} (h : Run pick b acts b') :
    b.waiting.filter c ++ (acts.flatMap Act.accepted).filter c =
      (acts.flatMap Act.authorised).filter c ++ b'.waiting.filter c := by
  induction h with
  | start => simp
  | step _ hs ih =>
      have hstep := hs.order hfirst
      simp only [List.flatMap_append, List.flatMap_singleton, List.filter_append]
      rw [← List.append_assoc, ih, List.append_assoc, hstep, List.append_assoc]

end Order

end SlotBoard
