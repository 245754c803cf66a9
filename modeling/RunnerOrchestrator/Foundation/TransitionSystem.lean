import Mathlib.Data.List.Basic
import Mathlib.Algebra.BigOperators.Group.Finset.Basic
import Mathlib.Algebra.GroupWithZero.Nat

/-! # Labelled transition systems

Runs record every state they leave and the label of the step taken there, so a
condition on steps and a property of states can be compared along one run.
-/

structure TransitionSystem (σ ι : Type*) where
  init : σ → Prop
  step : σ → ι → σ → Prop

namespace TransitionSystem

variable {σ ι : Type*} {S : TransitionSystem σ ι}

/-- A run that left the states of `past`, by the labels beside them, and is now in `s`. -/
inductive Run (S : TransitionSystem σ ι) : List (σ × ι) → σ → Prop
  | init {s : σ} (h : S.init s) : Run S [] s
  | step {past : List (σ × ι)} {s s' : σ} {l : ι} (h : Run S past s) (hs : S.step s l s') :
      Run S (past ++ [(s, l)]) s'

/-- Every state of a run, in order. -/
def statesOf (past : List (σ × ι)) (s : σ) : List σ := past.map Prod.fst ++ [s]

def Reachable (S : TransitionSystem σ ι) (s : σ) : Prop := ∃ past, Run S past s

theorem Reachable.init {s : σ} (h : S.init s) : Reachable S s := ⟨[], .init h⟩

theorem Reachable.step {s s' : σ} {l : ι} (h : Reachable S s) (hs : S.step s l s') :
    Reachable S s' := by
  obtain ⟨past, h⟩ := h
  exact ⟨_, h.step hs⟩

/-- What holds initially and is kept by every step holds of every reachable state. -/
theorem Reachable.invariant {P : σ → Prop} (hinit : ∀ s, S.init s → P s)
    (hstep : ∀ s l s', P s → S.step s l s' → P s') {s : σ} (h : Reachable S s) : P s := by
  obtain ⟨past, h⟩ := h
  induction h with
  | init h => exact hinit _ h
  | step _ hs ih => exact hstep _ _ _ ih hs

/-- The same where the step may use what is known of reachable states already. -/
theorem Reachable.invariant_along {P : σ → Prop} (hinit : ∀ s, S.init s → P s)
    (hstep : ∀ s l s', Reachable S s → P s → S.step s l s' → P s') {s : σ} (h : Reachable S s) :
    P s := by
  obtain ⟨past, h⟩ := h
  induction h with
  | init h => exact hinit _ h
  | step hrun hs ih => exact hstep _ _ _ ⟨_, hrun⟩ ih hs

/-- Forward simulation: when each step is answered by one step of `T` or by none, every state
reached is related to one that `T` reaches. -/
theorem Reachable.simulates {τ κ : Type*} {T : TransitionSystem τ κ} {R : σ → τ → Prop}
    (hinit : ∀ s, S.init s → ∃ t, T.init t ∧ R s t)
    (hstep : ∀ s l s' t, Reachable S s → Reachable T t → R s t → S.step s l s' →
      R s' t ∨ ∃ k t', T.step t k t' ∧ R s' t')
    {s : σ} (h : Reachable S s) : ∃ t, Reachable T t ∧ R s t := by
  refine h.invariant_along (P := fun s => ∃ t, Reachable T t ∧ R s t) (fun s hs => ?_) ?_
  · obtain ⟨t, ht, hR⟩ := hinit s hs
    exact ⟨t, .init ht, hR⟩
  · rintro s l s' hs ⟨t, ht, hR⟩ hl
    rcases hstep s l s' t hs ht hR hl with hR' | ⟨k, t', hk, hR'⟩
    · exact ⟨t, ht, hR'⟩
    · exact ⟨t', ht.step hk, hR'⟩

/-- A run is no longer than the potential at its start and what its steps were credited with,
when every step is paid for out of the potential. -/
theorem Run.length_le (potential : σ → Nat) (initial : Nat) (credit : ι → Nat) {P : σ → Prop}
    {G : ι → Prop} (hinit : ∀ s, S.init s → P s ∧ potential s ≤ initial)
    (hstep : ∀ s l s', P s → G l → S.step s l s' →
      P s' ∧ potential s' + 1 ≤ potential s + credit l)
    {past : List (σ × ι)} {s : σ} (h : Run S past s) (hguard : ∀ t ∈ past, G t.2) :
    P s ∧ past.length + potential s ≤ initial + (past.map fun t => credit t.2).sum := by
  induction h with
  | init h =>
      obtain ⟨hP, hle⟩ := hinit _ h
      exact ⟨hP, by simpa using hle⟩
  | @step past s s' l _ hs ih =>
      obtain ⟨hP, hpaid⟩ := ih fun t ht => hguard t (by simp [ht])
      have hlabel : G l := hguard (s, l) (by simp)
      obtain ⟨hP', hcost⟩ := hstep _ _ _ hP hlabel hs
      refine ⟨hP', ?_⟩
      rw [List.length_append, List.length_singleton, List.map_append, List.map_singleton,
        List.sum_append, List.sum_singleton]
      dsimp only
      omega

/-- A potential that is a sum over parties, when one of them moves. -/
theorem sum_changed {κ : Type*} [DecidableEq κ] {who : Finset κ} {f g : κ → Nat} {i : κ}
    (hi : i ∈ who) (hother : ∀ j, j ≠ i → g j = f j) :
    ∑ j ∈ who, g j + f i = ∑ j ∈ who, f j + g i := by
  rw [← Finset.add_sum_erase who g hi, ← Finset.add_sum_erase who f hi]
  have hrest : ∑ j ∈ who.erase i, g j = ∑ j ∈ who.erase i, f j :=
    Finset.sum_congr rfl fun j hj => hother j (Finset.ne_of_mem_erase hj)
  omega

/-- An exact guard of `P`: the invariant behind `P` is kept by the guarded steps,
and a step against the guard breaks `P` at once. -/
structure ExactGuard (S : TransitionSystem σ ι) (P : σ → Prop) (G : σ → ι → Prop)
    (Inv : σ → Prop) : Prop where
  init : ∀ s, S.init s → Inv s
  kept : ∀ s l s', Inv s → S.step s l s' → G s l → Inv s'
  sound : ∀ s, Inv s → P s
  broken : ∀ s l s', Inv s → S.step s l s' → ¬ G s l → ¬ P s'

theorem ExactGuard.inv {P : σ → Prop} {G : σ → ι → Prop} {Inv : σ → Prop}
    (hg : ExactGuard S P G Inv) {past : List (σ × ι)} {s : σ} (h : Run S past s)
    (hguard : ∀ t ∈ past, G t.1 t.2) : Inv s := by
  induction h with
  | init h => exact hg.init _ h
  | @step past s s' l _ hs ih =>
      exact hg.kept _ _ _ (ih fun t ht => hguard t (by simp [ht])) hs (hguard (s, l) (by simp))

/-- Along a run the property holds in every state exactly when no step broke the guard. -/
theorem ExactGuard.run_iff {P : σ → Prop} {G : σ → ι → Prop} {Inv : σ → Prop}
    (hg : ExactGuard S P G Inv) {past : List (σ × ι)} {s : σ} (h : Run S past s) :
    (∀ t ∈ statesOf past s, P t) ↔ ∀ t ∈ past, G t.1 t.2 := by
  induction h with
  | init h => simpa [statesOf] using hg.sound _ (hg.init _ h)
  | @step past s s' l h hs ih =>
      have hsplit : (∀ t ∈ statesOf (past ++ [(s, l)]) s', P t) ↔
          (∀ t ∈ statesOf past s, P t) ∧ P s' := by
        simp [statesOf, or_imp, forall_and, and_assoc]
      rw [hsplit, ih]
      constructor
      · rintro ⟨hpast, hs'⟩ t ht
        rcases List.mem_append.mp ht with ht | ht
        · exact hpast t ht
        · rw [List.mem_singleton.mp ht]
          by_contra hbad
          exact hg.broken _ _ _ (hg.inv h hpast) hs hbad hs'
      · intro hguard
        have hpast : ∀ t ∈ past, G t.1 t.2 := fun t ht => hguard t (by simp [ht])
        exact ⟨hpast, hg.sound _ (hg.kept _ _ _ (hg.inv h hpast) hs (hguard (s, l) (by simp)))⟩

end TransitionSystem
