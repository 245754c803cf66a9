import RunnerOrchestrator.Foundation.CyclicChoice
import Mathlib.Algebra.Order.BigOperators.Group.Finset

/-! # Shares under cyclic choice

While a user stays active, nobody is served twice between two of its turns. So nobody
gets more than one turn more than it does, and the number of all turns is bounded by
its own and the size of the table.
-/

namespace CyclicChoice

variable {α : Type*} [DecidableEq α]

/-- Service and enrolment while `v` stays active, its own turns included: from
`(table₀, last₀)` the users `served` lead to `(table, last)`. -/
inductive Service (v : α) (table₀ : List α) (last₀ : α) : List α → List α → α → Prop
  | start : Service v table₀ last₀ [] table₀ last₀
  | enrol {served table : List α} {last w : α} (h : Service v table₀ last₀ served table last)
      (hw : w ∉ table) : Service v table₀ last₀ served (table ++ [w]) last
  | serve {served table : List α} {last u : α} {active : α → Bool}
      (h : Service v table₀ last₀ served table last) (hv : active v = true)
      (hu : choose active table last = some u) :
      Service v table₀ last₀ (served ++ [u]) table u

/-- What service keeps: whoever is ahead of `v` on the tour has had no more turns than
`v`, and nobody has had two more. The turn before the first one counts too, unless it
was `v`'s. -/
structure Shared (v last₀ : α) (served table : List α) (last : α) : Prop where
  nodup : table.Nodup
  last_mem : last ∈ table
  active_mem : v ∈ table
  past_mem : ∀ u ∈ past v last₀ served, u ∈ table
  ahead_le : ∀ u ∈ ahead table last v, (past v last₀ served).count u ≤ served.count v
  count_le : ∀ u, u ≠ v → (past v last₀ served).count u ≤ served.count v + 1

theorem ne_of_mem_ahead {table : List α} {last v u : α} (h : u ∈ ahead table last v) : u ≠ v :=
  fun heq => not_mem_ahead_self table last v (heq ▸ h)

theorem count_snoc_of_ne {u w : α} (h : w ≠ u) (l : List α) : (l ++ [u]).count w = l.count w := by
  rw [List.count_append, List.count_eq_zero_of_not_mem (l := [u]) (by simpa using h), Nat.add_zero]

theorem count_snoc_self (u : α) (l : List α) : (l ++ [u]).count u = l.count u + 1 := by
  rw [List.count_append, List.count_singleton_self]

theorem Shared.start {v last₀ : α} {table₀ : List α} (hnd : table₀.Nodup) (hl : last₀ ∈ table₀)
    (hv : v ∈ table₀) : Shared v last₀ [] table₀ last₀ := by
  by_cases h : last₀ = v
  · exact ⟨hnd, hl, hv, by simp [past, h], by simp [past, h], by simp [past, h]⟩
  · have hpast : past v last₀ [] = [last₀] := by simp [past, h]
    have hbehind := last_not_ahead hnd hl h hv
    refine ⟨hnd, hl, hv, by simpa [hpast] using hl, fun u hu => ?_, fun u _ => ?_⟩
    · rw [hpast, List.count_eq_zero_of_not_mem]
      · exact Nat.zero_le _
      · intro hmem
        rw [List.mem_singleton.mp hmem] at hu
        exact hbehind hu
    · rw [hpast]
      exact List.count_le_length

theorem Shared.enrol {v last₀ last w : α} {served table : List α}
    (h : Shared v last₀ served table last) (hw : w ∉ table) :
    Shared v last₀ served (table ++ [w]) last := by
  refine ⟨?_, by simp [h.last_mem], by simp [h.active_mem], fun u hu => ?_, fun u hu => ?_,
    h.count_le⟩
  · rw [← List.concat_eq_append]
    exact h.nodup.concat hw
  · exact List.mem_append_left _ (h.past_mem u hu)
  · rcases ahead_enrol h.last_mem hu with heq | hold
    · -- the newcomer has had no turn yet
      rw [heq, List.count_eq_zero_of_not_mem fun hmem => hw (h.past_mem w hmem)]
      exact Nat.zero_le _
    · exact h.ahead_le u hold

theorem Shared.serve {v last₀ last u : α} {served table : List α} {active : α → Bool}
    (h : Shared v last₀ served table last) (hv : active v = true)
    (hu : choose active table last = some u) : Shared v last₀ (served ++ [u]) table u := by
  have hmem : ∀ w ∈ past v last₀ (served ++ [u]), w = u ∨ w ∈ table := by
    intro w hw
    rw [past_append, List.mem_append, List.mem_singleton] at hw
    exact hw.symm.imp_right (h.past_mem w)
  rcases choose_ahead hu h.active_mem hv with heq | hin
  · -- `v` catches up with everybody
    subst heq
    have hcount : ∀ w, w ≠ u → (past u last₀ (served ++ [u])).count w ≤ (served ++ [u]).count u := by
      intro w hne
      rw [past_append, count_snoc_of_ne hne, count_snoc_self]
      exact h.count_le w hne
    refine ⟨h.nodup, h.active_mem, h.active_mem, fun w hw => ?_, fun w hw => ?_, fun w hne => ?_⟩
    · exact (hmem w hw).elim (fun heq => heq ▸ h.active_mem) id
    · exact hcount w (ne_of_mem_ahead hw)
    · exact Nat.le_succ_of_le (hcount w hne)
  · -- `u` leaves the users ahead of `v` with at most one turn more than `v`
    obtain ⟨hself, hsub⟩ := ahead_advance h.nodup h.active_mem hin
    have hne := ne_of_mem_ahead hin
    have hturns : (served ++ [u]).count v = served.count v := count_snoc_of_ne hne.symm served
    have hother : ∀ w, w ≠ u →
        (past v last₀ (served ++ [u])).count w = (past v last₀ served).count w := by
      intro w hwu
      rw [past_append, count_snoc_of_ne hwu]
    refine ⟨h.nodup, mem_of_mem_ahead hin, h.active_mem, fun w hw => ?_, fun w hw => ?_,
      fun w hwv => ?_⟩
    · exact (hmem w hw).elim (fun heq => heq ▸ mem_of_mem_ahead hin) id
    · rw [hturns, hother w fun heq => hself (heq ▸ hw)]
      exact h.ahead_le w (hsub w hw)
    · rw [hturns]
      by_cases hwu : w = u
      · have hle := h.ahead_le u hin
        rw [hwu, past_append, count_snoc_self]
        omega
      · rw [hother w hwu]
        exact h.count_le w hwv

theorem Service.shared {v last₀ last : α} {table₀ served table : List α}
    (h : Service v table₀ last₀ served table last) (hnd : table₀.Nodup) (hl : last₀ ∈ table₀)
    (hv : v ∈ table₀) : Shared v last₀ served table last := by
  induction h with
  | start => exact Shared.start hnd hl hv
  | enrol _ hw ih => exact ih.enrol hw
  | serve _ hact hu ih => exact ih.serve hact hu

theorem count_le_count_past (v last₀ : α) (served : List α) (u : α) :
    served.count u ≤ (past v last₀ served).count u := by
  rw [past, List.count_append]
  exact Nat.le_add_left _ _

/-- Nobody gets more than one turn more than an active user. -/
theorem Shared.turns_le {v last₀ last : α} {served table : List α}
    (h : Shared v last₀ served table last) {u : α} (hu : u ≠ v) :
    served.count u ≤ served.count v + 1 :=
  (count_le_count_past v last₀ served u).trans (h.count_le u hu)

/-- A list over a table in which nobody occurs more than `k` times. -/
theorem length_le_of_count_le {l table : List α} {k : Nat} (hmem : ∀ u ∈ l, u ∈ table)
    (hcount : ∀ u, l.count u ≤ k) : l.length ≤ k * table.length := by
  have hsum : ∑ u ∈ table.toFinset, l.count u = l.length := by
    have hcard := Multiset.sum_count_eq_card (s := table.toFinset) (m := (l : Multiset α)) fun u hu =>
      List.mem_toFinset.mpr (hmem u hu)
    simpa only [Multiset.coe_count, Multiset.coe_card] using hcard
  calc l.length = ∑ u ∈ table.toFinset, l.count u := hsum.symm
    _ ≤ table.toFinset.card * k := by
        simpa using Finset.sum_le_card_nsmul table.toFinset _ k fun u _ => hcount u
    _ ≤ table.length * k := Nat.mul_le_mul_right k (List.toFinset_card_le table)
    _ = k * table.length := Nat.mul_comm _ _

/-- The turns of an active user bound those of everybody together. -/
theorem Shared.length_lt {v last₀ last : α} {served table : List α}
    (h : Shared v last₀ served table last) :
    served.length < (served.count v + 1) * table.length := by
  have hmem : ∀ u ∈ v :: served, u ∈ table := by
    intro u hu
    rcases List.mem_cons.mp hu with heq | hu
    · exact heq ▸ h.active_mem
    · exact h.past_mem u (List.mem_append_right _ hu)
  have hcount : ∀ u, (v :: served).count u ≤ served.count v + 1 := by
    intro u
    by_cases hu : u = v
    · rw [hu, List.count_cons_self]
    · rw [List.count_cons_of_ne (Ne.symm hu)]
      exact h.turns_le hu
  exact length_le_of_count_le hmem hcount

end CyclicChoice
