import Mathlib.Data.List.Rotate
import Mathlib.Data.List.Nodup
import Mathlib.Data.List.TakeWhile

/-! # Cyclic choice over a growing table

A table lists every known user once, in order of enrolment. The next user to be
served is the first active one met going round the table from the position after
the last user served. `ahead table last v` is the stretch of users met before `v`
on that tour: serving one of them shortens it, and enrolment only adds new ones.
-/

namespace CyclicChoice

variable {α : Type*} [DecidableEq α]

/-- The tour that starts after `last` and ends with it; the whole table when
`last` is not in it. -/
def tour (table : List α) (last : α) : List α :=
  if last ∈ table then table.rotate (table.idxOf last + 1) else table

/-- The position after the first occurrence of `last`; the first one without any. -/
def start (table : List α) (last : α) : Nat := if last ∈ table then table.idxOf last + 1 else 0

/-- The first active user of the tour. -/
def choose (active : α → Bool) (table : List α) (last : α) : Option α :=
  (tour table last).find? active

/-- The users met on the tour before `v`. -/
def ahead (table : List α) (last v : α) : List α :=
  (tour table last).takeWhile fun u => decide (u ≠ v)

/-! ## The tour -/

theorem mem_tour {table : List α} {last u : α} : u ∈ tour table last ↔ u ∈ table := by
  unfold tour
  split
  · exact List.mem_rotate
  · rfl

theorem length_tour (table : List α) (last : α) : (tour table last).length = table.length := by
  unfold tour
  split
  · exact List.length_rotate _ _
  · rfl

theorem nodup_tour {table : List α} {last : α} : (tour table last).Nodup ↔ table.Nodup := by
  unfold tour
  split
  · exact List.nodup_rotate
  · rfl

theorem tour_split {x y : List α} {last : α} (hx : last ∉ x) :
    tour (x ++ last :: y) last = y ++ x ++ [last] := by
  have hidx : (x ++ last :: y).idxOf last = x.length := by
    simp [List.idxOf_append, hx]
  have hassoc : x ++ last :: y = (x ++ [last]) ++ y := by simp
  have hlen : x.length + 1 = (x ++ [last]).length := by simp
  unfold tour
  rw [if_pos (by simp), hidx, hassoc, hlen, List.rotate_append_length_eq, List.append_assoc]

theorem exists_tour_split {table : List α} {last : α} (h : last ∈ table) :
    ∃ x y, table = x ++ last :: y ∧ last ∉ x ∧ tour table last = y ++ x ++ [last] := by
  obtain ⟨x, y, rfl, hx⟩ := List.eq_append_cons_of_mem h
  exact ⟨x, y, rfl, hx, tour_split hx⟩

theorem tour_eq_rotate (table : List α) (last : α) :
    tour table last = table.rotate (start table last) := by
  unfold tour start
  split
  · rfl
  · exact table.rotate_zero.symm

theorem getElem?_tour {table : List α} {k : Nat} (hk : k < table.length) (last : α) :
    (tour table last)[k]? = table[(start table last + k) % table.length]? := by
  rw [tour_eq_rotate, List.getElem?_rotate hk, Nat.add_comm]

/-- Its own position comes last. -/
theorem start_last {table : List α} {last : α} (h : last ∈ table) :
    (start table last + (table.length - 1)) % table.length = table.idxOf last := by
  have hlt := List.idxOf_lt_length_of_mem h
  have hturn : start table last + (table.length - 1) = table.idxOf last + table.length := by
    rw [start, if_pos h]
    omega
  rw [hturn, Nat.add_mod_right, Nat.mod_eq_of_lt hlt]

/-- Moving the last user along its own tour turns the tour around it. -/
theorem tour_advance {table p q : List α} {last u : α} (hnd : table.Nodup)
    (h : tour table last = p ++ u :: q) : tour table u = q ++ p ++ [u] := by
  rw [tour_eq_rotate] at h
  generalize start table last = k at h
  have hlen : p.length < (table.rotate k).length := by simp [h]
  have hpos : 0 < table.length := by
    rw [List.length_rotate] at hlen
    omega
  have hlt : (p.length + k) % table.length < table.length := Nat.mod_lt _ hpos
  have hget : table[(p.length + k) % table.length] = u := by
    rw [← List.getElem_rotate table k p.length hlen]
    simp [h]
  have hidx : table.idxOf u = (p.length + k) % table.length := by
    rw [← hget]
    exact hnd.idxOf_getElem _ _
  have hmem : u ∈ table := hget ▸ List.getElem_mem _
  have hturn : table.rotate (table.idxOf u + 1) = table.rotate (k + (p ++ [u]).length) := by
    rw [hidx, ← List.rotate_mod, Nat.mod_add_mod, List.rotate_mod]
    congr 1
    simp only [List.length_append, List.length_singleton]
    omega
  unfold tour
  rw [if_pos hmem, hturn, ← List.rotate_rotate, h, List.append_cons,
    List.rotate_append_length_eq, List.append_assoc]

theorem start_le_length (table : List α) (last : α) : start table last ≤ table.length := by
  unfold start
  split
  · next h => exact List.idxOf_lt_length_of_mem h
  · exact Nat.zero_le _

omit [DecidableEq α] in
/-- A turn from `a` meets the position `i` in the first lap or in the second. -/
theorem turn_eq_iff {a k i n : Nat} (ha : a ≤ n) (hk : k < n) (hi : i < n) :
    (a + k) % n = i ↔ a + k = i ∨ a + k = i + n := by
  by_cases hlap : a + k < n
  · rw [Nat.mod_eq_of_lt hlap]
    omega
  · have hlt : a + k - n < n := by omega
    rw [Nat.mod_eq_sub_mod (by omega), Nat.mod_eq_of_lt hlt]
    omega

/-! ## The table -/

/-- The table once `u` has shown up. -/
def register (table : List α) (u : α) : List α := if u ∈ table then table else table ++ [u]

/-- The table lists those of `seen`, each once, in order of first appearance. -/
structure Registers (seen table : List α) : Prop where
  nodup : table.Nodup
  mem : ∀ u, u ∈ table ↔ u ∈ seen
  order : table.Pairwise fun u v => seen.idxOf u < seen.idxOf v

theorem Registers.step {seen table : List α} (h : Registers seen table) (u : α) :
    Registers (seen ++ [u]) (register table u) := by
  have hkept : table.Pairwise fun v w => (seen ++ [u]).idxOf v < (seen ++ [u]).idxOf w :=
    h.order.imp_of_mem fun hv hw hlt => by
      rwa [List.idxOf_append_of_mem ((h.mem _).mp hv), List.idxOf_append_of_mem ((h.mem _).mp hw)]
  unfold register
  split
  · next hu =>
    refine ⟨h.nodup, fun v => ?_, hkept⟩
    rw [List.mem_append, List.mem_singleton, ← h.mem]
    exact ⟨Or.inl, fun hv => hv.elim id fun heq => heq ▸ hu⟩
  · next hu =>
    have hnew : u ∉ seen := fun hseen => hu ((h.mem u).mpr hseen)
    refine ⟨?_, fun v => ?_, ?_⟩
    · rw [← List.concat_eq_append]
      exact h.nodup.concat hu
    · rw [List.mem_append, List.mem_append, h.mem]
    · refine List.pairwise_append.mpr ⟨hkept, List.pairwise_singleton _ _, fun v hv w hw => ?_⟩
      have hseen := (h.mem v).mp hv
      rw [List.mem_singleton.mp hw, List.idxOf_append_of_mem hseen, List.idxOf_append_of_notMem hnew]
      exact Nat.lt_of_lt_of_le (List.idxOf_lt_length_of_mem hseen) (Nat.le_add_right _ _)

theorem registers_foldl (seen : List α) : Registers seen (seen.foldl register []) := by
  induction seen using List.reverseRecOn with
  | nil => exact ⟨List.nodup_nil, fun u => Iff.rfl, List.Pairwise.nil⟩
  | append_singleton seen u ih =>
      rw [List.foldl_append]
      exact ih.step u

/-- Nobody is moved or struck off. -/
theorem prefix_foldl_register (table seen : List α) : table <+: seen.foldl register table := by
  induction seen generalizing table with
  | nil => exact List.prefix_rfl
  | cons u seen ih =>
      refine List.IsPrefix.trans ?_ (ih (register table u))
      unfold register
      split
      · exact List.prefix_rfl
      · exact List.prefix_append table [u]

/-! ## The users ahead -/

theorem tour_ahead {table : List α} (last : α) {v : α} (hv : v ∈ table) :
    ∃ q, tour table last = ahead table last v ++ v :: q := by
  have hmem : v ∈ tour table last := mem_tour.mpr hv
  obtain ⟨p, q, hpq, hp⟩ := List.eq_append_cons_of_mem hmem
  refine ⟨q, ?_⟩
  have hall : ∀ u ∈ p, decide (u ≠ v) = true := fun u hu => by
    simpa using fun h : u = v => hp (h ▸ hu)
  rw [ahead, hpq, List.takeWhile_append_of_pos hall]
  simp

theorem mem_of_mem_ahead {table : List α} {last v u : α} (h : u ∈ ahead table last v) :
    u ∈ table :=
  mem_tour.mp ((List.takeWhile_sublist _).mem h)

theorem not_mem_ahead_self (table : List α) (last v : α) : v ∉ ahead table last v := fun h => by
  simpa using List.mem_takeWhile_imp h

/-- While `v` is active nobody behind it is chosen. -/
theorem choose_ahead {active : α → Bool} {table : List α} {last v u : α}
    (h : choose active table last = some u) (hv : v ∈ table) (hact : active v = true) :
    u = v ∨ u ∈ ahead table last v := by
  obtain ⟨q, hq⟩ := tour_ahead last hv
  rw [choose, hq, List.find?_append] at h
  cases hfind : (ahead table last v).find? active with
  | some w =>
      simp only [hfind, Option.some_or, Option.some.injEq] at h
      exact Or.inr (h ▸ List.mem_of_find?_eq_some hfind)
  | none =>
      simp only [hfind, Option.none_or, List.find?_cons_of_pos hact, Option.some.injEq] at h
      exact Or.inl h.symm

theorem last_not_ahead {table : List α} {last v : α} (hnd : table.Nodup) (hl : last ∈ table)
    (hne : last ≠ v) (hv : v ∈ table) : last ∉ ahead table last v := by
  obtain ⟨x, y, rfl, -, ht⟩ := exists_tour_split hl
  obtain ⟨q, hq⟩ := tour_ahead last hv
  intro hmem
  have hq' : q ≠ [] := by
    rintro rfl
    have hend : y ++ x ++ [last] = ahead (x ++ last :: y) last v ++ [v] := ht.symm.trans hq
    exact hne (by simpa using (List.append_inj' hend rfl).2)
  have hlast : last ∈ v :: q := by
    have hgl : (tour (x ++ last :: y) last).getLast (by simp [ht]) = last := by simp [ht]
    have hgq : (tour (x ++ last :: y) last).getLast (by simp [ht]) = (v :: q).getLast (by simp) := by
      simp [hq]
    rw [← hgl, hgq]
    exact List.getLast_mem _
  have hnd' : (tour (x ++ last :: y) last).Nodup := nodup_tour.mpr hnd
  rw [hq] at hnd'
  exact (List.nodup_append.mp hnd').2.2 last hmem last hlast rfl

/-- Serving a user ahead of `v` takes it, and everybody before it, out of the way. -/
theorem ahead_advance {table : List α} {last v u : α} (hnd : table.Nodup) (hv : v ∈ table)
    (hu : u ∈ ahead table last v) :
    u ∉ ahead table u v ∧ ∀ w ∈ ahead table u v, w ∈ ahead table last v := by
  obtain ⟨q, hq⟩ := tour_ahead last hv
  obtain ⟨p, r, hpr, -⟩ := List.eq_append_cons_of_mem hu
  have hsplit : tour table last = p ++ u :: (r ++ v :: q) := by simp [hq, hpr]
  have hnext : tour table u = r ++ v :: (q ++ p ++ [u]) := by
    rw [tour_advance hnd hsplit]
    simp
  have hndl : (p ++ u :: (r ++ v :: q)).Nodup := hsplit ▸ nodup_tour.mpr hnd
  have hrv : ∀ w ∈ r, decide (w ≠ v) = true := fun w hw => by
    have hin : w ∈ ahead table last v := by simp [hpr, hw]
    simpa using fun h : w = v => not_mem_ahead_self table last v (h ▸ hin)
  have hahead : ahead table u v = r := by
    rw [ahead, hnext, List.takeWhile_append_of_pos hrv]
    simp
  rw [hahead]
  constructor
  · intro hur
    have hcons : (u :: (r ++ v :: q)).Nodup := (List.nodup_append.mp hndl).2.1
    exact (List.nodup_cons.mp hcons).1 (by simp [hur])
  · intro w hw
    simp [hpr, hw]

omit [DecidableEq α] in
theorem takeWhile_insert {p : α → Bool} {x y : List α} {w u : α}
    (h : u ∈ (x ++ w :: y).takeWhile p) : u = w ∨ u ∈ (x ++ y).takeWhile p := by
  induction x with
  | nil =>
      simp only [List.nil_append, List.takeWhile_cons] at h
      split at h
      · simpa using h
      · simp at h
  | cons z x ih =>
      simp only [List.cons_append, List.takeWhile_cons] at h ⊢
      split at h
      · rename_i hz
        rw [if_pos hz]
        rcases List.mem_cons.mp h with rfl | h
        · simp
        · exact (ih h).imp_right (List.mem_cons_of_mem z)
      · simp at h

/-- Enrolling a new user puts at most that user in the way. -/
theorem ahead_enrol {table : List α} {last v w u : α} (hl : last ∈ table)
    (h : u ∈ ahead (table ++ [w]) last v) : u = w ∨ u ∈ ahead table last v := by
  obtain ⟨x, y, rfl, hx, ht⟩ := exists_tour_split hl
  have hnew : tour (x ++ last :: y ++ [w]) last = y ++ w :: (x ++ [last]) := by
    rw [List.append_assoc, List.cons_append, tour_split hx]
    simp
  rw [ahead, hnew] at h
  rw [ahead, ht, List.append_assoc]
  exact takeWhile_insert h

/-! ## Stretches of service without `v` -/

/-- Service and enrolment during a stretch in which `v` stays active and is never
served: from `(table₀, last₀)` the users `served` lead to `(table, last)`. -/
inductive Stretch (v : α) (table₀ : List α) (last₀ : α) : List α → List α → α → Prop
  | start : Stretch v table₀ last₀ [] table₀ last₀
  | enrol {served table : List α} {last w : α} (h : Stretch v table₀ last₀ served table last)
      (hw : w ∉ table) : Stretch v table₀ last₀ served (table ++ [w]) last
  | serve {served table : List α} {last u : α} {active : α → Bool}
      (h : Stretch v table₀ last₀ served table last) (hv : active v = true)
      (hu : choose active table last = some u) (hne : u ≠ v) :
      Stretch v table₀ last₀ (served ++ [u]) table u

/-- The users that have had their turn: those served, and `last₀` unless it is `v`. -/
def past (v last₀ : α) (served : List α) : List α :=
  (if last₀ = v then [] else [last₀]) ++ served

theorem past_append (v last₀ : α) (served more : List α) :
    past v last₀ (served ++ more) = past v last₀ served ++ more := by
  simp [past]

/-- What a stretch keeps: nobody who has had a turn is ahead of `v` any more. -/
structure Spent (v last₀ : α) (served table : List α) (last : α) : Prop where
  nodup : table.Nodup
  last_mem : last ∈ table
  waiting_mem : v ∈ table
  past_nodup : (past v last₀ served).Nodup
  past_mem : ∀ u ∈ past v last₀ served, u ∈ table
  past_behind : ∀ u ∈ past v last₀ served, u ∉ ahead table last v

theorem Spent.start {v last₀ : α} {table₀ : List α} (hnd : table₀.Nodup) (hl : last₀ ∈ table₀)
    (hv : v ∈ table₀) : Spent v last₀ [] table₀ last₀ := by
  by_cases h : last₀ = v
  · exact ⟨hnd, hl, hv, by simp [past, h], by simp [past, h], by simp [past, h]⟩
  · refine ⟨hnd, hl, hv, by simp [past, h], by simpa [past, h] using hl, ?_⟩
    simpa [past, h] using last_not_ahead hnd hl h hv

theorem Spent.enrol {v last₀ last w : α} {served table : List α}
    (h : Spent v last₀ served table last) (hw : w ∉ table) :
    Spent v last₀ served (table ++ [w]) last := by
  refine ⟨?_, by simp [h.last_mem], by simp [h.waiting_mem], h.past_nodup,
    fun u hu => by simp [h.past_mem u hu], ?_⟩
  · rw [List.nodup_append]
    exact ⟨h.nodup, List.nodup_singleton w, fun a ha b hb => by
      rintro rfl
      exact hw (List.mem_singleton.mp hb ▸ ha)⟩
  · intro u hu hahead
    rcases ahead_enrol h.last_mem hahead with rfl | hold
    · exact hw (h.past_mem u hu)
    · exact h.past_behind u hu hold

theorem Spent.serve {v last₀ last u : α} {served table : List α} {active : α → Bool}
    (h : Spent v last₀ served table last) (hv : active v = true)
    (hu : choose active table last = some u) (hne : u ≠ v) :
    Spent v last₀ (served ++ [u]) table u := by
  have hin : u ∈ ahead table last v :=
    (choose_ahead hu h.waiting_mem hv).resolve_left hne
  obtain ⟨hself, hsub⟩ := ahead_advance h.nodup h.waiting_mem hin
  have hnew : u ∉ past v last₀ served := fun hp => h.past_behind u hp hin
  refine ⟨h.nodup, mem_of_mem_ahead hin, h.waiting_mem, ?_, ?_, ?_⟩
  · rw [past_append, List.nodup_append]
    exact ⟨h.past_nodup, List.nodup_singleton u, fun a ha b hb => by
      rintro rfl
      exact hnew (List.mem_singleton.mp hb ▸ ha)⟩
  · intro w hw
    rw [past_append, List.mem_append, List.mem_singleton] at hw
    rcases hw with hw | rfl
    · exact h.past_mem w hw
    · exact mem_of_mem_ahead hin
  · intro w hw hahead
    rw [past_append, List.mem_append, List.mem_singleton] at hw
    rcases hw with hw | rfl
    · exact h.past_behind w hw (hsub w hahead)
    · exact hself hahead

theorem Stretch.spent {v last₀ last : α} {table₀ served table : List α}
    (h : Stretch v table₀ last₀ served table last) (hnd : table₀.Nodup) (hl : last₀ ∈ table₀)
    (hv : v ∈ table₀) : Spent v last₀ served table last := by
  induction h with
  | start => exact Spent.start hnd hl hv
  | enrol _ hw ih => exact ih.enrol hw
  | serve _ hact hu hne ih => exact ih.serve hact hu hne

/-- Nobody is served twice while `v` waits, and the last user served before the
stretch, unless it is `v`, is not served at all. -/
theorem Stretch.nodup_past {v last₀ last : α} {table₀ served table : List α}
    (h : Stretch v table₀ last₀ served table last) (hnd : table₀.Nodup) (hl : last₀ ∈ table₀)
    (hv : v ∈ table₀) : (past v last₀ served).Nodup :=
  (h.spent hnd hl hv).past_nodup

end CyclicChoice
