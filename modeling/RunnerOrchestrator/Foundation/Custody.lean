import Mathlib.Data.List.Perm.Basic
import Mathlib.Data.List.Nodup

/-! # Custody of what has been allocated

Allocations are numbered. Whatever has been allocated and not been freed is held by
somebody, and an account of the holders is carried through every allocation, every
release and every transfer. Nothing has been lost or freed twice when nobody is left
holding anything.
-/

/-- `held` is what has been `allocated`, less what has been `freed`; no number from `next`
on has been given out. -/
structure Custody (next : Nat) (allocated freed held : List Nat) : Prop where
  balance : ∀ id, allocated.count id = freed.count id + held.count id
  nodup : allocated.Nodup
  fresh : ∀ id ∈ allocated, id < next

namespace Custody

variable {next : Nat} {allocated freed held : List Nat}

theorem start (next : Nat) : Custody next [] [] [] :=
  ⟨fun _ => rfl, List.nodup_nil, fun _ h => nomatch h⟩

theorem allocate (h : Custody next allocated freed held) :
    Custody (next + 1) (allocated ++ [next]) freed (next :: held) := by
  refine ⟨fun id => ?_, ?_, fun id hid => ?_⟩
  · have hbalance := h.balance id
    simp only [List.count_append, List.count_cons, List.count_nil]
    omega
  · rw [← List.concat_eq_append]
    exact h.nodup.concat fun hmem => Nat.lt_irrefl next (h.fresh next hmem)
  · obtain hid | hid := List.mem_append.mp hid
    · exact Nat.lt_succ_of_lt (h.fresh id hid)
    · rw [List.mem_singleton.mp hid]
      exact Nat.lt_succ_self next

/-- An allocation that fails uses up its number. -/
theorem skip (h : Custody next allocated freed held) : Custody (next + 1) allocated freed held :=
  ⟨h.balance, h.nodup, fun id hid => Nat.lt_succ_of_lt (h.fresh id hid)⟩

theorem transfer {held' : List Nat} (h : Custody next allocated freed held)
    (hperm : held.Perm held') : Custody next allocated freed held' :=
  ⟨fun id => by rw [h.balance, hperm.count_eq], h.nodup, h.fresh⟩

theorem release {ids : List Nat} (h : Custody next allocated freed (ids ++ held)) :
    Custody next allocated (freed ++ ids) held := by
  refine ⟨fun id => ?_, h.nodup, h.fresh⟩
  have hbalance := h.balance id
  rw [List.count_append] at hbalance
  rw [List.count_append]
  omega

/-- Everything has been freed exactly once when nothing is held any more. -/
theorem released_iff (h : Custody next allocated freed held) :
    (∀ id ∈ allocated, freed.count id = 1) ↔ held = [] := by
  constructor
  · intro hall
    by_contra hne
    obtain ⟨id, hid⟩ := List.exists_mem_of_ne_nil held hne
    have hheld := List.count_pos_iff.mpr hid
    have hbalance := h.balance id
    have honce := List.nodup_iff_count_le_one.mp h.nodup id
    have hmem : id ∈ allocated := List.count_pos_iff.mp (by omega)
    have hfreed := hall id hmem
    omega
  · rintro rfl id hid
    have hbalance := h.balance id
    rw [List.count_eq_one_of_mem h.nodup hid, List.count_nil] at hbalance
    exact hbalance.symm

end Custody
