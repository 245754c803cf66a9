import Mathlib.Data.Finmap
import Mathlib.Order.Lattice.Nat

/-! # Descriptor tables

A process's table maps the descriptors that are open to what they refer to. A
descriptor that a program may or may not have is an `Option`: holding it adds an
entry, closing it removes that entry, and installing something on a descriptor that
is open already replaces what it refers to.
-/

namespace Descriptors

abbrev Fd := Nat

abbrev Table (α : Type*) := Finmap fun _ : Fd => α

variable {α : Type*} {t : Table α} {fd target : Fd} {x y : α}

theorem erase_insert_of_notMem (h : fd ∉ t) (x : α) : (t.insert fd x).erase fd = t := by
  refine Finmap.ext_lookup fun fd' => ?_
  by_cases heq : fd' = fd
  · rw [heq, Finmap.lookup_erase, Finmap.lookup_eq_none.mpr h]
  · rw [Finmap.lookup_erase_ne heq, Finmap.lookup_insert_of_ne _ heq]

theorem erase_insert_of_ne (h : fd ≠ target) (x : α) :
    (t.insert target x).erase fd = (t.erase fd).insert target x := by
  refine Finmap.ext_lookup fun fd' => ?_
  by_cases heq : fd' = fd
  · rw [heq, Finmap.lookup_erase, Finmap.lookup_insert_of_ne _ h, Finmap.lookup_erase]
  · rw [Finmap.lookup_erase_ne heq]
    by_cases htarget : fd' = target
    · rw [htarget, Finmap.lookup_insert, Finmap.lookup_insert]
    · rw [Finmap.lookup_insert_of_ne _ htarget, Finmap.lookup_insert_of_ne _ htarget,
        Finmap.lookup_erase_ne heq]

/-- A descriptor above all those that are open. -/
def above (t : Table α) : Fd := t.keys.sup id + 1

theorem notMem_above (h : above t ≤ fd) : fd ∉ t := fun hmem =>
  Nat.not_succ_le_self fd
    (Nat.le_trans (Nat.succ_le_succ (Finset.le_sup (f := id) (Finmap.mem_keys.mpr hmem))) h)

/-! ## System calls -/

/-- `dup2`; it fails on a descriptor that is not open. -/
def dup2 (t : Table α) (old new : Fd) : Option (Table α) :=
  (t.lookup old).map fun x => t.insert new x

theorem dup2_of_lookup (h : t.lookup fd = some x) (new : Fd) :
    dup2 t fd new = some (t.insert new x) := by
  simp [dup2, h]

/-- Opening on a free descriptor, moving it to `target` and closing it changes `target` only. -/
theorem close_dup2_open (hfree : fd ∉ t) (hne : fd ≠ target) (x : α) :
    (dup2 (t.insert fd x) fd target).map (Finmap.erase fd) = some (t.insert target x) := by
  rw [dup2_of_lookup (Finmap.lookup_insert t), Option.map_some, erase_insert_of_ne hne,
    erase_insert_of_notMem hfree]

/-! ## Descriptors that may be missing -/

def hold (p : Option Fd) (x : α) (t : Table α) : Table α :=
  match p with
  | none => t
  | some fd => t.insert fd x

def closeIf (p : Option Fd) (t : Table α) : Table α :=
  match p with
  | none => t
  | some fd => t.erase fd

theorem lookup_hold_self {p : Option Fd} (h : fd ∈ p) : (hold p x t).lookup fd = some x := by
  cases h
  exact Finmap.lookup_insert t

theorem lookup_hold_of_ne {p : Option Fd} (h : ∀ fd' ∈ p, fd ≠ fd') :
    (hold p x t).lookup fd = t.lookup fd := by
  cases p with
  | none => rfl
  | some fd' => exact Finmap.lookup_insert_of_ne t (h fd' rfl)

theorem lookup_hold_cases {p : Option Fd} (h : (hold p x t).lookup fd = some y) :
    y = x ∨ t.lookup fd = some y := by
  by_cases hfd : fd ∈ p
  · rw [lookup_hold_self hfd] at h
    exact .inl (Option.some.inj h).symm
  · have hne : ∀ fd' ∈ p, fd ≠ fd' := fun fd' hmem heq => hfd (heq ▸ hmem)
    rw [lookup_hold_of_ne hne] at h
    exact .inr h

theorem mem_hold {p : Option Fd} : fd ∈ hold p x t ↔ fd ∈ p ∨ fd ∈ t := by
  cases p with
  | none => simp [hold]
  | some fd' => simp [hold, eq_comm]

theorem closeIf_hold {p : Option Fd} (h : ∀ fd ∈ p, fd ∉ t) : closeIf p (hold p x t) = t := by
  cases p with
  | none => rfl
  | some fd => exact erase_insert_of_notMem (h fd rfl) x

theorem closeIf_hold_of_ne {p q : Option Fd} (h : ∀ fd ∈ p, ∀ fd' ∈ q, fd ≠ fd') :
    closeIf p (hold q x t) = hold q x (closeIf p t) := by
  cases p with
  | none => rfl
  | some fd =>
      cases q with
      | none => rfl
      | some fd' => exact erase_insert_of_ne (h fd rfl fd' rfl) x

theorem closeIf_comm (p q : Option Fd) (t : Table α) :
    closeIf p (closeIf q t) = closeIf q (closeIf p t) := by
  cases p with
  | none => rfl
  | some fd =>
      cases q with
      | none => rfl
      | some fd' => exact Finmap.erase_erase

/-! ## Replacing what a descriptor refers to -/

/-- `target` refers to `o` from now on, if there is one. -/
def install (o : Option α) (target : Fd) (t : Table α) : Table α :=
  match o with
  | none => t
  | some x => t.insert target x

theorem lookup_install_self (o : Option α) :
    (install o target t).lookup target = o.or (t.lookup target) := by
  cases o with
  | none => rfl
  | some x => exact Finmap.lookup_insert t

theorem lookup_install_of_ne (o : Option α) (h : fd ≠ target) :
    (install o target t).lookup fd = t.lookup fd := by
  cases o with
  | none => rfl
  | some x => exact Finmap.lookup_insert_of_ne t h

theorem mem_install_of_mem (o : Option α) (h : fd ∈ t) : fd ∈ install o target t := by
  cases o with
  | none => exact h
  | some x => exact Finmap.mem_insert.mpr (.inr h)

theorem closeIf_install {p : Option Fd} (o : Option α) (h : ∀ fd ∈ p, fd ≠ target) :
    closeIf p (install o target t) = install o target (closeIf p t) := by
  cases p with
  | none => rfl
  | some fd =>
      cases o with
      | none => rfl
      | some x => exact erase_insert_of_ne (h fd rfl) x

end Descriptors
