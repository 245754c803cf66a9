import Mathlib.Data.List.Perm.Subperm
import Mathlib.Data.Set.Finite.Basic
import RunnerOrchestrator.Foundation.LinkedList

/-! # Stores side by side

Two stores without a common reference can be put together. An operation that only
follows and changes nodes of its own part does the same in the whole store, and the other
part stays as it is. A part that holds the nodes of one list and nothing else is owned by
the list; unlinking a node keeps it so.
-/

namespace LinkedList

variable {α : Type*}

/-- No reference is in use in both. -/
def Store.Apart (s t : Store α) : Prop := ∀ r, s r = none ∨ t r = none

def Store.union (s t : Store α) : Store α := fun r => (s r).or (t r)

def Store.empty : Store α := fun _ => none

/-- The references in use. -/
def Store.inUse (s : Store α) : Set Ref := {r | s r ≠ none}

theorem Store.inUse_union (s t : Store α) : (s.union t).inUse ⊆ s.inUse ∪ t.inUse := by
  intro r hr
  by_cases hs : s r = none
  · exact Or.inr fun ht => hr (Option.or_eq_none_iff.mpr ⟨hs, ht⟩)
  · exact Or.inl hs

theorem Store.Apart.symm {s t : Store α} (h : s.Apart t) : t.Apart s := fun r => (h r).symm

theorem Store.union_comm {s t : Store α} (h : s.Apart t) : s.union t = t.union s := by
  funext r
  rcases h r with hr | hr <;> simp [Store.union, hr]

theorem Store.union_assoc (s t u : Store α) : (s.union t).union u = s.union (t.union u) := by
  funext r
  simp [Store.union, Option.or_assoc]

theorem Store.apart_union {s t u : Store α} : s.Apart (t.union u) ↔ s.Apart t ∧ s.Apart u := by
  constructor
  · intro h
    refine ⟨fun r => ?_, fun r => ?_⟩
    · exact (h r).imp_right fun hr => (Option.or_eq_none_iff.mp hr).1
    · exact (h r).imp_right fun hr => (Option.or_eq_none_iff.mp hr).2
  · rintro ⟨ht, hu⟩ r
    rcases ht r with hr | hr
    · exact Or.inl hr
    · exact (hu r).imp_right fun hu => Option.or_eq_none_iff.mpr ⟨hr, hu⟩

/-- What is in use in a part is there in the whole. -/
theorem Store.union_of_some {s : Store α} {r : Ref} {node : Node α} (h : s r = some node)
    (t : Store α) : s.union t r = some node := by
  simp [Store.union, h]

theorem Store.Apart.right {s t : Store α} (h : s.Apart t) {r : Ref} {node : Node α}
    (hr : s r = some node) : t r = none := by
  refine (h r).resolve_left fun hnone => ?_
  rw [hr] at hnone
  cases hnone

theorem Store.set_union (s t : Store α) (r : Ref) (node : Node α) :
    (s.set r node).union t = (s.union t).set r node := by
  funext r'
  by_cases hr : r' = r
  · rw [hr, Store.set_same, Store.union_of_some (Store.set_same s r node)]
  · rw [Store.set_of_ne hr, Store.union, Store.set_of_ne hr]
    rfl

theorem Store.free_union (s : Store α) {t : Store α} {r : Ref} (h : t r = none) :
    (s.free r).union t = (s.union t).free r := by
  funext r'
  by_cases hr : r' = r
  · simp [hr, Store.union, Store.free, h]
  · rw [Store.free_of_ne hr, Store.union, Store.free_of_ne hr]
    rfl

/-! ## Unlinking in a part -/

/-- `s'` has lost the node at `r` and keeps all its others, whatever is in them now. -/
def Loses (s s' : Store α) (r : Ref) : Prop :=
  s r ≠ none ∧ ∀ r', s' r' = none ↔ s r' = none ∨ r' = r

theorem free_loses {s u : Store α} {r : Ref} (hr : s r ≠ none)
    (hu : ∀ r', u r' = none ↔ s r' = none) : Loses s (u.free r) r := by
  refine ⟨hr, fun r' => ?_⟩
  by_cases heq : r' = r
  · simp [heq, Store.free]
  · rw [Store.free_of_ne heq, hu]
    simp [heq]

theorem detach_loses {s s' : Store α} {prev next : Option Ref} {r : Ref} {node : Node α}
    (hr : s r = some node) (h : detach s prev r next = some s') : Loses s s' r := by
  have hin : s r ≠ none := by simp [hr]
  cases prev with
  | none =>
      cases h
      exact free_loses hin fun _ => Iff.rfl
  | some p =>
      obtain ⟨before, hp, rfl⟩ := Option.map_eq_some_iff.mp h
      refine free_loses hin fun r' => ?_
      by_cases heq : r' = p
      · simp [heq, hp]
      · rw [Store.set_of_ne heq]

theorem Loses.apart {s s' t : Store α} {r : Ref} (h : Loses s s' r) (ht : s.Apart t) :
    s'.Apart t := fun r' => (ht r').imp_left fun hnone => (h.2 r').mpr (Or.inl hnone)

theorem detach_union {s s' t : Store α} {prev next : Option Ref} {r : Ref} {node : Node α}
    (hr : s r = some node) (h : detach s prev r next = some s') (ht : s.Apart t) :
    detach (s.union t) prev r next = some (s'.union t) := by
  have hfree := ht.right hr
  cases prev with
  | none =>
      cases h
      exact congrArg some (Store.free_union s hfree).symm
  | some p =>
      obtain ⟨before, hp, rfl⟩ := Option.map_eq_some_iff.mp h
      simp only [detach, Store.union_of_some hp, Option.map_some, Store.free_union _ hfree,
        Store.set_union]

/-! ## Parts owned by one list -/

/-- The part holds the nodes of the list and no other. -/
structure Owned (s : Store α) (head tail : Option Ref) (cells : List (Ref × α)) : Prop where
  holds : Holds s head tail cells
  only : ∀ r, s r ≠ none → r ∈ refs cells

theorem owned_nil : Owned (Store.empty : Store α) none none [] :=
  ⟨holds_nil _, fun _ h => absurd rfl h⟩

theorem Owned.mem_iff {s : Store α} {head tail : Option Ref} {cells : List (Ref × α)}
    (h : Owned s head tail cells) {r : Ref} : r ∈ refs cells ↔ s r ≠ none := by
  refine ⟨fun hmem => ?_, h.only r⟩
  obtain ⟨node, hnode⟩ := h.holds.segment.exists_node hmem
  simp [hnode]

/-- A list that is as long as there are places in use owns them all. -/
theorem Holds.owned_of_length {s : Store α} {head tail : Option Ref} {cells : List (Ref × α)}
    (h : Holds s head tail cells) {used : List Ref} (hused : ∀ r, s r ≠ none → r ∈ used)
    (hlength : used.length ≤ (refs cells).length) : Owned s head tail cells := by
  have hsub : (refs cells).Subperm used := by
    refine h.nodup.subperm fun r hr => hused r ?_
    obtain ⟨node, hnode⟩ := h.segment.exists_node hr
    simp [hnode]
  have hperm : (refs cells).Perm used := hsub.perm_of_length_le hlength
  exact ⟨h, fun r hr => hperm.mem_iff.mpr (hused r hr)⟩

/-- Two lists of one length in the same part have the same nodes. -/
theorem Owned.same {s : Store α} {head tail head' tail' : Option Ref}
    {cells cells' : List (Ref × α)} (h : Owned s head tail cells)
    (h' : Holds s head' tail' cells') (hlength : cells'.length = cells.length) :
    Owned s head' tail' cells' := by
  apply h'.owned_of_length h.only
  simp only [refs, List.length_map]
  omega

theorem Owned.finite {s : Store α} {head tail : Option Ref} {cells : List (Ref × α)}
    (h : Owned s head tail cells) : s.inUse.Finite :=
  (List.finite_toSet (refs cells)).subset fun r hr => h.only r hr

/-- One node lost and a list one shorter: the list owns what is left. -/
theorem Owned.loses {s s' : Store α} {head tail head' tail' : Option Ref}
    {cells cells' : List (Ref × α)} {r : Ref} (h : Owned s head tail cells) (hloses : Loses s s' r)
    (h' : Holds s' head' tail' cells') (hlength : cells'.length + 1 = cells.length) :
    Owned s' head' tail' cells' := by
  have hmem : r ∈ refs cells := h.only r hloses.1
  have hleft : ∀ r', s' r' ≠ none → r' ∈ (refs cells).erase r := by
    intro r' hr'
    have hnot : ¬ (s r' = none ∨ r' = r) := fun hor => hr' ((hloses.2 r').mpr hor)
    rw [not_or] at hnot
    exact (List.mem_erase_of_ne hnot.2).mpr (h.only r' hnot.1)
  apply h'.owned_of_length hleft
  rw [List.length_erase_of_mem hmem]
  simp only [refs, List.length_map]
  omega

/-- A node allocated behind the tail joins the part. -/
theorem Owned.gains {s s' : Store α} {head tail head' tail' : Option Ref}
    {cells : List (Ref × α)} {r : Ref} {x : α} (h : Owned s head tail cells)
    (hsame : ∀ r', r' ≠ r → (s' r' = none ↔ s r' = none))
    (h' : Holds s' head' tail' (cells ++ [(r, x)])) :
    Owned s' head' tail' (cells ++ [(r, x)]) := by
  refine ⟨h', fun r' hr' => ?_⟩
  by_cases heq : r' = r
  · simp [refs, heq]
  · have hold : r' ∈ refs cells := h.only r' fun hnone => hr' ((hsame r' heq).mpr hnone)
    rw [refs_append]
    exact List.mem_append_left _ hold

/-! ## Giving a list back -/

/-- Frees every node from `p` on, reading its successor first. -/
def freeFrom (s : Store α) : Nat → Option Ref → Option (Store α)
  | _, none => some s
  | 0, some _ => none
  | fuel + 1, some r => (s r).bind fun node => freeFrom (s.free r) fuel node.next

/-- The nodes of the part are freed, each once, and nothing else is. -/
theorem Owned.freeFrom {s t : Store α} {head tail : Option Ref} {cells : List (Ref × α)}
    (h : Owned s head tail cells) (ht : s.Apart t) {fuel : Nat} (hfuel : cells.length ≤ fuel) :
    freeFrom (s.union t) fuel head = some t := by
  induction cells generalizing s head tail fuel with
  | nil =>
      obtain rfl : head = none := h.holds.segment
      have hnone : s.union t = t := by
        funext r
        have hr : s r = none := by
          by_contra hr
          simpa [refs] using h.only r hr
        simp [Store.union, hr]
      rw [hnone]
      cases fuel <;> rfl
  | cons cell cells ih =>
      obtain ⟨r, x⟩ := cell
      obtain ⟨rfl, next, hnode, hrest⟩ := h.holds.segment
      obtain ⟨fuel, rfl⟩ : ∃ k, fuel = k + 1 := ⟨fuel - 1, by simp at hfuel; omega⟩
      have hnodup := List.nodup_cons.mp h.holds.nodup
      have hloses : Loses s (s.free r) r := free_loses (by simp [hnode]) fun _ => Iff.rfl
      have howned : Owned (s.free r) next (last? cells) cells :=
        h.loses hloses ⟨hrest.free hnodup.1, hnodup.2, rfl⟩ rfl
      rw [LinkedList.freeFrom, Store.union_of_some hnode, Option.bind_some,
        ← Store.free_union s (ht.right hnode)]
      exact ih howned (hloses.apart ht) (by simpa using hfuel)

end LinkedList
