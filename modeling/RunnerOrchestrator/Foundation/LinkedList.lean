import Mathlib.Data.List.Nodup
import Mathlib.Logic.Function.Basic

/-! # Singly linked lists in a store

A store maps references to nodes; what is not allocated, or freed again, is mapped to
nothing. A segment names the nodes met on the way from one pointer to another, and a
list with a tail pointer is a segment to NULL through distinct nodes.
-/

namespace LinkedList

abbrev Ref := Nat

structure Node (α : Type*) where
  val : α
  next : Option Ref
deriving Repr, DecidableEq

/-- `none` in place of a reference is NULL. -/
abbrev Store (α : Type*) := Ref → Option (Node α)

variable {α : Type*}

def Store.set (s : Store α) (r : Ref) (node : Node α) : Store α := Function.update s r (some node)

def Store.free (s : Store α) (r : Ref) : Store α := Function.update s r none

@[simp] theorem Store.set_same (s : Store α) (r : Ref) (node : Node α) : s.set r node r = some node :=
  Function.update_self r _ s

theorem Store.set_of_ne {s : Store α} {r r' : Ref} (h : r' ≠ r) (node : Node α) :
    s.set r node r' = s r' :=
  Function.update_of_ne h _ s

theorem Store.free_of_ne {s : Store α} {r r' : Ref} (h : r' ≠ r) : s.free r r' = s r' :=
  Function.update_of_ne h _ s

/-! ## Segments -/

/-- From `p` through the nodes of `cells`, each with its value, to `q`. -/
def Segment (s : Store α) : Option Ref → List (Ref × α) → Option Ref → Prop
  | p, [], q => p = q
  | p, (r, x) :: cells, q => p = some r ∧ ∃ next, s r = some ⟨x, next⟩ ∧ Segment s next cells q

def refs (cells : List (Ref × α)) : List Ref := cells.map Prod.fst

def values (cells : List (Ref × α)) : List α := cells.map Prod.snd

@[simp] theorem refs_append (a b : List (Ref × α)) : refs (a ++ b) = refs a ++ refs b :=
  List.map_append

@[simp] theorem values_append (a b : List (Ref × α)) : values (a ++ b) = values a ++ values b :=
  List.map_append

theorem segment_append {s : Store α} {p q : Option Ref} {a b : List (Ref × α)} :
    Segment s p (a ++ b) q ↔ ∃ m, Segment s p a m ∧ Segment s m b q := by
  induction a generalizing p with
  | nil => simp [Segment]
  | cons cell a ih =>
      simp only [List.cons_append, Segment, ih]
      constructor
      · intro h
        obtain ⟨hp, next, hnode, m, ha, hb⟩ := h
        exact ⟨m, ⟨hp, next, hnode, ha⟩, hb⟩
      · intro h
        obtain ⟨m, ⟨hp, next, hnode, ha⟩, hb⟩ := h
        exact ⟨hp, next, hnode, m, ha, hb⟩

theorem segment_snoc {s : Store α} {p q : Option Ref} {a : List (Ref × α)} {r : Ref} {x : α} :
    Segment s p (a ++ [(r, x)]) q ↔ Segment s p a (some r) ∧ s r = some ⟨x, q⟩ := by
  rw [segment_append]
  constructor
  · intro h
    obtain ⟨m, ha, hm, next, hnode, hq⟩ := h
    cases hm
    cases hq
    exact ⟨ha, hnode⟩
  · intro h
    exact ⟨some r, h.1, rfl, q, h.2, rfl⟩

/-- What happens at other references leaves a segment as it is. -/
theorem Segment.congr {s s' : Store α} {p q : Option Ref} {cells : List (Ref × α)}
    (h : Segment s p cells q) (hs : ∀ r ∈ refs cells, s' r = s r) : Segment s' p cells q := by
  induction cells generalizing p with
  | nil => exact h
  | cons cell cells ih =>
      obtain ⟨hp, next, hnode, hrest⟩ := h
      refine ⟨hp, next, ?_, ih hrest fun r hr => hs r (List.mem_cons_of_mem _ hr)⟩
      rw [hs _ List.mem_cons_self]
      exact hnode

theorem Segment.set {s : Store α} {p q : Option Ref} {cells : List (Ref × α)}
    (h : Segment s p cells q) {r : Ref} (hr : r ∉ refs cells) (node : Node α) :
    Segment (s.set r node) p cells q := by
  apply h.congr
  intro r' hmem
  apply Store.set_of_ne
  intro heq
  rw [heq] at hmem
  exact hr hmem

theorem Segment.free {s : Store α} {p q : Option Ref} {cells : List (Ref × α)}
    (h : Segment s p cells q) {r : Ref} (hr : r ∉ refs cells) : Segment (s.free r) p cells q := by
  apply h.congr
  intro r' hmem
  apply Store.free_of_ne
  intro heq
  rw [heq] at hmem
  exact hr hmem

/-- The nodes of a segment are allocated. -/
theorem Segment.exists_node {s : Store α} {p q : Option Ref} {cells : List (Ref × α)}
    (h : Segment s p cells q) {r : Ref} (hr : r ∈ refs cells) : ∃ node, s r = some node := by
  induction cells generalizing p with
  | nil => simp [refs] at hr
  | cons cell cells ih =>
      obtain ⟨-, next, hnode, hrest⟩ := h
      rcases List.mem_cons.mp hr with rfl | hr
      · exact ⟨_, hnode⟩
      · exact ih hrest hr

/-- Only NULL begins an empty segment to NULL. -/
theorem Segment.eq_none_iff {s : Store α} {p : Option Ref} {cells : List (Ref × α)}
    (h : Segment s p cells none) : p = none ↔ cells = [] := by
  cases cells with
  | nil => exact iff_of_true h rfl
  | cons cell cells =>
      obtain ⟨hp, -⟩ := h
      simp [hp]

/-- The last node of a segment. -/
def last? (cells : List (Ref × α)) : Option Ref := (refs cells).getLast?

@[simp] theorem last?_nil : last? ([] : List (Ref × α)) = none := rfl

@[simp] theorem last?_snoc (a : List (Ref × α)) (r : Ref) (x : α) : last? (a ++ [(r, x)]) = some r := by
  simp [last?, refs]

theorem last?_append_cons (a b : List (Ref × α)) (cell : Ref × α) :
    last? (a ++ cell :: b) = last? (cell :: b) := by
  have hne : refs (cell :: b) ≠ [] := by simp [refs]
  rw [last?, refs_append, List.getLast?_append_of_ne_nil _ hne]
  rfl

theorem last?_eq_none_iff {cells : List (Ref × α)} : last? cells = none ↔ cells = [] := by
  simp [last?, refs]

/-! ## Lists with a tail pointer -/

/-- `head` and `tail` hold the list `cells`. -/
structure Holds (s : Store α) (head tail : Option Ref) (cells : List (Ref × α)) : Prop where
  segment : Segment s head cells none
  nodup : (refs cells).Nodup
  tail_eq : tail = last? cells

theorem holds_nil (s : Store α) : Holds s none none [] := ⟨rfl, List.nodup_nil, rfl⟩

theorem Holds.head_eq_none_iff {s : Store α} {head tail : Option Ref} {cells : List (Ref × α)}
    (h : Holds s head tail cells) : head = none ↔ cells = [] :=
  h.segment.eq_none_iff

theorem Holds.tail_eq_none_iff {s : Store α} {head tail : Option Ref} {cells : List (Ref × α)}
    (h : Holds s head tail cells) : tail = none ↔ cells = [] := by
  rw [h.tail_eq, last?_eq_none_iff]

theorem Holds.mem_of_tail {s : Store α} {head tail : Option Ref} {cells : List (Ref × α)}
    (h : Holds s head tail cells) {t : Ref} (ht : tail = some t) :
    ∃ a y, cells = a ++ [(t, y)] := by
  rcases List.eq_nil_or_concat cells with rfl | ⟨a, cell, rfl⟩
  · have hnone := h.tail_eq
    rw [ht] at hnone
    cases hnone
  · have hlast := h.tail_eq
    rw [ht, List.concat_eq_append, last?_snoc] at hlast
    cases hlast
    exact ⟨a, cell.2, List.concat_eq_append⟩

section Push

variable {s : Store α} {head tail : Option Ref} {cells : List (Ref × α)}
  (h : Holds s head tail cells) {r : Ref} (hr : s r = none) (x : α)

include h

/-- Without a tail the new node is the whole list. -/
theorem Holds.push_nil (htail : tail = none) :
    Holds (s.set r ⟨x, none⟩) (some r) (some r) (cells ++ [(r, x)]) := by
  have hnil := h.tail_eq_none_iff.mp htail
  subst hnil
  refine ⟨⟨rfl, none, Store.set_same s r _, rfl⟩, ?_, rfl⟩
  simp [refs]

include hr

/-- A node allocated at a free reference goes behind the tail. -/
theorem Holds.push {t : Ref} (htail : tail = some t) :
    ∃ node, s.set r ⟨x, none⟩ t = some node ∧
      Holds ((s.set r ⟨x, none⟩).set t { node with next := some r }) head (some r)
        (cells ++ [(r, x)]) := by
  obtain ⟨a, y, rfl⟩ := h.mem_of_tail htail
  have hfresh : r ∉ refs (a ++ [(t, y)]) := by
    intro hmem
    obtain ⟨node, hnode⟩ := h.segment.exists_node hmem
    rw [hr] at hnode
    cases hnode
  have hne : t ≠ r := by
    intro heq
    apply hfresh
    rw [← heq]
    simp [refs]
  have hnodup := h.nodup
  rw [refs_append, List.nodup_append] at hnodup
  have htnot : t ∉ refs a := fun hmem => hnodup.2.2 t hmem t (by simp [refs]) rfl
  have hrnot : r ∉ refs a := fun hmem => hfresh (by simp [hmem])
  obtain ⟨hfront, hnode⟩ := segment_snoc.mp h.segment
  refine ⟨⟨y, none⟩, by rw [Store.set_of_ne hne, hnode], ?_, ?_, ?_⟩
  · rw [segment_snoc, segment_snoc]
    refine ⟨⟨(hfront.set hrnot _).set htnot _, Store.set_same _ _ _⟩, ?_⟩
    rw [Store.set_of_ne hne.symm, Store.set_same]
  · rw [refs_append, List.nodup_append]
    refine ⟨h.nodup, by simp [refs], ?_⟩
    intro r₁ hr₁ r₂ hr₂ heq
    rw [List.mem_singleton.mp hr₂] at heq
    rw [heq] at hr₁
    exact hfresh hr₁
  · rw [last?_snoc]

end Push

/-- Unlink the node `r`, whose successor is `next`, behind `prev`, and free it. -/
def detach (s : Store α) (prev : Option Ref) (r : Ref) (next : Option Ref) : Option (Store α) :=
  match prev with
  | none => some (s.free r)
  | some p => (s p).map fun node => (s.set p { node with next := next }).free r

section Detach

variable {s : Store α} {head tail : Option Ref} {a b : List (Ref × α)} {r : Ref} {x : α}
  (h : Holds s head tail (a ++ (r, x) :: b))

include h

theorem Holds.at_cell : ∃ next, s r = some ⟨x, next⟩ ∧ Segment s head a (some r) ∧
    Segment s next b none := by
  obtain ⟨m, ha, hm, next, hnode, hb⟩ := segment_append.mp h.segment
  subst hm
  exact ⟨next, hnode, ha, hb⟩

theorem Holds.not_mem : r ∉ refs a ∧ r ∉ refs b := by
  have hnodup := h.nodup
  rw [refs_append, List.nodup_append] at hnodup
  refine ⟨fun hmem => hnodup.2.2 r hmem r (by simp [refs]) rfl, ?_⟩
  exact (List.nodup_cons.mp hnodup.2.1).1

/-- The node before the end is the tail. -/
theorem Holds.tail_iff : tail = some r ↔ b = [] := by
  rw [h.tail_eq, last?_append_cons]
  constructor
  · intro hlast
    rcases List.eq_nil_or_concat b with rfl | ⟨b', cell, rfl⟩
    · rfl
    · rw [List.concat_eq_append, ← List.cons_append, last?_snoc] at hlast
      have hmem : r ∈ refs (b'.concat cell) := by
        cases hlast
        simp [refs]
      exact absurd hmem h.not_mem.2
  · rintro rfl
    rfl

theorem Holds.detach {next : Option Ref} (hnode : s r = some ⟨x, next⟩) :
    ∃ s', LinkedList.detach s (last? a) r next = some s' ∧
      Holds s' (if a = [] then next else head) (if b = [] then last? a else tail) (a ++ b) := by
  obtain ⟨next', hnode', ha, hb⟩ := h.at_cell
  rw [hnode] at hnode'
  cases hnode'
  obtain ⟨hra, hrb⟩ := h.not_mem
  have hnodup : (refs (a ++ b)).Nodup := by
    have hall := h.nodup
    rw [refs_append] at hall ⊢
    exact hall.sublist ((List.sublist_cons_self r (refs b)).append_left (refs a))
  have htail : (if b = [] then last? a else tail) = last? (a ++ b) := by
    split
    · rename_i hnil
      simp [hnil]
    · rename_i hne
      obtain ⟨cell, b', rfl⟩ := List.exists_cons_of_ne_nil hne
      rw [h.tail_eq, last?_append_cons, last?_append_cons]
      exact last?_append_cons [(r, x)] b' cell
  rcases List.eq_nil_or_concat a with rfl | ⟨a', cell, rfl⟩
  · exact ⟨s.free r, rfl, hb.free hrb, hnodup, htail⟩
  · obtain ⟨p, y⟩ := cell
    rw [List.concat_eq_append] at *
    obtain ⟨hfront, hprev⟩ := segment_snoc.mp ha
    have hsplit := hnodup
    rw [refs_append, refs_append, List.append_assoc, List.nodup_append] at hsplit
    have hpa : p ∉ refs a' := fun hmem => hsplit.2.2 p hmem p (by simp [refs]) rfl
    have hpb : p ∉ refs b := (List.nodup_cons.mp hsplit.2.1).1
    have hpr : p ≠ r := by
      intro heq
      apply hra
      rw [← heq]
      simp [refs]
    have hra' : r ∉ refs a' := fun hmem => hra (by simp [hmem])
    refine ⟨(s.set p ⟨y, next⟩).free r, ?_, ?_, hnodup, htail⟩
    · simp [LinkedList.detach, hprev]
    · rw [if_neg (by simp), segment_append]
      refine ⟨next, ?_, (hb.set hpb _).free hrb⟩
      rw [segment_snoc]
      refine ⟨(hfront.set hpa _).free hra', ?_⟩
      rw [Store.free_of_ne hpr, Store.set_same]

end Detach

end LinkedList
