import Mathlib.Data.List.Chain
import Mathlib.Order.Bounds.Basic

/-!
Elements that follow each other in a set of a linear order, and what adding one
element to the set does to them.
-/

namespace EdgeComputing.Library

open List

variable {α : Type*} [LinearOrder α] {S : Set α} {a b c n : α}

/-- `a` and `b` are in `S`, `a` before `b`, and nothing of `S` is between them. -/
def Follows (S : Set α) (a b : α) : Prop :=
  a ∈ S ∧ b ∈ S ∧ a < b ∧ ∀ c ∈ S, ¬ (a < c ∧ c < b)

namespace Follows

section

variable (h : Follows S a b)
include h

theorem left_mem : a ∈ S := h.1

theorem right_mem : b ∈ S := h.2.1

theorem lt : a < b := h.2.2.1

theorem le_of_lt_right (hc : c ∈ S) (hlt : c < b) : c ≤ a :=
  not_lt.mp fun hac => h.2.2.2 c hc ⟨hac, hlt⟩

theorem le_of_lt_left (hc : c ∈ S) (hlt : a < c) : b ≤ c :=
  not_lt.mp fun hcb => h.2.2.2 c hc ⟨hlt, hcb⟩

theorem left_unique (h' : Follows S c b) : a = c :=
  le_antisymm (h'.le_of_lt_right h.left_mem h.lt) (h.le_of_lt_right h'.left_mem h'.lt)

theorem not_isLeast : ¬ IsLeast S b :=
  fun hb => absurd (hb.2 h.left_mem) (not_le.mpr h.lt)

theorem insert (hn : ¬ (a < n ∧ n < b)) : Follows (insert n S) a b := by
  refine ⟨Set.mem_insert_of_mem n h.left_mem, Set.mem_insert_of_mem n h.right_mem, h.lt, ?_⟩
  rintro c (rfl | hc)
  · exact hn
  · exact h.2.2.2 c hc

end

theorem insert_left (ha : a ∈ S) (han : a < n) (hgap : ∀ c ∈ S, ¬ (a < c ∧ c < n)) :
    Follows (Insert.insert n S) a n := by
  refine ⟨Set.mem_insert_of_mem n ha, Set.mem_insert n S, han, ?_⟩
  rintro c (rfl | hc)
  · exact fun h => lt_irrefl c h.2
  · exact hgap c hc

theorem insert_right (hb : b ∈ S) (hnb : n < b) (hgap : ∀ c ∈ S, ¬ (n < c ∧ c < b)) :
    Follows (Insert.insert n S) n b := by
  refine ⟨Set.mem_insert n S, Set.mem_insert_of_mem n hb, hnb, ?_⟩
  rintro c (rfl | hc)
  · exact fun h => lt_irrefl c h.1
  · exact hgap c hc

end Follows

theorem isLeast_insert_of_lt (h : IsLeast S a) (hn : n < a) : IsLeast (insert n S) n := by
  refine ⟨Set.mem_insert n S, ?_⟩
  rintro c (rfl | hc)
  · exact le_refl c
  · exact hn.le.trans (h.2 hc)

theorem isLeast_insert_of_gt (h : IsLeast S a) (hn : a < n) : IsLeast (insert n S) a := by
  refine ⟨Set.mem_insert_of_mem n h.1, ?_⟩
  rintro c (rfl | hc)
  · exact hn.le
  · exact h.2 hc

variable {l : List α} {R : α → α → Prop}

omit [LinearOrder α] in
theorem getLast?_or_exists_of_isChain (h : l.IsChain R) {x : α} (hx : x ∈ l) :
    l.getLast? = some x ∨ ∃ y ∈ l, R x y := by
  obtain ⟨as, bs, rfl⟩ := append_of_mem hx
  cases bs with
  | nil => exact .inl getLast?_concat
  | cons y bs =>
    refine .inr ⟨y, by simp, ?_⟩
    exact (isChain_cons_cons.mp (isChain_append.mp h).2.1).1

omit [LinearOrder α] in
theorem head?_or_exists_of_isChain (h : l.IsChain R) {x : α} (hx : x ∈ l) :
    l.head? = some x ∨ ∃ y ∈ l, R y x := by
  obtain ⟨as, bs, rfl⟩ := append_of_mem hx
  cases hlast : as.getLast? with
  | none =>
    rw [getLast?_eq_none_iff.mp hlast]
    exact .inl rfl
  | some y =>
    refine .inr ⟨y, mem_append_left _ (mem_of_getLast? hlast), ?_⟩
    exact (isChain_append.mp h).2.2 y hlast x rfl

end EdgeComputing.Library
