import Mathlib.Data.List.Nodup
import Mathlib.Order.Lattice

/-!
Binary search trees with a cursor. A lookup that does not find its key stops at a hole; the path to
it is what an intrusive tree library hands to its caller, and the neighbours of the hole are read
off it.
-/

namespace EdgeComputing.Library

open List

inductive BinTree (α : Type*) where
  | leaf
  | node (left : BinTree α) (value : α) (right : BinTree α)
  deriving DecidableEq

/-- One step down from a node: `left` keeps the node and its right subtree,
`right` its left subtree and the node. -/
inductive BinTree.Step (α : Type*) where
  | left (value : α) (right : BinTree α)
  | right (left : BinTree α) (value : α)

namespace BinTree

variable {α : Type*} {path : List (Step α)} {x : α} {xs ys : List α}

def toList : BinTree α → List α
  | leaf => []
  | node l x r => l.toList ++ x :: r.toList

/-- The tree around a position; the path leads from the position to the root. -/
def plug : BinTree α → List (Step α) → BinTree α
  | t, [] => t
  | t, .left x r :: path => plug (node t x r) path
  | t, .right l x :: path => plug (node l x t) path

def before : List (Step α) → List α
  | [] => []
  | .left _ _ :: path => before path
  | .right l x :: path => before path ++ l.toList ++ [x]

def after : List (Step α) → List α
  | [] => []
  | .left x r :: path => x :: r.toList ++ after path
  | .right _ _ :: path => after path

theorem toList_plug (t : BinTree α) (path : List (Step α)) :
    (plug t path).toList = before path ++ t.toList ++ after path := by
  induction path generalizing t with
  | nil => simp [plug, before, after]
  | cons step path ih =>
    cases step with
    | left x r | right l x => simp [plug, ih, before, after, toList]

def filter (p : α → Bool) : BinTree α → BinTree α
  | leaf => leaf
  | node l x r => if p x then node (l.filter p) x (r.filter p) else graft (l.filter p) (r.filter p)
where
  /-- The right tree hung below the last node of the left one. -/
  graft : BinTree α → BinTree α → BinTree α
    | leaf, t => t
    | node l x r, t => node l x (graft r t)

def prev [DecidableEq α] (t : BinTree α) (x : α) : Option α :=
  (t.toList.takeWhile (· ≠ x)).getLast?

def next [DecidableEq α] (t : BinTree α) (x : α) : Option α :=
  (t.toList.dropWhile (· ≠ x)).tail.head?

theorem takeWhile_ne_append [DecidableEq α] (hx : x ∉ xs) :
    (xs ++ x :: ys).takeWhile (· ≠ x) = xs := by
  have hne : ∀ y ∈ xs, (y ≠ x : Bool) := fun y hy => by
    simpa using ne_of_mem_of_not_mem hy hx
  rw [takeWhile_append_of_pos hne]
  simp

theorem dropWhile_ne_append [DecidableEq α] (hx : x ∉ xs) :
    (xs ++ x :: ys).dropWhile (· ≠ x) = x :: ys := by
  have hne : ∀ y ∈ xs, (y ≠ x : Bool) := fun y hy => by
    simpa using ne_of_mem_of_not_mem hy hx
  rw [dropWhile_append_of_pos hne]
  simp

theorem neighbours_of_left [DecidableEq α] {r : BinTree α}
    (hnd : (plug leaf (.left x r :: path)).toList.Nodup) :
    prev (plug leaf (.left x r :: path)) x = (before (.left x r :: path)).getLast? ∧
      (after (.left x r :: path)).head? = some x := by
  rw [toList_plug] at hnd
  simp only [before, after, toList, append_nil, cons_append] at hnd
  have hx : x ∉ before path := fun hmem => by
    have := disjoint_of_nodup_append hnd hmem
    simp at this
  constructor
  · rw [prev, toList_plug]
    simp only [before, after, toList, append_nil, cons_append]
    rw [takeWhile_ne_append hx]
  · simp [after]

theorem neighbours_of_right [DecidableEq α] {l : BinTree α}
    (hnd : (plug leaf (.right l x :: path)).toList.Nodup) :
    (before (.right l x :: path)).getLast? = some x ∧
      next (plug leaf (.right l x :: path)) x = (after (.right l x :: path)).head? := by
  rw [toList_plug] at hnd
  simp only [before, after, toList, append_nil, append_assoc, cons_append, nil_append] at hnd
  have hx : x ∉ before path ++ l.toList := fun hmem => by
    rw [← append_assoc] at hnd
    have := disjoint_of_nodup_append hnd hmem
    simp at this
  constructor
  · simp [before]
  · rw [next, toList_plug]
    simp only [before, after, toList, append_nil, append_assoc, cons_append, nil_append]
    rw [← append_assoc, dropWhile_ne_append hx]
    simp

section Lookup

variable [LinearOrder α] {t : BinTree α}

def lookup (key : α) : BinTree α → List (Step α) → BinTree α × List (Step α)
  | leaf, path => (leaf, path)
  | node l x r, path =>
    if x = key then (node l x r, path)
    else if key < x then lookup key l (.left x r :: path)
    else lookup key r (.right l x :: path)

theorem plug_lookup (key : α) (t : BinTree α) (path : List (Step α)) :
    plug (lookup key t path).1 (lookup key t path).2 = plug t path := by
  induction t generalizing path with
  | leaf => rfl
  | node l x r ihl ihr =>
    simp only [lookup]
    split_ifs
    · rfl
    · rw [ihl]
      rfl
    · rw [ihr]
      rfl

theorem lookup_sides {key : α} (hsorted : t.toList.Pairwise (· < ·))
    (hbefore : ∀ y ∈ before path, y < key) (hafter : ∀ y ∈ after path, key < y) :
    (∀ y ∈ before (lookup key t path).2, y < key) ∧
      (∀ y ∈ after (lookup key t path).2, key < y) := by
  induction t generalizing path with
  | leaf => exact ⟨hbefore, hafter⟩
  | node l x r ihl ihr =>
    simp only [toList, pairwise_append, pairwise_cons] at hsorted
    obtain ⟨hl, ⟨hxr, hr⟩, hlx⟩ := hsorted
    simp only [lookup]
    split_ifs with heq hlt
    · exact ⟨hbefore, hafter⟩
    · refine ihl hl hbefore ?_
      intro y hy
      simp only [after, cons_append, mem_cons, mem_append] at hy
      obtain rfl | hy | hy := hy
      · exact hlt
      · exact lt_trans hlt (hxr y hy)
      · exact hafter y hy
    · have hgt : x < key := lt_of_le_of_ne (not_lt.mp hlt) heq
      refine ihr hr ?_ hafter
      intro y hy
      simp only [before, append_assoc, mem_append, mem_singleton] at hy
      obtain hy | hy | rfl := hy
      · exact hbefore y hy
      · exact lt_trans (hlx y hy x (mem_cons_self ..)) hgt
      · exact hgt

theorem lookup_root {key : α} {l r : BinTree α} (h : (lookup key t path).1 = node l x r) :
    x = key := by
  induction t generalizing path with
  | leaf => simp [lookup] at h
  | node l' x' r' ihl ihr =>
    simp only [lookup] at h
    split_ifs at h with heq
    · simp only [node.injEq] at h
      exact h.2.1 ▸ heq
    · exact ihl h
    · exact ihr h

end Lookup

end BinTree

end EdgeComputing.Library
