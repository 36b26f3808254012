import EdgeComputing.Library.SearchTree
import Mathlib.Data.List.Pairwise
import Mathlib.Order.Compare

/-!
Search trees whose nodes are records with a key that can change in place. Every node is found by its
own key if and only if the keys increase along the tree, whatever its shape.
-/

namespace EdgeComputing.Library.BinTree

open List

variable {α : Type*} {κ : Type*}

theorem pairwise_lt_iff_of_pairwise_lt [LinearOrder κ] {l : List α} {f g : α → κ}
    (hf : l.Pairwise (f · < f ·)) :
    l.Pairwise (g · < g ·) ↔ ∀ a ∈ l, ∀ b ∈ l, f a < f b → g a < g b := by
  constructor
  · intro hg
    have hforward : l.Pairwise fun a b => f a < f b → g a < g b :=
      hg.imp fun {a b} (h : g a < g b) (_ : f a < f b) => h
    have hbackward : l.Pairwise (flip fun a b => f a < f b → g a < g b) :=
      hf.imp fun h hlt => absurd h (lt_asymm hlt)
    have hall := hforward.forall_of_forall_of_flip (fun a _ h => absurd h (lt_irrefl _)) hbackward
    exact fun a ha b hb => hall ha hb
  · intro h
    exact hf.imp_of_mem fun ha hb => h _ ha _ hb

def search (cmp : α → Ordering) : BinTree α → Option α
  | leaf => none
  | node l x r =>
    match cmp x with
    | .lt => l.search cmp
    | .eq => some x
    | .gt => r.search cmp

def insertBy (cmp : α → Ordering) (new : α) : BinTree α → BinTree α
  | leaf => node leaf new leaf
  | node l x r =>
    match cmp x with
    | .lt => node (l.insertBy cmp new) x r
    | .eq => node l x r
    | .gt => node l x (r.insertBy cmp new)

theorem toList_graft (l r : BinTree α) : (filter.graft l r).toList = l.toList ++ r.toList := by
  induction l with
  | leaf => rfl
  | node l x s _ ih => simp [filter.graft, toList, ih]

theorem toList_filter (p : α → Bool) (t : BinTree α) : (t.filter p).toList = t.toList.filter p := by
  induction t with
  | leaf => rfl
  | node l x r ihl ihr =>
    simp only [filter, toList, filter_append, filter_cons]
    split
    · rw [toList, ihl, ihr]
    · rw [toList_graft, ihl, ihr]

variable [LinearOrder κ] {key : α → κ} {k : κ} {cmp : α → Ordering} {t : BinTree α}

theorem mem_of_search {x : α} (hcmp : ∀ y, cmp y = compare k (key y)) (h : t.search cmp = some x) :
    x ∈ t.toList ∧ key x = k := by
  induction t with
  | leaf => cases h
  | node l y r ihl ihr =>
    simp only [search] at h
    simp only [toList, mem_append, mem_cons]
    split at h
    next => exact ⟨.inl (ihl h).1, (ihl h).2⟩
    next heq =>
      cases h
      rw [hcmp, compare_eq_iff_eq] at heq
      exact ⟨.inr (.inl rfl), heq.symm⟩
    next => exact ⟨.inr (.inr (ihr h).1), (ihr h).2⟩

theorem search_of_sorted {x : α} (hcmp : ∀ y, cmp y = compare k (key y))
    (hsorted : t.toList.Pairwise (key · < key ·)) (hx : x ∈ t.toList) (hk : key x = k) :
    t.search cmp = some x := by
  induction t with
  | leaf => cases hx
  | node l y r ihl ihr =>
    simp only [toList, pairwise_append, pairwise_cons] at hsorted
    obtain ⟨hl, ⟨hyr, hr⟩, hly⟩ := hsorted
    simp only [toList, mem_append, mem_cons] at hx
    simp only [search, hcmp]
    obtain hx | rfl | hx := hx
    · have hlt : k < key y := hk ▸ hly x hx y (mem_cons_self ..)
      rw [compare_lt_iff_lt.2 hlt]
      exact ihl hl hx
    · rw [hk, compare_eq_iff_eq.2 rfl]
    · have hgt : key y < k := hk ▸ hyr x hx
      rw [compare_gt_iff_gt.2 hgt]
      exact ihr hr hx

theorem sorted_of_search {cmpOf : α → α → Ordering}
    (hcmp : ∀ x y, cmpOf x y = compare (key x) (key y)) (hnodup : t.toList.Nodup)
    (hfound : ∀ x ∈ t.toList, t.search (cmpOf x) = some x) : t.toList.Pairwise (key · < key ·) := by
  induction t with
  | leaf => exact .nil
  | node l y r ihl ihr =>
    simp only [toList, nodup_append, nodup_cons] at hnodup
    obtain ⟨hl, ⟨hyr, hr⟩, hdisj⟩ := hnodup
    -- a node on the left is found there, so its key is smaller than that of the root
    have hleft : ∀ x ∈ l.toList, key x < key y ∧ l.search (cmpOf x) = some x := by
      intro x hx
      have hsearch := hfound x (by simp [toList, hx])
      simp only [search] at hsearch
      split at hsearch
      next hlt => exact ⟨compare_lt_iff_lt.1 (hcmp x y ▸ hlt), hsearch⟩
      next =>
        cases hsearch
        exact absurd rfl (hdisj _ hx _ (mem_cons_self ..))
      next =>
        have hmem := (mem_of_search (hcmp x) hsearch).1
        exact absurd rfl (hdisj x hx x (mem_cons_of_mem _ hmem))
    have hright : ∀ x ∈ r.toList, key y < key x ∧ r.search (cmpOf x) = some x := by
      intro x hx
      have hsearch := hfound x (by simp [toList, hx])
      simp only [search] at hsearch
      split at hsearch
      next =>
        have hmem := (mem_of_search (hcmp x) hsearch).1
        exact absurd rfl (hdisj x hmem x (mem_cons_of_mem _ hx))
      next =>
        cases hsearch
        exact absurd hx hyr
      next hgt => exact ⟨compare_gt_iff_gt.1 (hcmp x y ▸ hgt), hsearch⟩
    simp only [toList, pairwise_append, pairwise_cons]
    refine ⟨ihl hl fun x hx => (hleft x hx).2,
      ⟨fun x hx => (hright x hx).1, ihr hr fun x hx => (hright x hx).2⟩, ?_⟩
    intro x hx z hz
    obtain rfl | hz := mem_cons.1 hz
    · exact (hleft x hx).1
    · exact (hleft x hx).1.trans (hright z hz).1

theorem toList_insertBy {new : α} (hcmp : ∀ y, cmp y = compare k (key y))
    (hsorted : t.toList.Pairwise (key · < key ·)) (hnone : t.search cmp = none) :
    ∃ pre post, t.toList = pre ++ post ∧ (t.insertBy cmp new).toList = pre ++ new :: post ∧
      (∀ y ∈ pre, key y < k) ∧ ∀ y ∈ post, k < key y := by
  induction t with
  | leaf => exact ⟨[], [], rfl, rfl, by simp, by simp⟩
  | node l x r ihl ihr =>
    simp only [toList, pairwise_append, pairwise_cons] at hsorted
    obtain ⟨hl, ⟨hxr, hr⟩, hlx⟩ := hsorted
    simp only [search] at hnone
    simp only [insertBy]
    split at hnone
    next hlt =>
      obtain ⟨pre, post, ht, hins, hpre, hpost⟩ := ihl hl hnone
      rw [hcmp, compare_lt_iff_lt] at hlt
      refine ⟨pre, post ++ x :: r.toList, by simp [toList, ht], by simp [toList, hins], hpre, ?_⟩
      intro y hy
      simp only [mem_append, mem_cons] at hy
      obtain hy | rfl | hy := hy
      · exact hpost y hy
      · exact hlt
      · exact hlt.trans (hxr y hy)
    next => cases hnone
    next hgt =>
      obtain ⟨pre, post, ht, hins, hpre, hpost⟩ := ihr hr hnone
      rw [hcmp, compare_gt_iff_gt] at hgt
      refine ⟨l.toList ++ x :: pre, post, by simp [toList, ht], by simp [toList, hins], ?_, hpost⟩
      intro y hy
      simp only [mem_append, mem_cons] at hy
      obtain hy | rfl | hy := hy
      · exact (hlx y hy x (mem_cons_self ..)).trans hgt
      · exact hgt
      · exact hpre y hy

end EdgeComputing.Library.BinTree
