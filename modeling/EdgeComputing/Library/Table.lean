import Mathlib.Algebra.Order.BigOperators.Group.List
import Mathlib.Algebra.Order.Ring.Nat
import Mathlib.Data.List.Nodup

/-!
Lists used as tables: entries are changed in place and new ones go to the end.
-/

namespace EdgeComputing.Library

open List Option Function

variable {α : Type*}

variable {l : List α} {i : Nat} {c d : α}

theorem getElem?_set_cases {j : Nat} (h : (l.set i c)[j]? = some d) :
    j = i ∧ d = c ∨ j ≠ i ∧ l[j]? = some d := by
  rw [getElem?_set] at h
  split_ifs at h with hij hlen
  · exact .inl ⟨hij.symm, (some.inj h).symm⟩
  · exact .inr ⟨fun hji => hij hji.symm, h⟩

theorem getElem?_append_cases {j : Nat} (h : (l ++ [c])[j]? = some d) :
    j = l.length ∧ d = c ∨ j ≠ l.length ∧ l[j]? = some d := by
  rcases Nat.lt_trichotomy j l.length with hlt | heq | hgt
  · rw [getElem?_append_left hlt] at h
    exact .inr ⟨Nat.ne_of_lt hlt, h⟩
  · subst heq
    rw [getElem?_concat_length] at h
    exact .inl ⟨rfl, (some.inj h).symm⟩
  · rw [getElem?_eq_none (by simp; omega)] at h
    cases h

variable {P : Nat → α → Prop} (hl : ∀ j d, l[j]? = some d → P j d)
include hl

theorem forall_append (hc : P l.length c) : ∀ j d, (l ++ [c])[j]? = some d → P j d := by
  intro j d hd
  rcases getElem?_append_cases hd with ⟨rfl, rfl⟩ | ⟨-, hd⟩
  · exact hc
  · exact hl j d hd

theorem forall_set (hc : P i c) : ∀ j d, (l.set i c)[j]? = some d → P j d := by
  intro j d hd
  rcases getElem?_set_cases hd with ⟨rfl, rfl⟩ | ⟨-, hd⟩
  · exact hc
  · exact hl j d hd

omit hl

theorem getElem?_set_of_some (h : l[i]? = some c) : (l.set i d)[i]? = some d :=
  getElem?_set_self (List.getElem?_eq_some_iff.1 h).1

theorem getElem?_eraseIdx_cases {j : Nat} (h : (l.eraseIdx i)[j]? = some c) :
    l[if j < i then j else j + 1]? = some c := by
  rw [getElem?_eraseIdx] at h
  split_ifs at h ⊢ <;> exact h

variable {β : Type*}

theorem map_set_eq (f : α → β) (h : l[i]? = some c) (hf : f d = f c) : (l.set i d).map f = l.map f := by
  apply ext_getElem?
  intro j
  rw [getElem?_map, getElem?_map]
  by_cases hj : j = i
  · subst hj
    rw [getElem?_set_of_some h, h, map_some, map_some, hf]
  · rw [getElem?_set_ne (Ne.symm hj)]

theorem find?_key_of_mem [DecidableEq β] {key : α → β} {x : α} (hnd : (l.map key).Nodup)
    (hx : x ∈ l) : l.find? (key · = key x) = some x := by
  cases h : l.find? (key · = key x) with
  | none =>
    have hne := find?_eq_none.mp h x hx
    simp at hne
  | some y =>
    have hkey : key y = key x := by simpa using find?_some h
    rw [inj_on_of_nodup_map hnd (mem_of_find?_eq_some h) hx hkey]

theorem flatMap_map_perm {γ : Type*} {f : α → List γ} {g : α → β} {f' : β → List γ} {x : γ}
    (hnd : l.Nodup) (hc : c ∈ l) (hsame : ∀ e ∈ l, e ≠ c → f' (g e) = f e)
    (hmore : (f' (g c)).Perm (x :: f c)) : ((l.map g).flatMap f').Perm (x :: l.flatMap f) := by
  obtain ⟨as, bs, rfl⟩ := append_of_mem hc
  rw [nodup_middle, nodup_cons, mem_append, not_or] at hnd
  have has : (as.map g).flatMap f' = as.flatMap f := by
    rw [flatMap_map]
    refine flatMap_congr fun e he => hsame e (by simp [he]) ?_
    exact ne_of_mem_of_not_mem he hnd.1.1
  have hbs : (bs.map g).flatMap f' = bs.flatMap f := by
    rw [flatMap_map]
    refine flatMap_congr fun e he => hsame e (by simp [he]) ?_
    exact ne_of_mem_of_not_mem he hnd.1.2
  simp only [map_append, map_cons, flatMap_append, flatMap_cons, has, hbs]
  have hput : (as.flatMap f ++ (f' (g c) ++ bs.flatMap f)).Perm
      (as.flatMap f ++ ((x :: f c) ++ bs.flatMap f)) := (hmore.append_right _).append_left _
  exact hput.trans perm_middle

theorem forall₂_getElem? {R : α → β → Prop} {m : List β} (h : List.Forall₂ R l m) {d : β}
    (hi : m[i]? = some d) : ∃ c, l[i]? = some c ∧ R c d := by
  induction h generalizing i with
  | nil => simp at hi
  | @cons c d' l m hcd _ ih =>
    cases i with
    | zero =>
      simp only [getElem?_cons_zero, some.injEq] at hi
      exact ⟨c, rfl, hi ▸ hcd⟩
    | succ i => exact ih (by simpa using hi)

theorem sum_map_set (f : α → Nat) (h : l[i]? = some c) :
    ((l.set i d).map f).sum + f c = (l.map f).sum + f d := by
  induction l generalizing i with
  | nil => simp at h
  | cons e rest ih =>
    cases i with
    | zero =>
      simp only [getElem?_cons_zero, some.injEq] at h
      subst h
      simp only [set_cons_zero, map_cons, sum_cons]
      omega
    | succ i =>
      have hrest := ih (i := i) (by simpa using h)
      simp only [set_cons_succ, map_cons, sum_cons]
      omega

theorem countP_set_add (P : α → Bool) (h : l[i]? = some c) :
    (l.set i d).countP P + (if P c then 1 else 0) = l.countP P + (if P d then 1 else 0) := by
  have hsum : ∀ l : List α, l.countP P = (l.map fun a => if P a then 1 else 0).sum := by
    intro l
    induction l with
    | nil => rfl
    | cons a l ih => rw [countP_cons, map_cons, sum_cons, ih, Nat.add_comm]
  rw [hsum, hsum]
  exact sum_map_set _ h

theorem le_sum_map (f : α → Nat) (h : l[i]? = some c) : f c ≤ (l.map f).sum :=
  single_le_sum (fun _ _ => Nat.zero_le _) _ (mem_map_of_mem (mem_of_getElem? h))

section PartialMap

variable [DecidableEq α] {f : α → Option β} {a a' : α} {b b' : β}

theorem eq_some_iff_and_ne {o : Option β} (h : o ≠ some b) :
    o = some b' ↔ o = some b' ∧ b' ≠ b := by
  refine ⟨fun hb => ⟨hb, ?_⟩, And.left⟩
  rintro rfl
  exact h hb

theorem update_none_eq_some_iff (h : f a = some b) (hinj : ∀ a', f a' = some b → a' = a) :
    update f a none a' = some b' ↔ f a' = some b' ∧ b' ≠ b := by
  by_cases heq : a' = a
  · subst heq
    rw [update_self, h]
    constructor
    · intro hnone
      cases hnone
    · rintro ⟨hb, hne⟩
      exact absurd (some.inj hb).symm hne
  · rw [update_of_ne heq]
    exact eq_some_iff_and_ne fun hb => heq (hinj a' hb)

theorem update_some_eq_some_iff (h : f a = none) :
    update f a (some b) a' = some b' ↔ f a' = some b' ∨ (b' = b ∧ a' = a) := by
  by_cases heq : a' = a
  · subst heq
    rw [update_self, h]
    simp [eq_comm]
  · rw [update_of_ne heq]
    simp [heq]

theorem of_update_none (h : update f a none a' = some b') : a' ≠ a ∧ f a' = some b' := by
  have hne : a' ≠ a := by
    rintro rfl
    simp at h
  rw [update_of_ne hne] at h
  exact ⟨hne, h⟩

theorem of_update_some (h : update f a (some b) a' = some b') :
    a' = a ∧ b' = b ∨ a' ≠ a ∧ f a' = some b' := by
  by_cases heq : a' = a
  · subst heq
    rw [update_self] at h
    exact .inl ⟨rfl, (some.inj h).symm⟩
  · rw [update_of_ne heq] at h
    exact .inr ⟨heq, h⟩

end PartialMap

end EdgeComputing.Library
