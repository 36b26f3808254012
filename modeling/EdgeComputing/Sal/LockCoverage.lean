import EdgeComputing.Sal.LockMerge
import Mathlib.Data.List.Perm.Basic

/-!
Which owner holds which byte in which mode, as a lock list says it. The order of its entries does
not matter, and an entry may be replaced by pieces of it.
-/

namespace EdgeComputing.Sal

open List

variable {Owner : Type*}

def LockEntry.GrantedTo (e : LockEntry Owner) (o : Owner) : Prop :=
  e.sleOwner = o ∧ e.sleBlocked = .nonBlocking

instance [DecidableEq Owner] (e : LockEntry Owner) (o : Owner) : Decidable (e.GrantedTo o) := by
  unfold LockEntry.GrantedTo; infer_instance

def HeldAs (lockList : List (LockEntry Owner)) (o : Owner) (b : Nat) (t : LockType) : Prop :=
  ∃ e ∈ lockList, e.GrantedTo o ∧ e.sleLock.Covers b ∧ e.sleLock.lockType = t

def coverers [DecidableEq Owner] (lockList : List (LockEntry Owner)) (o : Owner) (b : Nat) :
    List (LockEntry Owner) :=
  lockList.filter fun e => e.GrantedTo o ∧ e.sleLock.Covers b

def AtMostOneHolder [DecidableEq Owner] (lockList : List (LockEntry Owner)) : Prop :=
  ∀ o b, (coverers lockList o b).length ≤ 1

def Apart (e f : LockEntry Owner) : Prop :=
  ∀ o b, e.GrantedTo o → f.GrantedTo o → e.sleLock.Covers b → ¬ f.sleLock.Covers b

variable {e : LockEntry Owner}

theorem Apart.symm {f : LockEntry Owner} (h : Apart e f) : Apart f e :=
  fun o b hf he hfb heb => h o b he hf heb hfb

instance : Std.Symm (@Apart Owner) := ⟨fun _ _ h => h.symm⟩

variable {l : List (LockEntry Owner)} {l' : List (LockEntry Owner)}

theorem pairwise_apart_perm (h : l.Perm l') (hl : l.Pairwise Apart) : l'.Pairwise Apart :=
  h.pairwise hl fun h => h.symm

theorem atMostOneHolder_iff [DecidableEq Owner] (lockList : List (LockEntry Owner)) :
    AtMostOneHolder lockList ↔ lockList.Pairwise Apart := by
  induction lockList with
  | nil => simp [AtMostOneHolder, coverers]
  | cons e rest ih =>
    rw [pairwise_cons, ← ih]
    constructor
    · intro h
      refine ⟨fun f hf o b heo hfo heb hfb => ?_, fun o b => ?_⟩
      · have hmem : f ∈ coverers rest o b := by simp [coverers, hf, hfo, hfb]
        have hcons : coverers (e :: rest) o b = e :: coverers rest o b :=
          filter_cons_of_pos (decide_eq_true ⟨heo, heb⟩)
        have hlen := h o b
        have hpos := length_pos_of_mem hmem
        rw [hcons, length_cons] at hlen
        omega
      · refine Nat.le_trans ?_ (h o b)
        exact ((sublist_cons_self e rest).filter _).length_le
    · rintro ⟨hapart, hrest⟩ o b
      by_cases he : e.GrantedTo o ∧ e.sleLock.Covers b
      · have hnone : coverers rest o b = [] := by
          refine filter_eq_nil_iff.2 fun f hf hcov => ?_
          have hcov := of_decide_eq_true hcov
          exact hapart f hf o b he.1 hcov.1 he.2 hcov.2
        have hcons : coverers (e :: rest) o b = e :: coverers rest o b :=
          filter_cons_of_pos (decide_eq_true he)
        simp [hcons, hnone]
      · have hcons : coverers (e :: rest) o b = coverers rest o b :=
          filter_cons_of_neg (by simpa using he)
        rw [hcons]
        exact hrest o b

@[simp] theorem heldAs_nil (o : Owner) (b : Nat) (t : LockType) : ¬ HeldAs [] o b t := by
  simp [HeldAs]

variable {o owner : Owner} {b lockId : Nat} {t : LockType}

theorem heldAs_cons :
    HeldAs (e :: l) o b t ↔
      (e.GrantedTo o ∧ e.sleLock.Covers b ∧ e.sleLock.lockType = t) ∨ HeldAs l o b t := by
  simp [HeldAs]

theorem heldAs_append : HeldAs (l ++ l') o b t ↔ HeldAs l o b t ∨ HeldAs l' o b t := by
  simp only [HeldAs, mem_append, or_and_right, exists_or]

theorem heldAs_perm (h : l.Perm l') : HeldAs l o b t ↔ HeldAs l' o b t := by
  simp only [HeldAs, h.mem_iff]

/-- `pieces` are what is left of entry `c` once the bytes of `cut` are taken out. -/
structure Remains (c : LockEntry Owner) (cut : LockParam) (pieces : List (LockEntry Owner)) :
    Prop where
  same : ∀ p ∈ pieces, p.sleOwner = c.sleOwner ∧ p.sleBlocked = c.sleBlocked
  admitted : ∀ p ∈ pieces, p.sleLock.Admitted
  type_eq : ∀ p ∈ pieces, p.sleLock.lockType = c.sleLock.lockType
  covers : ∀ b, (∃ p ∈ pieces, p.sleLock.Covers b) ↔ c.sleLock.Covers b ∧ ¬ cut.Covers b
  apart : pieces.Pairwise Apart

namespace Remains

variable {c : LockEntry Owner} {cut : LockParam} {pieces work : List (LockEntry Owner)}
  {p : LockEntry Owner}

theorem grantedTo_iff (h : Remains c cut pieces) (hp : p ∈ pieces) (o : Owner) :
    p.GrantedTo o ↔ c.GrantedTo o := by
  obtain ⟨howner, hblocked⟩ := h.same p hp
  simp only [LockEntry.GrantedTo, howner, hblocked]

theorem covers_of_mem (h : Remains c cut pieces) (hp : p ∈ pieces) (hb : p.sleLock.Covers b) :
    c.sleLock.Covers b ∧ ¬ cut.Covers b :=
  (h.covers b).1 ⟨p, hp, hb⟩

theorem pairwise (h : Remains c cut pieces) (hwork : (c :: work).Pairwise Apart) :
    (pieces ++ work).Pairwise Apart := by
  obtain ⟨hc, hrest⟩ := pairwise_cons.1 hwork
  refine pairwise_append.2 ⟨h.apart, hrest, fun p hp e he o b hpo heo hpb heb => ?_⟩
  exact hc e he o b ((h.grantedTo_iff hp o).1 hpo) heo (h.covers_of_mem hp hpb).1 heb

theorem heldAs (h : Remains c cut pieces) :
    HeldAs pieces o b t ↔
      c.GrantedTo o ∧ c.sleLock.Covers b ∧ ¬ cut.Covers b ∧ c.sleLock.lockType = t := by
  constructor
  · rintro ⟨p, hp, hpo, hpb, hpt⟩
    obtain ⟨hcb, hcut⟩ := h.covers_of_mem hp hpb
    exact ⟨(h.grantedTo_iff hp o).1 hpo, hcb, hcut, (h.type_eq p hp).symm.trans hpt⟩
  · rintro ⟨hco, hcb, hcut, hct⟩
    obtain ⟨p, hp, hpb⟩ := (h.covers b).2 ⟨hcb, hcut⟩
    exact ⟨p, hp, (h.grantedTo_iff hp o).2 hco, hpb, (h.type_eq p hp).trans hct⟩

end Remains

/-- `e` is a piece of `c`: the same owner, status and mode, and no other bytes. -/
structure PartOf (e c : LockEntry Owner) : Prop where
  owner : e.sleOwner = c.sleOwner
  blocked : e.sleBlocked = c.sleBlocked
  type_eq : e.sleLock.lockType = c.sleLock.lockType
  covers : ∀ b, e.sleLock.Covers b → c.sleLock.Covers b
  admitted : c.sleLock.Admitted → e.sleLock.Admitted

theorem PartOf.refl (e : LockEntry Owner) : PartOf e e :=
  ⟨rfl, rfl, rfl, fun _ h => h, id⟩

theorem PartOf.trans {c d : LockEntry Owner} (hec : PartOf e c) (hcd : PartOf c d) :
    PartOf e d where
  owner := hec.owner.trans hcd.owner
  blocked := hec.blocked.trans hcd.blocked
  type_eq := hec.type_eq.trans hcd.type_eq
  covers b h := hcd.covers b (hec.covers b h)
  admitted h := hec.admitted (hcd.admitted h)

variable [DecidableEq Owner] {todo : List (LockEntry Owner)} {m r : Merge Owner}

theorem granted_of_mergeCandidate (h : mergeCandidate owner lockId e = true) : e.GrantedTo owner := by
  simp only [mergeCandidate, Bool.and_eq_true, decide_eq_true_eq] at h
  exact ⟨h.1.2, h.2⟩

theorem MergeRun.partOf (hrun : MergeRun owner lockId m todo r) (he : e ∈ r.list) :
    ∃ c ∈ m.list ++ todo, PartOf e c := by
  induction hrun with
  | done => exact ⟨e, by simpa using he, .refl e⟩
  | skip _ _ ih =>
    obtain ⟨c, hc, hpart⟩ := ih he
    exact ⟨c, by simpa using hc, hpart⟩
  | @shrink m r check todo piece _ hspec _ ih =>
    obtain ⟨c, hc, hpart⟩ := ih he
    simp only [append_assoc, mem_append, singleton_append, mem_cons] at hc
    rcases hc with hc | rfl | hc
    · exact ⟨c, by simp [hc], hpart⟩
    · cases hspec with
      | shrink _ hadm _ hpiece hcovers =>
        refine ⟨check, by simp, hpart.trans ⟨rfl, rfl, hpiece, ?_, fun _ => hadm⟩⟩
        exact fun b hb => ((hcovers b).1 hb).1
    · exact ⟨c, by simp [hc], hpart⟩
  | @split m r check todo left right _ hspec _ ih =>
    obtain ⟨c, hc, hpart⟩ := ih he
    cases hspec with
    | split _ hleft hright _ hleftType hrightType hcovers _ =>
      simp only [mem_append, mem_singleton] at hc
      rcases hc with (hc | rfl) | (hc | rfl)
      · exact ⟨c, by simp [hc], hpart⟩
      · refine ⟨check, by simp, hpart.trans ⟨rfl, rfl, hleftType, ?_, fun _ => hleft⟩⟩
        exact fun b hb => ((hcovers b).1 (.inl hb)).1
      · exact ⟨c, by simp [hc], hpart⟩
      · refine ⟨check, by simp, hpart.trans ⟨rfl, rfl, hrightType, ?_, fun _ => hright⟩⟩
        exact fun b hb => ((hcovers b).1 (.inr hb)).1
  | @splitLast m check left right _ hspec =>
    cases hspec with
    | split _ hleft hright _ hleftType hrightType hcovers _ =>
      simp only [mem_append, mem_cons, not_mem_nil, or_false] at he
      rcases he with he | rfl | rfl
      · exact ⟨e, by simp [he], .refl e⟩
      · refine ⟨check, by simp, ⟨rfl, rfl, hleftType, ?_, fun _ => hleft⟩⟩
        exact fun b hb => ((hcovers b).1 (.inl hb)).1
      · refine ⟨check, by simp, ⟨rfl, rfl, hrightType, ?_, fun _ => hright⟩⟩
        exact fun b hb => ((hcovers b).1 (.inr hb)).1
  | absorb _ _ _ ih =>
    obtain ⟨c, hc, hpart⟩ := ih he
    rcases mem_append.1 hc with hc | hc
    · exact ⟨c, by simp [hc], hpart⟩
    · exact ⟨c, by simp [hc], hpart⟩

theorem MergeRun.lock_origin (hrun : MergeRun owner lockId m todo r) :
    r.lock.lockType = m.lock.lockType ∧ (m.lock.Admitted → r.lock.Admitted) ∧
      ∀ b, r.lock.Covers b → m.lock.Covers b ∨
        ∃ c ∈ todo, c.GrantedTo owner ∧ c.sleLock.lockType = m.lock.lockType ∧
          c.sleLock.Covers b := by
  induction hrun with
  | done | splitLast => exact ⟨rfl, id, fun b hb => .inl hb⟩
  | skip _ _ ih | shrink _ _ _ ih =>
    refine ⟨ih.1, ih.2.1, fun b hb => (ih.2.2 b hb).imp id ?_⟩
    rintro ⟨c, hc, hfacts⟩
    exact ⟨c, by simp [hc], hfacts⟩
  | @split m r check todo left right hcand hspec _ ih =>
    refine ⟨ih.1, ih.2.1, fun b hb => (ih.2.2 b hb).imp id ?_⟩
    rintro ⟨c, hc, hgranted, hctype, hcb⟩
    rcases mem_append.1 hc with hc | hc
    · exact ⟨c, by simp [hc], hgranted, hctype, hcb⟩
    · rw [mem_singleton] at hc
      subst hc
      cases hspec with
      | split _ _ _ hne _ hrightType _ _ => exact absurd (hrightType.symm.trans hctype) hne
  | @absorb m r check todo grown hcand hspec _ ih =>
    cases hspec with
    | absorb _ hadm hgrown hsame _ _ hcovers =>
      refine ⟨ih.1.trans hgrown, fun _ => ih.2.1 hadm, fun b hb => ?_⟩
      rcases ih.2.2 b hb with hgb | ⟨c, hc, hgranted, hctype, hcb⟩
      · rcases (hcovers b).1 hgb with hlb | hcb
        · exact .inl hlb
        · rcases hsame with htype | hinside
          · exact .inr ⟨check, by simp, granted_of_mergeCandidate hcand, htype, hcb⟩
          · exact .inl ⟨Nat.le_trans hinside.1 hcb.1, Nat.le_trans hcb.2 hinside.2⟩
      · exact .inr ⟨c, by simp [hc], hgranted, hctype.trans hgrown, hcb⟩

end EdgeComputing.Sal
