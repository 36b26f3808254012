import EdgeComputing.Sal.LockCoverage

/-!
The effect of `subtract_lock_from_list`: every selected entry is replaced by the pieces of it
outside the unlocked range, even if their ranges do not end within 64 bits.
-/

namespace EdgeComputing.Sal

open List

variable {Owner : Type*}

theorem subtractLockFromEntry_none {found lock : LockParam}
    (h : subtractLockFromEntry found lock = none) (b : Nat) (hb : found.Covers b) :
    ¬ lock.Covers b := by
  intro hlock
  obtain ⟨hfirst, hlast⟩ := hb
  obtain ⟨hlockFirst, hlockLast⟩ := hlock
  simp only [subtractLockFromEntry] at h
  split_ifs at h <;> omega

theorem splitLeft_spec {found lock : LockParam} (hlock : lock.lockStart ≤ uint64Max)
    (hfirst : found.lockStart < lock.lockStart) :
    (shrinkLeft found lock).Admitted ∧
      ∀ b, (shrinkLeft found lock).Covers b ↔ found.lockStart ≤ b ∧ b < lock.lockStart := by
  obtain ⟨hadm, hstart, hend⟩ := shrinkLeft_spec hlock hfirst
  refine ⟨hadm, fun b => ?_⟩
  simp only [LockParam.Covers, hstart, hend]
  omega

theorem splitRight_spec {found lock : LockParam} (hlast : lockEnd lock < lockEnd found) :
    (splitRight found lock).Admitted ∧
      ∀ b, (splitRight found lock).Covers b ↔ lockEnd lock < b ∧ b ≤ lockEnd found := by
  have hmax := lockEnd_le_uint64Max found
  have hstart : (splitRight found lock).lockStart = lockEnd lock + 1 :=
    addU64_one_of_lt (by omega)
  have hspec : lockEnd (splitRight found lock) = lockEnd found ∧
      (splitRight found lock).Admitted := by
    by_cases heof : lockEnd found = uint64Max
    · have hlen : (splitRight found lock).lockLength = 0 := if_pos heof
      constructor
      · rw [lockEnd, if_pos hlen, heof]
      · exact ⟨by omega, by omega, .inl hlen⟩
    · have hlen : (splitRight found lock).lockLength = lockEnd found - lockEnd lock :=
        (if_neg heof).trans (subU64_of_le (by omega) hmax)
      refine lockEnd_of_length _ (lockEnd found) (by omega) hmax ?_
      rw [hlen, hstart]
      simp only [uint64Max] at hmax
      omega
  refine ⟨hspec.2, fun b => ?_⟩
  simp only [LockParam.Covers, hstart, hspec.1]
  omega

variable {ranges : List LockParam}

theorem subtractLockFromEntry_some {found lock : LockParam} (hlock : lock.lockStart ≤ uint64Max)
    (h : subtractLockFromEntry found lock = some ranges) :
    (∀ p ∈ ranges, p.Admitted ∧ p.lockType = found.lockType) ∧
      (∀ b, (∃ p ∈ ranges, p.Covers b) ↔ found.Covers b ∧ ¬ lock.Covers b) ∧
      (lock.lockStart ≤ lockEnd lock →
        ranges.Pairwise fun p q => ∀ b, p.Covers b → ¬ q.Covers b) := by
  simp only [subtractLockFromEntry] at h
  split_ifs at h with hbefore hafter hwhole hleft hright hright
  · cases h
    refine ⟨by simp, fun b => ?_, fun _ => List.Pairwise.nil⟩
    simp only [not_mem_nil, false_and, exists_false, false_iff, not_and, not_not]
    exact fun hb => ⟨Nat.le_trans hwhole.1 hb.1, Nat.le_trans hb.2 hwhole.2⟩
  · cases h
    obtain ⟨hadmL, hcovL⟩ := splitLeft_spec hlock hleft
    obtain ⟨hadmR, hcovR⟩ := splitRight_spec hright
    refine ⟨by simp [hadmL, hadmR], fun b => ?_, ?_⟩
    · simp only [cons_append, nil_append, mem_cons, not_mem_nil, or_false,
        exists_eq_or_imp, exists_eq_left, hcovL, hcovR]
      simp only [LockParam.Covers]
      omega
    · refine fun hle => pairwise_pair.2 fun b hl hr => ?_
      rw [hcovL] at hl
      rw [hcovR] at hr
      omega
  · cases h
    obtain ⟨hadmL, hcovL⟩ := splitLeft_spec hlock hleft
    refine ⟨by simp [hadmL], fun b => ?_, fun _ => pairwise_singleton _ _⟩
    simp only [append_nil, mem_singleton, exists_eq_left, hcovL]
    simp only [LockParam.Covers]
    omega
  · cases h
    obtain ⟨hadmR, hcovR⟩ := splitRight_spec hright
    refine ⟨by simp [hadmR], fun b => ?_, fun _ => pairwise_singleton _ _⟩
    simp only [nil_append, mem_singleton, exists_eq_left, hcovR]
    simp only [LockParam.Covers]
    omega
  · omega

@[simp] theorem pieces_nil (found : LockEntry Owner) (nextId : Nat) :
    found.pieces nextId [] = [] := rfl

@[simp] theorem pieces_cons (found : LockEntry Owner) (nextId : Nat) (range : LockParam)
    (ranges : List LockParam) :
    found.pieces nextId (range :: ranges)
      = found.dup nextId range :: found.pieces (nextId + 1) ranges := by
  simp [LockEntry.pieces, zipIdx_cons]

variable {found : LockEntry Owner} {nextId : Nat}

theorem mem_pieces {p : LockEntry Owner} (h : p ∈ found.pieces nextId ranges) :
    ∃ range ∈ ranges, ∃ id, p = found.dup id range ∧ nextId ≤ id ∧ id < nextId + ranges.length := by
  induction ranges generalizing nextId with
  | nil => simp at h
  | cons range ranges ih =>
    rw [pieces_cons, mem_cons] at h
    rcases h with rfl | h
    · exact ⟨range, by simp, nextId, rfl, Nat.le_refl _, by simp⟩
    · obtain ⟨range', hmem, id, hp, hle, hlt⟩ := ih h
      refine ⟨range', by simp [hmem], id, hp, by omega, ?_⟩
      rw [length_cons]
      omega

theorem dup_mem_pieces (found : LockEntry Owner) {range : LockParam} (nextId : Nat)
    (h : range ∈ ranges) : ∃ id, found.dup id range ∈ found.pieces nextId ranges := by
  induction ranges generalizing nextId with
  | nil => simp at h
  | cons range' ranges ih =>
    rw [pieces_cons]
    rcases mem_cons.1 h with rfl | h
    · exact ⟨nextId, by simp⟩
    · obtain ⟨id, hid⟩ := ih (nextId + 1) h
      exact ⟨id, by simp [hid]⟩

theorem pieces_pairwise (nextId : Nat)
    (h : ranges.Pairwise fun p q => ∀ b, p.Covers b → ¬ q.Covers b) :
    (found.pieces nextId ranges).Pairwise Apart := by
  induction ranges generalizing nextId with
  | nil => exact List.Pairwise.nil
  | cons range ranges ih =>
    obtain ⟨hfirst, hrest⟩ := pairwise_cons.1 h
    rw [pieces_cons, pairwise_cons]
    refine ⟨fun p hp o b _ _ hrange hpb => ?_, ih _ hrest⟩
    obtain ⟨range', hmem, id, rfl, -⟩ := mem_pieces hp
    exact hfirst range' hmem b hrange hpb

theorem remains_pieces {lock : LockParam} (hlock : lock.Admitted)
    (h : subtractLockFromEntry found.sleLock lock = some ranges) (nextId : Nat) :
    Remains found lock (found.pieces nextId ranges) := by
  obtain ⟨hparts, hcovers, hdisjoint⟩ := subtractLockFromEntry_some hlock.1 h
  refine ⟨?_, ?_, ?_, fun b => ?_, pieces_pairwise nextId (hdisjoint hlock.start_le_end)⟩
  · intro p hp
    obtain ⟨range, -, id, rfl, -⟩ := mem_pieces hp
    exact ⟨rfl, rfl⟩
  · intro p hp
    obtain ⟨range, hmem, id, rfl, -⟩ := mem_pieces hp
    exact (hparts range hmem).1
  · intro p hp
    obtain ⟨range, hmem, id, rfl, -⟩ := mem_pieces hp
    exact (hparts range hmem).2
  · rw [← hcovers b]
    constructor
    · rintro ⟨p, hp, hpb⟩
      obtain ⟨range, hmem, id, rfl, -⟩ := mem_pieces hp
      exact ⟨range, hmem, hpb⟩
    · rintro ⟨range, hmem, hb⟩
      obtain ⟨id, hid⟩ := dup_mem_pieces found nextId hmem
      exact ⟨_, hid, hb⟩

/-- `e` is a piece of the granted entry `c` that the subtraction of `lock` leaves. -/
def Fragment (o : Owner) (lock : LockParam) (c e : LockEntry Owner) : Prop :=
  c.GrantedTo o ∧ ∃ id, ∃ range, e = c.dup id range ∧
    ∃ ranges, subtractLockFromEntry c.sleLock lock = some ranges ∧ range ∈ ranges

theorem Fragment.reaches_end {o : Owner} {lock : LockParam} {c e : LockEntry Owner}
    (h : Fragment o lock c e) (hlock : lock.lockStart ≤ uint64Max) (hzero : e.sleLock.lockLength = 0) :
    c.sleLock.Covers uint64Max ∧ ¬ lock.Covers uint64Max := by
  obtain ⟨-, id, range, rfl, ranges, hranges, hrange⟩ := h
  have hpiece := (subtractLockFromEntry_some hlock hranges).1 range hrange
  refine ((subtractLockFromEntry_some hlock hranges).2.1 uint64Max).1 ⟨range, hrange, ?_⟩
  have hend : lockEnd range = uint64Max := if_pos hzero
  exact ⟨hpiece.1.1, Nat.le_of_eq hend.symm⟩

theorem heldAs_pieces {o : Owner} {lock : LockParam} (hlock : lock.lockStart ≤ uint64Max)
    (h : subtractLockFromEntry found.sleLock lock = some ranges) (nextId b : Nat) (t : LockType) :
    HeldAs (found.pieces nextId ranges) o b t ↔
      (found.GrantedTo o ∧ found.sleLock.Covers b ∧ found.sleLock.lockType = t) ∧
        ¬ lock.Covers b := by
  obtain ⟨hparts, hcovers, -⟩ := subtractLockFromEntry_some hlock h
  constructor
  · rintro ⟨e, he, hgranted, hb, htype⟩
    obtain ⟨range, hrange, id, rfl, -⟩ := mem_pieces he
    obtain ⟨hfound, hout⟩ := (hcovers b).1 ⟨range, hrange, hb⟩
    exact ⟨⟨hgranted, hfound, (hparts range hrange).2.symm.trans htype⟩, hout⟩
  · rintro ⟨⟨hgranted, hfound, htype⟩, hout⟩
    obtain ⟨range, hrange, hb⟩ := (hcovers b).2 ⟨hfound, hout⟩
    obtain ⟨id, hid⟩ := dup_mem_pieces found nextId hrange
    exact ⟨_, hid, hgranted, hb, (hparts range hrange).2.trans htype⟩

variable [DecidableEq Owner] {owner : Option Owner} {applies : Bool} {state : Int}
  {lock : LockParam} {before : List (LockEntry Owner)} {rest : List (LockEntry Owner)}
  {acc : Subtract Owner}

def subtractVisit (owner : Option Owner) (applies : Bool) (state : Int) (lock : LockParam)
    (found : LockEntry Owner) : Option (List LockParam) :=
  if subtractCandidate owner applies state found then
    subtractLockFromEntry found.sleLock lock
  else none

theorem subtractVisit_none (h : subtractVisit owner applies state lock found = none) (b : Nat)
    (hb : found.sleLock.Covers b) :
    ¬ (subtractCandidate owner applies state found = true ∧ lock.Covers b) := by
  rintro ⟨hcand, hlock⟩
  rw [subtractVisit, if_pos hcand] at h
  exact subtractLockFromEntry_none h b hb hlock

structure SubtractInv (owner : Option Owner) (applies : Bool) (state : Int) (lock : LockParam)
    (before : List (LockEntry Owner)) (acc : Subtract Owner) (todo : List (LockEntry Owner)) :
    Prop where
  fresh : ∀ e ∈ acc.kept ++ acc.split ++ todo, e.sleId < acc.nextId
  partOf : ∀ e ∈ acc.kept ++ acc.split ++ todo, ∃ c ∈ before, PartOf e c
  apart : before.Pairwise Apart → (acc.kept ++ acc.split ++ todo).Pairwise Apart

theorem SubtractInv.keep (h : SubtractInv owner applies state lock before acc (found :: rest)) :
    SubtractInv owner applies state lock before
      { acc with kept := acc.kept ++ [found] } rest := by
  have hperm : (acc.kept ++ acc.split ++ found :: rest).Perm
      (acc.kept ++ [found] ++ acc.split ++ rest) := by
    refine perm_iff_count.2 fun e => ?_
    simp only [count_append, count_cons, count_nil]
    omega
  refine ⟨?_, ?_, ?_⟩
  · exact fun e he => h.fresh e (hperm.mem_iff.2 he)
  · exact fun e he => h.partOf e (hperm.mem_iff.2 he)
  · exact fun hbefore => pairwise_apart_perm hperm (h.apart hbefore)

theorem SubtractInv.cut (hlock : lock.Admitted)
    (h : SubtractInv owner applies state lock before acc (found :: rest))
    (hvisit : subtractVisit owner applies state lock found = some ranges) :
    SubtractInv owner applies state lock before
      { acc with
        split := acc.split ++ found.pieces acc.nextId ranges
        nextId := acc.nextId + ranges.length
        removed := true } rest := by
  unfold subtractVisit at hvisit
  split_ifs at hvisit with hcand
  have hremains := remains_pieces hlock hvisit acc.nextId
  have hperm : (found.pieces acc.nextId ranges ++ (acc.kept ++ acc.split ++ rest)).Perm
      (acc.kept ++ (acc.split ++ found.pieces acc.nextId ranges) ++ rest) := by
    refine perm_iff_count.2 fun e => ?_
    simp only [count_append]
    omega
  refine ⟨?_, ?_, ?_⟩
  · intro e he
    rcases mem_append.1 (hperm.mem_iff.2 he) with hpiece | hold
    · obtain ⟨range, -, id, rfl, -, hlt⟩ := mem_pieces hpiece
      exact hlt
    · have hlt := h.fresh e (by simp only [mem_append, mem_cons] at hold ⊢; tauto)
      exact Nat.lt_of_lt_of_le hlt (Nat.le_add_right _ _)
  · intro e he
    rcases mem_append.1 (hperm.mem_iff.2 he) with hpiece | hold
    · obtain ⟨c, hc, hpart⟩ := h.partOf found (by simp)
      obtain ⟨howner, hblocked⟩ := hremains.same e hpiece
      refine ⟨c, hc, PartOf.trans ⟨howner, hblocked, hremains.type_eq e hpiece, ?_, ?_⟩ hpart⟩
      · exact fun b hb => (hremains.covers_of_mem hpiece hb).1
      · exact fun _ => hremains.admitted e hpiece
    · exact h.partOf e (by simp only [mem_append, mem_cons] at hold ⊢; tauto)
  · intro hbefore
    have hfront : (found :: (acc.kept ++ acc.split ++ rest)).Pairwise Apart :=
      pairwise_apart_perm perm_middle (h.apart hbefore)
    exact pairwise_apart_perm hperm (hremains.pairwise hfront)

theorem subtractLoop_inv (hlock : lock.Admitted) (todo : List (LockEntry Owner))
    (acc : Subtract Owner) (h : SubtractInv owner applies state lock before acc todo) :
    SubtractInv owner applies state lock before
      (subtractLoop owner applies state lock acc todo) [] := by
  induction todo generalizing acc with
  | nil => exact h
  | cons found rest ih =>
    simp only [subtractLoop]
    cases hvisit : subtractVisit owner applies state lock found with
    | none =>
      have hif := hvisit
      unfold subtractVisit at hif
      rw [hif]
      exact ih _ h.keep
    | some ranges =>
      have hif := hvisit
      unfold subtractVisit at hif
      rw [hif]
      exact ih _ (h.cut hlock hvisit)

/-- What `subtract_lock_from_list` makes of a list: every entry is a piece of an
earlier one, and entries that were apart stay apart. -/
theorem subtractLockFromList_spec (owner : Option Owner) (applies : Bool) (state : Int)
    {lock : LockParam} {lockList : List (LockEntry Owner)} (hlock : lock.Admitted)
    (hfresh : ∀ e ∈ lockList, e.sleId < nextId) :
    let r := subtractLockFromList owner applies state lock nextId lockList
    (∀ e ∈ r.kept, e.sleId < r.nextId) ∧
      (∀ e ∈ r.kept, ∃ c ∈ lockList, PartOf e c) ∧
      (lockList.Pairwise Apart → r.kept.Pairwise Apart) := by
  have hinit : SubtractInv owner applies state lock lockList ⟨[], [], nextId, false⟩ lockList := by
    exact ⟨by simpa using hfresh, fun e he => ⟨e, by simpa using he, .refl e⟩, by simp⟩
  have hend := subtractLoop_inv hlock lockList _ hinit
  simp only [subtractLockFromList]
  exact ⟨by simpa using hend.fresh, by simpa using hend.partOf, by simpa using hend.apart⟩

section

variable {o : Owner}

theorem subtractCandidate_iff (state : Int) :
    subtractCandidate (some o) false state found = true ↔ found.GrantedTo o := by
  simp only [subtractCandidate, Option.isNone_some, Bool.false_or, Bool.and_eq_true,
    decide_eq_true_eq, Bool.false_and, Bool.not_false, and_true, Option.some_inj]
  exact and_congr_left' eq_comm

theorem subtractLoop_added (state : Int) (hlock : lock.lockStart ≤ uint64Max)
    (todo : List (LockEntry Owner)) (acc : Subtract Owner) :
    ∃ kept split,
      (subtractLoop (some o) false state lock acc todo).kept = acc.kept ++ kept ∧
      (subtractLoop (some o) false state lock acc todo).split = acc.split ++ split ∧
      kept.filter (fun e => ¬ e.GrantedTo o) = todo.filter (fun e => ¬ e.GrantedTo o) ∧
      (∀ e ∈ kept, e ∈ todo) ∧ (∀ e ∈ split, ∃ c ∈ todo, Fragment o lock c e) ∧
      ∀ b t, HeldAs (kept ++ split) o b t ↔ HeldAs todo o b t ∧ ¬ lock.Covers b := by
  induction todo generalizing acc with
  | nil => exact ⟨[], [], by simp [subtractLoop]⟩
  | cons found rest ih =>
    cases hvisit : subtractVisit (some o) false state lock found with
    | none =>
      obtain ⟨kept, split, hkept, hsplit, hothers, hmem, hfrag, hheld⟩ :=
        ih { acc with kept := acc.kept ++ [found] }
      have hloop : subtractLoop (some o) false state lock acc (found :: rest) =
          subtractLoop (some o) false state lock { acc with kept := acc.kept ++ [found] } rest := by
        unfold subtractVisit at hvisit
        simp only [subtractLoop, hvisit]
      rw [hloop]
      refine ⟨found :: kept, split, by simpa using hkept, hsplit, ?_, ?_, ?_, fun b t => ?_⟩
      · simp only [filter_cons, hothers]
      · exact forall_mem_cons.2 ⟨mem_cons_self, fun e he => mem_cons_of_mem _ (hmem e he)⟩
      · exact fun e he => (hfrag e he).imp fun c hc => ⟨mem_cons_of_mem _ hc.1, hc.2⟩
      · have hout := subtractVisit_none hvisit b
        rw [subtractCandidate_iff] at hout
        rw [cons_append, heldAs_cons, heldAs_cons, hheld]
        tauto
    | some ranges =>
      have hif := hvisit
      unfold subtractVisit at hif
      obtain ⟨hcand, hranges⟩ : found.GrantedTo o ∧
          subtractLockFromEntry found.sleLock lock = some ranges := by
        split at hif
        · exact ⟨(subtractCandidate_iff state).1 ‹_›, hif⟩
        · cases hif
      obtain ⟨kept, split, hkept, hsplit, hothers, hmem, hfrag, hheld⟩ :=
        ih { acc with
          split := acc.split ++ found.pieces acc.nextId ranges
          nextId := acc.nextId + ranges.length
          removed := true }
      simp only [subtractLoop, hif]
      refine ⟨kept, found.pieces acc.nextId ranges ++ split, hkept, by simpa using hsplit, ?_,
        fun e he => mem_cons_of_mem _ (hmem e he), ?_, fun b t => ?_⟩
      · simpa [hcand] using hothers
      · intro e he
        rcases mem_append.1 he with he | he
        · obtain ⟨range, hrange, id, rfl, -⟩ := mem_pieces he
          exact ⟨found, mem_cons_self, hcand, id, range, rfl, ranges, hranges, hrange⟩
        · exact (hfrag e he).imp fun c hc => ⟨mem_cons_of_mem _ hc.1, hc.2⟩
      · have hpieces := heldAs_pieces (o := o) hlock hranges acc.nextId b t
        have hrest := hheld b t
        rw [heldAs_append] at hrest
        rw [heldAs_append, heldAs_append, heldAs_cons, hpieces]
        tauto

/-- Unlocking changes only the granted entries of the owner, and takes from them exactly the
bytes of the range; a piece that is left over without a length runs to the last offset, as
the entry it is cut from did. -/
theorem subtract_removes_exactly (o : Owner) (state : Int) (lock : LockParam)
    (hlock : lock.lockStart ≤ uint64Max) (nextId : Nat) (lockList : List (LockEntry Owner)) :
    let list := (subtractLockFromList (some o) false state lock nextId lockList).kept
    list.filter (fun e => ¬ e.GrantedTo o) = lockList.filter (fun e => ¬ e.GrantedTo o) ∧
      (∀ b t, HeldAs list o b t ↔ HeldAs lockList o b t ∧ ¬ lock.Covers b) ∧
      ∀ e ∈ list, e ∉ lockList → ∃ c ∈ lockList, Fragment o lock c e ∧
        (e.sleLock.lockLength = 0 → c.sleLock.Covers uint64Max ∧ ¬ lock.Covers uint64Max) := by
  obtain ⟨kept, split, hkept, hsplit, hothers, hmem, hfrag, hheld⟩ :=
    subtractLoop_added (o := o) state hlock lockList ⟨[], [], nextId, false⟩
  have hlist : (subtractLockFromList (some o) false state lock nextId lockList).kept =
      kept ++ split := by
    simp [subtractLockFromList, hkept, hsplit]
  rw [hlist]
  refine ⟨?_, hheld, fun e he hnew => ?_⟩
  · have hnone : split.filter (fun e => ¬ e.GrantedTo o) = [] := by
      refine filter_eq_nil_iff.2 fun e he => ?_
      obtain ⟨c, -, hgranted, id, range, rfl, -⟩ := hfrag e he
      have hpiece : (c.dup id range).GrantedTo o := hgranted
      simpa using hpiece
    rw [filter_append, hothers, hnone, append_nil]
  · rcases mem_append.1 he with he | he
    · exact absurd (hmem e he) hnew
    · obtain ⟨c, hc, hfragment⟩ := hfrag e he
      exact ⟨c, hc, hfragment, hfragment.reaches_end hlock⟩

/-- A lock of the whole file, cut in the middle. -/
theorem subtract_removes_exactly_middle :
    let list := (subtractLockFromList (some 1) false 0 ⟨.lockW, 10, 5, false⟩ 1
      [⟨0, 1, 0, 0, .nonBlocking, none, ⟨.lockW, 0, 0, false⟩⟩]).kept
    HeldAs list 1 9 .lockW ∧ ¬ HeldAs list 1 12 .lockW ∧ HeldAs list 1 uint64Max .lockW := by
  have h := (subtract_removes_exactly (1 : Nat) 0 ⟨.lockW, 10, 5, false⟩ (by decide) 1
    [⟨0, 1, 0, 0, .nonBlocking, none, ⟨.lockW, 0, 0, false⟩⟩]).2.1
  have hheld : ∀ b ≤ uint64Max,
      HeldAs [⟨0, 1, 0, 0, .nonBlocking, none, ⟨.lockW, 0, 0, false⟩⟩] (1 : Nat) b .lockW :=
    fun b hb => ⟨_, mem_cons_self, ⟨rfl, rfl⟩, ⟨Nat.zero_le b, hb⟩, rfl⟩
  refine ⟨(h 9 .lockW).2 ⟨hheld 9 (by decide), by decide⟩, fun h12 => ?_,
    (h uint64Max .lockW).2 ⟨hheld uint64Max (Nat.le_refl _), by decide⟩⟩
  exact ((h 12 .lockW).1 h12).2 (by decide)

end

end EdgeComputing.Sal
