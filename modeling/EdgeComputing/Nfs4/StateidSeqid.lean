import Mathlib.Logic.Function.Iterate
import EdgeComputing.Nfs4.CheckStateid

/-!
The seqids that `update_stateid` issues, against the test of `nfs4_Check_Stateid`. The counter skips
0, so after a wrap two issued seqids are one further apart than the updates between them.
-/

namespace EdgeComputing.Nfs4

open Sal BitVec

variable {OwnerId Obj : Type*}

variable (st : NfsState OwnerId Obj)

def afterUpdates (k : Nat) : NfsState OwnerId Obj := NfsState.updateStateid^[k + 1] st

def issuedSeqid (k : Nat) : BitVec 32 := (afterUpdates st k).stateSeqid

theorem updateStateid_seqid_toNat :
    st.updateStateid.stateSeqid.toNat =
      if st.stateSeqid.toNat + 1 = 2 ^ 32 then 1 else st.stateSeqid.toNat + 1 := by
  have hlt := st.stateSeqid.isLt
  have hzero : st.stateSeqid + 1 = 0 ↔ st.stateSeqid.toNat + 1 = 2 ^ 32 := by
    rw [toNat_eq, toNat_add]
    simp
    omega
  unfold NfsState.updateStateid
  by_cases hwrap : st.stateSeqid.toNat + 1 = 2 ^ 32
  · rw [if_pos (hzero.2 hwrap), if_pos hwrap]
    rfl
  · have hne : ¬ st.stateSeqid + 1 = 0 := fun h => hwrap (hzero.1 h)
    rw [if_neg hne, if_neg hwrap, toNat_add]
    simp
    omega

theorem issuedSeqid_succ (k : Nat) :
    (issuedSeqid st (k + 1)).toNat =
      if (issuedSeqid st k).toNat + 1 = 2 ^ 32 then 1 else (issuedSeqid st k).toNat + 1 := by
  unfold issuedSeqid afterUpdates
  rw [Function.iterate_succ_apply']
  exact updateStateid_seqid_toNat _

theorem issuedSeqid_pos (k : Nat) : 0 < (issuedSeqid st k).toNat := by
  unfold issuedSeqid afterUpdates
  rw [Function.iterate_succ_apply', updateStateid_seqid_toNat]
  split <;> omega

/-- After less than a full turn the counter is ahead by the number of updates, or has
wrapped once and skipped 0 on the way. -/
theorem issuedSeqid_add (k j : Nat) (hj : j < 2 ^ 32 - 1) :
    (issuedSeqid st (k + j)).toNat = (issuedSeqid st k).toNat + j ∨
      (issuedSeqid st (k + j)).toNat + 2 ^ 32 = (issuedSeqid st k).toNat + j + 1 := by
  have hlt := (issuedSeqid st k).isLt
  induction j with
  | zero => exact .inl rfl
  | succ j ih =>
    have hsucc := issuedSeqid_succ st (k + j)
    rw [← Nat.add_assoc, hsucc]
    rcases ih (by omega) with hahead | hwrapped
    · split
      · right
        omega
      · left
        omega
    · split <;> omega

theorem issuedSeqid_diff (k j : Nat) (hpos : 0 < j) (hj : j < 2 ^ 31 - 1) :
    0 < (issuedSeqid st (k + j) - issuedSeqid st k).toInt ∧
      (issuedSeqid st k - issuedSeqid st (k + j)).toInt < 0 := by
  have hlate := (issuedSeqid st (k + j)).isLt
  have hearly := (issuedSeqid st k).isLt
  rw [toInt_eq_toNat_cond, toInt_eq_toNat_cond, toNat_sub, toNat_sub]
  rcases issuedSeqid_add st k j (by omega) with hahead | hwrapped
  · constructor <;> split <;> omega
  · constructor <;> split <;> omega

theorem issuedSeqid_previous (k : Nat) :
    (issuedSeqid st k - issuedSeqid st (k + 1)).toInt = -1 ∨
      issuedSeqid st (k + 1) = 1 ∧ issuedSeqid st k = allOnes 32 := by
  have hsucc := issuedSeqid_succ st k
  have hlt := (issuedSeqid st k).isLt
  by_cases hwrap : (issuedSeqid st k).toNat + 1 = 2 ^ 32
  · rw [if_pos hwrap] at hsucc
    right
    refine ⟨eq_of_toNat_eq hsucc, eq_of_toNat_eq ?_⟩
    rw [toNat_allOnes]
    omega
  · rw [if_neg hwrap] at hsucc
    left
    rw [toInt_eq_toNat_cond, toNat_sub]
    split <;> omega

variable (soSeqid ownerSeqid : BitVec 32)

theorem testSeqid_issued (n m : Nat) (checkSeqid : Bool) :
    testSeqid (afterUpdates st n) soSeqid (issuedSeqid st m) ownerSeqid checkSeqid =
      let diff := (issuedSeqid st m - issuedSeqid st n).toInt
      if diff < 0 then
        if checkSeqid ∧ (diff = -1 ∨ issuedSeqid st n = 1 ∧ issuedSeqid st m = allOnes 32)
            ∧ ownerSeqid = soSeqid then .replay
        else .old
      else if diff = 0 ∧ checkSeqid ∧ ownerSeqid = soSeqid then .replay
      else if diff > 0 then .bad
      else .current := by
  have hne : issuedSeqid st m ≠ 0 := by
    intro hzero
    have hpos := issuedSeqid_pos st m
    simp [hzero] at hpos
  unfold testSeqid
  rw [if_pos (.inr hne)]
  rfl

/-- Once `update_stateid` has been called for a state, its seqid is not 0. The seqid of the
latest call passes the test, one of up to `2 ^ 31 - 2` calls earlier is old
(`NFS4ERR_OLD_STATEID`) and one of as many calls later is bad (`NFS4ERR_BAD_STATEID`); a
seqid one call old with the seqid of the owner is taken for a replay. -/
theorem issued_seqids_tested (n : Nat) :
    (afterUpdates st n).stateSeqid ≠ 0 ∧
      testSeqid (afterUpdates st n) soSeqid (issuedSeqid st n) ownerSeqid false = .current ∧
      (∀ m j, m + j = n → 0 < j → j < 2 ^ 31 - 1 →
        testSeqid (afterUpdates st n) soSeqid (issuedSeqid st m) ownerSeqid false = .old) ∧
      (∀ j, 0 < j → j < 2 ^ 31 - 1 →
        testSeqid (afterUpdates st n) soSeqid (issuedSeqid st (n + j)) ownerSeqid false = .bad) ∧
      ∀ m, m + 1 = n →
        testSeqid (afterUpdates st n) soSeqid (issuedSeqid st m) soSeqid true = .replay := by
  refine ⟨?_, ?_, ?_, ?_, ?_⟩
  · intro hzero
    have hpos := issuedSeqid_pos st n
    have hseqid : issuedSeqid st n = 0 := hzero
    simp [hseqid] at hpos
  · rw [testSeqid_issued]
    simp
  · rintro m j rfl hpos hj
    have hdiff := (issuedSeqid_diff st m j hpos hj).2
    simp only [testSeqid_issued]
    rw [if_pos hdiff, if_neg (by simp)]
  · intro j hpos hj
    have hdiff := (issuedSeqid_diff st n j hpos hj).1
    simp only [testSeqid_issued]
    rw [if_neg (Int.not_lt.2 (Int.le_of_lt hdiff)), if_neg (by simp), if_pos hdiff]
  · rintro m rfl
    have hdiff := (issuedSeqid_diff st m 1 (by decide) (by decide)).2
    simp only [testSeqid_issued]
    rw [if_pos hdiff, if_pos ⟨trivial, issuedSeqid_previous st m, trivial⟩]

/-- A state as `state_add` leaves it has the seqid 0 until the first call. -/
theorem new_state_seqid_zero :
    (NfsState.updateStateid^[0]
      (⟨⟨1, 1⟩, 0, 0, 0, .share ⟨[], 1, 0, 0, 0⟩⟩ : NfsState Nat Nat)).stateSeqid = 0 :=
  rfl

end EdgeComputing.Nfs4
