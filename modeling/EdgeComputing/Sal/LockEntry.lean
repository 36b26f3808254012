import Mathlib.Algebra.Order.Ring.Int

/-!
Byte-range lock descriptions and lock entries. Offsets and lengths are natural numbers and every sum
of the source is reduced modulo `2 ^ 64`.
-/

namespace EdgeComputing.Sal

def uint64Max : Nat := 2 ^ 64 - 1

def addU64 (a b : Nat) : Nat := (a + b) % 2 ^ 64

def subU64 (a b : Nat) : Nat := (a + (2 ^ 64 - b)) % 2 ^ 64

inductive LockType where
  | lockR
  | lockW
  | noLock
  deriving DecidableEq

/-- `fsal_lock_param_t`. The lock class is always `FSAL_POSIX_LOCK` on these
paths and is left out. -/
structure LockParam where
  lockType : LockType
  lockStart : Nat
  lockLength : Nat
  lockReclaim : Bool
  deriving DecidableEq

def lockEnd (lock : LockParam) : Nat :=
  if lock.lockLength = 0 then uint64Max
  else (lock.lockStart + lock.lockLength - 1) % 2 ^ 64

def differentLock (lock1 lock2 : LockParam) : Bool :=
  lock1.lockType != lock2.lockType || lock1.lockStart != lock2.lockStart
    || lock1.lockLength != lock2.lockLength

/-- The ranges the protocol layers pass down: 64-bit fields, and the last byte of
a lock of positive length has a 64-bit offset. -/
def LockParam.Admitted (lock : LockParam) : Prop :=
  lock.lockStart ≤ uint64Max ∧ lock.lockLength ≤ uint64Max ∧
    (lock.lockLength = 0 ∨ lock.lockStart + lock.lockLength - 1 ≤ uint64Max)

instance (lock : LockParam) : Decidable lock.Admitted := by
  unfold LockParam.Admitted; infer_instance

def LockParam.Covers (lock : LockParam) (b : Nat) : Prop :=
  lock.lockStart ≤ b ∧ b ≤ lockEnd lock

instance (lock : LockParam) (b : Nat) : Decidable (lock.Covers b) := by
  unfold LockParam.Covers; infer_instance

def LockParam.overlaps (lock1 lock2 : LockParam) : Bool :=
  lockEnd lock1 ≥ lock2.lockStart && lock1.lockStart ≤ lockEnd lock2

inductive Blocking where
  | nonBlocking
  | nlmBlocking
  | nfsv4Blocking
  | granting
  | canceled
  deriving DecidableEq

inductive GrantType where
  | none
  | internal
  | fsal
  | fsalAvailable
  | poll
  deriving DecidableEq

inductive BlockType where
  | none
  | internal
  | async
  | poll
  deriving DecidableEq

/-- `state_block_data_t`: `sbdBlockedCookie` is the key of the cookie attached by
a grant in progress. -/
structure BlockData where
  sbdGrantType : GrantType
  sbdBlockType : BlockType
  sbdBlockedCookie : Option Nat
  deriving DecidableEq

/-- `state_lock_entry_t`. `sleId` stands for the address of the entry, and
`sleStateSeqid` for the sequence id of the state the entry hangs off. -/
structure LockEntry (Owner : Type*) where
  sleId : Nat
  sleOwner : Owner
  sleExport : Nat
  sleStateSeqid : Int
  sleBlocked : Blocking
  sleBlockData : Option BlockData
  sleLock : LockParam
  deriving DecidableEq

/-- The length `nfs4_op_lock` and `nfs4_op_locku` compute from the arguments of a
request, or `none` where they answer `NFS4ERR_INVAL`. -/
def nfs4LockLength (maxfilesize offset length : Nat) : Option Nat :=
  let lockLength := if length ≠ uint64Max then length else 0
  if length = 0 then none
  else if lockLength > subU64 uint64Max offset then none
  else if lockLength > subU64 maxfilesize offset then some 0
  else some lockLength

/-- The length `nlm_process_parameters` computes, or `none` where it answers
`NLM4_FBIG`. -/
def nlmLockLength (maxfilesize offset length : Nat) : Option Nat :=
  if offset > maxfilesize then none
  else if length > subU64 maxfilesize offset then some 0
  else some length

variable {maxfilesize offset length n : Nat}

theorem nfs4LockLength_admitted (type : LockType) (reclaim : Bool) (hoff : offset ≤ uint64Max)
    (hlen : length ≤ uint64Max) (h : nfs4LockLength maxfilesize offset length = some n) :
    LockParam.Admitted ⟨type, offset, n, reclaim⟩ := by
  simp only [nfs4LockLength] at h
  split_ifs at h <;> cases h <;> simp only [LockParam.Admitted, uint64Max, subU64] at * <;> omega

theorem nlmLockLength_admitted (type : LockType) (reclaim : Bool) (hmax : maxfilesize ≤ uint64Max)
    (hlen : length ≤ uint64Max) (h : nlmLockLength maxfilesize offset length = some n) :
    LockParam.Admitted ⟨type, offset, n, reclaim⟩ := by
  simp only [nlmLockLength] at h
  split_ifs at h <;> cases h <;> simp only [LockParam.Admitted, uint64Max, subU64] at * <;> omega

theorem LockParam.Admitted.start_le_end {lock : LockParam} (h : lock.Admitted) :
    lock.lockStart ≤ lockEnd lock := by
  obtain ⟨hstart, hlen, hend⟩ := h
  unfold lockEnd
  simp only [uint64Max] at *
  split_ifs <;> omega

theorem lockEnd_le_uint64Max (lock : LockParam) : lockEnd lock ≤ uint64Max := by
  unfold lockEnd
  simp only [uint64Max]
  split_ifs <;> omega

theorem addU64_one_of_lt {n : Nat} (h : n < uint64Max) : addU64 n 1 = n + 1 := by
  simp only [addU64, uint64Max] at *
  omega

/-- A lock whose length is the 64-bit size of the range from its start to `last`
ends at `last`; the whole range of offsets has size zero. -/
theorem lockEnd_of_length (lock : LockParam) (last : Nat) (hle : lock.lockStart ≤ last)
    (hmax : last ≤ uint64Max)
    (hlen : lock.lockLength = (last - lock.lockStart + 1) % 2 ^ 64) :
    lockEnd lock = last ∧ lock.Admitted := by
  unfold lockEnd LockParam.Admitted
  simp only [uint64Max] at *
  split_ifs <;> omega

theorem LockParam.overlaps_iff {lock1 lock2 : LockParam} (h1 : lock1.Admitted)
    (h2 : lock2.Admitted) :
    lock1.overlaps lock2 = true ↔ ∃ b, lock1.Covers b ∧ lock2.Covers b := by
  have hle1 := h1.start_le_end
  have hle2 := h2.start_le_end
  simp only [LockParam.overlaps, LockParam.Covers, Bool.and_eq_true, decide_eq_true_eq]
  constructor
  · rintro ⟨hend, hstart⟩
    exact ⟨max lock1.lockStart lock2.lockStart, by omega, by omega⟩
  · rintro ⟨b, hb1, hb2⟩
    omega

end EdgeComputing.Sal
