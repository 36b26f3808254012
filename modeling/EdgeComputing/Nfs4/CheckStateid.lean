import EdgeComputing.Sal.Nfs4Owner
import EdgeComputing.Sal.StateTable

/-!
`nfs4_Check_Stateid`, shared by all operations that name a state. It looks at the type of the state
for one thing only: the seqid of a layout stateid may not be 0.
-/

namespace EdgeComputing.Nfs4

open Sal

structure StateidFlags where
  all0 : Bool
  all1 : Bool
  current : Bool
  close40 : Bool
  close41 : Bool
deriving DecidableEq

def stateidSpecialForLock : StateidFlags := ⟨false, false, true, false, false⟩

def stateidSpecialForClose40 : StateidFlags := ⟨false, false, false, true, false⟩

def stateidSpecialForClose41 : StateidFlags := ⟨false, false, true, false, true⟩

/-- `compound_data_t`, as far as the state operations read it. The current object is a
regular file with a valid handle. -/
structure CompoundFile (Obj : Type*) where
  currentObj : Obj
  minorversion : Nat
  currentStateid : Option Stateid4
  preservedClientid : Option (BitVec 64)
  sessionClientid : BitVec 64

/-- The clients as seen by the check: the lookup of a confirmed client ID, the client of
an owner and whether its lease can be reserved. -/
structure ClientEnv (OwnerId : Type*) where
  getConfirmed : BitVec 64 → Except Nfsstat4 (BitVec 64)
  soClientid : OwnerId → BitVec 64
  reserveLease : BitVec 64 → Bool

inductive Resolved
  | failure (status : Nfsstat4)
  | anonymous
  | named (stateid : Stateid4)
deriving DecidableEq

/-- `found` is NFS4_OK, or NFS4ERR_REPLAY, with a state, `noState` NFS4_OK without one. -/
inductive CheckedStateid (OwnerId Obj : Type*)
  | failure (status : Nfsstat4)
  | noState
  | found (replay : Bool) (st : NfsState OwnerId Obj)

inductive SeqidTest
  | current | replay | old | bad
deriving DecidableEq

variable {OwnerId Obj Body : Type*}

def resolveStateid (flags : StateidFlags) (data : CompoundFile Obj) (stateid : Stateid4) :
    Resolved :=
  if stateid.other = ⟨0, 0⟩ then
    if stateid.seqid = 0 ∧ flags.all0 then .anonymous
    else if stateid.seqid = 1 ∧ flags.current then
      match data.currentStateid with
      | none => .failure .badStateid
      | some current => .named current
    else .failure .badStateid
  else if stateid.other = ⟨BitVec.allOnes 64, BitVec.allOnes 32⟩ then
    if stateid.seqid = BitVec.allOnes 32 ∧ flags.all1 then .anonymous else .failure .badStateid
  else .named stateid

/-- The seqid test of `nfs4_Check_Stateid`; the difference is a signed 32-bit number. -/
def testSeqid (st : NfsState OwnerId Obj) (soSeqid : BitVec 32) (seqid ownerSeqid : BitVec 32)
    (checkSeqid : Bool) : SeqidTest :=
  if st.type = .layout ∨ seqid ≠ 0 then
    let diff := (seqid - st.stateSeqid).toInt
    if diff < 0 then
      if checkSeqid ∧ (diff = -1 ∨ st.stateSeqid = 1 ∧ seqid = BitVec.allOnes 32)
          ∧ ownerSeqid = soSeqid then .replay
      else .old
    else if diff = 0 ∧ checkSeqid ∧ ownerSeqid = soSeqid then .replay
    else if diff > 0 then .bad
    else .current
  else .current

def leaseReserved (env : ClientEnv OwnerId) (data : CompoundFile Obj) (client : BitVec 64) :
    Bool :=
  data.preservedClientid = some client || env.reserveLease client

variable [DecidableEq Obj] {st : NfsState OwnerId Obj}

def nfs4CheckStateid (env : ClientEnv OwnerId) (data : CompoundFile Obj) (flags : StateidFlags)
    (stateid : Stateid4) (ownerSeqid : BitVec 32) (table : StateTable OwnerId Obj)
    (owners : OwnerId → Nfs4Owner Obj Body) : CheckedStateid OwnerId Obj :=
  match resolveStateid flags data stateid with
  | .failure status => .failure status
  | .anonymous => .noState
  | .named stateid =>
    if stateid.other.epoch ≠ table.epochLow then .failure .staleStateid
    else
      match table.get stateid.other with
      | none =>
        match env.getConfirmed stateid.other.clientid with
        | .error status => .failure status
        | .ok client =>
          if flags.close40 ∨ flags.close41 then
            if env.reserveLease client then .noState else .failure .expired
          else .failure .badStateid
      | some st =>
        if !leaseReserved env data (env.soClientid st.stateOwner) then .failure .expired
        else if data.currentObj ≠ st.stateObj then .failure .badStateid
        else
          match testSeqid st (owners st.stateOwner).soSeqid stateid.seqid ownerSeqid
              (data.minorversion = 0) with
          | .current => .found false st
          | .replay => .found true st
          | .old => .failure .oldStateid
          | .bad => .failure .badStateid

/-- A stateid that names a state of the current file with its current seqid. A seqid of 0
is current too, except for a layout. -/
structure Names (data : CompoundFile Obj) (flags : StateidFlags) (stateid : Stateid4)
    (table : StateTable OwnerId Obj) (st : NfsState OwnerId Obj) : Prop where
  get : table.get st.stateidOther = some st
  obj : st.stateObj = data.currentObj
  resolved : ∃ seqid, resolveStateid flags data stateid = .named ⟨seqid, st.stateidOther⟩ ∧
    (seqid = st.stateSeqid ∨ seqid = 0 ∧ st.type ≠ .layout)

omit [DecidableEq Obj] in
theorem testSeqid_of_current {seqid : BitVec 32}
    (h : seqid = st.stateSeqid ∨ seqid = 0 ∧ st.type ≠ .layout) (soSeqid ownerSeqid : BitVec 32)
    (checkSeqid : Bool) :
    testSeqid st soSeqid seqid ownerSeqid checkSeqid = .current ∨
      testSeqid st soSeqid seqid ownerSeqid checkSeqid = .replay := by
  unfold testSeqid
  rcases h with rfl | ⟨rfl, htype⟩
  · have hdiff : (st.stateSeqid - st.stateSeqid).toInt = 0 := by simp
    simp only [hdiff, Int.lt_irrefl, if_false]
    split_ifs <;> simp
  · simp [htype]

theorem nfs4CheckStateid_of_names (env : ClientEnv OwnerId) {data : CompoundFile Obj}
    {flags : StateidFlags} {stateid : Stateid4} {table : StateTable OwnerId Obj}
    (h : Names data flags stateid table st) (ownerSeqid : BitVec 32)
    (owners : OwnerId → Nfs4Owner Obj Body) :
    if leaseReserved env data (env.soClientid st.stateOwner) then
      ∃ replay, nfs4CheckStateid env data flags stateid ownerSeqid table owners = .found replay st
    else nfs4CheckStateid env data flags stateid ownerSeqid table owners = .failure .expired := by
  obtain ⟨seqid, hresolved, hseqid⟩ := h.resolved
  have hepoch : st.stateidOther.epoch = table.epochLow :=
    table.wf.epoch st (getState_mem h.get).1
  unfold nfs4CheckStateid
  simp only [hresolved, hepoch, ne_eq, not_true_eq_false, if_false, h.get]
  split
  case isTrue hlease =>
    simp only [hlease, Bool.not_true, Bool.false_eq_true, if_false, h.obj, not_true_eq_false]
    rcases testSeqid_of_current hseqid (owners st.stateOwner).soSeqid ownerSeqid
      (data.minorversion = 0) with htest | htest
    · exact ⟨false, by rw [htest]⟩
    · exact ⟨true, by rw [htest]⟩
  case isFalse hlease => simp [hlease]

end EdgeComputing.Nfs4
