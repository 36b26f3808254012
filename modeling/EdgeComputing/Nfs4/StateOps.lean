import EdgeComputing.Nfs4.CheckStateid
import EdgeComputing.Sal.StateErrno

/-!
CLOSE, OPEN_DOWNGRADE, OPEN_CONFIRM and LOCKU over the state table. Every access to the `state_data`
union is logged with the type of the state and the member. A member that is not in use yields
whatever the environment says; following it to something that is not a state ends the server.
-/

namespace EdgeComputing.Nfs4.StateOps

open Fsal Sal

structure UnionAccess where
  actual : StateType
  used : StateType
deriving DecidableEq

structure OpenFlags where
  read : Bool
  write : Bool
  denyRead : Bool
  denyWriteMand : Bool
deriving DecidableEq

structure StateServer (OwnerId Obj : Type*) where
  table : StateTable OwnerId Obj
  owners : OwnerId → Nfs4Owner Obj Stateid4
  locks : Obj → LockState OwnerId
  descriptors : StateidOther → Option OpenFlags
  writeDelegated : Obj → Bool

/-- What the operations are told from outside the table: the clients, the bytes of
members that are not in use, the layouts that could be returned, and the file system. -/
structure OpEnv (OwnerId : Type*) where
  clients : ClientEnv OwnerId
  shareBytes : StateData → StateShare
  locklistBytes : StateData → Bool
  layoutReturned : StateidOther → Bool
  reopen2 : FsalErr
  lockEnv : LockEnv
  lockOp2 : LockOp → Nat → FsalErr
  maxfilesize : Nat

structure OpResult (OwnerId Obj : Type*) where
  resp : Response Stateid4
  server : StateServer OwnerId Obj
  accessed : List UnionAccess

variable {OwnerId Obj : Type*} [DecidableEq OwnerId] [DecidableEq Obj]

def OpEnv.share (env : OpEnv OwnerId) : StateData → StateShare
  | .share data => data
  | data => env.shareBytes data

variable (env : OpEnv OwnerId) (data : CompoundFile Obj)

def OpEnv.hasLocks (s : StateServer OwnerId Obj) (st : NfsState OwnerId Obj) : Bool :=
  match st.stateData with
  | .lock _ => (s.locks st.stateObj).lockList.any fun entry => entry.sleOwner = st.stateOwner
  | data => env.locklistBytes data

def StateServer.setOwner (s : StateServer OwnerId Obj) (o : OwnerId)
    (owner : Nfs4Owner Obj Stateid4) : StateServer OwnerId Obj :=
  { s with owners := fun o' => if o' = o then owner else s.owners o' }

def StateServer.save (s : StateServer OwnerId Obj) (data : CompoundFile Obj)
    (o : OwnerId) (seqid : BitVec 32) (argop : SeqOp) (resp : Response Stateid4) :
    StateServer OwnerId Obj :=
  if data.minorversion = 0 then
    s.setOwner o (copyNfs4StateReq (s.owners o) seqid argop (some data.currentObj) resp)
  else s

def seqidAnswer (s : StateServer OwnerId Obj) (o : OwnerId) (seqid : BitVec 32) (argop : SeqOp) :
    Option (Response Stateid4) :=
  if data.minorversion = 0 then checkNfs4Seqid (s.owners o) seqid argop data.currentObj else none

/-- The members `state_del_locked` reads or writes, each after a look at the type. -/
def delAccesses : StateType → List UnionAccess
  | .share => [⟨.share, .share⟩]
  | .lock => [⟨.lock, .lock⟩]
  | .deleg => [⟨.deleg, .deleg⟩]
  | .layout => []

def StateServer.forget (s : StateServer OwnerId Obj) (st : NfsState OwnerId Obj) :
    StateServer OwnerId Obj :=
  { s with
    table := s.table.remove st.stateidOther
    descriptors := fun other => if other = st.stateidOther then none else s.descriptors other
    writeDelegated := fun obj =>
      if st.stateData = .deleg true ∧ obj = st.stateObj then false else s.writeDelegated obj }

/-- An open state that still lists lock states fails an assertion. -/
def stateDelLocked (s : StateServer OwnerId Obj) (other : StateidOther) :
    Option (StateServer OwnerId Obj × List UnionAccess) :=
  match s.table.get other with
  | none => some (s, [])
  | some st =>
    match st.stateData with
    | .share data =>
      if data.shareLockstates = [] then some (s.forget st, delAccesses .share) else none
    | _ => some (s.forget st, delAccesses st.type)

def deleteAll (s : StateServer OwnerId Obj) :
    List StateidOther → Option (StateServer OwnerId Obj × List UnionAccess)
  | [] => some (s, [])
  | other :: rest =>
    (stateDelLocked s other).bind fun r => (deleteAll r.1 rest).map fun r' => (r'.1, r.2 ++ r'.2)

structure CloseArgs where
  openStateid : Stateid4
  seqid : BitVec 32
deriving DecidableEq

def locksHeld (env : OpEnv OwnerId) (s : StateServer OwnerId Obj) :
    List StateidOther → Option (Bool × List UnionAccess)
  | [] => some (false, [])
  | other :: rest =>
    match s.table.get other with
    | none => none
    | some lk =>
      if env.hasLocks s lk then some (true, [⟨lk.type, .lock⟩])
      else (locksHeld env s rest).map fun r => (r.1, ⟨lk.type, .lock⟩ :: r.2)

def ofClient (type : StateType) (st : NfsState OwnerId Obj) : Bool :=
  st.stateObj = data.currentObj && st.type = type
    && env.clients.soClientid st.stateOwner = data.sessionClientid

def cleanupLayouts (s : StateServer OwnerId Obj) :
    Option (StateServer OwnerId Obj × List UnionAccess) :=
  if s.table.states.any (ofClient env data .share) then some (s, [])
  else
    let layouts := s.table.states.filter (ofClient env data .layout)
    let returned := layouts.filter fun st =>
      st.stateData = .layout true && env.layoutReturned st.stateidOther
    (deleteAll s (returned.map NfsState.stateidOther)).map fun r =>
      (r.1, layouts.map (fun st => ⟨st.type, .layout⟩) ++ r.2)

def releaseStates (s : StateServer OwnerId Obj) (st : NfsState OwnerId Obj) :
    Option (StateServer OwnerId Obj × List UnionAccess) :=
  (deleteAll s (env.share st.stateData).shareLockstates).bind fun r1 =>
  (stateDelLocked r1.1 st.stateidOther).bind fun r2 =>
  (if data.minorversion = 0 then some (r2.1, []) else cleanupLayouts env data r2.1).map fun r3 =>
    (r3.1, r1.2 ++ r2.2 ++ r3.2)

def closeState (args : CloseArgs) (s : StateServer OwnerId Obj) (st : NfsState OwnerId Obj) :
    Option (OpResult OwnerId Obj) :=
  match locksHeld env s (env.share st.stateData).shareLockstates with
  | none => none
  | some (true, acc) =>
    let resp : Response Stateid4 := ⟨.locksHeld, none⟩
    some ⟨resp, s.save data st.stateOwner args.seqid .opClose resp, ⟨st.type, .share⟩ :: acc⟩
  | some (false, acc) =>
    let stateid : Stateid4 :=
      if data.minorversion = 0 then st.updateStateid.stateid else ⟨BitVec.allOnes 32, ⟨0, 0⟩⟩
    let s :=
      if data.minorversion = 0 then { s with table := s.table.update st.stateidOther } else s
    (releaseStates env data s st).map fun r =>
      let resp : Response Stateid4 := ⟨.ok, some stateid⟩
      ⟨resp, r.1.save data st.stateOwner args.seqid .opClose resp,
        ⟨st.type, .share⟩ :: (acc ++ r.2)⟩

def nfs4OpClose (args : CloseArgs) (s : StateServer OwnerId Obj) : Option (OpResult OwnerId Obj) :=
  let flags :=
    if data.minorversion = 0 then stateidSpecialForClose40 else stateidSpecialForClose41
  match nfs4CheckStateid env.clients data flags args.openStateid args.seqid s.table s.owners with
  | .failure status => some ⟨⟨status, none⟩, s, []⟩
  | .noState =>
    let seqid := args.openStateid.seqid + 1
    some ⟨⟨.ok, some ⟨if seqid = 0 then 1 else seqid, args.openStateid.other⟩⟩, s, []⟩
  | .found _ st =>
    match seqidAnswer data s st.stateOwner args.seqid .opClose with
    | some resp => some ⟨resp, s, []⟩
    | none => closeState env data args s st

structure OpenDowngradeArgs where
  openStateid : Stateid4
  seqid : BitVec 32
  shareAccess : BitVec 32
  shareDeny : BitVec 32
deriving DecidableEq

def downgradeFlags (args : OpenDowngradeArgs) : OpenFlags where
  read := args.shareAccess &&& 1 ≠ 0
  write := args.shareAccess &&& 2 ≠ 0
  denyRead := args.shareDeny &&& 1 ≠ 0
  denyWriteMand := args.shareDeny &&& 2 ≠ 0

def bitOf (n : BitVec 32) : BitVec 32 := 1#32 <<< (n.toNat % 32)

def nfs4DoOpenDowngrade (args : OpenDowngradeArgs) (s : StateServer OwnerId Obj)
    (st : NfsState OwnerId Obj) : Nfsstat4 × StateServer OwnerId Obj :=
  let share := env.share st.stateData
  if share.shareAccess &&& args.shareAccess ≠ args.shareAccess then (.inval, s)
  else if share.shareDeny &&& args.shareDeny ≠ args.shareDeny then (.inval, s)
  else if share.shareAccessPrev &&& bitOf args.shareAccess = 0
      ∨ share.shareDenyPrev &&& bitOf args.shareDeny = 0 then (.inval, s)
  else if stateErrorConvert env.reopen2 ≠ .success then (.serverfault, s)
  else
    (.ok, { s with
      descriptors := fun other =>
        if other = st.stateidOther then some (downgradeFlags args) else s.descriptors other })

/-- `nfs4_op_open_downgrade` after the seqid check. Only a success is saved. -/
def downgradeState (args : OpenDowngradeArgs) (s : StateServer OwnerId Obj)
    (st : NfsState OwnerId Obj) : OpResult OwnerId Obj :=
  let r := nfs4DoOpenDowngrade env args s st
  if r.1 ≠ .ok then ⟨⟨r.1, none⟩, r.2, [⟨st.type, .share⟩]⟩
  else
    let s := { r.2 with table := r.2.table.update st.stateidOther }
    let resp : Response Stateid4 := ⟨.ok, some st.updateStateid.stateid⟩
    ⟨resp, s.save data st.stateOwner args.seqid .opOpenDowngrade resp, [⟨st.type, .share⟩]⟩

def nfs4OpOpenDowngrade (args : OpenDowngradeArgs) (s : StateServer OwnerId Obj) :
    Option (OpResult OwnerId Obj) :=
  match nfs4CheckStateid env.clients data stateidSpecialForLock args.openStateid args.seqid
      s.table s.owners with
  | .failure status => some ⟨⟨status, none⟩, s, []⟩
  | .noState => some ⟨⟨.stale, none⟩, s, []⟩
  | .found _ st =>
    match seqidAnswer data s st.stateOwner args.seqid .opOpenDowngrade with
    | some resp => some ⟨resp, s, []⟩
    | none => some (downgradeState env data args s st)

structure OpenConfirmArgs where
  openStateid : Stateid4
  seqid : BitVec 32
deriving DecidableEq

def confirmState (args : OpenConfirmArgs) (s : StateServer OwnerId Obj)
    (st : NfsState OwnerId Obj) : OpResult OwnerId Obj :=
  let owner := s.owners st.stateOwner
  if owner.soConfirmed then ⟨⟨.badStateid, none⟩, s, []⟩
  else
    let s := s.setOwner st.stateOwner { owner with soConfirmed := true }
    let s := { s with table := s.table.update st.stateidOther }
    let resp : Response Stateid4 := ⟨.ok, some st.updateStateid.stateid⟩
    ⟨resp, s.save data st.stateOwner args.seqid .opOpenConfirm resp, []⟩

def nfs4OpOpenConfirm (args : OpenConfirmArgs) (s : StateServer OwnerId Obj) :
    Option (OpResult OwnerId Obj) :=
  if data.minorversion > 0 then some ⟨⟨.notsupp, none⟩, s, []⟩
  else
    match nfs4CheckStateid env.clients data stateidSpecialForLock args.openStateid args.seqid
        s.table s.owners with
    | .failure status => some ⟨⟨status, none⟩, s, []⟩
    | .noState => some ⟨⟨.stale, none⟩, s, []⟩
    | .found _ st =>
      match seqidAnswer data s st.stateOwner args.seqid .opOpenConfirm with
      | some resp => some ⟨resp, s, []⟩
      | none => some (confirmState data args s st)

/-- The lock type is `none` for a value that is not one of `nfs_lock_type4`. -/
structure LockuArgs where
  locktype : Option LockType
  lockStateid : Stateid4
  seqid : BitVec 32
  offset : Nat
  length : Nat
deriving DecidableEq

def OpEnv.unlockEnv : LockEnv :=
  { env.lockEnv with lockOp2 := fun op entry => stateErrorConvert (env.lockOp2 op entry) }

/-- `nfs4_op_locku` after the seqid check, up to where the response is saved. -/
def unlockState (args : LockuArgs) (locktype : LockType) (s : StateServer OwnerId Obj)
    (st : NfsState OwnerId Obj) : Response Stateid4 × StateServer OwnerId Obj :=
  match nfs4LockLength env.maxfilesize args.offset args.length with
  | none => (⟨.inval, none⟩, s)
  | some lockLength =>
    let r := stateUnlock env.unlockEnv (some st.stateOwner) false 0
      ⟨locktype, args.offset, lockLength, false⟩ (s.locks data.currentObj)
    let s := { s with locks := fun obj => if obj = data.currentObj then r.2 else s.locks obj }
    if r.1 ≠ .success then (⟨nfs4ErrnoState r.1, none⟩, s)
    else
      (⟨.ok, some st.updateStateid.stateid⟩, { s with table := s.table.update st.stateidOther })

def nfs4OpLocku (args : LockuArgs) (s : StateServer OwnerId Obj) : Option (OpResult OwnerId Obj) :=
  match args.locktype with
  | none => some ⟨⟨.inval, none⟩, s, []⟩
  | some locktype =>
    match nfs4CheckStateid env.clients data stateidSpecialForLock args.lockStateid args.seqid
        s.table s.owners with
    | .failure status => some ⟨⟨status, none⟩, s, []⟩
    | .noState => some ⟨⟨.stale, none⟩, s, []⟩
    | .found _ st =>
      match seqidAnswer data s st.stateOwner args.seqid .opLocku with
      | some resp => some ⟨resp, s, []⟩
      | none =>
        let r := unlockState env data args locktype s st
        some ⟨r.1, r.2.save data st.stateOwner args.seqid .opLocku r.1, []⟩

inductive StateOp
  | close (args : CloseArgs)
  | openDowngrade (args : OpenDowngradeArgs)
  | openConfirm (args : OpenConfirmArgs)
  | locku (args : LockuArgs)
deriving DecidableEq

def StateOp.run (s : StateServer OwnerId Obj) : StateOp → Option (OpResult OwnerId Obj)
  | .close args => nfs4OpClose env data args s
  | .openDowngrade args => nfs4OpOpenDowngrade env data args s
  | .openConfirm args => nfs4OpOpenConfirm env data args s
  | .locku args => nfs4OpLocku env data args s

end EdgeComputing.Nfs4.StateOps
