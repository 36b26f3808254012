import EdgeComputing.Library.Machine
import EdgeComputing.Sal.Nfs4Owner

/-!
The six NFSv4.0 operations that are sequenced by an owner, each with every exit: what is checked
before the seqid, what the seqid check answers, which results are recorded in which owner. The
answers of the functions they call are arbitrary; `server` stands for everything but the owners.
`Handled` records how far the request came, which no function of the source returns.
-/

namespace EdgeComputing.Nfs4

open Library Sal

variable {OwnerId Obj Body Server : Type*}

structure SeqState (OwnerId Obj Body Server : Type*) where
  owners : OwnerId → Option (Nfs4Owner Obj Body)
  server : Server

/-- `checked` is the owner against whose seqid the request was checked, `introduced`
the lock owner that a LOCK found or created by name, and `executed` says that no
seqid check stopped the request. -/
structure Handled (OwnerId Obj Body Server : Type*) where
  resp : Response Body
  state : SeqState OwnerId Obj Body Server
  checked : Option OwnerId
  introduced : Option OwnerId
  executed : Bool

structure Outcome (Body Server : Type*) where
  status : Nfsstat4
  body : Option Body
  server : Server

/-- The answer of `nfs4_Check_Stateid`. The owner is `none` if the state, or its
owner, is already gone. -/
inductive StateidAnswer (OwnerId : Type*)
  | failure (status : Nfsstat4)
  | valid (owner : Option OwnerId)
  | replay (owner : Option OwnerId)

variable [DecidableEq OwnerId] [DecidableEq Obj]

variable (s : SeqState OwnerId Obj Body Server)

def SeqState.setOwner (o : OwnerId) (owner : Nfs4Owner Obj Body) :
    SeqState OwnerId Obj Body Server :=
  { s with owners := fun o' => if o' = o then some owner else s.owners o' }

def SeqState.ownerOf (o : OwnerId) : Nfs4Owner Obj Body :=
  (s.owners o).getD (newNfs4Owner false)

def SeqState.record (o : OwnerId) (seqid : BitVec 32) (argop : SeqOp) (obj : Option Obj)
    (resp : Response Body) : SeqState OwnerId Obj Body Server :=
  s.setOwner o (copyNfs4StateReq (s.ownerOf o) seqid argop obj resp)

def refuse (resp : Response Body) : Handled OwnerId Obj Body Server :=
  ⟨resp, s, none, none, false⟩

def answer (o : OwnerId) (resp : Response Body) : Handled OwnerId Obj Body Server :=
  ⟨resp, s, some o, none, false⟩

def unsaved (o : OwnerId) (resp : Response Body) : Handled OwnerId Obj Body Server :=
  ⟨resp, s, some o, none, true⟩

def saved (o : OwnerId) (seqid : BitVec 32) (argop : SeqOp) (obj : Option Obj)
    (resp : Response Body) : Handled OwnerId Obj Body Server :=
  ⟨resp, s.record o seqid argop obj resp, some o, none, true⟩

structure OpenArgs (OwnerId Obj : Type*) where
  owner : OwnerId
  seqid : BitVec 32
  obj : Obj
  createNotNull : Bool
  namesFile : Bool

/-- `refused` is the status of the exits before the open owner is looked up, `lookup`
that of finding the file of a replayed OPEN again. -/
structure OpenEnv (Body Server : Type*) where
  refused : Option Nfsstat4
  ownerCreated : Bool
  lookup : Nfsstat4
  validateClaim : Nfsstat4
  shareBitsValid : Bool
  openEx : Outcome Body Server

/-- The response of `open4_open_owner` to a replay: the file of a successful OPEN is
looked up again, and the status is that of the lookup. -/
def replayedOpen (args : OpenArgs OwnerId Obj) (env : OpenEnv Body Server)
    (resp : Response Body) : Response Body :=
  if resp.status = .ok ∧ args.namesFile then { resp with status := env.lookup } else resp

/-- The rest of `nfs4_op_open` once `open4_open_owner` lets the request pass. The
response is recorded for no file when the claim is not valid, and not at all when
OPEN4_CREATE comes with another claim than CLAIM_NULL. -/
def openProcess (args : OpenArgs OwnerId Obj) (env : OpenEnv Body Server)
    (s : SeqState OwnerId Obj Body Server) : Handled OwnerId Obj Body Server :=
  if env.validateClaim ≠ .ok then
    saved s args.owner args.seqid .opOpen none ⟨env.validateClaim, none⟩
  else if args.createNotNull then unsaved s args.owner ⟨.inval, none⟩
  else if !env.shareBitsValid then
    saved s args.owner args.seqid .opOpen (some args.obj) ⟨.inval, none⟩
  else
    saved { s with server := env.openEx.server } args.owner args.seqid .opOpen (some args.obj)
      ⟨env.openEx.status, env.openEx.body⟩

def nfs4OpOpen (args : OpenArgs OwnerId Obj) (env : OpenEnv Body Server)
    (s : SeqState OwnerId Obj Body Server) : Handled OwnerId Obj Body Server :=
  match env.refused with
  | some status => refuse s ⟨status, none⟩
  | none =>
    if !env.ownerCreated then refuse s ⟨.resource, none⟩
    else
      match s.owners args.owner with
      | none => openProcess args env (s.setOwner args.owner (newNfs4Owner false))
      | some owner =>
        if args.seqid = 0 then
          openProcess args env (s.setOwner args.owner { owner with soConfirmed := false })
        else
          match checkNfs4Seqid owner args.seqid .opOpen args.obj with
          | some resp => answer s args.owner (replayedOpen args env resp)
          | none => openProcess args env s

structure StateidArgs (Obj : Type*) where
  seqid : BitVec 32
  obj : Obj

structure StateidEnv (OwnerId Body Server : Type*) where
  refused : Option Nfsstat4
  stateid : StateidAnswer OwnerId
  outcome : Outcome Body Server

/-- The common first part of CLOSE, OPEN_CONFIRM, OPEN_DOWNGRADE and LOCKU: the exits before the
stateid check, that check and the seqid check. `gone` is the response when the state has no owner
any more. -/
def checkedByStateid (argop : SeqOp) (gone : Response Body) (args : StateidArgs Obj)
    (env : StateidEnv OwnerId Body Server) (s : SeqState OwnerId Obj Body Server)
    (process : OwnerId → Handled OwnerId Obj Body Server) : Handled OwnerId Obj Body Server :=
  match env.refused with
  | some status => refuse s ⟨status, none⟩
  | none =>
    match env.stateid with
    | .failure status => refuse s ⟨status, none⟩
    | .valid none | .replay none => refuse s gone
    | .valid (some o) | .replay (some o) =>
      match checkNfs4Seqid (s.ownerOf o) args.seqid argop args.obj with
      | some resp => answer s o resp
      | none => process o

/-- A state that is gone is taken for one that is already closed. `locksHeld` says that a lock state
of the open still has locks. -/
def nfs4OpClose (locksHeld : Bool) (args : StateidArgs Obj)
    (env : StateidEnv OwnerId Body Server) (s : SeqState OwnerId Obj Body Server) :
    Handled OwnerId Obj Body Server :=
  checkedByStateid .opClose ⟨.ok, env.outcome.body⟩ args env s fun o =>
    if locksHeld then saved s o args.seqid .opClose (some args.obj) ⟨.locksHeld, none⟩
    else
      saved { s with server := env.outcome.server } o args.seqid .opClose (some args.obj)
        ⟨.ok, env.outcome.body⟩

def nfs4OpOpenConfirm (args : StateidArgs Obj) (env : StateidEnv OwnerId Body Server)
    (s : SeqState OwnerId Obj Body Server) : Handled OwnerId Obj Body Server :=
  checkedByStateid .opOpenConfirm ⟨.stale, none⟩ args env s fun o =>
    if (s.ownerOf o).soConfirmed then unsaved s o ⟨.badStateid, none⟩
    else
      let s := s.setOwner o { s.ownerOf o with soConfirmed := true }
      saved { s with server := env.outcome.server } o args.seqid .opOpenConfirm (some args.obj)
        ⟨.ok, env.outcome.body⟩

/-- A failure is not recorded. -/
def nfs4OpOpenDowngrade (args : StateidArgs Obj) (env : StateidEnv OwnerId Body Server)
    (s : SeqState OwnerId Obj Body Server) : Handled OwnerId Obj Body Server :=
  checkedByStateid .opOpenDowngrade ⟨.stale, none⟩ args env s fun o =>
    if env.outcome.status ≠ .ok then unsaved s o ⟨env.outcome.status, none⟩
    else
      saved { s with server := env.outcome.server } o args.seqid .opOpenDowngrade
        (some args.obj) ⟨.ok, env.outcome.body⟩

def nfs4OpLocku (rangeValid : Bool) (args : StateidArgs Obj)
    (env : StateidEnv OwnerId Body Server) (s : SeqState OwnerId Obj Body Server) :
    Handled OwnerId Obj Body Server :=
  checkedByStateid .opLocku ⟨.stale, none⟩ args env s fun o =>
    if !rangeValid then saved s o args.seqid .opLocku (some args.obj) ⟨.inval, none⟩
    else
      saved { s with server := env.outcome.server } o args.seqid .opLocku (some args.obj)
        ⟨env.outcome.status, env.outcome.body⟩

inductive Locker (OwnerId : Type*)
  | newLockOwner (openSeqid : BitVec 32) (lockSeqid : BitVec 32) (lockOwner : OwnerId)
  | existing (lockSeqid : BitVec 32)

structure LockArgs (OwnerId Obj : Type*) where
  locker : Locker OwnerId
  obj : Obj
  rangeValid : Bool

inductive GraceAnswer
  | allowed | noGrace | inGrace

/-- `refused` covers the exits before the stateid is checked, `clientid` the failed
lookup of the client under which a lock owner is introduced and `badState` the state
being of another type or, for an existing lock owner, of another export. `openAccess`
and `grace` are the checks between the seqid and the lock. -/
structure LockEnv4 (OwnerId Body Server : Type*) where
  refused : Option Nfsstat4
  stateid : StateidAnswer OwnerId
  clientid : Option Nfsstat4
  badState : Option Nfsstat4
  openAccess : Bool
  grace : GraceAnswer
  lockOwnerCreated : Bool
  lockOwnerHasLocks : Bool
  stateAdded : Bool
  openStateValid : Bool
  stateLock : Outcome Body Server

def Locker.seqid : Locker OwnerId → BitVec 32
  | .newLockOwner openSeqid _ _ => openSeqid
  | .existing lockSeqid => lockSeqid

variable (args : LockArgs OwnerId Obj) (env : LockEnv4 OwnerId Body Server)

/-- `nfs4_op_lock` from the race with CLOSE on: the lock itself. The response is
recorded in the owner whose seqid was checked, except for two errors; a granted lock
is also recorded in the lock owner it introduced. -/
def pushLock (o : OwnerId) (introduced : Option (OwnerId × BitVec 32))
    (s : SeqState OwnerId Obj Body Server) : Handled OwnerId Obj Body Server :=
  let done := introduced.map Prod.fst
  if !env.openStateValid then { unsaved s o ⟨.badStateid, none⟩ with introduced := done }
  else
    let s := { s with server := env.stateLock.server }
    let resp : Response Body := ⟨env.stateLock.status, env.stateLock.body⟩
    if resp.status ≠ .ok then
      if resp.status ≠ .resource ∧ resp.status ≠ .badStateid then
        { saved s o args.locker.seqid .opLock (some args.obj) resp with introduced := done }
      else { unsaved s o resp with introduced := done }
    else
      match introduced with
      | none => saved s o args.locker.seqid .opLock (some args.obj) resp
      | some (l, lockSeqid) =>
        let s := s.record l lockSeqid .opLock (some args.obj) resp
        { saved s o args.locker.seqid .opLock (some args.obj) resp with introduced := done }

/-- The part of `nfs4_op_lock` that finds or creates the lock owner of a
`newLockOwner` request. The seqid of a known one is checked only if it has locks. -/
def introduceLockOwner (o : OwnerId) (lockSeqid : BitVec 32) (l : OwnerId)
    (s : SeqState OwnerId Obj Body Server) : Handled OwnerId Obj Body Server :=
  if !env.lockOwnerCreated then unsaved s o ⟨.resource, none⟩
  else
    let check :=
      match s.owners l with
      | none => none
      | some owner =>
        if env.lockOwnerHasLocks then checkNfs4Seqid owner lockSeqid .opLock args.obj else none
    match check with
    | some resp => { answer s o resp with introduced := some l }
    | none =>
      let s := if (s.owners l).isNone then s.setOwner l (newNfs4Owner true) else s
      if !env.stateAdded then { unsaved s o ⟨.resource, none⟩ with introduced := some l }
      else pushLock args env o (some (l, lockSeqid)) s

def lockProcess (o : OwnerId) (s : SeqState OwnerId Obj Body Server) :
    Handled OwnerId Obj Body Server :=
  let failed (status : Nfsstat4) :=
    saved s o args.locker.seqid .opLock (some args.obj) ⟨status, none⟩
  if !args.rangeValid then failed .inval
  else if !env.openAccess then failed .openmode
  else
    match env.grace with
    | .noGrace => failed .noGrace
    | .inGrace => failed .grace
    | .allowed =>
      match args.locker with
      | .newLockOwner _ lockSeqid l => introduceLockOwner args env o lockSeqid l s
      | .existing _ => pushLock args env o none s

def lockRefused : Option Nfsstat4 :=
  match args.locker with
  | .newLockOwner _ _ _ => env.clientid <|> env.badState
  | .existing _ => env.badState

/-- A stateid that looks like a replay skips the checks of the client and the state; if the seqid
check then lets it pass, the source uses pointers it has not set, which is not a result. -/
def nfs4OpLock (s : SeqState OwnerId Obj Body Server) : Option (Handled OwnerId Obj Body Server) :=
  match env.refused with
  | some status => some (refuse s ⟨status, none⟩)
  | none =>
    match env.stateid with
    | .failure status => some (refuse s ⟨status, none⟩)
    | .replay none => some (refuse s ⟨.replay, none⟩)
    | .replay (some o) =>
      (checkNfs4Seqid (s.ownerOf o) args.locker.seqid .opLock args.obj).map (answer s o)
    | .valid none => some (refuse s ⟨.stale, none⟩)
    | .valid (some o) =>
      match lockRefused args env with
      | some status => some (refuse s ⟨status, none⟩)
      | none =>
        match checkNfs4Seqid (s.ownerOf o) args.locker.seqid .opLock args.obj with
        | some resp => some (answer s o resp)
        | none => some (lockProcess args env o s)

inductive SeqRequest (OwnerId Obj Body Server : Type*)
  | opOpen (args : OpenArgs OwnerId Obj) (env : OpenEnv Body Server)
  | opOpenConfirm (args : StateidArgs Obj) (env : StateidEnv OwnerId Body Server)
  | opOpenDowngrade (args : StateidArgs Obj) (env : StateidEnv OwnerId Body Server)
  | opClose (locksHeld : Bool) (args : StateidArgs Obj) (env : StateidEnv OwnerId Body Server)
  | opLock (args : LockArgs OwnerId Obj) (env : LockEnv4 OwnerId Body Server)
  | opLocku (rangeValid : Bool) (args : StateidArgs Obj)
      (env : StateidEnv OwnerId Body Server)

def SeqRequest.handle (s : SeqState OwnerId Obj Body Server) :
    SeqRequest OwnerId Obj Body Server → Option (Handled OwnerId Obj Body Server)
  | .opOpen args env => some (nfs4OpOpen args env s)
  | .opOpenConfirm args env => some (nfs4OpOpenConfirm args env s)
  | .opOpenDowngrade args env => some (nfs4OpOpenDowngrade args env s)
  | .opClose locksHeld args env => some (nfs4OpClose locksHeld args env s)
  | .opLock args env => nfs4OpLock args env s
  | .opLocku rangeValid args env => some (nfs4OpLocku rangeValid args env s)

end EdgeComputing.Nfs4
