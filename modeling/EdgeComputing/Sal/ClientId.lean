import Mathlib.Logic.Function.Basic
import EdgeComputing.Nfs4.Nfsstat4

/-!
Client IDs as `nfs4_clientid.c` keeps them: reference-counted records on a heap, hashed in the table
of the confirmed or of the unconfirmed ones, and pointed to by the client record of their owner
string. A function returns no store where the server stops: a failed assertion, a fatal log message
or a dangling pointer.
-/

namespace EdgeComputing.Sal

open Function

open Nfs4 (Nfsstat4)

/-- `nfs_client_cred_t`. A GSS credential is the name that `gss_inquire_context` reports for
its context, if it does. -/
inductive ClientCred
  | unix (uid gid : BitVec 32)
  | gss (name : Option Nat)
  | other (flavor length : Nat) (authUnion : List UInt8)
deriving DecidableEq

def nfsCompareClientcred : ClientCred → ClientCred → Bool
  | .unix uid gid, .unix uid' gid' => uid = uid' && gid = gid'
  | .gss (some name), .gss (some name') => name = name'
  | .other flavor length bytes, .other flavor' _ bytes' =>
    flavor = flavor' && bytes.take length = bytes'.take length
  | _, _ => false

inductive ConfirmState
  | confirmed | unconfirmed | expired | stale
deriving DecidableEq

inductive ClientidStatus
  | success | insertMallocError | invalidArgument | expired | stale
deriving DecidableEq

def clientidErrorToNfsstat : ClientidStatus → Nfsstat4
  | .success => .ok
  | .insertMallocError => .resource
  | .invalidArgument => .serverfault
  | .expired => .expired
  | .stale => .staleClientid

def clientidErrorToNfsstatNoExpire (err : ClientidStatus) : Nfsstat4 :=
  let rc := clientidErrorToNfsstat err
  if rc = .expired then .staleClientid else rc

/-- What client records differ in: the owner string and the pNFS flags, which
`compare_client_record` compares, and their hash, which also depends on the server address. -/
structure RecordKey where
  clientVal : List UInt8
  pnfsFlags : BitVec 32
  hash : BitVec 64
deriving DecidableEq

structure ClientRecord where
  confirmedRec : Option Nat
  unconfirmedRec : Option Nat
deriving DecidableEq

structure OpenState where
  state : Nat
  lockstates : List Nat
deriving DecidableEq

inductive OpenOwner
  | cached
  | inUse (states : List OpenState)
deriving DecidableEq

inductive ClientState
  | deleg (state : Nat) (write : Bool)
  | layout (state : Nat)
deriving DecidableEq

def ClientState.isWriteDeleg : ClientState → Bool
  | .deleg _ write => write
  | .layout _ => false

/-- The callback of an NFSv4.0 client. Its socket address is set up from these. -/
structure CbV40 where
  rNetid : List UInt8
  rAddr : List UInt8
  program : BitVec 32
  callbackIdent : BitVec 32
deriving DecidableEq

structure ChannelAttrs where
  headerpadsize : BitVec 32
  maxrequestsize : BitVec 32
  maxresponsesize : BitVec 32
  maxresponsesizeCached : BitVec 32
  maxoperations : BitVec 32
  maxrequests : BitVec 32
deriving DecidableEq

structure SessionId where
  clientid : BitVec 64
  sequence : BitVec 64
deriving DecidableEq

structure CreateSessionResok where
  sessionid : SessionId
  sequence : BitVec 32
  flags : BitVec 32
  foreChanAttrs : ChannelAttrs
  backChanAttrs : ChannelAttrs
deriving DecidableEq

structure CreateSessionRes where
  status : Nfsstat4
  resok : Option CreateSessionResok
deriving DecidableEq

structure ClientId where
  clientid : BitVec 64
  verifier : BitVec 64
  incomingVerifier : BitVec 64
  confirmed : ConfirmState
  credential : ClientCred
  gshClient : Option Nat
  clientRecord : Option RecordKey
  cb : CbV40
  minorversion : Nat
  lastRenew : Nat
  leaseReservations : Nat
  createSessionSequence : BitVec 32
  createSessionSlot : CreateSessionRes
  openowners : List OpenOwner
  lockowners : Nat
  ownerStates : List ClientState
  refcount : Nat
deriving DecidableEq

def OpenOwner.hasState : OpenOwner → Bool
  | .cached => false
  | .inUse states => !states.isEmpty

namespace ClientId

def hasState (cl : ClientId) : Bool :=
  cl.openowners.any OpenOwner.hasState || !cl.ownerStates.isEmpty

def clientIdHasState (cl : ClientId) : Bool :=
  !cl.openowners.isEmpty && !cl.ownerStates.isEmpty

def ownerRefs (cl : ClientId) : Nat :=
  cl.openowners.length + cl.lockowners + cl.ownerStates.countP ClientState.isWriteDeleg

def leaseLeft (leaseLifetime now : Nat) (cl : ClientId) : Nat :=
  if cl.confirmed = .expired then 0
  else if cl.leaseReservations ≠ 0 then leaseLifetime
  else cl.lastRenew + leaseLifetime - now

def validLease (leaseLifetime now : Nat) (cl : ClientId) : Bool :=
  cl.leaseLeft leaseLifetime now ≠ 0

end ClientId

/-- `nfs41_session_t`; `hashed` says whether it is in the session table. -/
structure Session where
  addr : Nat
  sessionId : SessionId
  clientidRecord : Nat
  refcount : Nat
  hashed : Bool
deriving DecidableEq

structure ClientStore where
  epochLow : BitVec 32
  clientidCounter : BitVec 32
  clientidVerifier : BitVec 64
  globalSequence : BitVec 64
  ids : Nat → Option ClientId
  records : RecordKey → ClientRecord
  confirmedTable : BitVec 64 → Option Nat
  unconfirmedTable : BitVec 64 → Option Nat
  sessions : List Session
  nextAddr : Nat

namespace ClientStore

def empty (epochLow : BitVec 32) : ClientStore where
  epochLow := epochLow
  clientidCounter := 0
  clientidVerifier := 0
  globalSequence := 0
  ids := fun _ => none
  records := fun _ => ⟨none, none⟩
  confirmedTable := fun _ => none
  unconfirmedTable := fun _ => none
  sessions := []
  nextAddr := 0

variable (s : ClientStore)

def setId (r : Nat) (cl : Option ClientId) : ClientStore :=
  { s with ids := update s.ids r cl }

def setRecord (key : RecordKey) (rec : ClientRecord) : ClientStore :=
  { s with records := update s.records key rec }

def incClientIdRef (r : Nat) : Option ClientStore :=
  (s.ids r).map fun cl => s.setId r (some { cl with refcount := cl.refcount + 1 })

def decClientIdRef (r : Nat) : Option ClientStore :=
  (s.ids r).bind fun cl =>
    if 1 < cl.refcount then some (s.setId r (some { cl with refcount := cl.refcount - 1 }))
    else if cl.confirmed = .expired then some (s.setId r none)
    else none

def decClientIdRefs (s : ClientStore) (r : Nat) : Nat → Option ClientStore
  | 0 => some s
  | n + 1 => (s.decClientIdRef r).bind fun t => t.decClientIdRefs r n

def newClientid : BitVec 64 × ClientStore :=
  let newid := s.clientidCounter + 1
  (newid.setWidth 64 + (s.epochLow.setWidth 64 <<< 32), { s with clientidCounter := newid })

def newClientidVerifier : BitVec 64 × ClientStore :=
  (s.clientidVerifier + 1, { s with clientidVerifier := s.clientidVerifier + 1 })

def createClientId (clientid : BitVec 64) (key : RecordKey) (credential : ClientCred)
    (client : Option Nat) (minorversion now : Nat) : ClientId × ClientStore :=
  let (clientid, s) := if clientid = 0 then s.newClientid else (clientid, s)
  ({ clientid := clientid
     verifier := 0
     incomingVerifier := 0
     confirmed := .unconfirmed
     credential := credential
     gshClient := client
     clientRecord := some key
     cb := ⟨[], [], 0, 0⟩
     minorversion := minorversion
     lastRenew := now
     leaseReservations := 0
     createSessionSequence := 0
     createSessionSlot := ⟨.ok, none⟩
     openowners := []
     lockowners := 0
     ownerStates := []
     refcount := 0 }, s)

def nfsClientIdInsert (key : RecordKey) (cl : ClientId) : ClientStore × ClientidStatus :=
  match s.unconfirmedTable cl.clientid with
  | some _ => (s, .insertMallocError)
  | none =>
    let r := s.nextAddr
    ({ s with
        nextAddr := r + 1
        ids := update s.ids r (some { cl with refcount := cl.refcount + 1 })
        unconfirmedTable := update s.unconfirmedTable cl.clientid (some r)
        records := update s.records key
          { s.records key with unconfirmedRec := some r } }, .success)

def removeUnconfirmedClientId (r : Nat) : Option ClientStore :=
  (s.ids r).bind fun cl =>
    match s.unconfirmedTable cl.clientid with
    | none => some s
    | some _ =>
      let s := { s with unconfirmedTable := update s.unconfirmedTable cl.clientid none }
      let s :=
        match cl.clientRecord with
        | none => s
        | some key => s.setRecord key { s.records key with unconfirmedRec := none }
      (s.setId r (some { cl with confirmed := .expired })).decClientIdRef r

def nfsClientIdConfirm (r : Nat) : Option (ClientStore × ClientidStatus) :=
  (s.ids r).bind fun cl => cl.clientRecord.bind fun key =>
    let s := s.setRecord key { s.records key with unconfirmedRec := none }
    match s.unconfirmedTable cl.clientid with
    | none => some (s, .invalidArgument)
    | some value =>
      let s := { s with unconfirmedTable := update s.unconfirmedTable cl.clientid none }
      match s.confirmedTable cl.clientid with
      | some _ =>
        ((s.setId r (some { cl with confirmed := .expired })).decClientIdRef r).map
          (·, .insertMallocError)
      | none =>
        let s := s.setId r (some { cl with confirmed := .confirmed })
        let s := { s with
          confirmedTable := update s.confirmedTable cl.clientid (some value) }
        some (s.setRecord key { s.records key with confirmedRec := some r }, .success)

def mapSession (addr : Nat) (f : Session → Session) : ClientStore :=
  { s with sessions := s.sessions.map fun x => if x.addr = addr then f x else x }

def dropSession (addr : Nat) : ClientStore :=
  { s with sessions := s.sessions.filter fun x => x.addr ≠ addr }

def decSessionRef (addr : Nat) : Option ClientStore :=
  (s.sessions.find? fun session => session.addr = addr).bind fun session =>
    if 1 < session.refcount then
      some (s.mapSession addr fun x => { x with refcount := x.refcount - 1 })
    else (s.dropSession addr).decClientIdRef session.clientidRecord

def nfs41SessionDel (sessionId : SessionId) : Option ClientStore :=
  match s.sessions.find? fun session => session.hashed && session.sessionId = sessionId with
  | none => some s
  | some session =>
    (s.mapSession session.addr fun x => { x with hashed := false }).decSessionRef session.addr

def sessionsOf (r : Nat) : List Session :=
  s.sessions.filter fun session => session.clientidRecord = r

def nfs41SessionDels (s : ClientStore) : List SessionId → Option ClientStore
  | [] => some s
  | sessionId :: rest => (s.nfs41SessionDel sessionId).bind fun t => t.nfs41SessionDels rest

/-- The part of `nfs_client_id_expire` under `cid_mutex`: the client ID leaves its client
record and is marked. -/
def detachClientId (r : Nat) (cl : ClientId) (makeStale : Bool) : ClientStore :=
  let s :=
    match cl.clientRecord with
    | none => s
    | some key =>
      let rec' := s.records key
      s.setRecord key
        { confirmedRec := if rec'.confirmedRec = some r then none else rec'.confirmedRec
          unconfirmedRec := if rec'.unconfirmedRec = some r then none else rec'.unconfirmedRec }
  s.setId r (some { cl with
    clientRecord := none, confirmed := if makeStale then .stale else .expired })

def unhashClientId (cl : ClientId) : Option ClientStore :=
  if cl.confirmed = .confirmed ∨ cl.confirmed = .stale then
    (s.confirmedTable cl.clientid).map fun _ =>
      { s with confirmedTable := update s.confirmedTable cl.clientid none }
  else
    (s.unconfirmedTable cl.clientid).map fun _ =>
      { s with unconfirmedTable := update s.unconfirmedTable cl.clientid none }

def releaseOwners (r : Nat) : Option ClientStore :=
  (s.ids r).bind fun cl =>
    (s.setId r (some { cl with openowners := [], lockowners := 0, ownerStates := [] })).decClientIdRefs
      r cl.ownerRefs

def nfsClientIdExpire (r : Nat) (makeStale : Bool) : Option ClientStore :=
  (s.ids r).bind fun cl =>
    if cl.confirmed = .expired then some s
    else
      let s := s.detachClientId r cl makeStale
      (if makeStale then some s else s.unhashClientId cl).bind fun s =>
      (s.releaseOwners r).bind fun s =>
      (if 0 < cl.minorversion then s.nfs41SessionDels ((s.sessionsOf r).map Session.sessionId)
        else some s).bind fun s =>
      if makeStale then some s else s.decClientIdRef r

def nfsClientIdGet (table : BitVec 64 → Option Nat) (clientid : BitVec 64) :
    Option (ClientStore × Except ClientidStatus Nat) :=
  if (clientid >>> 32).setWidth 32 ≠ s.epochLow then some (s, .error .stale)
  else
    match table clientid with
    | none => some (s, .error .expired)
    | some r =>
      (s.incClientIdRef r).bind fun t => (t.ids r).bind fun cl =>
        if cl.confirmed = .stale then (t.decClientIdRef r).map (·, .error .stale)
        else some (t, .ok r)

end ClientStore

end EdgeComputing.Sal
