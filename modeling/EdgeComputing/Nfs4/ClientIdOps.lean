import EdgeComputing.Sal.ClientId

/-!
SETCLIENTID, SETCLIENTID_CONFIRM, EXCHANGE_ID and CREATE_SESSION. Each runs under the mutex of the
client record; the two that are given a client ID first look it up, the unconfirmed ones before the
confirmed ones. What is not modelled (the host name, the room for the response, the back channel)
answers as the request says.
-/

namespace EdgeComputing.Nfs4

open Sal

structure ClientConfig where
  leaseLifetime : Nat
  pnfsMds : Bool
  pnfsDs : Bool
  nbSlots : BitVec 32
  cityHash64WithSeed : List UInt8 → BitVec 64 → BitVec 64

def plainConfig : ClientConfig := ⟨60, false, false, 64, fun _ _ => 0⟩

structure RequestCtx where
  minorversion : Nat
  credential : ClientCred
  client : Option Nat
  now : Nat
deriving DecidableEq

def samePrincipal (cl : ClientId) (ctx : RequestCtx) : Bool :=
  nfsCompareClientcred cl.credential ctx.credential && ctx.client.isSome && cl.gshClient.isSome
    && ctx.client = cl.gshClient

variable (cfg : ClientConfig) (s : ClientStore) (ctx : RequestCtx)

/-- `get_client_record`, which insists on an owner string. -/
def getClientRecord (value : List UInt8) (pnfsFlags serverAddr : BitVec 32) : Option RecordKey :=
  if value = [] then none
  else some ⟨value, pnfsFlags,
    cfg.cityHash64WithSeed value (pnfsFlags.setWidth 64 <<< 32 ||| serverAddr.setWidth 64)⟩

def dropUnconfirmed (key : RecordKey) : Option ClientStore :=
  match (s.records key).unconfirmedRec with
  | none => some s
  | some r => s.removeUnconfirmedClientId r

structure SetclientidArgs where
  verifier : BitVec 64
  id : List UInt8
  cbProgram : BitVec 32
  rNetid : List UInt8
  rAddr : List UInt8
  callbackIdent : BitVec 32
deriving DecidableEq

inductive SetclientidRes
  | ok (clientid verifier : BitVec 64)
  | clidInuse (rNetid rAddr : List UInt8)
  | error (status : Nfsstat4)
deriving DecidableEq

def sockNameMax : Nat := 128

def setclientidInsert (key : RecordKey) (ctx : RequestCtx) (arg : SetclientidArgs)
    (clientid verifier : BitVec 64) : Option (ClientStore × SetclientidRes) :=
  (dropUnconfirmed s key).bind fun s =>
    let (unconf, s) := s.createClientId clientid key ctx.credential ctx.client 0 ctx.now
    if sockNameMax ≤ arg.rAddr.length then some (s, .error .inval)
    else
      let unconf := { unconf with
        cb := ⟨arg.rNetid, arg.rAddr, arg.cbProgram, arg.callbackIdent⟩
        incomingVerifier := arg.verifier
        verifier := verifier }
      match s.nfsClientIdInsert key unconf with
      | (s, .success) => some (s, .ok clientid verifier)
      | (s, rc) => some (s, .error (clientidErrorToNfsstatNoExpire rc))

def nfs4OpSetclientid (arg : SetclientidArgs) : Option (ClientStore × SetclientidRes) :=
  if 0 < ctx.minorversion then some (s, .error .notsupp)
  else
    (getClientRecord cfg arg.id 0 0).bind fun key =>
      match (s.records key).confirmedRec with
      | none =>
        let (clientid, s) := s.newClientid
        let (verifier, s) := s.newClientidVerifier
        setclientidInsert s key ctx arg clientid verifier
      | some r =>
        (s.incClientIdRef r).bind fun s => (s.ids r).bind fun conf =>
          if !samePrincipal conf ctx && conf.hasState then
            (s.decClientIdRef r).map (·, .clidInuse conf.cb.rNetid conf.cb.rAddr)
          else
            -- the callback of a confirmed client ID may be updated, otherwise it is replaced
            let (clientid, s) :=
              if samePrincipal conf ctx && arg.verifier = conf.incomingVerifier then
                (conf.clientid, s)
              else s.newClientid
            let (verifier, s) := s.newClientidVerifier
            (s.decClientIdRef r).bind fun s =>
              setclientidInsert s key ctx arg clientid verifier

inductive FoundId
  | unconf (r : Nat)
  | conf (r : Nat)
deriving DecidableEq

def FoundId.addr : FoundId → Nat
  | .unconf r => r
  | .conf r => r

def lookupClientId (clientid : BitVec 64) :
    Option (ClientStore × Except ClientidStatus (FoundId × RecordKey)) :=
  (s.nfsClientIdGet s.unconfirmedTable clientid).bind fun
    | (s, .ok r) =>
      (s.ids r).bind fun cl => cl.clientRecord.map fun key => (s, .ok (.unconf r, key))
    | (s, .error _) =>
      (s.nfsClientIdGet s.confirmedTable clientid).bind fun
        | (s, .ok r) =>
          (s.ids r).bind fun cl => cl.clientRecord.map fun key => (s, .ok (.conf r, key))
        | (s, .error rc) => some (s, .error rc)

structure SetclientidConfirmArgs where
  clientid : BitVec 64
  setclientidConfirm : BitVec 64
deriving DecidableEq

def confirmConfirmed (arg : SetclientidConfirmArgs) (r : Nat) : Option (ClientStore × Nfsstat4) :=
  (s.ids r).bind fun conf =>
    (s.decClientIdRef r).map (·,
      if !samePrincipal conf ctx then .clidInuse
      else if conf.verifier = arg.setclientidConfirm then .ok
      else .clidInuse)

def confirmNew (r : Nat) : Option (ClientStore × Nfsstat4) :=
  (s.nfsClientIdConfirm r).bind fun (s, rc) =>
    (s.decClientIdRef r).map (·, if rc = .success then .ok else clientidErrorToNfsstatNoExpire rc)

/-- The confirmed record `v` gets the callback of the unconfirmed record `r`, which goes. -/
def updateConfirmed (r v : Nat) (unconf conf : ClientId) : Option (ClientStore × Nfsstat4) :=
  let s := s.setId v (some { conf with
    cb := unconf.cb, lastRenew := ctx.now, verifier := unconf.verifier })
  (s.removeUnconfirmedClientId r).bind fun s =>
  (s.decClientIdRef r).bind fun s =>
  (s.decClientIdRef v).map (·, .ok)

def confirmUnconfirmed (arg : SetclientidConfirmArgs) (r : Nat) (key : RecordKey) :
    Option (ClientStore × Nfsstat4) :=
  (s.ids r).bind fun unconf =>
    if !samePrincipal unconf ctx then (s.decClientIdRef r).map (·, .clidInuse)
    else if unconf.confirmed = .confirmed ∧ unconf.verifier = arg.setclientidConfirm then
      -- another SETCLIENTID_CONFIRM came first
      (s.decClientIdRef r).map (·, .ok)
    else if unconf.confirmed ≠ .unconfirmed then (s.decClientIdRef r).map (·, .staleClientid)
    else
      match (s.records key).confirmedRec with
      | none => confirmNew s r
      | some v =>
        (s.incClientIdRef v).bind fun s => (s.ids v).bind fun conf =>
          if conf.clientid ≠ arg.clientid then
            (s.nfsClientIdExpire v false).bind fun s =>
            (s.decClientIdRef v).bind fun s => confirmNew s r
          else updateConfirmed s ctx r v unconf conf

def setclientidConfirmSection (arg : SetclientidConfirmArgs) :
    FoundId → RecordKey → Option (ClientStore × Nfsstat4)
  | .unconf r, key => confirmUnconfirmed s ctx arg r key
  | .conf r, _ => confirmConfirmed s ctx arg r

def nfs4OpSetclientidConfirm (arg : SetclientidConfirmArgs) : Option (ClientStore × Nfsstat4) :=
  if 0 < ctx.minorversion then some (s, .notsupp)
  else
    (lookupClientId s arg.clientid).bind fun
      | (s, .ok (found, key)) => setclientidConfirmSection s ctx arg found key
      | (s, .error rc) => some (s, clientidErrorToNfsstatNoExpire rc)

def exchgidSuppMovedRefer : BitVec 32 := 0x00000001
def exchgidSuppMovedMigr : BitVec 32 := 0x00000002
def exchgidBindPrincStateid : BitVec 32 := 0x00000100
def exchgidUseNonPnfs : BitVec 32 := 0x00010000
def exchgidUsePnfsMds : BitVec 32 := 0x00020000
def exchgidUsePnfsDs : BitVec 32 := 0x00040000
def exchgidMaskPnfs : BitVec 32 := 0x00070000
def exchgidUpdConfirmedRecA : BitVec 32 := 0x40000000
def exchgidConfirmedR : BitVec 32 := 0x80000000

def exchgidFlags : BitVec 32 :=
  exchgidSuppMovedRefer ||| exchgidSuppMovedMigr ||| exchgidBindPrincStateid ||| exchgidUseNonPnfs
    ||| exchgidUsePnfsMds ||| exchgidUsePnfsDs ||| exchgidUpdConfirmedRecA

structure ExchangeIdArgs where
  coVerifier : BitVec 64
  coOwnerid : List UInt8
  eiaFlags : BitVec 32
  serverAddr : BitVec 32
  hostnameKnown : Bool
  respRoom : Nfsstat4
deriving DecidableEq

inductive ExchangeIdRes
  | ok (clientid : BitVec 64) (sequenceid flags : BitVec 32)
  | error (status : Nfsstat4)
deriving DecidableEq

def exchangePnfsFlags (eiaFlags : BitVec 32) : BitVec 32 :=
  let pnfsFlags := eiaFlags &&& exchgidMaskPnfs
  if pnfsFlags = 0 then
    let mds := if cfg.pnfsMds then exchgidUsePnfsMds else 0
    let ds := if cfg.pnfsDs then exchgidUsePnfsDs else 0
    mds ||| ds ||| (if cfg.pnfsMds then 0 else exchgidUseNonPnfs)
  else
    let mds := eiaFlags &&& exchgidUsePnfsMds ≠ 0 && cfg.pnfsMds
    let ds := eiaFlags &&& exchgidUsePnfsDs ≠ 0 && cfg.pnfsDs
    pnfsFlags &&& ((if mds then exchgidUsePnfsMds else exchgidUseNonPnfs)
      ||| (if ds then exchgidUsePnfsDs else 0))

def exchangeIdReply (cl : ClientId) (key : RecordKey) (flags : BitVec 32) : ExchangeIdRes :=
  .ok cl.clientid cl.createSessionSequence (flags ||| key.pnfsFlags ||| exchgidSuppMovedRefer)

def exchangeIdInsert (key : RecordKey) (ctx : RequestCtx) (arg : ExchangeIdArgs) :
    Option (ClientStore × ExchangeIdRes) :=
  (dropUnconfirmed s key).bind fun s =>
    let (unconf, s) := s.createClientId 0 key ctx.credential ctx.client ctx.minorversion ctx.now
    let unconf := { unconf with
      createSessionSequence := 1
      createSessionSlot := ⟨.seqMisordered, none⟩
      incomingVerifier := arg.coVerifier }
    match s.nfsClientIdInsert key unconf with
    | (s, .success) => some (s, exchangeIdReply unconf key 0)
    | (s, rc) => some (s, .error (clientidErrorToNfsstatNoExpire rc))

/-- EXCHANGE_ID without EXCHGID4_FLAG_UPD_CONFIRMED_REC_A where a confirmed record exists and
a reference on it has been taken. -/
def exchangeIdNew (key : RecordKey) (ctx : RequestCtx) (arg : ExchangeIdArgs) (r : Nat)
    (conf : ClientId) : Option (ClientStore × ExchangeIdRes) :=
  if !nfsCompareClientcred conf.credential ctx.credential then
    if !conf.validLease cfg.leaseLifetime ctx.now || !conf.clientIdHasState then
      (s.nfsClientIdExpire r false).bind fun s =>
      (s.decClientIdRef r).bind fun s => exchangeIdInsert s key ctx arg
    else (s.decClientIdRef r).map (·, .error .clidInuse)
  else if arg.coVerifier = conf.incomingVerifier then
    (s.decClientIdRef r).map (·, exchangeIdReply conf key exchgidConfirmedR)
  else
    -- a restart of the client; the reference is not dropped
    exchangeIdInsert s key ctx arg

def exchangeIdUpdate (key : RecordKey) (ctx : RequestCtx) (arg : ExchangeIdArgs) (r : Nat)
    (conf : ClientId) : Option (ClientStore × ExchangeIdRes) :=
  (s.decClientIdRef r).map (·,
    if arg.coVerifier ≠ conf.incomingVerifier then .error .notSame
    else if !samePrincipal conf ctx then .error .perm
    else exchangeIdReply conf key exchgidConfirmedR)

def nfs4OpExchangeId (arg : ExchangeIdArgs) : Option (ClientStore × ExchangeIdRes) :=
  if ctx.minorversion = 0 then some (s, .error .inval)
  else if arg.eiaFlags &&& ~~~exchgidFlags ≠ 0 then some (s, .error .inval)
  else if !arg.hostnameKnown then some (s, .error .serverfault)
  else if arg.respRoom ≠ .ok then some (s, .error arg.respRoom)
  else
    (getClientRecord cfg arg.coOwnerid (exchangePnfsFlags cfg arg.eiaFlags) arg.serverAddr).bind
      fun key =>
        let update := arg.eiaFlags &&& exchgidUpdConfirmedRecA ≠ 0
        match (s.records key).confirmedRec with
        | none =>
          if update then some (s, .error .noent) else exchangeIdInsert s key ctx arg
        | some r =>
          (s.incClientIdRef r).bind fun s => (s.ids r).bind fun conf =>
            if update then exchangeIdUpdate s key ctx arg r conf
            else exchangeIdNew cfg s key ctx arg r conf

def createSessionFlagPersist : BitVec 32 := 1
def createSessionFlagConnBackChan : BitVec 32 := 2
def createSessionFlagConnRdma : BitVec 32 := 4

structure CreateSessionArgs where
  clientid : BitVec 64
  sequence : BitVec 32
  flags : BitVec 32
  foreChanAttrs : Sal.ChannelAttrs
  backChanAttrs : Sal.ChannelAttrs
  backChannelCreated : Bool
deriving DecidableEq

def nfs41MinRequestSize : BitVec 32 := 256
def nfs41MinResponseSize : BitVec 32 := 256
def nfs41MinOperations : BitVec 32 := 2

def ChannelAttrs.tooSmall (attrs : Sal.ChannelAttrs) : Bool :=
  attrs.maxrequestsize < nfs41MinRequestSize || attrs.maxresponsesize < nfs41MinResponseSize
    || attrs.maxoperations < nfs41MinOperations || attrs.maxrequests = 0

/-- The checks made on the found record before a session is made; `none` if they pass. -/
def createSessionCheck (arg : CreateSessionArgs) (cl : ClientId) : Option CreateSessionRes :=
  if arg.sequence + 1 = cl.createSessionSequence then some cl.createSessionSlot
  else if arg.sequence ≠ cl.createSessionSequence then some ⟨.seqMisordered, none⟩
  else if !nfsCompareClientcred cl.credential ctx.credential then some ⟨.clidInuse, none⟩
  else if arg.flags &&& ~~~(createSessionFlagPersist ||| createSessionFlagConnBackChan
      ||| createSessionFlagConnRdma) ≠ 0 then some ⟨.inval, none⟩
  else if ChannelAttrs.tooSmall arg.foreChanAttrs || ChannelAttrs.tooSmall arg.backChanAttrs then
    some ⟨.toosmall, none⟩
  else none

def createSessionOut (found : Nat) (session : Option Nat) (res : CreateSessionRes) :
    Option (ClientStore × CreateSessionRes) :=
  (s.decClientIdRef found).bind fun s =>
    match session with
    | none => some (s, res)
    | some addr => (s.decSessionRef addr).map (·, res)

def newSession (clientid : BitVec 64) (found : Nat) : Option (ClientStore × SessionId × Nat) :=
  (s.incClientIdRef found).map fun s =>
    let sessionId : SessionId := ⟨clientid, s.globalSequence + 1⟩
    ({ s with
        globalSequence := s.globalSequence + 1
        sessions := ⟨s.nextAddr, sessionId, found, 2, false⟩ :: s.sessions
        nextAddr := s.nextAddr + 1 }, sessionId, s.nextAddr)

def nfs41SessionSet (sessionId : SessionId) (addr : Nat) : Option ClientStore :=
  if s.sessions.any fun x => x.hashed && x.sessionId = sessionId then none
  else some (s.mapSession addr fun x => { x with hashed := true })

def createSessionReply (arg : CreateSessionArgs) (sessionId : SessionId) : CreateSessionRes where
  status := .ok
  resok := some {
    sessionid := sessionId
    sequence := arg.sequence
    flags := if arg.flags &&& createSessionFlagConnBackChan ≠ 0 && arg.backChannelCreated then
      createSessionFlagConnBackChan else 0
    foreChanAttrs := { arg.foreChanAttrs with
      maxrequests := if cfg.nbSlots < arg.foreChanAttrs.maxrequests then cfg.nbSlots
        else arg.foreChanAttrs.maxrequests }
    backChanAttrs := arg.backChanAttrs }

def createSessionFinish (conf found session : Nat) (res : CreateSessionRes) :
    Option (ClientStore × CreateSessionRes) :=
  (s.ids conf).bind fun cl =>
    createSessionOut (s.setId conf (some { cl with
      createSessionSequence := cl.createSessionSequence + 1
      lastRenew := ctx.now
      createSessionSlot := res })) found (some session) res

/-- The found unconfirmed record is confirmed; if that fails the session goes again. -/
def createSessionConfirm (r session : Nat) (sessionId : SessionId) (res : CreateSessionRes) :
    Option (ClientStore × CreateSessionRes) :=
  (s.nfsClientIdConfirm r).bind fun
    | (s, .success) => createSessionFinish s ctx r r session res
    | (s, rc) => (s.nfs41SessionDel sessionId).bind fun s =>
      createSessionOut s r (some session) ⟨clientidErrorToNfsstatNoExpire rc, none⟩

def createSessionRecords (arg : CreateSessionArgs) (key : RecordKey) (session : Nat)
    (sessionId : SessionId) (res : CreateSessionRes) :
    FoundId → Option (ClientStore × CreateSessionRes)
  | .conf v =>
    (s.ids v).bind fun conf =>
      -- the record was found under its client ID
      if conf.clientid ≠ arg.clientid then none
      else createSessionFinish s ctx v v session res
  | .unconf r =>
    match (s.records key).confirmedRec with
    | none => createSessionConfirm s ctx r session sessionId res
    | some v =>
      (s.incClientIdRef v).bind fun s => (s.ids v).bind fun conf =>
        if conf.clientid ≠ arg.clientid then
          (s.nfsClientIdExpire v false).bind fun s =>
          (s.decClientIdRef v).bind fun s => createSessionConfirm s ctx r session sessionId res
        else
          (s.removeUnconfirmedClientId r).bind fun s =>
          (s.decClientIdRef r).bind fun s => createSessionFinish s ctx v v session res

def createSessionSection (arg : CreateSessionArgs) (found : FoundId) (key : RecordKey) :
    Option (ClientStore × CreateSessionRes) :=
  (s.ids found.addr).bind fun cl =>
    match createSessionCheck ctx arg cl with
    | some res => createSessionOut s found.addr none res
    | none =>
      (newSession s arg.clientid found.addr).bind fun (s, sessionId, addr) =>
        match nfs41SessionSet s sessionId addr with
        | none =>
          (s.decSessionRef addr).bind fun s =>
            createSessionOut s found.addr (some addr) ⟨.serverfault, none⟩
        | some s =>
          createSessionRecords s ctx arg key addr sessionId (createSessionReply cfg arg sessionId)
            found

def nfs4OpCreateSession (arg : CreateSessionArgs) : Option (ClientStore × CreateSessionRes) :=
  if ctx.minorversion = 0 then some (s, ⟨.inval, none⟩)
  else
    (lookupClientId s arg.clientid).bind fun
      | (s, .ok (found, key)) => createSessionSection cfg s ctx arg found key
      | (s, .error rc) =>
        some (s, ⟨clientidErrorToNfsstatNoExpire (if rc = .expired then .stale else rc), none⟩)

inductive ClientRequest
  | setclientid (arg : SetclientidArgs)
  | setclientidConfirm (arg : SetclientidConfirmArgs)
  | exchangeId (arg : ExchangeIdArgs)
  | createSession (arg : CreateSessionArgs)
deriving DecidableEq

inductive ClientRes
  | setclientid (res : SetclientidRes)
  | setclientidConfirm (status : Nfsstat4)
  | exchangeId (res : ExchangeIdRes)
  | createSession (res : CreateSessionRes)
deriving DecidableEq

def clientOp : ClientRequest → Option (ClientStore × ClientRes)
  | .setclientid arg => (nfs4OpSetclientid cfg s ctx arg).map fun r => (r.1, .setclientid r.2)
  | .setclientidConfirm arg =>
    (nfs4OpSetclientidConfirm s ctx arg).map fun r => (r.1, .setclientidConfirm r.2)
  | .exchangeId arg => (nfs4OpExchangeId cfg s ctx arg).map fun r => (r.1, .exchangeId r.2)
  | .createSession arg => (nfs4OpCreateSession cfg s ctx arg).map fun r => (r.1, .createSession r.2)

end EdgeComputing.Nfs4
