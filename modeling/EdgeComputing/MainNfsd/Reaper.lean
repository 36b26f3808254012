import EdgeComputing.Library.Machine
import EdgeComputing.Sal.ClientIdEffects
import EdgeComputing.Nfs4.ClientIdSessions

/-!
The reaper and the lease. `reap_hash_table` tests the lease of a client ID under `cid_mutex`, drops
the mutex, and expires the client ID under the mutex of the client record without another test. The
sections of CREATE_SESSION and SETCLIENTID_CONFIRM run under the latter, some time after they have
looked up the client ID.
-/

namespace EdgeComputing.MainNfsd

open Library Nfs4 Sal Sal.ClientStore

inductive Waiting
  | setclientidConfirm (ctx : RequestCtx) (arg : SetclientidConfirmArgs) (found : FoundId)
      (key : RecordKey)
  | createSession (ctx : RequestCtx) (arg : CreateSessionArgs) (found : FoundId) (key : RecordKey)
deriving DecidableEq

/-- The client IDs, the time, the client ID that the reaper is about to expire, and the requests
that wait. -/
structure ReaperState where
  store : ClientStore
  clock : Nat
  reaper : Option Nat
  waiting : List Waiting

inductive ReaperAction
  | tick
  | test (r : Nat)
  | expire
  | reserveLease (r : Nat)
  | updateLease (r : Nat)
  | setclientidConfirm (ctx : RequestCtx) (arg : SetclientidConfirmArgs)
  | createSession (ctx : RequestCtx) (arg : CreateSessionArgs)
  | enter (i : Nat)
deriving DecidableEq

def reserveLease (leaseLifetime now : Nat) (s : ClientStore) (r : Nat) : Option ClientStore :=
  (s.ids r).map fun cl =>
    if cl.validLease leaseLifetime now then
      s.setId r (some { cl with leaseReservations := cl.leaseReservations + 1 })
    else s

def updateLease (now : Nat) (s : ClientStore) (r : Nat) : Option ClientStore :=
  (s.ids r).bind fun cl =>
    if cl.leaseReservations = 0 then none
    else
      let cl := { cl with leaseReservations := cl.leaseReservations - 1 }
      some (s.setId r (some (if cl.leaseReservations = 0 then { cl with lastRenew := now } else cl)))

def hashed (s : ClientStore) (r : Nat) (cl : ClientId) : Bool :=
  s.confirmedTable cl.clientid = some r || s.unconfirmedTable cl.clientid = some r

def runWaiting (cfg : ClientConfig) (s : ClientStore) (now : Nat) : Waiting → Option ClientStore
  | .setclientidConfirm ctx arg found key =>
    (setclientidConfirmSection s { ctx with now := now } arg found key).map Prod.fst
  | .createSession ctx arg found key =>
    (createSessionSection cfg s { ctx with now := now } arg found key).map Prod.fst

/-- The look-up of a client ID; the request waits if it is found. -/
def lookupAndWait (σ : ReaperState) (clientid : BitVec 64) (w : FoundId → RecordKey → Waiting) :
    Option ReaperState :=
  (lookupClientId σ.store clientid).map fun
    | (s, .ok (found, key)) => { σ with store := s, waiting := w found key :: σ.waiting }
    | (s, .error _) => { σ with store := s }

def reaperStep (cfg : ClientConfig) (σ : ReaperState) : ReaperAction → Option ReaperState
  | .tick => some { σ with clock := σ.clock + 1 }
  | .test r =>
    (σ.store.ids r).bind fun cl =>
      if σ.reaper = none ∧ hashed σ.store r cl ∧ !cl.validLease cfg.leaseLifetime σ.clock then
        (σ.store.incClientIdRef r).map fun s => { σ with store := s, reaper := some r }
      else none
  | .expire =>
    σ.reaper.bind fun r => (σ.store.nfsClientIdExpire r false).bind fun s =>
      (s.decClientIdRef r).map fun s => { σ with store := s, reaper := none }
  | .reserveLease r =>
    (reserveLease cfg.leaseLifetime σ.clock σ.store r).map fun s => { σ with store := s }
  | .updateLease r => (updateLease σ.clock σ.store r).map fun s => { σ with store := s }
  | .setclientidConfirm ctx arg =>
    if 0 < ctx.minorversion then none
    else lookupAndWait σ arg.clientid (.setclientidConfirm ctx arg)
  | .createSession ctx arg =>
    if ctx.minorversion = 0 then none
    else lookupAndWait σ arg.clientid (.createSession ctx arg)
  | .enter i =>
    σ.waiting[i]?.bind fun w => (runWaiting cfg σ.store σ.clock w).map fun s =>
      { σ with store := s, waiting := σ.waiting.eraseIdx i }

def reaperMachine (cfg : ClientConfig) : Machine ReaperState ReaperAction where
  init σ := (∃ held, σ.store.Inv held) ∧ σ.reaper = none ∧ σ.waiting = []
  step := reaperStep cfg

/-- The client ID that the reaper is about to mark expired has no reservation, and its lease has
run out. -/
def ExpiresIdle (cfg : ClientConfig) (σ : ReaperState) : Prop :=
  ∀ r cl, σ.reaper = some r → σ.store.ids r = some cl → cl.confirmed ≠ .expired →
    cl.leaseReservations = 0 ∧ cl.lastRenew + cfg.leaseLifetime ≤ σ.clock

/-- The confirmed record `r` of the client record has the client ID of the request and survives
the removal of the unconfirmed record `r'`. -/
def UpdatesConfirmed (s : ClientStore) (clientid : BitVec 64) (key : RecordKey) (r' r : Nat) : Prop :=
  ∃ conf, (s.records key).confirmedRec = some r ∧ s.ids r = some conf ∧
    conf.confirmed ≠ .expired ∧ conf.clientid = clientid ∧
    (r' ≠ r ∨ s.unconfirmedTable clientid = none)

def ConfirmsNew (s : ClientStore) (clientid : BitVec 64) (key : RecordKey) : Prop :=
  (∀ v conf, (s.records key).confirmedRec = some v → s.ids v = some conf →
    conf.clientid ≠ clientid) ∧
  s.unconfirmedTable clientid ≠ none ∧ s.confirmedTable clientid = none

def SessionRenews (s : ClientStore) (clientid : BitVec 64) (key : RecordKey) (r : Nat) :
    FoundId → Prop
  | .conf v => v = r ∧ s.live r ≠ none
  | .unconf r' => UpdatesConfirmed s clientid key r' r ∨ r' = r ∧ ConfirmsNew s clientid key

def sessionIdUsed (s : ClientStore) (clientid : BitVec 64) : Bool :=
  s.sessions.any fun y => y.hashed && decide (y.sessionId = ⟨clientid, s.globalSequence + 1⟩)

def Renews (s : ClientStore) (r : Nat) : Waiting → Prop
  | .setclientidConfirm _ _ (.conf _) _ => False
  | .setclientidConfirm ctx arg (.unconf r') key =>
    ∃ unconf, s.ids r' = some unconf ∧ samePrincipal unconf ctx = true ∧
      unconf.confirmed = .unconfirmed ∧ UpdatesConfirmed s arg.clientid key r' r
  | .createSession ctx arg found key =>
    ∃ cl, s.ids found.addr = some cl ∧ createSessionCheck ctx arg cl = none ∧
      sessionIdUsed s arg.clientid = false ∧ SessionRenews s arg.clientid key r found

/-- The step does not renew the lease of the client ID that the reaper is about to expire. With
a lease of no seconds it may, as long as the lease is not reserved. -/
def SparesTarget (cfg : ClientConfig) (σ : ReaperState) : ReaperAction → Prop
  | .test r => cfg.leaseLifetime ≠ 0 ∨
      ∀ cl, σ.store.ids r = some cl → cl.confirmed ≠ .expired → cl.leaseReservations = 0
  | .enter i => ∀ r w cl, σ.reaper = some r → σ.waiting[i]? = some w → σ.store.ids r = some cl →
      Renews σ.store r w → cfg.leaseLifetime = 0 ∧ cl.leaseReservations = 0
  | _ => True

end EdgeComputing.MainNfsd
