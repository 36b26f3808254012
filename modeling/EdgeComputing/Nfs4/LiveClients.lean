import EdgeComputing.Library.Machine
import EdgeComputing.Nfs4.ClientIdSessions

/-!
What the requests of other principals do to a client with a lease. An EXCHANGE_ID expires it if it
has open owners or states of `cid_owner` but not both, and a SETCLIENTID_CONFIRM or CREATE_SESSION
of an unconfirmed client ID of its record without looking at its state.
-/

namespace EdgeComputing.Nfs4

open Option Function Library Sal Sal.ClientStore

/-- A request, or what a client does under its own lease: its opens, locks, delegations and
layouts come and go, and its lease is reserved and renewed. -/
inductive ClientAction
  | request (ctx : RequestCtx) (req : ClientRequest)
  | activity (r : Nat) (openowners : List OpenOwner) (lockowners : Nat)
      (ownerStates : List ClientState) (lastRenew leaseReservations : Nat)
deriving DecidableEq

def setOwners (s : ClientStore) (r : Nat) (openowners : List OpenOwner) (lockowners : Nat)
    (ownerStates : List ClientState) (lastRenew leaseReservations : Nat) : Option ClientStore :=
  (s.ids r).bind fun cl =>
    if cl.confirmed = .expired then none
    else
      let cl' := { cl with
        openowners := openowners
        lockowners := lockowners
        ownerStates := ownerStates
        lastRenew := lastRenew
        leaseReservations := leaseReservations }
      some (s.setId r (some { cl' with refcount := cl.refcount - cl.ownerRefs + cl'.ownerRefs }))

def clientStep (cfg : ClientConfig) (s : ClientStore) : ClientAction → Option ClientStore
  | .request ctx req => (clientOp cfg s ctx req).map Prod.fst
  | .activity r openowners lockowners ownerStates lastRenew leaseReservations =>
    setOwners s r openowners lockowners ownerStates lastRenew leaseReservations

def clientMachine (cfg : ClientConfig) : Machine ClientStore ClientAction where
  init s := ∃ epochLow, s = empty epochLow
  step := clientStep cfg

/-- The principal of the request is not that of the client. An NFSv4.0 principal has a
credential and an address, one of NFSv4.1 a credential. -/
def OtherPrincipal (cl : ClientId) (ctx : RequestCtx) : ClientRequest → Prop
  | .setclientid _ | .setclientidConfirm _ => samePrincipal cl ctx = false
  | .exchangeId _ | .createSession _ =>
    nfsCompareClientcred cl.credential ctx.credential = false

def Foreign (cfg : ClientConfig) (v : Nat) (s : ClientStore) : ClientAction → Prop
  | .request ctx req => ∃ cl, s.ids v = some cl ∧ OtherPrincipal cl ctx req ∧
      cl.validLease cfg.leaseLifetime ctx.now = true
  | .activity .. => False

/-- The record `v` is the confirmed one of the client record of `unconf`, and has another client
ID. -/
def Displaced (s : ClientStore) (v : Nat) (unconf : ClientId) (clientid : BitVec 64) : Prop :=
  ∃ key cl, unconf.clientRecord = some key ∧ (s.records key).confirmedRec = some v ∧
    s.live v = some cl ∧ cl.clientid ≠ clientid

def Harms (cfg : ClientConfig) (s : ClientStore) (v : Nat) : ClientAction → Prop
  | .request _ (.setclientid _) => False
  | .request ctx (.setclientidConfirm arg) =>
    ∃ r unconf, Confirms s ctx arg r unconf ∧ Displaced s v unconf arg.clientid
  | .request ctx (.exchangeId arg) => ∃ key conf, Replaces cfg s ctx arg key v conf
  | .request ctx (.createSession arg) =>
    ∃ r unconf, Creates s ctx arg (.unconf r) unconf ∧ Displaced s v unconf arg.clientid
  | .activity .. => False

structure Kept (cl cl' : ClientId) : Prop where
  confirmed : cl'.confirmed = .confirmed
  openowners : cl'.openowners = cl.openowners
  lockowners : cl'.lockowners = cl.lockowners
  ownerStates : cl'.ownerStates = cl.ownerStates

def KeptAt (cl : ClientId) (t : ClientStore) (v : Nat) : Prop :=
  ∃ cl', t.ids v = some cl' ∧ Kept cl cl'

theorem Kept.refl {cl : ClientId} (h : cl.confirmed = .confirmed) : Kept cl cl :=
  ⟨h, rfl, rfl, rfl⟩

theorem Kept.trans {cl cl' cl'' : ClientId} (h : Kept cl cl') (h' : Kept cl' cl'') : Kept cl cl'' :=
  ⟨h'.confirmed, h'.openowners.trans h.openowners, h'.lockowners.trans h.lockowners,
    h'.ownerStates.trans h.ownerStates⟩

variable {cfg : ClientConfig} {s t : ClientStore} {held : Nat → Nat} {ctx : RequestCtx} {v : Nat}
  {cl : ClientId} {live' : Nat → Option ClientId} {r : Nat}

theorem inv_setOwners {openowners : List OpenOwner} {lockowners : Nat}
    {ownerStates : List ClientState} {lastRenew leaseReservations : Nat} (hinv : s.Inv held)
    (h : setOwners s r openowners lockowners ownerStates lastRenew leaseReservations = some t) :
    t.Inv held := by
  obtain ⟨cl, hids, h⟩ := bind_eq_some_iff.1 h
  split_ifs at h with hexp
  cases h
  have hcount := hinv.refs.count r cl hids
  have htable : 0 < tableRef cl := by simp [tableRef, hexp]
  refine hinv.changeId hids ?_ rfl rfl rfl rfl ?_ ?_ (fun _ _ => rfl)
  · exact hinv.wf.touch (live_of_ids hids hexp)
      ((live_setId ..).trans (congrArg _ (liveOf_some hexp))) rfl rfl rfl rfl rfl rfl
  · simp only [tableRef, ClientId.ownerRefs] at hcount ⊢
    omega
  · simp only
    omega

theorem exists_inv_of_reachable (h : (clientMachine cfg).Reachable s) : ∃ held, s.Inv held := by
  refine Machine.Reachable.invariant (P := fun s => ∃ held, s.Inv held) ?_ ?_ h
  · rintro s ⟨epochLow, rfl⟩
    exact ⟨_, inv_empty epochLow⟩
  · rintro s a t ⟨held, hinv⟩ hstep
    cases a with
    | activity => exact ⟨held, inv_setOwners hinv hstep⟩
    | request ctx req =>
      obtain ⟨⟨t', res⟩, h, rfl⟩ := map_eq_some_iff.1 hstep
      exact clientOp_inv hinv h

def HarmedOrKept (harms : Prop) (cl : ClientId) (v : Nat) (live' : Nat → Option ClientId) : Prop :=
  harms ∧ live' v = none ∨ ¬ harms ∧ ∃ cl', live' v = some cl' ∧ Kept cl cl'

section Victim

variable (hinv : s.Inv held) (hlive : s.live v = some cl) (hconf : cl.confirmed = .confirmed)

include hinv hlive

theorem lt_nextAddr_of_live : v < s.nextAddr := by
  by_contra hge
  have hfresh := hinv.fresh v (Nat.le_of_not_lt hge)
  rw [live, hfresh] at hlive
  cases hlive

variable {key : RecordKey}

theorem AddsNew.victim {base : Nat → Option ClientId} {new? : Option ClientId}
    (h : AddsNew s.nextAddr ctx key base new? live') : live' v = base v := by
  have hlt := lt_nextAddr_of_live hinv hlive
  cases h with
  | failed => rfl
  | added hle _ => exact update_of_ne (by omega) ..

include hconf

theorem withoutUnconfirmed_victim (key : RecordKey) : withoutUnconfirmed s key v = some cl := by
  unfold withoutUnconfirmed
  cases hrec : (s.records key).unconfirmedRec with
  | none => exact hlive
  | some r =>
    obtain ⟨unconf, hr, hun, _⟩ := (hinv.wf.unconfirmedRec key r).1 hrec
    dsimp only
    rw [update_of_ne (ne_of_unconfirmed hr hun hlive hconf).symm, hlive]

theorem setclientid_victim {arg : SetclientidArgs} {res : SetclientidRes}
    (h : nfs4OpSetclientid cfg s ctx arg = some (t, res)) :
    HarmedOrKept (Harms cfg s v (.request ctx (.setclientid arg))) cl v t.live := by
  refine .inr ⟨id, cl, ?_, .refl hconf⟩
  rcases (setclientid_cases hinv h).2 with ⟨hsame, _⟩ | ⟨key, new?, _, hadds, _⟩
  · rw [hsame, hlive]
  · rw [hadds.victim hinv hlive]
    exact withoutUnconfirmed_victim hinv hlive hconf key

omit hinv in
theorem displaced_victim {unconf : ClientId} {clientid : BitVec 64} {harms : Prop}
    (x : Option ClientId) (hr : s.live r = some unconf) (hun : unconf.confirmed = .unconfirmed)
    (hkey : unconf.clientRecord = some key)
    (hother : ∀ w conf, (s.records key).confirmedRec = some w → s.live w = some conf →
      conf.clientid ≠ clientid)
    (hharms : harms ↔ Displaced s v unconf clientid) :
    HarmedOrKept harms cl v (update (withoutConfirmed s key) r x) := by
  have hne := (ne_of_unconfirmed hr hun hlive hconf).symm
  unfold HarmedOrKept
  rw [hharms, update_of_ne hne, withoutConfirmed]
  by_cases hrec : (s.records key).confirmedRec = some v
  · refine .inl ⟨⟨key, cl, hkey, hrec, hlive, hother v cl hrec hlive⟩, ?_⟩
    rw [hrec]
    exact update_self ..
  · refine .inr ⟨?_, cl, ?_, .refl hconf⟩
    · rintro ⟨key', _, hkey', hrec', _⟩
      rw [hkey] at hkey'
      cases hkey'
      exact hrec hrec'
    · cases hrec' : (s.records key).confirmedRec with
      | none => exact hlive
      | some w =>
        rw [hrec'] at hrec
        dsimp only
        rw [update_of_ne fun h => hrec (congrArg some h.symm), hlive]

omit hinv hlive hconf in
theorem not_displaced {unconf conf : ClientId} {clientid : BitVec 64} {w : Nat}
    (hkey : unconf.clientRecord = some key) (hrec : (s.records key).confirmedRec = some w)
    (hw : s.live w = some conf) (hid : conf.clientid = clientid) :
    ¬ Displaced s v unconf clientid := by
  rintro ⟨key', cl', hkey', hrec', hlive', hdiff⟩
  obtain rfl := some.inj (hkey.symm.trans hkey')
  obtain rfl := some.inj (hrec.symm.trans hrec')
  obtain rfl := some.inj (hw.symm.trans hlive')
  exact hdiff hid

omit hinv in
theorem updated_victim {base : Nat → Option ClientId} {conf conf' : ClientId} {w : Nat}
    (hbase : base v = some cl) (hw : s.live w = some conf)
    (hkept : conf.confirmed = .confirmed → Kept conf conf') :
    ∃ cl', update base w (some conf') v = some cl' ∧ Kept cl cl' := by
  by_cases hvw : v = w
  · subst hvw
    obtain rfl := some.inj (hlive.symm.trans hw)
    exact ⟨conf', update_self .., hkept hconf⟩
  · exact ⟨cl, by rw [update_of_ne hvw, hbase], .refl hconf⟩

theorem setclientidConfirm_victim {arg : SetclientidConfirmArgs} {status : Nfsstat4}
    (h : nfs4OpSetclientidConfirm s ctx arg = some (t, status)) :
    HarmedOrKept (Harms cfg s v (.request ctx (.setclientidConfirm arg))) cl v t.live := by
  have houtcome := (setclientidConfirm_cases hinv h).2
  generalize t.live = live' at houtcome
  -- the unconfirmed record of the request
  have hunconf : ∀ {r unconf}, Confirms s ctx arg r unconf → unconf.confirmed = .unconfirmed := by
    intro r unconf hconfirms
    obtain ⟨cl', hlive', hstate, _⟩ := foundAt_spec hinv.wf hconfirms.found
    rw [show FoundId.addr (.unconf r) = r from rfl, hconfirms.live] at hlive'
    cases hlive'
    exact hstate
  have hharms : ∀ {r unconf}, Confirms s ctx arg r unconf →
      (Harms cfg s v (.request ctx (.setclientidConfirm arg)) ↔
        Displaced s v unconf arg.clientid) := by
    intro r unconf hconfirms
    constructor
    · rintro ⟨r', unconf', hconfirms', hdisplaced⟩
      obtain ⟨rfl, rfl⟩ := hconfirms.unique hconfirms'
      exact hdisplaced
    · exact fun hdisplaced => ⟨r, unconf, hconfirms, hdisplaced⟩
  cases houtcome with
  | refused hnone =>
    exact .inr ⟨fun ⟨r, unconf, h, _⟩ => hnone r unconf h, cl, hlive, .refl hconf⟩
  | @updated r w unconf conf key hconfirms hkey hrec hconf' hid =>
    have hne := (ne_of_unconfirmed hconfirms.live (hunconf hconfirms) hlive hconf).symm
    refine .inr ⟨?_, ?_⟩
    · rw [hharms hconfirms]
      exact not_displaced hkey hrec hconf' hid
    · rw [update_of_ne hne]
      exact updated_victim hlive hconf hlive hconf' fun h => ⟨h, rfl, rfl, rfl⟩
  | confirmed hconfirms hkey hother _ | failed hconfirms hkey hother _ =>
    exact displaced_victim hlive hconf _ hconfirms.live (hunconf hconfirms) hkey hother
      (hharms hconfirms)

theorem exchangeId_victim {arg : ExchangeIdArgs} {res : ExchangeIdRes}
    (h : nfs4OpExchangeId cfg s ctx arg = some (t, res)) :
    HarmedOrKept (Harms cfg s v (.request ctx (.exchangeId arg))) cl v t.live := by
  obtain ⟨held', _, houtcome⟩ := exchangeId_cases hinv h
  generalize t.live = live' at houtcome
  have hbase := withoutUnconfirmed_victim hinv hlive hconf
  cases houtcome with
  | kept hnot _ => exact .inr ⟨fun ⟨key, conf, hr⟩ => hnot key v conf hr, cl, hlive, .refl hconf⟩
  | @added key _ _ hex hnone hadds =>
    refine .inr ⟨?_, cl, (hadds.victim hinv hlive).trans (hbase key), .refl hconf⟩
    rintro ⟨key', conf, hr⟩
    obtain rfl := some.inj (hex.record.symm.trans hr.exchanges.record)
    rw [hr.confirmedRec] at hnone
    cases hnone
  | @replaced key w conf _ _ hr hadds =>
    have hv := hadds.victim hinv hlive
    by_cases hw : v = w
    · subst hw
      exact .inl ⟨⟨key, conf, hr⟩, by rw [hv, update_self]⟩
    · refine .inr ⟨?_, cl, by rw [hv, update_of_ne hw, hbase key], .refl hconf⟩
      rintro ⟨key', conf', hr'⟩
      obtain rfl := some.inj (hr.exchanges.record.symm.trans hr'.exchanges.record)
      exact hw (some.inj (hr'.confirmedRec.symm.trans hr.confirmedRec))
  | @restarted key w conf _ _ hr hadds =>
    refine .inr ⟨?_, cl, (hadds.victim hinv hlive).trans (hbase key), .refl hconf⟩
    rintro ⟨key', conf', hr'⟩
    obtain rfl := some.inj (hr.exchanges.record.symm.trans hr'.exchanges.record)
    obtain rfl := some.inj (hr.confirmedRec.symm.trans hr'.confirmedRec)
    obtain rfl := some.inj (hr.live.symm.trans hr'.live)
    have hcred := hr.credential
    rw [hr'.credential] at hcred
    cases hcred

theorem createSession_victim {arg : CreateSessionArgs} {res : CreateSessionRes}
    (h : nfs4OpCreateSession cfg s ctx arg = some (t, res)) :
    HarmedOrKept (Harms cfg s v (.request ctx (.createSession arg))) cl v t.live := by
  have houtcome := (createSession_cases hinv h).2
  generalize t.live = live' at houtcome
  cases houtcome with
  | kept hnot =>
    exact .inr ⟨fun ⟨r, unconf, h, _⟩ => hnot _ _ h, cl, hlive, .refl hconf⟩
  | @made found unconf key _ hcreates hkey hrecords =>
    obtain ⟨cl', hlive', hstate, hid⟩ := foundAt_spec hinv.wf hcreates.lookup
    rw [hcreates.live] at hlive'
    cases hlive'
    have hsame : ∀ {r unconf'}, Creates s ctx arg (.unconf r) unconf' →
        found = .unconf r ∧ unconf' = unconf := by
      intro r unconf' h
      obtain rfl := some.inj (hcreates.lookup.symm.trans h.lookup)
      exact ⟨rfl, some.inj (h.live.symm.trans hcreates.live)⟩
    have hharms : ∀ {r}, found = .unconf r →
        (Harms cfg s v (.request ctx (.createSession arg)) ↔
          Displaced s v unconf unconf.clientid) := by
      rintro r rfl
      rw [hid]
      constructor
      · rintro ⟨r', unconf', h', hdisplaced⟩
        obtain ⟨_, rfl⟩ := hsame h'
        exact hdisplaced
      · exact fun hdisplaced => ⟨r, unconf, hcreates, hdisplaced⟩
    have hfound := hcreates.live
    cases hrecords with
    | @renewed w =>
      refine .inr ⟨?_, ?_⟩
      · rintro ⟨r, unconf', h', _⟩
        cases (hsame h').1
      · exact updated_victim hlive hconf hlive hfound fun h => ⟨h, rfl, rfl, rfl⟩
    | @updated r w conf hrec hconf' hid' =>
      have hne : v ≠ r := (ne_of_unconfirmed hfound hstate hlive hconf).symm
      refine .inr ⟨?_, ?_⟩
      · rw [hharms rfl]
        exact not_displaced hkey hrec hconf' hid'
      · exact updated_victim hlive hconf ((update_of_ne hne ..).trans hlive) hconf'
          fun h => ⟨h, rfl, rfl, rfl⟩
    | confirmed hother _ | failed hother _ =>
      exact displaced_victim hlive hconf _ hfound hstate hkey hother (hharms rfl)

end Victim

theorem clientOp_victim {req : ClientRequest} {res : ClientRes} (hinv : s.Inv held)
    (hlive : s.live v = some cl) (hconf : cl.confirmed = .confirmed)
    (h : clientOp cfg s ctx req = some (t, res)) :
    HarmedOrKept (Harms cfg s v (.request ctx req)) cl v t.live :=
  clientOp_cases h (fun _ _ h => setclientid_victim hinv hlive hconf h)
    (fun _ _ h => setclientidConfirm_victim hinv hlive hconf h)
    (fun _ _ h => exchangeId_victim hinv hlive hconf h)
    (fun _ _ h => createSession_victim hinv hlive hconf h)

theorem foreign_step_iff {a : ClientAction} (hinv : s.Inv held) (hids : s.ids v = some cl)
    (hconf : cl.confirmed = .confirmed) (hforeign : Foreign cfg v s a)
    (hstep : (clientMachine cfg).step s a = some t) : ¬ Harms cfg s v a ↔ KeptAt cl t v := by
  cases a with
  | activity => exact hforeign.elim
  | request ctx req =>
    obtain ⟨⟨t', res⟩, h, rfl⟩ := map_eq_some_iff.1 hstep
    have hlive := live_of_ids hids (by simp [hconf])
    rcases clientOp_victim hinv hlive hconf h with ⟨hharms, hnone⟩ | ⟨hnot, cl', hlive', hkept⟩
    · refine ⟨fun h => absurd hharms h, ?_⟩
      rintro ⟨cl', hids', hkept⟩
      rw [live_of_ids hids' (by simp [hkept.confirmed])] at hnone
      cases hnone
    · obtain ⟨cl0, hids', _, rfl⟩ := exists_ids_of_live hlive'
      exact ⟨fun _ => ⟨cl0, hids', hkept.confirmed, hkept.openowners, hkept.lockowners,
        hkept.ownerStates⟩, fun _ => hnot⟩

/-- For every confirmed client ID in every reachable state: along every run of requests of
other principals, under a valid lease, that do not harm the client, it stays confirmed with
all its state; and of such requests exactly those that do not harm it keep it. -/
theorem foreign_requests_keep_client_iff (cfg : ClientConfig) (s : ClientStore)
    (hs : (clientMachine cfg).Reachable s) (v : Nat) (cl : ClientId) (hids : s.ids v = some cl)
    (hconf : cl.confirmed = .confirmed) :
    (∀ t, (clientMachine cfg).RunBy (fun s a => Foreign cfg v s a ∧ ¬ Harms cfg s v a) s t →
      KeptAt cl t v) ∧
    ∀ a t, Foreign cfg v s a → (clientMachine cfg).step s a = some t →
      (¬ Harms cfg s v a ↔ KeptAt cl t v) := by
  constructor
  · intro t hrun
    have hkept : (clientMachine cfg).Reachable t ∧ KeptAt cl t v := by
      induction hrun with
      | refl => exact ⟨hs, cl, hids, .refl hconf⟩
      | @step t u a _ hguard hstep ih =>
        obtain ⟨hreach, cl', hids', hkept⟩ := ih
        obtain ⟨held, hinv⟩ := exists_inv_of_reachable hreach
        obtain ⟨cl'', hids'', hkept'⟩ :=
          (foreign_step_iff hinv hids' hkept.confirmed hguard.1 hstep).1 hguard.2
        exact ⟨.step hreach trivial hstep, cl'', hids'', hkept.trans hkept'⟩
    exact hkept.2
  · intro a t hforeign hstep
    obtain ⟨held, hinv⟩ := exists_inv_of_reachable hs
    exact foreign_step_iff hinv hids hconf hforeign hstep

def uidCtx (uid : BitVec 32) (now : Nat) : RequestCtx := ⟨1, .unix uid uid, some 7, now⟩

def ownerExchange (verifier : BitVec 64) : ClientRequest :=
  .exchangeId ⟨verifier, [65], 0, 0, true, .ok⟩

def busyClient (ownerStates : List ClientState) : List ClientAction :=
  [.request (uidCtx 1000 10) (ownerExchange 5),
   .request (uidCtx 1000 11) (.createSession ⟨0x300000001, 1, 0, ⟨0, 4096, 4096, 4096, 16, 32⟩,
     ⟨0, 4096, 4096, 4096, 16, 32⟩, false⟩),
   .activity 0 [.inUse [⟨1, []⟩]] 0 ownerStates 20 0]

/-- What is looked at of the client: whether it is confirmed, has state and a lease, and state
as EXCHANGE_ID sees it. -/
def busyView (cl : ClientId) : ConfirmState × ClientCred × Bool × Bool × Bool :=
  (cl.confirmed, cl.credential, cl.hasState, cl.validLease 60 21, cl.clientIdHasState)

theorem exists_busyClient (ownerStates : List ClientState) (hasState : Bool) (gone : Bool)
    (hrun : ((clientMachine plainConfig).runFrom (empty 3) (busyClient ownerStates)).bind (fun s =>
      (s.ids 0).map busyView) = some (.confirmed, .unix 1000 1000, true, true, hasState))
    (hstep : ((clientMachine plainConfig).runFrom (empty 3) (busyClient ownerStates)).bind (fun s =>
      ((clientMachine plainConfig).step s (.request (uidCtx 2000 21) (ownerExchange 6))).map
        fun t => (t.ids 0).isNone) = some gone) :
    ∃ s t cl, (clientMachine plainConfig).Reachable s ∧ s.ids 0 = some cl ∧
      busyView cl = (.confirmed, .unix 1000 1000, true, true, hasState) ∧
      (clientMachine plainConfig).step s (.request (uidCtx 2000 21) (ownerExchange 6)) = some t ∧
      (t.ids 0).isNone = gone ∧
      Foreign plainConfig 0 s (.request (uidCtx 2000 21) (ownerExchange 6)) := by
  obtain ⟨s, hs, hview⟩ := bind_eq_some_iff.1 hrun
  obtain ⟨cl, hids, hview⟩ := map_eq_some_iff.1 hview
  rw [hs, bind_some] at hstep
  obtain ⟨t, ht, hgone⟩ := map_eq_some_iff.1 hstep
  have hfields := hview
  simp only [busyView, Prod.mk.injEq] at hfields
  refine ⟨s, t, cl, Machine.reachable_of_runFrom (.init ⟨3, rfl⟩) _ hs, hids, hview, ht, hgone, cl,
    hids, ?_, hfields.2.2.2.1⟩
  change nfsCompareClientcred cl.credential _ = false
  rw [hfields.2.1]
  rfl

/-- A client with a lease, an open file and a delegation survives an EXCHANGE_ID of user 2000
with its owner string. -/
theorem foreign_requests_keep_delegated_client :
    ∃ s t cl, s.ids 0 = some cl ∧ cl.hasState = true ∧
      Foreign plainConfig 0 s (.request (uidCtx 2000 21) (ownerExchange 6)) ∧
      (clientMachine plainConfig).step s (.request (uidCtx 2000 21) (ownerExchange 6)) = some t ∧
      KeptAt cl t 0 := by
  obtain ⟨s, t, cl, hs, hids, hview, ht, _, hforeign⟩ :=
    exists_busyClient [.deleg 2 false] true false (by decide +kernel) (by decide +kernel)
  simp only [busyView, Prod.mk.injEq] at hview
  obtain ⟨hconf, _, hstate, hlease, hhas⟩ := hview
  refine ⟨s, t, cl, hids, hstate, hforeign, ht, ?_⟩
  refine ((foreign_requests_keep_client_iff plainConfig s hs 0 cl hids hconf).2 _ t hforeign ht).1 ?_
  rintro ⟨key, conf, hr⟩
  have hlive := hr.live
  rw [live_of_ids hids (by simp [hconf])] at hlive
  cases hlive
  rcases hr.idle with hidle | hidle
  · exact absurd hlease (Bool.eq_false_iff.1 hidle)
  · exact absurd hhas (Bool.eq_false_iff.1 hidle)

/-- A client with a lease and an open file is expired by an EXCHANGE_ID of user 2000. -/
theorem foreign_exchange_expires_open_client :
    ∃ s, (clientMachine plainConfig).Reachable s ∧ ∃ t cl, s.ids 0 = some cl ∧
      cl.confirmed = .confirmed ∧ cl.hasState = true ∧
      Foreign plainConfig 0 s (.request (uidCtx 2000 21) (ownerExchange 6)) ∧
      (clientMachine plainConfig).step s (.request (uidCtx 2000 21) (ownerExchange 6)) = some t ∧
      t.ids 0 = none := by
  obtain ⟨s, t, cl, hs, hids, hview, ht, hgone, hforeign⟩ :=
    exists_busyClient [] false true (by decide +kernel) (by decide +kernel)
  simp only [busyView, Prod.mk.injEq] at hview
  exact ⟨s, hs, t, cl, hids, hview.1, hview.2.2.1, hforeign, ht, by simpa using hgone⟩

theorem exists_ids_of_session (hinv : s.Inv held) {x : Session} (hx : x ∈ s.sessions) :
    ∃ cl, s.ids x.clientidRecord = some cl ∧ x.sessionId.clientid = cl.clientid := by
  cases hids : s.ids x.clientidRecord with
  | none =>
    have hmem : x ∈ s.sessionsOf x.clientidRecord := by simp [sessionsOf, hx]
    rw [(hinv.refs.free _ hids).2] at hmem
    cases hmem
  | some cl => exact ⟨cl, rfl, hinv.sessionsWf.named x hx cl hids⟩

/-- In every run, a session names a client ID that exists, and two confirmed client IDs share
neither their number nor their client record. -/
theorem client_store_sound (cfg : ClientConfig) (s : ClientStore)
    (hs : (clientMachine cfg).Reachable s) :
    (∀ x ∈ s.sessions, ∃ cl, s.ids x.clientidRecord = some cl ∧
      x.sessionId.clientid = cl.clientid) ∧
    ∀ r r' cl cl', s.ids r = some cl → s.ids r' = some cl' → cl.confirmed = .confirmed →
      cl'.confirmed = .confirmed →
      cl.clientid = cl'.clientid ∨ cl.clientRecord = cl'.clientRecord → r = r' := by
  obtain ⟨held, hinv⟩ := exists_inv_of_reachable hs
  refine ⟨fun x hx => exists_ids_of_session hinv hx, ?_⟩
  intro r r' cl cl' hids hids' hconf hconf' hsame
  have hlive := live_of_ids hids (by simp [hconf])
  have hlive' := live_of_ids hids' (by simp [hconf'])
  rcases hsame with hsame | hsame
  · have h := (hinv.wf.confirmed _ r).2 ⟨_, hlive, by simp [ClientId.erased, hconf], rfl⟩
    have h' := (hinv.wf.confirmed _ r').2
      ⟨_, hlive', by simp [ClientId.erased, hconf'], hsame.symm⟩
    exact some.inj (h.symm.trans h')
  · obtain ⟨key, hkey⟩ := ne_none_iff_exists'.1 fun h => by
      simpa [ClientId.erased, hconf] using (hinv.wf.detached r _ hlive).1 h
    have h := (hinv.wf.confirmedRec key r).2 ⟨_, hlive, hconf, hkey⟩
    have h' := (hinv.wf.confirmedRec key r').2 ⟨_, hlive', hconf', hsame ▸ hkey⟩
    exact some.inj (h.symm.trans h')

theorem client_store_sound_busy : ∃ (s : ClientStore) (cl : ClientId), s.ids 0 = some cl ∧
    cl.confirmed = .confirmed ∧ ∀ r cl', s.ids r = some cl' → cl'.confirmed = .confirmed →
      cl'.clientRecord = cl.clientRecord → r = 0 := by
  obtain ⟨s, t, cl, hs, hids, hview, _⟩ :=
    exists_busyClient [] false true (by decide +kernel) (by decide +kernel)
  have hconf : cl.confirmed = .confirmed := congrArg Prod.fst hview
  refine ⟨s, cl, hids, hconf, ?_⟩
  intro r cl' hids' hconf' hsame
  exact (client_store_sound plainConfig s hs).2 r 0 cl' cl hids' hids hconf' hconf (.inr hsame)

end EdgeComputing.Nfs4
