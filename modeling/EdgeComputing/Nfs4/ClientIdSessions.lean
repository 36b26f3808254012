import EdgeComputing.Nfs4.ClientIdChanges

/-!
What EXCHANGE_ID and CREATE_SESSION do to the client IDs and the references on them. EXCHANGE_ID by
a restarted client keeps the reference it has taken on the confirmed record.
-/

namespace EdgeComputing.Nfs4

open List Option Function Library Sal Sal.ClientStore

variable {s t : ClientStore} {held : Nat → Nat} {key : RecordKey} {cfg : ClientConfig}
  {ctx : RequestCtx} {arg : ExchangeIdArgs} {live' : Nat → Option ClientId} {req : ClientRequest}
  {cl₀ : ClientId} {res : ClientRes}

theorem exchangeIdInsert_spec (hinv : s.Inv held) (key : RecordKey) (ctx : RequestCtx)
    (arg : ExchangeIdArgs) :
    ∃ t res new?, exchangeIdInsert s key ctx arg = some (t, res) ∧ t.Inv held ∧
      AddsNew s.nextAddr ctx key (withoutUnconfirmed s key) new? t.live := by
  unfold exchangeIdInsert
  obtain ⟨s1, s2, cl, h1, hcreate, hinv2, hbecomes, hrec, hnew⟩ :=
    createClientId_spec hinv 0 key ctx ctx.minorversion
  rw [h1, bind_some, hcreate]
  dsimp only
  have hnew' : IsNew ctx key { cl with
      createSessionSequence := 1
      createSessionSlot := ⟨.seqMisordered, none⟩
      incomingVerifier := arg.coVerifier } := { hnew with }
  obtain ⟨t, rc, new?, ht, hinv', hadds, ⟨rfl, rfl⟩ | ⟨rfl, rfl⟩⟩ :=
    insertNew_spec hinv2 hbecomes hrec hnew'
  · rw [ht]
    exact ⟨t, _, _, rfl, hinv', hadds⟩
  · rw [ht]
    exact ⟨t, _, _, rfl, hinv', hadds⟩

structure Exchanges (cfg : ClientConfig) (ctx : RequestCtx) (arg : ExchangeIdArgs)
    (key : RecordKey) : Prop where
  minorversion : ctx.minorversion ≠ 0
  flags : arg.eiaFlags &&& ~~~exchgidFlags = 0
  hostname : arg.hostnameKnown = true
  respRoom : arg.respRoom = .ok
  record : getClientRecord cfg arg.coOwnerid (exchangePnfsFlags cfg arg.eiaFlags) arg.serverAddr =
    some key
  notUpdate : arg.eiaFlags &&& exchgidUpdConfirmedRecA = 0

/-- Another principal finds the confirmed record `v` without a lease, or without what the
operation takes for state. -/
@[mk_iff]
structure Replaces (cfg : ClientConfig) (s : ClientStore) (ctx : RequestCtx) (arg : ExchangeIdArgs)
    (key : RecordKey) (v : Nat) (conf : ClientId) : Prop where
  exchanges : Exchanges cfg ctx arg key
  confirmedRec : (s.records key).confirmedRec = some v
  live : s.live v = some conf
  credential : nfsCompareClientcred conf.credential ctx.credential = false
  idle : conf.validLease cfg.leaseLifetime ctx.now = false ∨ conf.clientIdHasState = false

@[mk_iff]
structure Restarts (cfg : ClientConfig) (s : ClientStore) (ctx : RequestCtx) (arg : ExchangeIdArgs)
    (key : RecordKey) (v : Nat) (conf : ClientId) : Prop where
  exchanges : Exchanges cfg ctx arg key
  confirmedRec : (s.records key).confirmedRec = some v
  live : s.live v = some conf
  credential : nfsCompareClientcred conf.credential ctx.credential = true
  verifier : arg.coVerifier ≠ conf.incomingVerifier

inductive ExchangeOutcome (cfg : ClientConfig) (s : ClientStore) (held : Nat → Nat)
    (ctx : RequestCtx) (arg : ExchangeIdArgs) :
    (Nat → Nat) → (Nat → Option ClientId) → Prop
  | kept : (∀ key v conf, ¬ Replaces cfg s ctx arg key v conf) →
      (∀ key v conf, ¬ Restarts cfg s ctx arg key v conf) →
      ExchangeOutcome cfg s held ctx arg held s.live
  | added {key : RecordKey} {new? : Option ClientId} {live' : Nat → Option ClientId} :
      Exchanges cfg ctx arg key → (s.records key).confirmedRec = none →
      AddsNew s.nextAddr ctx key (withoutUnconfirmed s key) new? live' →
      ExchangeOutcome cfg s held ctx arg held live'
  | replaced {key : RecordKey} {v : Nat} {conf : ClientId} {new? : Option ClientId}
      {live' : Nat → Option ClientId} :
      Replaces cfg s ctx arg key v conf →
      AddsNew s.nextAddr ctx key (update (withoutUnconfirmed s key) v none) new? live' →
      ExchangeOutcome cfg s held ctx arg held live'
  | restarted {key : RecordKey} {v : Nat} {conf : ClientId} {new? : Option ClientId}
      {live' : Nat → Option ClientId} :
      Restarts cfg s ctx arg key v conf →
      AddsNew s.nextAddr ctx key (withoutUnconfirmed s key) new? live' →
      ExchangeOutcome cfg s held ctx arg (bump held v) live'

theorem ExchangeOutcome.of_not (h : ∀ key, ¬ Exchanges cfg ctx arg key) :
    ExchangeOutcome cfg s held ctx arg held s.live :=
  .kept (fun key _ _ hr => h key hr.exchanges) (fun key _ _ hr => h key hr.exchanges)

theorem withoutUnconfirmed_expired {v : Nat} {conf : ClientId} (hwf : s.Wf) (hwf' : t.Wf)
    (hlive : t.live = update s.live v none) (hconf : s.live v = some conf)
    (hstate : conf.confirmed = .confirmed) :
    withoutUnconfirmed t key = update (withoutUnconfirmed s key) v none := by
  have hrec : ∀ r, (t.records key).unconfirmedRec = some r ↔
      (s.records key).unconfirmedRec = some r ∧ r ≠ v := by
    intro r
    rw [hwf'.unconfirmedRec, hwf.unconfirmedRec, hlive]
    constructor
    · rintro ⟨cl, hcl, hun, hkey⟩
      obtain ⟨hne, hcl⟩ := of_update_none hcl
      exact ⟨⟨cl, hcl, hun, hkey⟩, hne⟩
    · rintro ⟨⟨cl, hcl, hun, hkey⟩, hne⟩
      exact ⟨cl, by rw [update_of_ne hne, hcl], hun, hkey⟩
  have hnot : (s.records key).unconfirmedRec ≠ some v := by
    intro h
    obtain ⟨cl, hcl, hun, _⟩ := (hwf.unconfirmedRec key v).1 h
    exact ne_of_unconfirmed hcl hun hconf hstate rfl
  have heq : (t.records key).unconfirmedRec = (s.records key).unconfirmedRec := by
    refine Option.ext fun r => ?_
    rw [hrec]
    exact ⟨And.left, fun h => ⟨h, fun hr => hnot (hr ▸ h)⟩⟩
  unfold withoutUnconfirmed
  rw [heq, hlive]
  cases hr : (s.records key).unconfirmedRec with
  | none => rfl
  | some r =>
    have hne : r ≠ v := by
      rintro rfl
      exact hnot hr
    exact (update_comm hne ..).symm

theorem exchangeIdNew_spec {v : Nat} (hinv : s.Inv (bump held v)) (hex : Exchanges cfg ctx arg key)
    (hrec : (s.records key).confirmedRec = some v) (hlive : s.live v = some cl₀.erased)
    (hstate : cl₀.confirmed = .confirmed) :
    ∃ t res held', exchangeIdNew cfg s key ctx arg v cl₀ = some (t, res) ∧ t.Inv held' ∧
      ExchangeOutcome cfg s held ctx arg held' t.live := by
  unfold exchangeIdNew
  -- whichever record of this client record a case speaks of, it is `v`
  have hsame : ∀ {key' v' conf}, Exchanges cfg ctx arg key' →
      (s.records key').confirmedRec = some v' → s.live v' = some conf →
      key' = key ∧ v' = v ∧ conf = cl₀.erased := by
    intro key' v' conf hex' hrec' hlive'
    obtain rfl := some.inj (hex'.record.symm.trans hex.record)
    obtain rfl := some.inj (hrec'.symm.trans hrec)
    exact ⟨rfl, rfl, some.inj (hlive'.symm.trans hlive)⟩
  obtain ⟨t0, ht0, hinv0, hagree0, _⟩ := hinv.dec
  have hkept : ¬ Replaces cfg s ctx arg key v cl₀.erased → ¬ Restarts cfg s ctx arg key v cl₀.erased →
      ExchangeOutcome cfg s held ctx arg held t0.live := by
    intro hreplaces hrestarts
    rw [hagree0.live]
    refine .kept (fun key' v' conf h => ?_) (fun key' v' conf h => ?_)
    · obtain ⟨rfl, rfl, rfl⟩ := hsame h.exchanges h.confirmedRec h.live
      exact hreplaces h
    · obtain ⟨rfl, rfl, rfl⟩ := hsame h.exchanges h.confirmedRec h.live
      exact hrestarts h
  by_cases hcred : nfsCompareClientcred cl₀.credential ctx.credential = true
  · rw [if_neg (by simp [hcred])]
    by_cases hverifier : arg.coVerifier = cl₀.incomingVerifier
    · rw [if_pos hverifier, ht0, map_some]
      exact ⟨t0, _, held, rfl, hinv0, hkept (fun h => absurd hcred (Bool.eq_false_iff.1 h.credential))
        fun h => h.verifier hverifier⟩
    · rw [if_neg hverifier]
      obtain ⟨t, res, new?, ht, hinvt, hadds⟩ := exchangeIdInsert_spec hinv key ctx arg
      exact ⟨t, res, _, ht, hinvt, .restarted ⟨hex, hrec, hlive, hcred, hverifier⟩ hadds⟩
  · have hcred' := Bool.eq_false_iff.2 hcred
    rw [if_pos (by simp [hcred'])]
    by_cases hidle : cl₀.validLease cfg.leaseLifetime ctx.now = false ∨ cl₀.clientIdHasState = false
    · rw [if_pos (by simpa using hidle)]
      obtain ⟨s1, h1, hinv1, hbecomes, _⟩ := hinv.expire hlive
      obtain ⟨s2, h2, hinv2, hagree, _⟩ := hinv1.dec
      obtain ⟨t, res, new?, ht, hinvt, hadds⟩ := exchangeIdInsert_spec hinv2 key ctx arg
      rw [withoutUnconfirmed_expired hinv.wf hinv2.wf (hagree.live.trans hbecomes.live) hlive hstate,
        hagree.nextAddr, hbecomes.nextAddr] at hadds
      exact ⟨t, res, held, by rw [h1, bind_some, h2, bind_some, ht], hinvt,
        .replaced ⟨hex, hrec, hlive, hcred', hidle⟩ hadds⟩
    · rw [if_neg (by simpa using hidle), ht0, map_some]
      exact ⟨t0, _, held, rfl, hinv0, hkept (fun h => hidle h.idle) fun h => hcred h.credential⟩

theorem ExchangeOutcome.agree {held' : Nat → Nat} (hagree : s.Agree t)
    (h : ExchangeOutcome cfg t held ctx arg held' live') :
    ExchangeOutcome cfg s held ctx arg held' live' := by
  have hreplaces : ∀ {key v conf}, Replaces cfg t ctx arg key v conf ↔
      Replaces cfg s ctx arg key v conf := by
    intro key v conf
    rw [replaces_iff, replaces_iff, hagree.records, hagree.live]
  have hrestarts : ∀ {key v conf}, Restarts cfg t ctx arg key v conf ↔
      Restarts cfg s ctx arg key v conf := by
    intro key v conf
    rw [restarts_iff, restarts_iff, hagree.records, hagree.live]
  cases h with
  | kept h h' =>
    rw [hagree.live]
    exact .kept (fun key v conf hr => h key v conf (hreplaces.2 hr))
      (fun key v conf hr => h' key v conf (hrestarts.2 hr))
  | added hex hnone hadds =>
    rw [hagree.nextAddr, withoutUnconfirmed_agree hagree] at hadds
    exact .added hex (hagree.records ▸ hnone) hadds
  | replaced hr hadds =>
    rw [hagree.nextAddr, withoutUnconfirmed_agree hagree] at hadds
    exact .replaced (hreplaces.1 hr) hadds
  | restarted hr hadds =>
    rw [hagree.nextAddr, withoutUnconfirmed_agree hagree] at hadds
    exact .restarted (hrestarts.1 hr) hadds

theorem exchangeId_spec (hinv : s.Inv held) (cfg : ClientConfig) (ctx : RequestCtx)
    (arg : ExchangeIdArgs) (hid : arg.coOwnerid ≠ []) :
    ∃ t res held', nfs4OpExchangeId cfg s ctx arg = some (t, res) ∧ t.Inv held' ∧
      ExchangeOutcome cfg s held ctx arg held' t.live := by
  unfold nfs4OpExchangeId
  by_cases hminor : ctx.minorversion = 0
  · rw [if_pos hminor]
    exact ⟨s, _, held, rfl, hinv, .of_not fun key h => h.minorversion hminor⟩
  by_cases hflags : arg.eiaFlags &&& ~~~exchgidFlags ≠ 0
  · rw [if_neg hminor, if_pos hflags]
    exact ⟨s, _, held, rfl, hinv, .of_not fun key h => hflags h.flags⟩
  by_cases hhost : (!arg.hostnameKnown) = true
  · rw [if_neg hminor, if_neg hflags, if_pos hhost]
    exact ⟨s, _, held, rfl, hinv, .of_not fun key h => by simp [h.hostname] at hhost⟩
  by_cases hroom : arg.respRoom ≠ .ok
  · rw [if_neg hminor, if_neg hflags, if_neg hhost, if_pos hroom]
    exact ⟨s, _, held, rfl, hinv, .of_not fun key h => hroom h.respRoom⟩
  rw [if_neg hminor, if_neg hflags, if_neg hhost, if_neg hroom]
  obtain ⟨key, hkey⟩ : ∃ key, getClientRecord cfg arg.coOwnerid
      (exchangePnfsFlags cfg arg.eiaFlags) arg.serverAddr = some key :=
    ⟨_, by rw [getClientRecord, if_neg hid]⟩
  rw [hkey, bind_some]
  have hex : arg.eiaFlags &&& exchgidUpdConfirmedRecA = 0 → Exchanges cfg ctx arg key :=
    fun hupdate => ⟨hminor, by simpa using hflags, by simpa using hhost, by simpa using hroom, hkey,
      hupdate⟩
  dsimp only
  cases hrec : (s.records key).confirmedRec with
  | none =>
    dsimp only
    split
    · rename_i hupdate
      exact ⟨s, _, held, rfl, hinv, .of_not fun key h => hupdate h.notUpdate⟩
    · rename_i hupdate
      obtain ⟨t, res, new?, ht, hinvt, hadds⟩ := exchangeIdInsert_spec hinv key ctx arg
      exact ⟨t, res, held, ht, hinvt, .added (hex (by simpa using hupdate)) hrec hadds⟩
  | some v =>
    obtain ⟨cl, hlive, hstate, _⟩ := (hinv.wf.confirmedRec key v).1 hrec
    obtain ⟨cl₀, hids, _, rfl⟩ := exists_ids_of_live hlive
    obtain ⟨s1, h1, hinv1, hagree1, _, hids1⟩ := hinv.exists_inc hids
    dsimp only
    rw [h1, bind_some, hids1, bind_some]
    split
    · rename_i hupdate
      obtain ⟨t, ht, hinvt, hagree, _⟩ := hinv1.dec
      refine ⟨t, _, held, by rw [exchangeIdUpdate, ht, map_some], hinvt, ?_⟩
      rw [hagree.live, hagree1.live]
      exact .of_not fun key h => hupdate h.notUpdate
    · rename_i hupdate
      obtain ⟨t, res, held', ht, hinvt, houtcome⟩ := exchangeIdNew_spec hinv1
        (hex (by simpa using hupdate)) (hagree1.records ▸ hrec) (hagree1.live ▸ hlive) hstate
      exact ⟨t, res, held', ht, hinvt, houtcome.agree hagree1⟩

theorem exchangeId_cases {res : ExchangeIdRes} (hinv : s.Inv held)
    (h : nfs4OpExchangeId cfg s ctx arg = some (t, res)) :
    ∃ held', t.Inv held' ∧ ExchangeOutcome cfg s held ctx arg held' t.live := by
  by_cases hid : arg.coOwnerid = []
  · have hkey : getClientRecord cfg arg.coOwnerid (exchangePnfsFlags cfg arg.eiaFlags)
        arg.serverAddr = none := by
      simp [getClientRecord, hid]
    have hnot : ∀ key, ¬ Exchanges cfg ctx arg key := fun key hex => by
      rw [hex.record] at hkey
      cases hkey
    have hsame : t = s := by
      simp only [nfs4OpExchangeId, hkey, bind_none] at h
      split_ifs at h
      all_goals
        cases h
        rfl
    subst hsame
    exact ⟨held, hinv, .of_not hnot⟩
  · obtain ⟨t', res', held', h', hspec⟩ := exchangeId_spec hinv cfg ctx arg hid
    rw [h] at h'
    cases h'
    exact ⟨held', hspec⟩

section Session

variable {x : Session} {addr r v : Nat} {cl conf unconf : ClientId} {res : CreateSessionRes}
  {arg : CreateSessionArgs} {found : FoundId}

theorem lookupClientId_globalSequence {clientid : BitVec 64}
    {found : Except ClientidStatus (FoundId × RecordKey)}
    (h : lookupClientId s clientid = some (t, found)) : t.globalSequence = s.globalSequence := by
  have hinc : ∀ {s t : ClientStore} {r : Nat}, s.incClientIdRef r = some t →
      t.globalSequence = s.globalSequence := by
    intro s t r h
    obtain ⟨cl, _, rfl⟩ := map_eq_some_iff.1 h
    rfl
  have hdec : ∀ {s t : ClientStore} {r : Nat}, s.decClientIdRef r = some t →
      t.globalSequence = s.globalSequence := by
    intro s t r h
    obtain ⟨cl, _, h⟩ := bind_eq_some_iff.1 h
    split_ifs at h
    · cases h
      rfl
    · cases h
      rfl
  have hget : ∀ {s t : ClientStore} {table : BitVec 64 → Option Nat}
      {res : Except ClientidStatus Nat}, s.nfsClientIdGet table clientid = some (t, res) →
      t.globalSequence = s.globalSequence := by
    intro s t table res h
    unfold nfsClientIdGet at h
    split at h
    · cases h
      rfl
    split at h
    · cases h
      rfl
    obtain ⟨u, hu, h⟩ := bind_eq_some_iff.1 h
    obtain ⟨cl, _, h⟩ := bind_eq_some_iff.1 h
    split at h
    · obtain ⟨w, hw, h⟩ := map_eq_some_iff.1 h
      cases h
      exact (hdec hw).trans (hinc hu)
    · cases h
      exact hinc hu
  rcases lookupClientId_inv h with ⟨r, key, h1, _⟩ | ⟨u, rc, res, h1, h2, _⟩
  · exact hget h1
  · exact (hget h2).trans (hget h1)

theorem createSessionOut_spec (hinv : s.Inv (bump held r)) (hx : x ∈ s.sessions)
    (haddr : x.addr = addr) (res : CreateSessionRes) :
    ∃ t, createSessionOut s r (some addr) res = some (t, res) ∧ t.Inv held ∧ s.Agree t := by
  obtain ⟨s1, h1, hinv1, hagree1, hsessions⟩ := hinv.dec
  obtain ⟨t, ht, hinvt, hagree, _⟩ := hinv1.decSession (hsessions ▸ hx) haddr
  refine ⟨t, ?_, hinvt, hagree1.trans hagree⟩
  rw [createSessionOut, h1, bind_some]
  dsimp only
  rw [ht, map_some]

def renewedBy (cl : ClientId) (now : Nat) (res : CreateSessionRes) : ClientId :=
  { cl with
    createSessionSequence := cl.createSessionSequence + 1
    lastRenew := now
    createSessionSlot := res }

theorem createSessionFinish_spec (hinv : s.Inv (bump held r)) (hlive : s.live r = some cl)
    (hx : x ∈ s.sessions) (haddr : x.addr = addr) (ctx : RequestCtx) (res : CreateSessionRes) :
    ∃ t, createSessionFinish s ctx r r addr res = some (t, res) ∧ t.Inv held ∧
      t.live = update s.live r (some (renewedBy cl ctx.now res)) := by
  obtain ⟨cl₀, hids, hexp, rfl⟩ := exists_ids_of_live hlive
  obtain ⟨hinv1, hbecomes⟩ := hinv.touch hids (renewedBy cl₀ ctx.now res) hexp rfl rfl rfl rfl rfl
  obtain ⟨t, ht, hinvt, hagree⟩ := createSessionOut_spec hinv1 hx haddr res
  refine ⟨t, ?_, hinvt, hagree.live.trans hbecomes.live⟩
  rw [createSessionFinish, hids, bind_some]
  exact ht

theorem sessionDel_shared (hinv : s.Inv held) (hx : x ∈ s.sessions) (hhashed : x.hashed = true)
    (hshared : 1 < x.refcount) :
    ∃ t, s.nfs41SessionDel x.sessionId = some t ∧ t.Inv held ∧ s.Agree t ∧
      { x with hashed := false, refcount := x.refcount - 1 } ∈ t.sessions := by
  have hfind : s.sessions.find? (fun y => y.hashed && decide (y.sessionId = x.sessionId)) =
      some x := by
    cases hfind : s.sessions.find? (fun y => y.hashed && decide (y.sessionId = x.sessionId)) with
    | none => exact absurd (find?_eq_none.1 hfind x hx) (by simp [hhashed])
    | some y =>
      have hy := find?_some hfind
      simp only [Bool.and_eq_true, decide_eq_true_eq] at hy
      have hmem := mem_of_find?_eq_some hfind
      have haddr := hinv.sessionsWf.unique y hmem x hx hy.1 hhashed hy.2
      rw [hinv.sessionsWf.eq_of_addr hmem hx haddr]
  obtain ⟨t, ht, hinvt, hagree, _, hleft⟩ := hinv.unhashSession hx
  refine ⟨t, ?_, hinvt, hagree, hleft hshared⟩
  rw [nfs41SessionDel, hfind]
  exact ht

theorem createSessionConfirm_spec (hinv : s.Inv (bump held r)) (hlive : s.live r = some cl)
    (hun : cl.confirmed = .unconfirmed) (hkey : cl.clientRecord = some key)
    (hnone : (s.records key).confirmedRec = none) (hx : x ∈ s.sessions) (hhashed : x.hashed = true)
    (hshared : 1 < x.refcount) (ctx : RequestCtx) (res : CreateSessionRes) :
    ∃ t res', createSessionConfirm s ctx r x.addr x.sessionId res = some (t, res') ∧ t.Inv held ∧
      (s.confirmedTable cl.clientid = none ∧ t.live = update s.live r
          (some (renewedBy { cl with confirmed := .confirmed } ctx.now res)) ∨
        s.confirmedTable cl.clientid ≠ none ∧ t.live = update s.live r none) := by
  obtain ⟨u, rc, hu, hinvu, hsessions, hcases⟩ := hinv.confirm hlive hun hkey hnone
  have hx' : x ∈ u.sessions := hsessions ▸ hx
  rw [createSessionConfirm, hu, bind_some]
  rcases hcases with ⟨htable, rfl, hbecomes⟩ | ⟨htable, rfl, hbecomes⟩
  · have hliveu : u.live r = some { cl with confirmed := .confirmed } := by
      rw [hbecomes.live, update_self]
    obtain ⟨t, ht, hinvt, hlivet⟩ := createSessionFinish_spec hinvu hliveu hx' rfl ctx res
    refine ⟨t, res, ht, hinvt, .inl ⟨htable, ?_⟩⟩
    rw [hlivet, hbecomes.live, update_idem]
  · obtain ⟨w, hw, hinvw, hagree, hx''⟩ := sessionDel_shared hinvu hx' hhashed hshared
    obtain ⟨t, ht, hinvt, hagree'⟩ := createSessionOut_spec hinvw hx'' rfl
      ⟨clientidErrorToNfsstatNoExpire .insertMallocError, none⟩
    refine ⟨t, ⟨clientidErrorToNfsstatNoExpire .insertMallocError, none⟩, ?_, hinvt,
      .inr ⟨htable, ?_⟩⟩
    · dsimp only
      rw [hw, bind_some]
      exact ht
    · rw [hagree'.live, hagree.live, hbecomes.live]

theorem newSession_spec (hinv : s.Inv held) (hlive : s.live r = some cl) :
    ∃ t, newSession s cl.clientid r =
        some (t, ⟨cl.clientid, s.globalSequence + 1⟩, s.nextAddr) ∧ t.Inv held ∧
      t.live = s.live ∧ t.records = s.records ∧ t.confirmedTable = s.confirmedTable ∧
      t.sessions = ⟨s.nextAddr, ⟨cl.clientid, s.globalSequence + 1⟩, r, 2, false⟩ :: s.sessions := by
  obtain ⟨cl₀, hids, hexp, rfl⟩ := exists_ids_of_live hlive
  obtain ⟨s1, h1, hinv1, hagree, hsessions, hids1⟩ := hinv.exists_inc hids
  have hsequence : s1.globalSequence = s.globalSequence := by
    rw [incClientIdRef_eq hids] at h1
    cases h1
    rfl
  have hadd := Inv.addSession (x := ⟨s1.nextAddr, ⟨cl₀.clientid, s.globalSequence + 1⟩, r, 2, false⟩)
    hinv1 hids1 rfl rfl rfl (s.globalSequence + 1)
  refine ⟨_, ?_, hadd, hagree.live, hagree.records, hagree.confirmedTable, ?_⟩
  · rw [newSession, h1, map_some, hsequence, hagree.nextAddr]
    rfl
  · rw [← hagree.nextAddr, ← hsessions]
    rfl

theorem sessionSet_spec (hinv : s.Inv held) (hx : x ∈ s.sessions)
    (hfree : s.sessions.any (fun y => y.hashed && decide (y.sessionId = x.sessionId)) = false) :
    ∃ t, nfs41SessionSet s x.sessionId x.addr = some t ∧ t.Inv held ∧ s.Agree t ∧
      { x with hashed := true } ∈ t.sessions := by
  have hnot : ∀ y ∈ s.sessions, y.hashed = true → y.sessionId ≠ x.sessionId := by
    intro y hy hhashed heq
    simp only [List.any_eq_false] at hfree
    exact hfree y hy (by simp [hhashed, heq])
  obtain ⟨hinv', hagree⟩ := hinv.mapSession x.addr (fun y => { y with hashed := true })
    (fun y => ⟨rfl, rfl, rfl⟩) (by
      intro y hy z hz hy' hz' hid
      by_cases hyx : y.addr = x.addr
      · by_cases hzx : z.addr = x.addr
        · exact hyx.trans hzx.symm
        · rw [if_neg hzx] at hz'
          rw [hinv.sessionsWf.eq_of_addr hy hx hyx] at hid
          exact absurd hid.symm (hnot z hz hz')
      · rw [if_neg hyx] at hy'
        by_cases hzx : z.addr = x.addr
        · rw [hinv.sessionsWf.eq_of_addr hz hx hzx] at hid
          exact absurd hid (hnot y hy hy')
        · rw [if_neg hzx] at hz'
          exact hinv.sessionsWf.unique y hy z hz hy' hz' hid)
  refine ⟨_, ?_, hinv', hagree, mem_map.2 ⟨x, hx, if_pos rfl⟩⟩
  rw [nfs41SessionSet, if_neg (by simp [hfree])]

inductive SessionRecords (s : ClientStore) (now : Nat) (res : CreateSessionRes) (key : RecordKey)
    (cl : ClientId) : FoundId → (Nat → Option ClientId) → Prop
  | renewed {v : Nat} :
      SessionRecords s now res key cl (.conf v)
        (update s.live v (some (renewedBy cl now res)))
  | updated {r v : Nat} {conf : ClientId} : (s.records key).confirmedRec = some v →
      s.live v = some conf → conf.clientid = cl.clientid →
      SessionRecords s now res key cl (.unconf r)
        (update (update s.live r none) v (some (renewedBy conf now res)))
  | confirmed {r : Nat} :
      (∀ v conf, (s.records key).confirmedRec = some v → s.live v = some conf →
        conf.clientid ≠ cl.clientid) →
      s.confirmedTable cl.clientid = none →
      SessionRecords s now res key cl (.unconf r) (update (withoutConfirmed s key) r
        (some (renewedBy { cl with confirmed := .confirmed } now res)))
  | failed {r : Nat} :
      (∀ v conf, (s.records key).confirmedRec = some v → s.live v = some conf →
        conf.clientid ≠ cl.clientid) →
      s.confirmedTable cl.clientid ≠ none →
      SessionRecords s now res key cl (.unconf r) (update (withoutConfirmed s key) r none)

theorem SessionRecords.congr {now : Nat} (hlive : t.live = s.live)
    (hrecords : t.records = s.records) (htable : t.confirmedTable = s.confirmedTable)
    (h : SessionRecords t now res key cl found live') :
    SessionRecords s now res key cl found live' := by
  have hbase : withoutConfirmed t key = withoutConfirmed s key := by
    simp only [withoutConfirmed, hlive, hrecords]
  cases h with
  | renewed =>
    rw [hlive]
    exact .renewed
  | updated hrec hconf hid =>
    rw [hlive]
    exact .updated (hrecords ▸ hrec) (hlive ▸ hconf) hid
  | confirmed hother hnone =>
    rw [hbase]
    rw [hrecords, hlive] at hother
    exact .confirmed hother (htable ▸ hnone)
  | failed hother hsome =>
    rw [hbase]
    rw [hrecords, hlive] at hother
    exact .failed hother (htable ▸ hsome)

theorem createSessionRecords_unconf (ctx : RequestCtx) (arg : CreateSessionArgs)
    (res : CreateSessionRes) (hinv : s.Inv (bump held r)) (hlive : s.live r = some cl)
    (hun : cl.confirmed = .unconfirmed) (hkey : cl.clientRecord = some key)
    (hid : cl.clientid = arg.clientid) (hx : x ∈ s.sessions)
    (hname : x.sessionId.clientid = cl.clientid) (hhashed : x.hashed = true)
    (hshared : 1 < x.refcount) :
    ∃ t res', createSessionRecords s ctx arg key x.addr x.sessionId res (.unconf r) =
        some (t, res') ∧ t.Inv held ∧ SessionRecords s ctx.now res key cl (.unconf r) t.live := by
  unfold createSessionRecords
  -- the confirmation in a store from which the confirmed record has gone
  have hconfirm : ∀ {u : ClientStore}, u.Inv (bump held r) → u.live r = some cl →
      (u.records key).confirmedRec = none → x ∈ u.sessions → u.live = withoutConfirmed s key →
      (u.confirmedTable cl.clientid = none ↔ s.confirmedTable cl.clientid = none) →
      (∀ v conf, (s.records key).confirmedRec = some v → s.live v = some conf →
        conf.clientid ≠ cl.clientid) →
      ∃ t res', createSessionConfirm u ctx r x.addr x.sessionId res = some (t, res') ∧
        t.Inv held ∧ SessionRecords s ctx.now res key cl (.unconf r) t.live := by
    intro u hinvu hliveu hrecu hxu hbase htable hother
    obtain ⟨t, res', ht, hinvt, ⟨hnone, hlivet⟩ | ⟨hsome, hlivet⟩⟩ :=
      createSessionConfirm_spec hinvu hliveu hun hkey hrecu hxu hhashed hshared ctx res
    · rw [hbase] at hlivet
      exact ⟨t, res', ht, hinvt, hlivet ▸ .confirmed hother (htable.1 hnone)⟩
    · rw [hbase] at hlivet
      exact ⟨t, res', ht, hinvt, hlivet ▸ .failed hother (mt htable.2 hsome)⟩
  cases hrec : (s.records key).confirmedRec with
  | none =>
    exact hconfirm hinv hlive hrec hx (by rw [withoutConfirmed, hrec]) Iff.rfl (by simp [hrec])
  | some v =>
    obtain ⟨conf, hconf, hstate, _⟩ := (hinv.wf.confirmedRec key v).1 hrec
    obtain ⟨conf0, hidsv, _, rfl⟩ := exists_ids_of_live hconf
    have hne : r ≠ v := ne_of_unconfirmed hlive hun hconf hstate
    obtain ⟨s1, h1, hinv1, hagree1, hsessions1, hids1⟩ := hinv.exists_inc hidsv
    have hlive1 : s1.live r = some cl := hagree1.live ▸ hlive
    have hconf1 : s1.live v = some conf0.erased := hagree1.live ▸ hconf
    have hx1 : x ∈ s1.sessions := hsessions1 ▸ hx
    dsimp only
    rw [h1, bind_some, hids1, bind_some]
    by_cases hold : conf0.clientid = arg.clientid
    · rw [if_neg (by simpa using hold)]
      rw [bump_comm] at hinv1
      obtain ⟨s2, h2, hinv2, hbecomes, hsessions2⟩ := hinv1.removeUnconfirmed hlive1 hun
      obtain ⟨s3, h3, hinv3, hagree3, hsessions3⟩ := hinv2.dec
      have hlive3 : s3.live v = some conf0.erased := by
        rw [hagree3.live, hbecomes.live, update_of_ne (Ne.symm hne), hconf1]
      have hx3 : x ∈ s3.sessions := by
        rw [hsessions3, hsessions2]
        exact hx1
      obtain ⟨t, ht, hinvt, hlivet⟩ := createSessionFinish_spec hinv3 hlive3 hx3 rfl ctx res
      refine ⟨t, res, by rw [h2, bind_some, h3, bind_some, ht], hinvt, ?_⟩
      rw [hlivet, hagree3.live, hbecomes.live, hagree1.live]
      exact .updated hrec hconf (hold.trans hid.symm)
    · rw [if_pos (by simpa using hold)]
      have hdiff : conf0.erased.clientid ≠ cl.clientid := fun h => hold (h.trans hid)
      have hrec1 : (s1.records key).confirmedRec = some v := hagree1.records ▸ hrec
      obtain ⟨s3, s2, h2, h3, hinv3, hbecomes, hlive3, hrec3, htable, hkeep⟩ :=
        expireConfirmed_spec hinv1 hrec1 hconf1 hlive1 hne hdiff
      have hx3 : x ∈ s3.sessions := hkeep x hx1 fun h => hdiff (h.symm.trans hname)
      rw [hagree1.confirmedTable] at htable
      rw [h2, bind_some, h3, bind_some]
      refine hconfirm hinv3 hlive3 hrec3 hx3 ?_ htable fun w conf hw hlivew => ?_
      · rw [withoutConfirmed, hrec, hbecomes.live, hagree1.live]
      · obtain rfl := some.inj (hrec.symm.trans hw)
        rw [← some.inj (hconf.symm.trans hlivew)]
        exact hdiff

structure Creates (s : ClientStore) (ctx : RequestCtx) (arg : CreateSessionArgs) (found : FoundId)
    (cl : ClientId) : Prop where
  minorversion : ctx.minorversion ≠ 0
  lookup : foundAt s arg.clientid = some found
  live : s.live found.addr = some cl
  check : createSessionCheck ctx arg cl = none
  free : (s.sessions.any fun y =>
    y.hashed && decide (y.sessionId = ⟨arg.clientid, s.globalSequence + 1⟩)) = false

inductive SessionOutcome (cfg : ClientConfig) (s : ClientStore) (ctx : RequestCtx)
    (arg : CreateSessionArgs) : (Nat → Option ClientId) → Prop
  | kept : (∀ found cl, ¬ Creates s ctx arg found cl) → SessionOutcome cfg s ctx arg s.live
  | made {found : FoundId} {cl : ClientId} {key : RecordKey} {live' : Nat → Option ClientId} :
      Creates s ctx arg found cl → cl.clientRecord = some key →
      SessionRecords s ctx.now
        (createSessionReply cfg arg ⟨arg.clientid, s.globalSequence + 1⟩) key cl found live' →
      SessionOutcome cfg s ctx arg live'

theorem createSessionMake_spec (cfg : ClientConfig) (hinv : s.Inv (bump held found.addr))
    (hids : s.ids found.addr = some cl₀) (hstate : cl₀.confirmed = found.state)
    (hid : cl₀.clientid = arg.clientid) (hkey : cl₀.clientRecord = some key)
    (hcheck : createSessionCheck ctx arg cl₀ = none) :
    ∃ t res', createSessionSection cfg s ctx arg found key = some (t, res') ∧ t.Inv held ∧
      ((s.sessions.any fun y =>
          y.hashed && decide (y.sessionId = ⟨arg.clientid, s.globalSequence + 1⟩)) = true ∧
          t.live = s.live ∨
        (s.sessions.any fun y =>
          y.hashed && decide (y.sessionId = ⟨arg.clientid, s.globalSequence + 1⟩)) = false ∧
          SessionRecords s ctx.now
            (createSessionReply cfg arg ⟨arg.clientid, s.globalSequence + 1⟩) key cl₀.erased found
            t.live) := by
  have hexp : cl₀.confirmed ≠ .expired := by
    rw [hstate]
    cases found <;> simp [FoundId.state]
  have hlive : s.live found.addr = some cl₀.erased := live_of_ids hids hexp
  obtain ⟨s2, h2, hinv2, hlive2, hrecords2, htable2, hsessions2⟩ := newSession_spec hinv hlive
  rw [show cl₀.erased.clientid = arg.clientid from hid] at h2 hsessions2
  generalize hsid : (⟨arg.clientid, s.globalSequence + 1⟩ : SessionId) = sid at h2 hsessions2 ⊢
  unfold createSessionSection
  rw [hids, bind_some, hcheck]
  dsimp only
  rw [h2, bind_some]
  dsimp only
  -- the new session is not hashed yet
  have hany : (s2.sessions.any fun y => y.hashed && decide (y.sessionId = sid)) =
      s.sessions.any fun y => y.hashed && decide (y.sessionId = sid) := by
    rw [hsessions2]
    rfl
  have hx : (⟨s.nextAddr, sid, found.addr, 2, false⟩ : Session) ∈ s2.sessions := by
    rw [hsessions2]
    exact mem_cons_self
  cases hused : s.sessions.any fun y => y.hashed && decide (y.sessionId = sid) with
  | true =>
    have hset : nfs41SessionSet s2 sid s.nextAddr = none := by
      rw [nfs41SessionSet, if_pos (hany.trans hused)]
    obtain ⟨s3, h3, hinv3, hagree3, _, hkeep⟩ := hinv2.decSession hx rfl
    obtain ⟨t, ht, hinvt, hagree⟩ := createSessionOut_spec hinv3 (hkeep (by simp)) rfl
      ⟨.serverfault, none⟩
    refine ⟨t, ⟨.serverfault, none⟩, ?_, hinvt, .inl ⟨rfl, ?_⟩⟩
    · rw [hset]
      dsimp only
      rw [h3, bind_some]
      exact ht
    · rw [hagree.live, hagree3.live, hlive2]
  | false =>
    obtain ⟨s3, h3, hinv3, hagree3, hx3⟩ := sessionSet_spec hinv2 hx (hany.trans hused)
    have hlive3 : s3.live = s.live := hagree3.live.trans hlive2
    have hrecords3 : s3.records = s.records := hagree3.records.trans hrecords2
    have htable3 : s3.confirmedTable = s.confirmedTable := hagree3.confirmedTable.trans htable2
    have hfound3 : s3.live found.addr = some cl₀.erased := hlive3 ▸ hlive
    dsimp only at h3 hx3
    rw [h3]
    dsimp only
    cases found with
    | conf v =>
      obtain ⟨t, ht, hinvt, hlivet⟩ := createSessionFinish_spec hinv3 hfound3 hx3 rfl ctx
        (createSessionReply cfg arg sid)
      obtain ⟨cl3, hids3, _, herased⟩ := exists_ids_of_live hfound3
      have hids3' : s3.ids v = some cl3 := hids3
      have hid3 : cl3.clientid = arg.clientid := (congrArg ClientId.clientid herased).symm.trans hid
      refine ⟨t, createSessionReply cfg arg sid, ?_, hinvt, .inr ⟨rfl, ?_⟩⟩
      · rw [createSessionRecords, hids3', bind_some, if_neg (by simpa using hid3)]
        exact ht
      · rw [hlivet, hlive3]
        exact .renewed
    | unconf r =>
      have hname : sid.clientid = cl₀.erased.clientid := by
        rw [← hsid]
        exact hid.symm
      obtain ⟨t, res', ht, hinvt, hrecords⟩ := createSessionRecords_unconf ctx arg
        (createSessionReply cfg arg sid) hinv3 hfound3 hstate hkey hid hx3 hname rfl (by simp)
      exact ⟨t, res', ht, hinvt, .inr ⟨rfl, hrecords.congr hlive3 hrecords3 htable3⟩⟩

theorem createSession_spec (hinv : s.Inv held) (cfg : ClientConfig) (ctx : RequestCtx)
    (arg : CreateSessionArgs) :
    ∃ t res, nfs4OpCreateSession cfg s ctx arg = some (t, res) ∧ t.Inv held ∧
      SessionOutcome cfg s ctx arg t.live := by
  unfold nfs4OpCreateSession
  by_cases hminor : ctx.minorversion = 0
  · rw [if_pos hminor]
    exact ⟨s, _, rfl, hinv, .kept fun found cl h => h.minorversion hminor⟩
  rw [if_neg hminor]
  obtain ⟨s1, found?, h1, hlookup⟩ := lookupClientId_spec hinv arg.clientid
  have hsequence := lookupClientId_globalSequence h1
  rw [h1, bind_some]
  cases hlookup with
  | notFound hnone hinv1 hagree _ =>
    refine ⟨s1, _, rfl, hinv1, ?_⟩
    rw [hagree.live]
    exact .kept fun found cl h => absurd h.lookup (by simp [hnone])
  | @found found key cl hfound hlive hstate hid hkey hinv1 hagree hsessions =>
    have hlive1 : s1.live found.addr = some cl := hagree.live ▸ hlive
    obtain ⟨cl₀, hids, _, rfl⟩ := exists_ids_of_live hlive1
    have hsame : ∀ {found' cl'}, Creates s ctx arg found' cl' →
        found' = found ∧ cl' = cl₀.erased := by
      intro found' cl' h
      obtain rfl := some.inj (h.lookup.symm.trans hfound)
      exact ⟨rfl, some.inj (h.live.symm.trans hlive)⟩
    dsimp only
    cases hcheck : createSessionCheck ctx arg cl₀ with
    | some res =>
      obtain ⟨t, ht, hinvt, hagreet, _⟩ := hinv1.dec
      refine ⟨t, res, ?_, hinvt, ?_⟩
      · rw [createSessionSection, hids, bind_some, hcheck]
        dsimp only
        rw [createSessionOut, ht, bind_some]
      · rw [hagreet.live, hagree.live]
        refine .kept fun found' cl' h => ?_
        obtain ⟨_, rfl⟩ := hsame h
        exact absurd (h.check.symm.trans hcheck) (by simp)
    | none =>
      obtain ⟨t, res', ht, hinvt, hcases⟩ :=
        createSessionMake_spec cfg hinv1 hids hstate hid hkey hcheck
      rw [hsessions, hsequence] at hcases
      refine ⟨t, res', ht, hinvt, ?_⟩
      rcases hcases with ⟨hused, hlivet⟩ | ⟨hfree, hrecords⟩
      · rw [hlivet, hagree.live]
        refine .kept fun found' cl' h => ?_
        rw [h.free] at hused
        cases hused
      · have hcreates : Creates s ctx arg found cl₀.erased := ⟨hminor, hfound, hlive, hcheck, hfree⟩
        exact .made hcreates hkey
          (hrecords.congr hagree.live hagree.records hagree.confirmedTable)

theorem createSession_cases (hinv : s.Inv held)
    (h : nfs4OpCreateSession cfg s ctx arg = some (t, res)) :
    t.Inv held ∧ SessionOutcome cfg s ctx arg t.live := by
  obtain ⟨t', res', h', hspec⟩ := createSession_spec hinv cfg ctx arg
  rw [h] at h'
  cases h'
  exact hspec

end Session

@[elab_as_elim]
theorem clientOp_cases {motive : ClientRequest → Prop} (h : clientOp cfg s ctx req = some (t, res))
    (setclientid : ∀ arg res, nfs4OpSetclientid cfg s ctx arg = some (t, res) →
      motive (.setclientid arg))
    (setclientidConfirm : ∀ arg status, nfs4OpSetclientidConfirm s ctx arg = some (t, status) →
      motive (.setclientidConfirm arg))
    (exchangeId : ∀ arg res, nfs4OpExchangeId cfg s ctx arg = some (t, res) →
      motive (.exchangeId arg))
    (createSession : ∀ arg res, nfs4OpCreateSession cfg s ctx arg = some (t, res) →
      motive (.createSession arg)) :
    motive req := by
  cases req with
  | setclientid arg =>
    obtain ⟨⟨t', res'⟩, h', heq⟩ := map_eq_some_iff.1 h
    cases heq
    exact setclientid arg res' h'
  | setclientidConfirm arg =>
    obtain ⟨⟨t', res'⟩, h', heq⟩ := map_eq_some_iff.1 h
    cases heq
    exact setclientidConfirm arg res' h'
  | exchangeId arg =>
    obtain ⟨⟨t', res'⟩, h', heq⟩ := map_eq_some_iff.1 h
    cases heq
    exact exchangeId arg res' h'
  | createSession arg =>
    obtain ⟨⟨t', res'⟩, h', heq⟩ := map_eq_some_iff.1 h
    cases heq
    exact createSession arg res' h'

theorem clientOp_inv (hinv : s.Inv held) (h : clientOp cfg s ctx req = some (t, res)) :
    ∃ held', t.Inv held' := by
  refine clientOp_cases h ?_ ?_ ?_ ?_
  · exact fun _ _ h => ⟨held, (setclientid_cases hinv h).1⟩
  · exact fun _ _ h => ⟨held, (setclientidConfirm_cases hinv h).1⟩
  · intro _ _ h
    obtain ⟨held', hinv', _⟩ := exchangeId_cases hinv h
    exact ⟨held', hinv'⟩
  · exact fun _ _ h => ⟨held, (createSession_cases hinv h).1⟩

end EdgeComputing.Nfs4
