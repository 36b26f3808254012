import EdgeComputing.Nfs4.ClientIdSessions

/-!
The references on client ID records. Each operation drops those it has taken, except for EXCHANGE_ID
by a restarted client.
-/

namespace EdgeComputing.Nfs4

open Option Sal Sal.ClientStore

variable {s t : ClientStore} {held : Nat → Nat} {cfg : ClientConfig} {ctx : RequestCtx}

def hashRefs (s : ClientStore) (r : Nat) (cl : ClientId) : Nat :=
  (if s.confirmedTable cl.clientid = some r then 1 else 0) +
    (if s.unconfirmedTable cl.clientid = some r then 1 else 0)

/-- The reference counts are those of the tables, the sessions, the owners and write delegations of
the client ID, and those `held` by others; and a record is freed with its last reference. -/
structure RefsBalanced (s : ClientStore) (held : Nat → Nat) : Prop where
  count : ∀ r cl, s.ids r = some cl →
    cl.refcount = hashRefs s r cl + (s.sessionsOf r).length + cl.ownerRefs + held r
  pos : ∀ r cl, s.ids r = some cl → 0 < cl.refcount
  free : ∀ r, s.ids r = none → held r = 0 ∧ s.sessionsOf r = []

theorem hashRefs_eq {r : Nat} {cl : ClientId} (hwf : s.Wf) (hids : s.ids r = some cl) :
    hashRefs s r cl = tableRef cl := by
  have hconf : s.confirmedTable cl.clientid = some r ↔
      cl.confirmed ≠ .expired ∧ cl.confirmed ≠ .unconfirmed := by
    rw [hwf.confirmed, live, hids]
    by_cases hexp : cl.confirmed = .expired
    · simp [liveOf_expired hexp, hexp]
    · simp [liveOf_some hexp, hexp, ClientId.erased]
  have hun : s.unconfirmedTable cl.clientid = some r ↔ cl.confirmed = .unconfirmed := by
    rw [hwf.unconfirmed, live, hids]
    by_cases hexp : cl.confirmed = .expired
    · simp [liveOf_expired hexp, hexp]
    · simp [liveOf_some hexp, ClientId.erased]
  unfold hashRefs tableRef
  cases hstate : cl.confirmed <;> simp [hconf, hun, hstate]

theorem refsBalanced (hinv : s.Inv held) : RefsBalanced s held := by
  refine ⟨fun r cl hids => ?_, hinv.refs.pos, hinv.refs.free⟩
  rw [hashRefs_eq hinv.wf hids]
  exact hinv.refs.count r cl hids

theorem not_refsBalanced_bump {r : Nat} (hinv : s.Inv (bump held r)) : ¬ RefsBalanced s held := by
  intro h
  cases hids : s.ids r with
  | none =>
    have hfree := (hinv.refs.free r hids).1
    simp at hfree
  | some cl =>
    have hcount := hinv.refs.count r cl hids
    have hcount' := h.count r cl hids
    rw [hashRefs_eq hinv.wf hids] at hcount'
    rw [bump_self] at hcount
    omega

def ClientRequest.owner? : ClientRequest → Option (List UInt8)
  | .setclientid arg => some arg.id
  | .exchangeId arg => some arg.coOwnerid
  | _ => none

def ReportsRestart (cfg : ClientConfig) (s : ClientStore) (ctx : RequestCtx) :
    ClientRequest → Prop
  | .exchangeId arg => ∃ key v conf, Restarts cfg s ctx arg key v conf
  | _ => False

theorem ExchangeOutcome.held_eq {arg : ExchangeIdArgs} {held' : Nat → Nat}
    {live' : Nat → Option ClientId} (h : ExchangeOutcome cfg s held ctx arg held' live') :
    held' = held ∧ (∀ key v conf, ¬ Restarts cfg s ctx arg key v conf) ∨
      ∃ key v conf, held' = bump held v ∧ Restarts cfg s ctx arg key v conf := by
  cases h with
  | kept _ hnot => exact .inl ⟨rfl, hnot⟩
  | added hex hnone _ =>
    refine .inl ⟨rfl, fun key v conf h => ?_⟩
    obtain rfl := some.inj (h.exchanges.record.symm.trans hex.record)
    rw [h.confirmedRec] at hnone
    cases hnone
  | replaced hr _ =>
    refine .inl ⟨rfl, fun key v conf h => ?_⟩
    obtain rfl := some.inj (h.exchanges.record.symm.trans hr.exchanges.record)
    obtain rfl := some.inj (h.confirmedRec.symm.trans hr.confirmedRec)
    obtain rfl := some.inj (h.live.symm.trans hr.live)
    have hcred := h.credential
    rw [hr.credential] at hcred
    cases hcred
  | restarted hr _ => exact .inr ⟨_, _, _, rfl, hr⟩

theorem clientOp_answers (hinv : s.Inv held) (cfg : ClientConfig) (ctx : RequestCtx)
    (req : ClientRequest) (howner : ∀ id, req.owner? = some id → id ≠ []) :
    ∃ t res, clientOp cfg s ctx req = some (t, res) := by
  cases req with
  | setclientid arg =>
    obtain ⟨t, res, h, _⟩ := setclientid_spec hinv cfg ctx arg (howner _ rfl)
    exact ⟨t, _, by rw [clientOp, h]; rfl⟩
  | setclientidConfirm arg =>
    obtain ⟨t, res, h, _⟩ := setclientidConfirm_spec hinv ctx arg
    exact ⟨t, _, by rw [clientOp, h]; rfl⟩
  | exchangeId arg =>
    obtain ⟨t, res, _, h, _⟩ := exchangeId_spec hinv cfg ctx arg (howner _ rfl)
    exact ⟨t, _, by rw [clientOp, h]; rfl⟩
  | createSession arg =>
    obtain ⟨t, res, h, _⟩ := createSession_spec hinv cfg ctx arg
    exact ⟨t, _, by rw [clientOp, h]; rfl⟩

/-- In every state of the client records, each of the four operations answers, and leaves the
references balanced exactly if it is not an EXCHANGE_ID that reports a restart. -/
theorem client_references_balance_iff (cfg : ClientConfig) (s : ClientStore) (held : Nat → Nat)
    (hinv : s.Inv held) (ctx : RequestCtx) (req : ClientRequest) :
    ((∀ id, req.owner? = some id → id ≠ []) → ∃ t res, clientOp cfg s ctx req = some (t, res)) ∧
      ∀ t res, clientOp cfg s ctx req = some (t, res) →
        (¬ ReportsRestart cfg s ctx req ↔ RefsBalanced t held) := by
  refine ⟨clientOp_answers hinv cfg ctx req, fun t res h => clientOp_cases h ?_ ?_ ?_ ?_⟩
  · intro arg _ h'
    exact ⟨fun _ => refsBalanced (setclientid_cases hinv h').1, fun _ hr => hr⟩
  · intro arg _ h'
    exact ⟨fun _ => refsBalanced (setclientidConfirm_cases hinv h').1, fun _ hr => hr⟩
  · intro arg _ h'
    obtain ⟨held', hinv', houtcome⟩ := exchangeId_cases hinv h'
    rcases houtcome.held_eq with ⟨rfl, hnot⟩ | ⟨key, v, conf, rfl, hr⟩
    · exact ⟨fun _ => refsBalanced hinv', fun _ ⟨key, v, conf, hr⟩ => hnot key v conf hr⟩
    · exact ⟨fun hnot => absurd ⟨key, v, conf, hr⟩ hnot,
        fun hbalanced => absurd hbalanced (not_refsBalanced_bump hinv')⟩
  · intro arg _ h'
    exact ⟨fun _ => refsBalanced (createSession_cases hinv h').1, fun _ hr => hr⟩

def sessionCtx (now : Nat) : RequestCtx := ⟨1, .unix 1000 1000, some 7, now⟩

def sessionExchange (verifier : BitVec 64) : ExchangeIdArgs := ⟨verifier, [65], 0, 0, true, .ok⟩

def sessionCreate : CreateSessionArgs where
  clientid := 0x300000001
  sequence := 1
  flags := 0
  foreChanAttrs := ⟨0, 4096, 4096, 4096, 16, 32⟩
  backChanAttrs := ⟨0, 4096, 4096, 4096, 16, 32⟩
  backChannelCreated := false

theorem exists_session_client :
    ∃ s, s.Inv (fun _ => 0) ∧
      (s.ids 0).map (fun cl => (cl.confirmed, cl.credential, cl.incomingVerifier)) =
        some (.confirmed, .unix 1000 1000, 5) ∧
      (s.records ⟨[65], exchgidUseNonPnfs, 0⟩).confirmedRec = some 0 ∧
      ((clientOp plainConfig s (sessionCtx 12) (.exchangeId (sessionExchange 6))).bind fun r =>
        (r.1.ids 0).map fun cl =>
          (cl.refcount, hashRefs r.1 0 cl, (r.1.sessionsOf 0).length, cl.ownerRefs)) =
        some (3, 1, 1, 0) := by
  have hrun : ((nfs4OpExchangeId plainConfig (empty 3) (sessionCtx 10) (sessionExchange 5)).bind
      fun r => nfs4OpCreateSession plainConfig r.1 (sessionCtx 11) sessionCreate).map (fun r =>
        ((r.1.ids 0).map (fun cl => (cl.confirmed, cl.credential, cl.incomingVerifier)),
          (r.1.records ⟨[65], exchgidUseNonPnfs, 0⟩).confirmedRec)) =
      some (some (.confirmed, .unix 1000 1000, 5), some 0) := by
    decide +kernel
  have hexchange : ((nfs4OpExchangeId plainConfig (empty 3) (sessionCtx 10) (sessionExchange 5)).bind
      fun r => nfs4OpCreateSession plainConfig r.1 (sessionCtx 11) sessionCreate).bind (fun r =>
        (clientOp plainConfig r.1 (sessionCtx 12) (.exchangeId (sessionExchange 6))).bind fun r =>
          (r.1.ids 0).map fun cl =>
            (cl.refcount, hashRefs r.1 0 cl, (r.1.sessionsOf 0).length, cl.ownerRefs)) =
      some (3, 1, 1, 0) := by
    decide +kernel
  obtain ⟨⟨s, res⟩, hs, hfields⟩ := map_eq_some_iff.1 hrun
  rw [hs, bind_some] at hexchange
  obtain ⟨⟨s1, res1⟩, hs1, hs⟩ := bind_eq_some_iff.1 hs
  obtain ⟨held, hinv1, houtcome⟩ := exchangeId_cases (inv_empty 3) hs1
  simp only [Prod.mk.injEq] at hfields
  refine ⟨s, ?_, hfields.1, hfields.2, hexchange⟩
  rcases houtcome.held_eq with ⟨rfl, _⟩ | ⟨key, v, conf, _, hr⟩
  · exact (createSession_cases hinv1 hs).1
  · exact absurd hr.confirmedRec (by simp [empty])

/-- An EXCHANGE_ID of the client as it was leaves the references balanced. -/
theorem client_references_balance_session :
    ∃ s t res, clientOp plainConfig s (sessionCtx 12) (.exchangeId (sessionExchange 5)) =
        some (t, res) ∧ RefsBalanced t fun _ => 0 := by
  obtain ⟨s, hinv, hids, hrec, _⟩ := exists_session_client
  obtain ⟨hanswers, hbalance⟩ := client_references_balance_iff plainConfig s _ hinv (sessionCtx 12)
    (.exchangeId (sessionExchange 5))
  obtain ⟨t, res, h⟩ := hanswers (by simp [ClientRequest.owner?, sessionExchange])
  refine ⟨s, t, res, h, (hbalance t res h).1 ?_⟩
  rintro ⟨key, v, conf, hr⟩
  obtain rfl : _ = key := some.inj ((by decide +kernel :
    getClientRecord plainConfig [65] (exchangePnfsFlags plainConfig 0) 0 =
      some ⟨[65], exchgidUseNonPnfs, 0⟩).symm.trans hr.exchanges.record)
  obtain rfl : 0 = v := some.inj (hrec.symm.trans hr.confirmedRec)
  obtain ⟨cl, hcl, hfields⟩ := map_eq_some_iff.1 hids
  simp only [Prod.mk.injEq] at hfields
  have hconf := hr.live
  rw [live_of_ids hcl (by simp [hfields.1])] at hconf
  cases hconf
  exact hr.verifier hfields.2.2.symm

/-- After the client has restarted, three references are counted on its confirmed record: that
of the table, that of the session, and one that nothing holds. -/
theorem restart_leaks_reference :
    ∃ s, s.Inv (fun _ => 0) ∧ ∃ t res cl,
      clientOp plainConfig s (sessionCtx 12) (.exchangeId (sessionExchange 6)) = some (t, res) ∧
      t.ids 0 = some cl ∧ cl.refcount = 3 ∧ hashRefs t 0 cl = 1 ∧ (t.sessionsOf 0).length = 1 ∧
      cl.ownerRefs = 0 := by
  obtain ⟨s, hinv, _, _, hexchange⟩ := exists_session_client
  obtain ⟨⟨t, res⟩, h, hfields⟩ := bind_eq_some_iff.1 hexchange
  obtain ⟨cl, hcl, hrefs⟩ := map_eq_some_iff.1 hfields
  simp only [Prod.mk.injEq] at hrefs
  exact ⟨s, hinv, t, res, cl, h, hcl, hrefs⟩

end EdgeComputing.Nfs4
