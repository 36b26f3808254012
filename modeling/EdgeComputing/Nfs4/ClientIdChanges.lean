import EdgeComputing.Sal.ClientIdExpire
import EdgeComputing.Nfs4.ClientIdOps

/-!
What the four operations do to the client IDs. Given an owner string, each succeeds in every store
that meets the invariant.
-/

namespace EdgeComputing.Nfs4

open Option Function Library Sal Sal.ClientStore

variable {s t : ClientStore} {held : Nat → Nat} {key : RecordKey} {cfg : ClientConfig}
  {ctx : RequestCtx} {arg : SetclientidConfirmArgs} {clientid : BitVec 64} {r : Nat} {cl : ClientId}

def withoutUnconfirmed (s : ClientStore) (key : RecordKey) : Nat → Option ClientId :=
  match (s.records key).unconfirmedRec with
  | none => s.live
  | some r => update s.live r none

theorem withoutUnconfirmed_agree (h : s.Agree t) :
    withoutUnconfirmed t key = withoutUnconfirmed s key := by
  simp only [withoutUnconfirmed, h.live, h.records]

section Without

variable {key : RecordKey} {p p' : Option Nat} {live : Nat → Option ClientId} {r v : Nat}
  {cl : ClientId}

theorem of_without
    (h : (match p with | none => live | some v => update live v none) r = some cl) :
    live r = some cl := by
  cases p with
  | none => exact h
  | some v => exact (of_update_none h).2

theorem withoutUnconfirmed_le (h : withoutUnconfirmed s key r = some cl) : s.live r = some cl :=
  of_without h

theorem pointer_eq_none {P : ClientId → Prop}
    (h : ∀ w, p = some w ↔ ∃ cl, live w = some cl ∧ P cl)
    (h' : ∀ w, p' = some w ↔ ∃ cl, update live v none w = some cl ∧ P cl)
    (hp : p = some v) : p' = none := by
  cases hp' : p' with
  | none => rfl
  | some w =>
    obtain ⟨cl, hlive, hcl⟩ := (h' w).1 hp'
    obtain ⟨hne, hlive⟩ := of_update_none hlive
    exact absurd (some.inj (((h w).2 ⟨cl, hlive, hcl⟩).symm.trans hp)) hne

end Without

theorem dropUnconfirmed_spec (hinv : s.Inv held) (key : RecordKey) :
    ∃ t, dropUnconfirmed s key = some t ∧ t.Inv held ∧
      s.Becomes t (withoutUnconfirmed s key) ∧ (t.records key).unconfirmedRec = none := by
  unfold dropUnconfirmed withoutUnconfirmed
  cases hrec : (s.records key).unconfirmedRec with
  | none => exact ⟨s, rfl, hinv, ⟨rfl, rfl, rfl⟩, hrec⟩
  | some r =>
    obtain ⟨cl, hlive, hun, hkey⟩ := (hinv.wf.unconfirmedRec key r).1 hrec
    obtain ⟨t, ht, hinv', hbecomes, -⟩ := hinv.removeUnconfirmed hlive hun
    refine ⟨t, ht, hinv', hbecomes, ?_⟩
    exact pointer_eq_none (hinv.wf.unconfirmedRec key)
      (hbecomes.live ▸ hinv'.wf.unconfirmedRec key) hrec

structure IsNew (ctx : RequestCtx) (key : RecordKey) (new : ClientId) : Prop where
  unconfirmed : new.confirmed = .unconfirmed
  clientRecord : new.clientRecord = some key
  credential : new.credential = ctx.credential
  gshClient : new.gshClient = ctx.client
  refcount : new.refcount = 0
  ownerRefs : new.ownerRefs = 0

inductive AddsNew (next : Nat) (ctx : RequestCtx) (key : RecordKey)
    (base : Nat → Option ClientId) : Option ClientId → (Nat → Option ClientId) → Prop
  | failed : AddsNew next ctx key base none base
  | added {r : Nat} {new : ClientId} : next ≤ r → IsNew ctx key new →
      AddsNew next ctx key base (some new) (update base r (some new))

theorem createClientId_spec (hinv : s.Inv held) (clientid : BitVec 64) (key : RecordKey)
    (ctx : RequestCtx) (minorversion : Nat) :
    ∃ s1 s2 cl, dropUnconfirmed s key = some s1 ∧
      s1.createClientId clientid key ctx.credential ctx.client minorversion ctx.now = (cl, s2) ∧
      s2.Inv held ∧ s.Becomes s2 (withoutUnconfirmed s key) ∧
      (s2.records key).unconfirmedRec = none ∧ IsNew ctx key cl := by
  obtain ⟨s1, h1, hinv1, hbecomes, hrec⟩ := dropUnconfirmed_spec hinv key
  unfold createClientId
  by_cases h : clientid = 0
  · simp only [if_pos h]
    exact ⟨s1, _, _, h1, rfl, hinv1.counters _ _, { hbecomes with }, hrec, rfl, rfl, rfl, rfl,
      rfl, rfl⟩
  · simp only [if_neg h]
    exact ⟨s1, _, _, h1, rfl, hinv1, hbecomes, hrec, rfl, rfl, rfl, rfl, rfl, rfl⟩

theorem insertNew_spec {s1 : ClientStore} {base : Nat → Option ClientId} {new : ClientId}
    (hinv1 : s1.Inv held) (hbecomes : s.Becomes s1 base)
    (hrec : (s1.records key).unconfirmedRec = none) (hnew : IsNew ctx key new) :
    ∃ t rc new?, s1.nfsClientIdInsert key new = (t, rc) ∧ t.Inv held ∧
      AddsNew s.nextAddr ctx key base new? t.live ∧
      (rc = .success ∧ new? = some new ∨ rc = .insertMallocError ∧ new? = none) := by
  rcases hinv1.insert hnew.unconfirmed hnew.clientRecord hnew.refcount hnew.ownerRefs hrec with
    ⟨_, t, ht, hinv', hlive⟩ | ⟨_, h⟩
  · refine ⟨t, _, some new, ht, hinv', ?_, .inl ⟨rfl, rfl⟩⟩
    rw [hlive, hbecomes.live]
    exact .added (Nat.le_of_eq hbecomes.nextAddr.symm) hnew
  · refine ⟨s1, _, none, h, hinv1, ?_, .inr ⟨rfl, rfl⟩⟩
    rw [hbecomes.live]
    exact .failed

def SetclientidRes.verifier? : SetclientidRes → Option (BitVec 64)
  | .ok _ verifier => some verifier
  | _ => none

theorem setclientidInsert_spec (hinv : s.Inv held) (key : RecordKey) (ctx : RequestCtx)
    (arg : SetclientidArgs) (clientid verifier : BitVec 64) :
    ∃ t res new?, setclientidInsert s key ctx arg clientid verifier = some (t, res) ∧ t.Inv held ∧
      AddsNew s.nextAddr ctx key (withoutUnconfirmed s key) new? t.live ∧
      res.verifier? = new?.map ClientId.verifier := by
  unfold setclientidInsert
  obtain ⟨s1, s2, cl, h1, hcreate, hinv2, hbecomes, hrec, hnew⟩ :=
    createClientId_spec hinv clientid key ctx 0
  rw [h1, bind_some, hcreate]
  dsimp only
  split
  · refine ⟨_, _, none, rfl, hinv2, ?_, rfl⟩
    rw [hbecomes.live]
    exact .failed
  · have hnew' : IsNew ctx key { cl with
        cb := ⟨arg.rNetid, arg.rAddr, arg.cbProgram, arg.callbackIdent⟩
        incomingVerifier := arg.verifier
        verifier := verifier } := { hnew with }
    obtain ⟨t, rc, new?, ht, hinv', hadds, ⟨rfl, rfl⟩ | ⟨rfl, rfl⟩⟩ :=
      insertNew_spec hinv2 hbecomes hrec hnew'
    · rw [ht]
      exact ⟨t, _, _, rfl, hinv', hadds, rfl⟩
    · rw [ht]
      exact ⟨t, _, _, rfl, hinv', hadds, rfl⟩

theorem setclientid_spec (hinv : s.Inv held) (cfg : ClientConfig) (ctx : RequestCtx)
    (arg : SetclientidArgs) (hid : arg.id ≠ []) :
    ∃ t res, nfs4OpSetclientid cfg s ctx arg = some (t, res) ∧ t.Inv held ∧
      (t.live = s.live ∧ res.verifier? = none ∨
        ∃ key new?, getClientRecord cfg arg.id 0 0 = some key ∧
          AddsNew s.nextAddr ctx key (withoutUnconfirmed s key) new? t.live ∧
          res.verifier? = new?.map ClientId.verifier) := by
  unfold nfs4OpSetclientid
  split
  · exact ⟨s, _, rfl, hinv, .inl ⟨rfl, rfl⟩⟩
  · obtain ⟨key, hkey⟩ : ∃ key, getClientRecord cfg arg.id 0 0 = some key :=
      ⟨_, by rw [getClientRecord, if_neg hid]⟩
    rw [hkey, bind_some]
    -- the rest of the operation, from a store with other counters and references
    have htail : ∀ {s' : ClientStore} (c v : BitVec 64), s'.Inv held → s.Agree s' →
        ∃ t res, setclientidInsert s' key ctx arg c v = some (t, res) ∧ t.Inv held ∧
          (t.live = s.live ∧ res.verifier? = none ∨
            ∃ key' new?, some key = some key' ∧
              AddsNew s.nextAddr ctx key' (withoutUnconfirmed s key') new? t.live ∧
              res.verifier? = new?.map ClientId.verifier) := by
      intro s' c v hinv' hagree
      obtain ⟨t, res, new?, ht, hinvt, hadds, hverifier⟩ :=
        setclientidInsert_spec hinv' key ctx arg c v
      rw [withoutUnconfirmed_agree hagree, hagree.nextAddr] at hadds
      exact ⟨t, res, ht, hinvt, .inr ⟨key, new?, rfl, hadds, hverifier⟩⟩
    dsimp only
    split
    · exact htail _ _ (hinv.counters _ _) ⟨rfl, rfl, rfl, rfl, rfl, rfl⟩
    · rename_i r hrec
      obtain ⟨cl, hlive, hconf, _⟩ := (hinv.wf.confirmedRec _ r).1 hrec
      obtain ⟨cl, hids, _, rfl⟩ := exists_ids_of_live hlive
      obtain ⟨s1, h1, hinv1, hagree1, _, hids1⟩ := hinv.exists_inc hids
      have hdec : ∀ counter verifier, ∃ t,
          { s1 with clientidCounter := counter, clientidVerifier := verifier }.decClientIdRef r =
            some t ∧ t.Inv held ∧ s.Agree t := by
        intro counter verifier
        obtain ⟨t, ht, hinv', hagree, _⟩ := (hinv1.counters counter verifier).dec
        exact ⟨t, ht, hinv', hagree1.trans { hagree with }⟩
      rw [h1, bind_some, hids1, bind_some]
      split
      · obtain ⟨t, ht, hinv', hagree⟩ := hdec s1.clientidCounter s1.clientidVerifier
        rw [ht]
        exact ⟨t, _, rfl, hinv', .inl ⟨hagree.live, rfl⟩⟩
      · split
        · obtain ⟨t, ht, hinv', hagree⟩ := hdec s1.clientidCounter (s1.clientidVerifier + 1)
          dsimp only [newClientidVerifier]
          rw [ht, bind_some]
          exact htail _ _ hinv' hagree
        · obtain ⟨t, ht, hinv', hagree⟩ :=
            hdec (s1.clientidCounter + 1) (s1.clientidVerifier + 1)
          dsimp only [newClientidVerifier, newClientid]
          rw [ht, bind_some]
          exact htail _ _ hinv' hagree

theorem setclientid_cases {arg : SetclientidArgs} {res : SetclientidRes}
    (hinv : s.Inv held) (h : nfs4OpSetclientid cfg s ctx arg = some (t, res)) :
    t.Inv held ∧ (t.live = s.live ∧ res.verifier? = none ∨
      ∃ key new?, getClientRecord cfg arg.id 0 0 = some key ∧
        AddsNew s.nextAddr ctx key (withoutUnconfirmed s key) new? t.live ∧
        res.verifier? = new?.map ClientId.verifier) := by
  by_cases hid : arg.id = []
  · unfold nfs4OpSetclientid at h
    split at h
    · cases h
      exact ⟨hinv, .inl ⟨rfl, rfl⟩⟩
    · simp [getClientRecord, hid] at h
  · obtain ⟨t', res', h', hspec⟩ := setclientid_spec hinv cfg ctx arg hid
    rw [h] at h'
    cases h'
    exact hspec

def FoundId.state : FoundId → ConfirmState
  | .unconf _ => .unconfirmed
  | .conf _ => .confirmed

def foundAt (s : ClientStore) (clientid : BitVec 64) : Option FoundId :=
  if (clientid >>> 32).setWidth 32 ≠ s.epochLow then none
  else
    match s.unconfirmedTable clientid with
    | some r => some (.unconf r)
    | none => (s.confirmedTable clientid).bind fun r =>
      if (s.live r).any fun cl => cl.confirmed = .confirmed then some (.conf r) else none

theorem foundAt_spec (hwf : s.Wf) {found : FoundId} (h : foundAt s clientid = some found) :
    ∃ cl, s.live found.addr = some cl ∧ cl.confirmed = found.state ∧ cl.clientid = clientid := by
  unfold foundAt at h
  split at h
  · cases h
  · cases hun : s.unconfirmedTable clientid with
    | some r =>
      rw [hun] at h
      obtain rfl := some.inj h
      obtain ⟨cl, hlive, hstate, hid⟩ := (hwf.unconfirmed clientid r).1 hun
      exact ⟨cl, hlive, hstate, hid⟩
    | none =>
      rw [hun] at h
      obtain ⟨r, hconf, h⟩ := bind_eq_some_iff.1 h
      obtain ⟨cl, hlive, _, hid⟩ := (hwf.confirmed clientid r).1 hconf
      rw [hlive] at h
      split at h
      · rename_i hany
        obtain rfl := some.inj h
        exact ⟨cl, hlive, by simpa [FoundId.state] using hany, hid⟩
      · cases h

theorem lookupClientId_inv {found? : Except ClientidStatus (FoundId × RecordKey)}
    (h : lookupClientId s clientid = some (t, found?)) :
    (∃ r key, s.nfsClientIdGet s.unconfirmedTable clientid = some (t, .ok r) ∧
      found? = .ok (.unconf r, key)) ∨
    ∃ u rc res, s.nfsClientIdGet s.unconfirmedTable clientid = some (u, .error rc) ∧
      u.nfsClientIdGet u.confirmedTable clientid = some (t, res) ∧
      ∀ found key, found? = .ok (found, key) → ∃ r, res = .ok r ∧ found = .conf r := by
  obtain ⟨⟨u, res1⟩, h1, h⟩ := bind_eq_some_iff.1 h
  cases res1 with
  | ok r =>
    obtain ⟨cl, _, h⟩ := bind_eq_some_iff.1 h
    obtain ⟨key, _, h⟩ := map_eq_some_iff.1 h
    cases h
    exact .inl ⟨r, key, h1, rfl⟩
  | error rc =>
    obtain ⟨⟨u2, res2⟩, h2, h⟩ := bind_eq_some_iff.1 h
    cases res2 with
    | ok r =>
      obtain ⟨cl, _, h⟩ := bind_eq_some_iff.1 h
      obtain ⟨key, _, h⟩ := map_eq_some_iff.1 h
      cases h
      refine .inr ⟨u, rc, _, h1, h2, fun _ _ heq => ?_⟩
      cases heq
      exact ⟨r, rfl, rfl⟩
    | error rc' =>
      cases h
      exact .inr ⟨u, rc, _, h1, h2, nofun⟩

inductive Lookup (s : ClientStore) (held : Nat → Nat) (clientid : BitVec 64) :
    ClientStore → Except ClientidStatus (FoundId × RecordKey) → Prop
  | found {t : ClientStore} {found : FoundId} {key : RecordKey} {cl : ClientId} :
      foundAt s clientid = some found → s.live found.addr = some cl →
      cl.confirmed = found.state → cl.clientid = clientid → cl.clientRecord = some key →
      t.Inv (bump held found.addr) → s.Agree t → t.sessions = s.sessions →
      Lookup s held clientid t (.ok (found, key))
  | notFound {t : ClientStore} {rc : ClientidStatus} :
      foundAt s clientid = none → t.Inv held → s.Agree t → t.sessions = s.sessions →
      Lookup s held clientid t (.error rc)

theorem lookupClientId_spec (hinv : s.Inv held) (clientid : BitVec 64) :
    ∃ t res, lookupClientId s clientid = some (t, res) ∧ Lookup s held clientid t res := by
  unfold lookupClientId nfsClientIdGet
  by_cases hepoch : (clientid >>> 32).setWidth 32 ≠ s.epochLow
  · simp only [if_pos hepoch, bind_some]
    exact ⟨s, _, rfl, .notFound (if_pos hepoch) hinv (.refl s) rfl⟩
  · have hfound : foundAt s clientid = _ := if_neg hepoch
    simp only [if_neg hepoch]
    cases hun : s.unconfirmedTable clientid with
    | some r =>
      obtain ⟨cl, hlive, hstate, hid⟩ := (hinv.wf.unconfirmed clientid r).1 hun
      obtain ⟨key, hkey⟩ := hinv.wf.exists_key hlive (by simp [hstate])
      obtain ⟨cl0, hids, _, rfl⟩ := exists_ids_of_live hlive
      obtain ⟨t, ht, hinv', hagree, hsessions, hids'⟩ := hinv.exists_inc hids
      have hstate0 : cl0.confirmed = .unconfirmed := hstate
      have hkey0 : cl0.clientRecord = some key := hkey
      rw [hun] at hfound
      refine ⟨t, .ok (.unconf r, key), ?_,
        .found hfound hlive hstate hid hkey hinv' hagree hsessions⟩
      simp [ht, hids', hstate0, hkey0]
    | none =>
      simp only [bind_some, if_neg hepoch]
      cases hconf : s.confirmedTable clientid with
      | none =>
        rw [hun, hconf] at hfound
        exact ⟨s, _, rfl, .notFound hfound hinv (.refl s) rfl⟩
      | some r =>
        obtain ⟨cl, hlive, hstate, hid⟩ := (hinv.wf.confirmed clientid r).1 hconf
        obtain ⟨cl0, hids, _, rfl⟩ := exists_ids_of_live hlive
        obtain ⟨t, ht, hinv', hagree, hsessions, hids'⟩ := hinv.exists_inc hids
        rw [hun, hconf] at hfound
        simp only [bind_some, hlive, any_some] at hfound
        by_cases hstale : cl0.confirmed = .stale
        · obtain ⟨u, hu, hinv'', hagree', hsessions'⟩ := hinv'.dec
          rw [if_neg (by simp [ClientId.erased, hstale])] at hfound
          refine ⟨u, .error .stale, ?_, .notFound hfound hinv'' (hagree.trans hagree')
            (hsessions'.trans hsessions)⟩
          simp [ht, hids', hstale, hu]
        · have hconfirmed : cl0.confirmed = .confirmed := by
            cases hc : cl0.confirmed with
            | confirmed => rfl
            | unconfirmed => exact absurd hc hstate
            | expired => exact absurd hc ‹_›
            | stale => exact absurd hc hstale
          obtain ⟨key, hkey⟩ := hinv.wf.exists_key hlive hstale
          have hkey0 : cl0.clientRecord = some key := hkey
          rw [if_pos (by simp [ClientId.erased, hconfirmed])] at hfound
          refine ⟨t, .ok (.conf r, key), ?_,
            .found hfound hlive hconfirmed hid hkey hinv' hagree hsessions⟩
          simp [ht, hids', hconfirmed, hkey0]

def withoutConfirmed (s : ClientStore) (key : RecordKey) : Nat → Option ClientId :=
  match (s.records key).confirmedRec with
  | none => s.live
  | some v => update s.live v none

theorem withoutConfirmed_le {key : RecordKey} (h : withoutConfirmed s key r = some cl) :
    s.live r = some cl :=
  of_without h

structure Confirms (s : ClientStore) (ctx : RequestCtx) (arg : SetclientidConfirmArgs) (r : Nat)
    (unconf : ClientId) : Prop where
  minorversion : ctx.minorversion = 0
  found : foundAt s arg.clientid = some (.unconf r)
  live : s.live r = some unconf
  principal : samePrincipal unconf ctx = true

theorem Confirms.unique {r r' : Nat} {unconf unconf' : ClientId} (h : Confirms s ctx arg r unconf)
    (h' : Confirms s ctx arg r' unconf') : r = r' ∧ unconf = unconf' := by
  obtain rfl : r = r' := by simpa using h.found.symm.trans h'.found
  exact ⟨rfl, some.inj (h.live.symm.trans h'.live)⟩

def updatedFrom (conf unconf : ClientId) (now : Nat) : ClientId :=
  { conf with cb := unconf.cb, lastRenew := now, verifier := unconf.verifier }

/-- The client IDs that SETCLIENTID_CONFIRM leaves. The verifier of the request has no part in
it. -/
inductive ConfirmOutcome (s : ClientStore) (ctx : RequestCtx) (arg : SetclientidConfirmArgs) :
    (Nat → Option ClientId) → Prop
  | refused : (∀ r unconf, ¬ Confirms s ctx arg r unconf) → ConfirmOutcome s ctx arg s.live
  | updated {r v : Nat} {unconf conf : ClientId} {key : RecordKey} :
      Confirms s ctx arg r unconf → unconf.clientRecord = some key →
      (s.records key).confirmedRec = some v → s.live v = some conf →
      conf.clientid = arg.clientid →
      ConfirmOutcome s ctx arg
        (update (update s.live v (some (updatedFrom conf unconf ctx.now))) r none)
  | confirmed {r : Nat} {unconf : ClientId} {key : RecordKey} :
      Confirms s ctx arg r unconf → unconf.clientRecord = some key →
      (∀ v conf, (s.records key).confirmedRec = some v → s.live v = some conf →
        conf.clientid ≠ arg.clientid) →
      s.confirmedTable arg.clientid = none →
      ConfirmOutcome s ctx arg
        (update (withoutConfirmed s key) r (some { unconf with confirmed := .confirmed }))
  | failed {r : Nat} {unconf : ClientId} {key : RecordKey} :
      Confirms s ctx arg r unconf → unconf.clientRecord = some key →
      (∀ v conf, (s.records key).confirmedRec = some v → s.live v = some conf →
        conf.clientid ≠ arg.clientid) →
      s.confirmedTable arg.clientid ≠ none →
      ConfirmOutcome s ctx arg (update (withoutConfirmed s key) r none)

def AfterConfirm (s : ClientStore) (r : Nat) (cl : ClientId) (base live' : Nat → Option ClientId) :
    Prop :=
  s.confirmedTable cl.clientid = none ∧
      live' = update base r (some { cl with confirmed := .confirmed }) ∨
    s.confirmedTable cl.clientid ≠ none ∧ live' = update base r none

theorem ne_of_unconfirmed {r v : Nat} {unconf conf : ClientId} (hr : s.live r = some unconf)
    (hun : unconf.confirmed = .unconfirmed) (hv : s.live v = some conf)
    (hconf : conf.confirmed = .confirmed) : r ≠ v := by
  rintro rfl
  rw [← some.inj (hr.symm.trans hv), hun] at hconf
  cases hconf

theorem expireConfirmed_spec {v r : Nat} {conf cl : ClientId} (hinv : s.Inv (bump held v))
    (hrec : (s.records key).confirmedRec = some v) (hconf : s.live v = some conf)
    (hlive : s.live r = some cl) (hne : r ≠ v) (hid : conf.clientid ≠ cl.clientid) :
    ∃ t u, s.nfsClientIdExpire v false = some u ∧ u.decClientIdRef v = some t ∧ t.Inv held ∧
      s.Becomes t (update s.live v none) ∧ t.live r = some cl ∧
      (t.records key).confirmedRec = none ∧
      (t.confirmedTable cl.clientid = none ↔ s.confirmedTable cl.clientid = none) ∧
      ∀ x ∈ s.sessions, x.sessionId.clientid ≠ conf.clientid → x ∈ t.sessions := by
  obtain ⟨u, hu, hinvu, hbecomes, hkeep⟩ := hinv.expire hconf
  obtain ⟨t, ht, hinvt, hagree, hsessions⟩ := hinvu.dec
  have hlivet : t.live = update s.live v none := hagree.live.trans hbecomes.live
  refine ⟨t, u, hu, ht, hinvt, ⟨hlivet, hagree.nextAddr.trans hbecomes.nextAddr,
    hagree.epochLow.trans hbecomes.epochLow⟩, ?_, ?_, ?_, ?_⟩
  · rw [hlivet, update_of_ne hne]
    exact hlive
  · exact pointer_eq_none (hinv.wf.confirmedRec key) (hlivet ▸ hinvt.wf.confirmedRec key) hrec
  · have hiff : ∀ w, t.confirmedTable cl.clientid = some w ↔
        s.confirmedTable cl.clientid = some w := by
      intro w
      rw [hinvt.wf.confirmed, hinv.wf.confirmed, hlivet]
      by_cases hw : w = v
      · subst hw
        simp only [update_self, reduceCtorEq, false_and, exists_false, false_iff]
        rintro ⟨cl', hlive', _, hid'⟩
        rw [hconf] at hlive'
        exact hid (some.inj hlive' ▸ hid')
      · rw [update_of_ne hw]
    simp only [eq_none_iff_forall_ne_some, ne_eq, hiff]
  · intro x hx hx'
    rw [hsessions]
    exact hkeep x hx hx'

theorem confirmNew_spec (hinv : s.Inv (bump held r)) (hlive : s.live r = some cl)
    (hun : cl.confirmed = .unconfirmed) (hkey : cl.clientRecord = some key)
    (hnone : (s.records key).confirmedRec = none) :
    ∃ t status, confirmNew s r = some (t, status) ∧ t.Inv held ∧
      AfterConfirm s r cl s.live t.live := by
  obtain ⟨u, rc, hu, hinvu, _, hcases⟩ := hinv.confirm hlive hun hkey hnone
  obtain ⟨t, ht, hinvt, hagree, _⟩ := hinvu.dec
  refine ⟨t, _, by rw [confirmNew, hu, bind_some]; dsimp only; rw [ht, map_some], hinvt, ?_⟩
  rw [hagree.live]
  rcases hcases with ⟨hnone, _, hbecomes⟩ | ⟨hsome, _, hbecomes⟩
  · exact .inl ⟨hnone, hbecomes.live⟩
  · exact .inr ⟨hsome, hbecomes.live⟩

theorem updateConfirmed_spec {r v : Nat} {unconf conf cl0 : ClientId} (ctx : RequestCtx)
    (hinv : s.Inv (bump (bump held r) v)) (hlive : s.live r = some unconf)
    (hun : unconf.confirmed = .unconfirmed) (hids : s.ids v = some conf)
    (hconf : conf.confirmed = .confirmed) (hne : r ≠ v) (hcl0 : cl0.erased = unconf) :
    ∃ t status, updateConfirmed s ctx r v cl0 conf = some (t, status) ∧ t.Inv held ∧
      t.live = update
        (update s.live v (some (updatedFrom conf.erased unconf ctx.now))) r none := by
  subst hcl0
  obtain ⟨hinv1, hbecomes1⟩ := hinv.touch hids
    { conf with cb := cl0.cb, lastRenew := ctx.now, verifier := cl0.verifier }
    (by simp [hconf]) rfl rfl rfl rfl rfl
  generalize hs1 : s.setId v (some { conf with
    cb := cl0.cb, lastRenew := ctx.now, verifier := cl0.verifier }) = s1 at hinv1 hbecomes1
  have hlive1 : s1.live r = some cl0.erased := by
    rw [hbecomes1.live, update_of_ne hne]
    exact hlive
  obtain ⟨s2, h2, hinv2, hbecomes2, _⟩ := hinv1.removeUnconfirmed hlive1 hun
  rw [bump_comm] at hinv2
  obtain ⟨s3, h3, hinv3, hagree3, _⟩ := hinv2.dec
  obtain ⟨t, ht, hinvt, hagree, _⟩ := hinv3.dec
  refine ⟨t, .ok, ?_, hinvt, ?_⟩
  · unfold updateConfirmed
    dsimp only
    rw [hs1, h2, bind_some, h3, bind_some, ht, map_some]
  · rw [hagree.live, hagree3.live, hbecomes2.live, hbecomes1.live]
    rfl

theorem confirmUnconfirmed_spec {unconf : ClientId} (hinv : s.Inv (bump held r))
    (hlive : s.live r = some unconf) (hun : unconf.confirmed = .unconfirmed)
    (hkey : unconf.clientRecord = some key) (hid : unconf.clientid = arg.clientid)
    (hprincipal : samePrincipal unconf ctx = true) :
    ∃ t status, confirmUnconfirmed s ctx arg r key = some (t, status) ∧ t.Inv held ∧
      ((∃ v conf, (s.records key).confirmedRec = some v ∧ s.live v = some conf ∧
          conf.clientid = arg.clientid ∧ t.live = update
            (update s.live v (some (updatedFrom conf unconf ctx.now))) r none) ∨
        (∀ v conf, (s.records key).confirmedRec = some v → s.live v = some conf →
          conf.clientid ≠ arg.clientid) ∧
          AfterConfirm s r unconf (withoutConfirmed s key) t.live) := by
  obtain ⟨cl0, hids, _, rfl⟩ := exists_ids_of_live hlive
  have hprincipal0 : samePrincipal cl0 ctx = true := hprincipal
  have hun0 : cl0.confirmed = .unconfirmed := hun
  unfold confirmUnconfirmed withoutConfirmed
  rw [hids, bind_some, if_neg (by simp [hprincipal0]), if_neg (by simp [hun0]),
    if_neg (by simp [hun0])]
  cases hrec : (s.records key).confirmedRec with
  | none =>
    obtain ⟨t, status, ht, hinvt, hafter⟩ := confirmNew_spec hinv hlive hun hkey hrec
    exact ⟨t, status, ht, hinvt, .inr ⟨(fun v conf h => by cases h), hafter⟩⟩
  | some v =>
    obtain ⟨conf, hlivev, hconf, _⟩ := (hinv.wf.confirmedRec key v).1 hrec
    obtain ⟨conf0, hidsv, _, rfl⟩ := exists_ids_of_live hlivev
    have hne : r ≠ v := ne_of_unconfirmed hlive hun hlivev hconf
    obtain ⟨s1, h1, hinv1, hagree1, _, hids1⟩ := hinv.exists_inc hidsv
    have hlive1 : s1.live r = some cl0.erased := hagree1.live ▸ hlive
    have hlivev1 : s1.live v = some conf0.erased := hagree1.live ▸ hlivev
    dsimp only
    rw [h1, bind_some, hids1, bind_some]
    by_cases hold : conf0.clientid = arg.clientid
    · rw [if_neg (by simpa using hold)]
      obtain ⟨t, status, ht, hinvt, hlivet⟩ :=
        updateConfirmed_spec ctx hinv1 hlive1 hun hids1 hconf hne rfl
      refine ⟨t, status, ht, hinvt, .inl ⟨v, _, rfl, hlivev, hold, ?_⟩⟩
      rw [hlivet, hagree1.live]
      rfl
    · rw [if_pos (by simpa using hold)]
      have hrec1 : (s1.records key).confirmedRec = some v := hagree1.records ▸ hrec
      have hdiff : conf0.erased.clientid ≠ cl0.erased.clientid := fun h => hold (h.trans hid)
      obtain ⟨s3, s2, h2, h3, hinv3, hbecomes, hlive3, hrec3, htable, _⟩ :=
        expireConfirmed_spec hinv1 hrec1 hlivev1 hlive1 hne hdiff
      obtain ⟨t, status, ht, hinvt, hafter⟩ := confirmNew_spec hinv3 hlive3 hun hkey hrec3
      refine ⟨t, status, by rw [h2, bind_some, h3, bind_some, ht], hinvt, .inr ⟨?_, ?_⟩⟩
      · intro w conf hw hlivew
        obtain rfl := some.inj hw
        rw [← some.inj (hlivev.symm.trans hlivew)]
        exact hold
      · unfold AfterConfirm at hafter ⊢
        rw [hbecomes.live, hagree1.live] at hafter
        rw [Ne, ← hagree1.confirmedTable, ← htable]
        exact hafter

theorem setclientidConfirm_spec (hinv : s.Inv held) (ctx : RequestCtx)
    (arg : SetclientidConfirmArgs) :
    ∃ t status, nfs4OpSetclientidConfirm s ctx arg = some (t, status) ∧ t.Inv held ∧
      ConfirmOutcome s ctx arg t.live := by
  unfold nfs4OpSetclientidConfirm
  by_cases hminor : 0 < ctx.minorversion
  · rw [if_pos hminor]
    refine ⟨s, _, rfl, hinv, .refused ?_⟩
    intro r unconf h
    exact absurd h.minorversion (by omega)
  rw [if_neg hminor]
  obtain ⟨s1, res, h1, hlookup⟩ := lookupClientId_spec hinv arg.clientid
  rw [h1, bind_some]
  cases hlookup with
  | notFound hnone hinv1 hagree hsessions =>
    refine ⟨s1, _, rfl, hinv1, ?_⟩
    rw [hagree.live]
    exact .refused fun r unconf h => absurd h.found (by simp [hnone])
  | @found found key cl hfound hlive hstate hid hkey hinv1 hagree hsessions =>
    obtain ⟨t0, ht0, hinvt0, hagree0, _⟩ := hinv1.dec
    have hlive1 : s1.live found.addr = some cl := hagree.live ▸ hlive
    obtain ⟨cl0, hids, _, rfl⟩ := exists_ids_of_live hlive1
    dsimp only
    cases found with
    | conf v =>
      have hids0 : s1.ids v = some cl0 := hids
      have ht1 : s1.decClientIdRef v = some t0 := ht0
      refine ⟨t0, if !samePrincipal cl0 ctx then .clidInuse
        else if cl0.verifier = arg.setclientidConfirm then .ok else .clidInuse, ?_, hinvt0, ?_⟩
      · rw [setclientidConfirmSection, confirmConfirmed, hids0, bind_some, ht1, map_some]
      · rw [hagree0.live, hagree.live]
        exact .refused fun r unconf h => absurd h.found (by simp [hfound])
    | unconf r =>
      by_cases hprincipal : samePrincipal cl0.erased ctx = true
      · have hconfirms : Confirms s ctx arg r cl0.erased :=
          ⟨by omega, hfound, hlive, hprincipal⟩
        obtain ⟨t, status, ht, hinvt, hcases⟩ :=
          confirmUnconfirmed_spec hinv1 hlive1 hstate hkey hid hprincipal
        refine ⟨t, status, ht, hinvt, ?_⟩
        rw [hagree.records, hagree.live] at hcases
        rcases hcases with ⟨v, conf, hrec, hlivev, hold, hlivet⟩ | ⟨hnot, hafter⟩
        · rw [hlivet]
          exact .updated hconfirms hkey hrec hlivev hold
        · unfold AfterConfirm at hafter
          rw [hagree.confirmedTable] at hafter
          have hbase : withoutConfirmed s1 key = withoutConfirmed s key := by
            simp only [withoutConfirmed, hagree.records, hagree.live]
          rw [hbase] at hafter
          rcases hafter with ⟨hnone, hlivet⟩ | ⟨hsome, hlivet⟩
          · rw [hlivet]
            rw [hid] at hnone
            exact .confirmed hconfirms hkey hnot hnone
          · rw [hlivet]
            rw [hid] at hsome
            exact .failed hconfirms hkey hnot hsome
      · have hprincipal0 : samePrincipal cl0 ctx = false := Bool.eq_false_iff.2 hprincipal
        have hids0 : s1.ids r = some cl0 := hids
        have ht1 : s1.decClientIdRef r = some t0 := ht0
        refine ⟨t0, .clidInuse, ?_, hinvt0, ?_⟩
        · rw [setclientidConfirmSection, confirmUnconfirmed, hids0, bind_some,
            if_pos (by simp [hprincipal0]), ht1, map_some]
        · rw [hagree0.live, hagree.live]
          refine .refused fun r' unconf h => ?_
          have heq := h.found.symm.trans hfound
          obtain rfl : r' = r := by simpa using heq
          obtain rfl := some.inj (h.live.symm.trans hlive)
          exact hprincipal h.principal

theorem setclientidConfirm_cases {status : Nfsstat4} (hinv : s.Inv held)
    (h : nfs4OpSetclientidConfirm s ctx arg = some (t, status)) :
    t.Inv held ∧ ConfirmOutcome s ctx arg t.live := by
  obtain ⟨t', status', h', hspec⟩ := setclientidConfirm_spec hinv ctx arg
  rw [h] at h'
  cases h'
  exact hspec

end EdgeComputing.Nfs4
