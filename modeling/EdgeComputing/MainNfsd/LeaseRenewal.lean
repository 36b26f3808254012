import EdgeComputing.MainNfsd.Reaper

/-!
Which leases SETCLIENTID_CONFIRM and CREATE_SESSION renew, in any store: the record a request has
found may have been expired since, and the section goes on with it.
-/

namespace EdgeComputing.MainNfsd

open Option Function Nfs4 Sal Sal.ClientStore

variable {cfg : ClientConfig} {s t u : ClientStore} {r : Nat} {cl : ClientId} {key : RecordKey}
  {ctx : RequestCtx} {v : Nat}

def leaseAt (s : ClientStore) (r : Nat) : Option (Nat × Nat) :=
  (s.live r).map fun cl => (cl.lastRenew, cl.leaseReservations)

structure LeaseKept (s t : ClientStore) (r : Nat) : Prop where
  lease : leaseAt t r = none ∨ leaseAt t r = leaseAt s r
  follows : s.Follows t

theorem LeaseKept.trans (hst : LeaseKept s t r) (htu : LeaseKept t u r) : LeaseKept s u r := by
  refine ⟨?_, hst.follows.trans htu.follows⟩
  rcases htu.lease with h | h
  · exact .inl h
  · rcases hst.lease with h' | h'
    · exact .inl (h.trans h')
    · exact .inr (h.trans h')

theorem leaseAt_congr (h : t.live = s.live) (r : Nat) : leaseAt t r = leaseAt s r := by
  rw [leaseAt, leaseAt, h]

theorem leaseKept_of_quiet (h : s.Quiet t) (r : Nat) : LeaseKept s t r :=
  ⟨.inr (leaseAt_congr h.live r), h.follows⟩

theorem leaseKept_of_gone (hfollows : s.Follows t) (h : t.live = update s.live v none) (r : Nat) :
    LeaseKept s t r := by
  refine ⟨?_, hfollows⟩
  unfold leaseAt
  rw [h]
  by_cases hr : r = v
  · subst hr
    exact .inl (by rw [update_self, map_none])
  · exact .inr (by rw [update_of_ne hr])

variable {r' now : Nat} {clientid : BitVec 64} {status status' : Nfsstat4} {renews : Prop}

theorem leaseKept_of_dec (h : (s.decClientIdRef v).map (·, status') = some (t, status)) (r : Nat) :
    LeaseKept s t r := by
  obtain ⟨u, hu, h⟩ := map_eq_some_iff.1 h
  cases h
  exact leaseKept_of_quiet (decClientIdRef_quiet hu) r

theorem nfsClientIdConfirm_leaseKept {rc : ClientidStatus}
    (h : s.nfsClientIdConfirm r' = some (t, rc)) (hlive : s.live r' ≠ none) (r : Nat) :
    LeaseKept s t r := by
  obtain ⟨hfollows, cl, hids, ⟨_, _, _, _, hlivet⟩ | ⟨_, _, hlivet | hlivet⟩⟩ :=
    nfsClientIdConfirm_effect h
  · have hexp : cl.confirmed ≠ .expired := by
      intro hexp
      rw [live, hids, liveOf_expired hexp] at hlive
      exact hlive rfl
    refine ⟨.inr ?_, hfollows⟩
    unfold leaseAt
    rw [hlivet]
    by_cases hr : r = r'
    · subst hr
      rw [update_self, live_of_ids hids hexp]
      rfl
    · rw [update_of_ne hr]
  · exact ⟨.inr (leaseAt_congr hlivet r), hfollows⟩
  · exact leaseKept_of_gone hfollows hlivet r

theorem confirmNew_leaseKept (h : confirmNew s r' = some (t, status)) (hlive : s.live r' ≠ none)
    (r : Nat) : LeaseKept s t r := by
  obtain ⟨⟨u, rc⟩, hu, h⟩ := bind_eq_some_iff.1 h
  exact (nfsClientIdConfirm_leaseKept hu hlive r).trans (leaseKept_of_dec h r)

structure RenewedOrKept (renews : Prop) (s t : ClientStore) (now r : Nat) : Prop where
  renewed : renews → ∃ cl, s.ids r = some cl ∧ leaseAt t r = some (now, cl.leaseReservations)
  kept : ¬ renews → leaseAt t r = none ∨ leaseAt t r = leaseAt s r
  follows : s.Follows t

theorem RenewedOrKept.of_kept (hnot : ¬ renews) (h : LeaseKept s t r) :
    RenewedOrKept renews s t now r :=
  ⟨fun hr => absurd hr hnot, fun _ => h.lease, h.follows⟩

theorem RenewedOrKept.after (hbefore : LeaseKept s u r) (h : RenewedOrKept renews u t now r) :
    RenewedOrKept renews s t now r := by
  refine ⟨fun hr => ?_, fun hnot => (hbefore.trans ⟨h.kept hnot, h.follows⟩).lease,
    hbefore.follows.trans h.follows⟩
  obtain ⟨cl, hcl, hlease⟩ := h.renewed hr
  obtain ⟨cl0, hcl0, _, hres⟩ := hbefore.follows.ids r cl hcl
  exact ⟨cl0, hcl0, hres ▸ hlease⟩

theorem clientid_of_follows (hfollows : s.Follows t)
    (hid : ∀ cl, s.ids r = some cl → cl.clientid = clientid) (cl : ClientId)
    (hcl : t.ids r = some cl) : cl.clientid = clientid := by
  obtain ⟨cl0, hcl0, heq, _⟩ := hfollows.ids r cl hcl
  exact heq.trans (hid cl0 hcl0)

section Confirmed

variable {clientid : BitVec 64} {v : Nat} {conf : ClientId}

theorem updatesConfirmed_iff (hrec : (s.records key).confirmedRec = some v)
    (hconf : s.ids v = some conf) (r' r : Nat) :
    UpdatesConfirmed s clientid key r' r ↔ conf.clientid = clientid ∧
      (v = r ∧ conf.confirmed ≠ .expired ∧ (r' ≠ r ∨ s.unconfirmedTable clientid = none)) := by
  constructor
  · rintro ⟨conf', hrec', hconf', hexp, hid, hsurvives⟩
    obtain rfl := some.inj (hrec.symm.trans hrec')
    obtain rfl := some.inj (hconf.symm.trans hconf')
    exact ⟨hid, rfl, hexp, hsurvives⟩
  · rintro ⟨hid, rfl, hexp, hsurvives⟩
    exact ⟨conf, hrec, hconf, hexp, hid, hsurvives⟩

theorem confirmsNew_iff (hrec : (s.records key).confirmedRec = some v)
    (hconf : s.ids v = some conf) : ConfirmsNew s clientid key ↔ conf.clientid ≠ clientid ∧
      s.unconfirmedTable clientid ≠ none ∧ s.confirmedTable clientid = none := by
  refine and_congr_left fun _ => ⟨fun h => h v conf hrec hconf, fun h v' conf' hrec' hconf' => ?_⟩
  obtain rfl := some.inj (hrec.symm.trans hrec')
  obtain rfl := some.inj (hconf.symm.trans hconf')
  exact h

end Confirmed

theorem liveOf_renewed (conf conf' : ClientId) (hstate : conf'.confirmed = conf.confirmed)
    (hrenew : conf'.lastRenew = now)
    (hreserved : conf'.leaseReservations = conf.leaseReservations) :
    (liveOf (some conf')).map (fun cl => (cl.lastRenew, cl.leaseReservations)) =
      (liveOf (some conf)).map fun cl => (now, cl.leaseReservations) := by
  by_cases hexp : conf.confirmed = .expired
  · rw [liveOf_expired hexp, liveOf_expired (hstate.trans hexp), map_none, map_none]
  · rw [liveOf_some hexp, liveOf_some (hstate ▸ hexp), map_some, map_some,
      ← hrenew]
    exact congrArg (fun n => some (conf'.lastRenew, n)) hreserved

theorem renewed_lease (r' : Nat) {conf : ClientId} {live' : Nat → Option ClientId}
    (hconf : s.ids v = some conf)
    (hremove : s.unconfirmedTable clientid = none ∧ live' = s.live ∨
      s.unconfirmedTable clientid ≠ none ∧ live' = update s.live r' none)
    (hself : leaseAt t v = (live' v).map fun cl => (now, cl.leaseReservations))
    (hother : ∀ r, r ≠ v →
      leaseAt t r = (live' r).map fun cl => (cl.lastRenew, cl.leaseReservations))
    (hfollows : s.Follows t) (r : Nat) :
    RenewedOrKept
      (v = r ∧ conf.confirmed ≠ .expired ∧ (r' ≠ r ∨ s.unconfirmedTable clientid = none))
      s t now r := by
  have hkept : live' r = none ∨ live' r = s.live r := by
    rcases hremove with ⟨_, rfl⟩ | ⟨_, rfl⟩
    · exact .inr rfl
    · by_cases hr : r = r'
      · exact .inl (by rw [hr, update_self])
      · exact .inr (update_of_ne hr ..)
  refine ⟨?_, ?_, hfollows⟩
  · rintro ⟨rfl, hexp, hsurvives⟩
    have hlive : live' v = some conf.erased := by
      rw [← live_of_ids hconf hexp]
      rcases hremove with ⟨_, rfl⟩ | ⟨hsome, rfl⟩
      · rfl
      · exact update_of_ne (Ne.symm (hsurvives.resolve_right hsome)) ..
    rw [hself, hlive]
    exact ⟨conf, hconf, rfl⟩
  · intro hnot
    by_cases hv : v = r
    · subst hv
      left
      rw [hself, map_eq_none_iff]
      by_cases hexp : conf.confirmed = .expired
      · rcases hkept with h | h
        · exact h
        · rw [h, live, hconf, liveOf_expired hexp]
      · rcases hremove with ⟨hnone, _⟩ | ⟨_, rfl⟩
        · exact absurd ⟨rfl, hexp, .inr hnone⟩ hnot
        · by_cases hr : r' = v
          · rw [hr, update_self]
          · exact absurd ⟨rfl, hexp, .inl hr⟩ hnot
    · rw [hother r (Ne.symm hv)]
      rcases hkept with h | h
      · exact .inl (by rw [h, map_none])
      · exact .inr (by rw [h, leaseAt])

theorem updateConfirmed_lease (clientid : BitVec 64) {unconf conf : ClientId}
    (hv : s.ids v = some conf) (hid : ∀ cl, s.ids r' = some cl → cl.clientid = clientid)
    (h : updateConfirmed s ctx r' v unconf conf = some (t, status)) (r : Nat) :
    RenewedOrKept
      (v = r ∧ conf.confirmed ≠ .expired ∧ (r' ≠ r ∨ s.unconfirmedTable clientid = none))
      s t ctx.now r := by
  unfold updateConfirmed at h
  obtain ⟨s2, h2, h⟩ := bind_eq_some_iff.1 h
  obtain ⟨s3, h3, h⟩ := bind_eq_some_iff.1 h
  obtain ⟨s4, h4, h⟩ := map_eq_some_iff.1 h
  cases h
  have hquiet := (decClientIdRef_quiet h3).trans (decClientIdRef_quiet h4)
  have hrenewed := liveOf_renewed conf { conf with
    cb := unconf.cb, lastRenew := ctx.now, verifier := unconf.verifier } rfl rfl rfl
  rw [← hv] at hrenewed
  obtain ⟨hfollows, cl', hcl', hremove⟩ := removeUnconfirmedClientId_effect h2
  have hset : s.Follows (s.setId v (some { conf with
      cb := unconf.cb, lastRenew := ctx.now, verifier := unconf.verifier })) :=
    follows_setId hv _ rfl rfl
  have htotal := (hset.trans hfollows).trans hquiet.follows
  have hid' : cl'.clientid = clientid := by
    by_cases hr : r' = v
    · subst hr
      rw [setId_ids_self] at hcl'
      cases hcl'
      exact hid conf hv
    · rw [setId_ids_of_ne _ _ _ hr] at hcl'
      exact hid cl' hcl'
  rw [setId_unconfirmedTable, hid'] at hremove
  have hlease : ∀ r, leaseAt t r = leaseAt s2 r := leaseAt_congr hquiet.live
  rcases hremove with ⟨hnone, rfl⟩ | ⟨hsome, hgone⟩
  · refine renewed_lease r' hv (.inl ⟨hnone, rfl⟩) ?_ ?_ htotal r
    · rw [hlease, leaseAt, live_setId, update_self]
      exact hrenewed
    · intro r hr
      rw [hlease, leaseAt, live_setId, update_of_ne hr]
  · refine renewed_lease r' hv (.inr ⟨hsome, rfl⟩) ?_ ?_ htotal r
    · rw [hlease, leaseAt, hgone, live_setId]
      by_cases hr : v = r'
      · rw [hr, update_self, update_self]
        rfl
      · rw [update_of_ne hr, update_of_ne hr, update_self]
        exact hrenewed
    · intro r hr
      rw [hlease, leaseAt, hgone, live_setId]
      by_cases hr' : r = r'
      · rw [hr', update_self, update_self]
      · rw [update_of_ne hr', update_of_ne hr', update_of_ne hr]

variable {found : FoundId}

theorem setclientidConfirmSection_lease {arg : SetclientidConfirmArgs}
    (hid : ∀ cl, s.ids found.addr = some cl → cl.clientid = arg.clientid)
    (h : setclientidConfirmSection s ctx arg found key = some (t, status)) (r : Nat) :
    RenewedOrKept (Renews s r (.setclientidConfirm ctx arg found key)) s t ctx.now r := by
  cases found with
  | conf v =>
    obtain ⟨conf, _, h⟩ := bind_eq_some_iff.1 h
    exact .of_kept id (leaseKept_of_dec h r)
  | unconf r' =>
    obtain ⟨unconf, hunconf, h⟩ := bind_eq_some_iff.1 h
    have hsame : ∀ {p : ClientId → Prop}, ¬ p unconf → ¬ ∃ cl, s.ids r' = some cl ∧ p cl := by
      rintro p hnot ⟨cl, hcl, hp⟩
      rw [hunconf] at hcl
      cases hcl
      exact hnot hp
    split_ifs at h with hprincipal hraced hstate
    · refine .of_kept (hsame fun hp => ?_) (leaseKept_of_dec h r)
      simp [hp.1] at hprincipal
    · refine .of_kept (hsame fun hp => ?_) (leaseKept_of_dec h r)
      rw [hraced.1] at hp
      cases hp.2.1
    · refine .of_kept (hsame fun hp => ?_) (leaseKept_of_dec h r)
      exact hstate hp.2.1
    have hun : unconf.confirmed = .unconfirmed := not_not.1 hstate
    have hlive : s.live r' = some unconf.erased := live_of_ids hunconf (by simp [hun])
    have hrenews : Renews s r (.setclientidConfirm ctx arg (.unconf r') key) ↔
        UpdatesConfirmed s arg.clientid key r' r :=
      ⟨fun ⟨_, _, _, _, hupdates⟩ => hupdates,
        fun hupdates => ⟨unconf, hunconf, by simpa using hprincipal, hun, hupdates⟩⟩
    rw [hrenews]
    cases hrec : (s.records key).confirmedRec with
    | none =>
      rw [hrec] at h
      refine .of_kept ?_ (confirmNew_leaseKept h (by simp [hlive]) r)
      simp [UpdatesConfirmed, hrec]
    | some v =>
      rw [hrec] at h
      obtain ⟨s1, h1, h⟩ := bind_eq_some_iff.1 h
      obtain ⟨conf1, hconf1, h⟩ := bind_eq_some_iff.1 h
      have hquiet := incClientIdRef_quiet h1
      obtain ⟨conf, hconf, hconfid, _, hconfstate⟩ := hquiet.ids v conf1 hconf1
      rw [updatesConfirmed_iff hrec hconf]
      split_ifs at h with hold
      · obtain ⟨s2, h2, h⟩ := bind_eq_some_iff.1 h
        obtain ⟨s3, h3, h⟩ := bind_eq_some_iff.1 h
        obtain ⟨hfollows, hgone, _⟩ := nfsClientIdExpire_effect h2
        have hne : r' ≠ v := by
          rintro rfl
          rw [hunconf] at hconf
          cases hconf
          exact hold (hconfid.trans (hid unconf hunconf))
        have hlive3 : s3.live r' ≠ none := by
          rw [(decClientIdRef_quiet h3).live, hgone, update_of_ne hne, hquiet.live, hlive]
          simp
        refine .of_kept ?_ ?_
        · exact fun hr => hold (hconfid.trans hr.1)
        · exact (((leaseKept_of_quiet hquiet r).trans (leaseKept_of_gone hfollows hgone r)).trans
            (leaseKept_of_quiet (decClientIdRef_quiet h3) r)).trans
            (confirmNew_leaseKept h hlive3 r)
      · have hold' : conf.clientid = arg.clientid := hconfid.symm.trans (not_not.1 hold)
        rw [and_iff_right hold', ← hconfstate, ← hquiet.unconfirmedTable]
        exact .after (leaseKept_of_quiet hquiet r) (updateConfirmed_lease arg.clientid hconf1
          (clientid_of_follows hquiet.follows hid) h r)

variable {res res' : CreateSessionRes} {sessionId : SessionId} {arg : CreateSessionArgs}
  {session : Nat}

theorem createSessionOut_quiet {found : Nat} {session : Option Nat}
    (h : createSessionOut s found session res = some (t, res')) : s.Quiet t := by
  obtain ⟨u, hu, h⟩ := bind_eq_some_iff.1 h
  cases session with
  | none =>
    cases h
    exact decClientIdRef_quiet hu
  | some addr =>
    obtain ⟨w, hw, h⟩ := map_eq_some_iff.1 h
    cases h
    exact (decClientIdRef_quiet hu).trans (decSessionRef_quiet hw)

theorem createSessionFinish_lease {v found session : Nat}
    (h : createSessionFinish s ctx v found session res = some (t, res')) :
    leaseAt t v = ((s.live v).map fun cl => (ctx.now, cl.leaseReservations)) ∧
      (∀ r, r ≠ v → leaseAt t r = leaseAt s r) ∧ s.Follows t := by
  obtain ⟨cl, hcl, h⟩ := bind_eq_some_iff.1 h
  have hquiet := createSessionOut_quiet h
  have hrenewed := liveOf_renewed cl (renewedBy cl ctx.now res) rfl rfl rfl
  rw [← hcl] at hrenewed
  refine ⟨?_, ?_, (follows_setId hcl (renewedBy cl ctx.now res) rfl rfl).trans hquiet.follows⟩
  · rw [leaseAt, hquiet.live, live_setId, update_self]
    exact hrenewed
  · intro r hr
    rw [leaseAt, hquiet.live, live_setId, update_of_ne hr, leaseAt]

theorem createSessionConfirm_lease (hid : ∀ cl, s.ids r' = some cl → cl.clientid = clientid)
    (h : createSessionConfirm s ctx r' session sessionId res = some (t, res')) (r : Nat) :
    RenewedOrKept (r' = r ∧ s.unconfirmedTable clientid ≠ none ∧ s.confirmedTable clientid = none)
      s t ctx.now r := by
  obtain ⟨⟨u, rc⟩, hu, h⟩ := bind_eq_some_iff.1 h
  obtain ⟨hfollows, cl, hcl, ⟨rfl, htable, hnone, _, hlive⟩ | ⟨hrc, hfails, hlive⟩⟩ :=
    nfsClientIdConfirm_effect hu
  · rw [hid cl hcl] at htable hnone
    obtain ⟨hself, hother, hfollows'⟩ := createSessionFinish_lease h
    by_cases hr : r' = r
    · subst hr
      refine ⟨fun _ => ⟨cl, hcl, ?_⟩, fun hnot => absurd ⟨rfl, htable, hnone⟩ hnot,
        hfollows.trans hfollows'⟩
      rw [hself, hlive, update_self]
      rfl
    · refine .of_kept (fun h => hr h.1) ⟨.inr ?_, hfollows.trans hfollows'⟩
      rw [hother r (Ne.symm hr), leaseAt, hlive, update_of_ne (Ne.symm hr), leaseAt]
  · rw [hid cl hcl] at hfails
    have hkept : LeaseKept s u r := by
      rcases hlive with hlive | hlive
      · exact ⟨.inr (leaseAt_congr hlive r), hfollows⟩
      · exact leaseKept_of_gone hfollows hlive r
    refine .of_kept (fun hr => ?_) (hkept.trans (leaseKept_of_quiet ?_ r))
    · rcases hfails with hf | hf
      · exact hr.2.1 hf
      · exact hf hr.2.2
    · cases rc with
      | success => exact absurd rfl hrc
      | _ =>
        obtain ⟨w, hw, h⟩ := bind_eq_some_iff.1 h
        exact (nfs41SessionDel_quiet hw).trans (createSessionOut_quiet h)

theorem createSessionRecords_lease
    (hid : ∀ cl, s.ids found.addr = some cl → cl.clientid = arg.clientid)
    (h : createSessionRecords s ctx arg key session sessionId res found = some (t, res'))
    (r : Nat) : RenewedOrKept (SessionRenews s arg.clientid key r found) s t ctx.now r := by
  cases found with
  | conf v =>
    obtain ⟨conf, _, h⟩ := bind_eq_some_iff.1 h
    split_ifs at h with hold
    obtain ⟨hself, hother, hfollows⟩ := createSessionFinish_lease h
    by_cases hr : v = r
    · subst hr
      refine ⟨?_, ?_, hfollows⟩
      · rintro ⟨_, hlive⟩
        obtain ⟨cl, hcl⟩ := ne_none_iff_exists'.1 hlive
        obtain ⟨cl0, hids, _, rfl⟩ := exists_ids_of_live hcl
        exact ⟨cl0, hids, by rw [hself, hcl]; rfl⟩
      · intro hnot
        have hnone : s.live v = none := by
          by_contra hlive
          exact hnot ⟨rfl, hlive⟩
        exact .inl (by rw [hself, hnone, map_none])
    · exact .of_kept (fun h => hr h.1) ⟨.inr (hother r (Ne.symm hr)), hfollows⟩
  | unconf r' =>
    unfold createSessionRecords at h
    cases hrec : (s.records key).confirmedRec with
    | none =>
      rw [hrec] at h
      have hiff : SessionRenews s arg.clientid key r (.unconf r') ↔ r' = r ∧
          s.unconfirmedTable arg.clientid ≠ none ∧ s.confirmedTable arg.clientid = none := by
        simp [SessionRenews, UpdatesConfirmed, ConfirmsNew, hrec]
      rw [hiff]
      exact createSessionConfirm_lease hid h r
    | some v =>
      rw [hrec] at h
      obtain ⟨s1, h1, h⟩ := bind_eq_some_iff.1 h
      obtain ⟨conf1, hconf1, h⟩ := bind_eq_some_iff.1 h
      have hquiet := incClientIdRef_quiet h1
      obtain ⟨conf, hconf, hconfid, _⟩ := hquiet.ids v conf1 hconf1
      have hid1 := clientid_of_follows hquiet.follows hid
      rw [SessionRenews, updatesConfirmed_iff hrec hconf, confirmsNew_iff hrec hconf]
      split_ifs at h with hold
      · have hold' : conf.clientid ≠ arg.clientid := fun heq => hold (hconfid.trans heq)
        obtain ⟨s2, h2, h⟩ := bind_eq_some_iff.1 h
        obtain ⟨s3, h3, h⟩ := bind_eq_some_iff.1 h
        obtain ⟨hfollows, hgone, conf2, hconf2, htables⟩ := nfsClientIdExpire_effect h2
        have hquiet3 := decClientIdRef_quiet h3
        rw [hconf1] at hconf2
        cases hconf2
        obtain ⟨hconfT, hunconfT⟩ := htables arg.clientid (Ne.symm hold)
        have hid3 := clientid_of_follows (r := r') (hfollows.trans hquiet3.follows) hid1
        have hconfirm := createSessionConfirm_lease hid3 h r
        rw [hquiet3.confirmedTable, hquiet3.unconfirmedTable, hconfT, hunconfT,
          hquiet.confirmedTable, hquiet.unconfirmedTable] at hconfirm
        have hbefore := ((leaseKept_of_quiet hquiet r).trans
          (leaseKept_of_gone hfollows hgone r)).trans (leaseKept_of_quiet hquiet3 r)
        simpa [hold'] using hconfirm.after hbefore
      · have hold' : conf.clientid = arg.clientid := hconfid.symm.trans (not_not.1 hold)
        obtain ⟨s2, h2, h⟩ := bind_eq_some_iff.1 h
        obtain ⟨s3, h3, h⟩ := bind_eq_some_iff.1 h
        obtain ⟨hfollows, cl', hcl', hremove⟩ := removeUnconfirmedClientId_effect h2
        obtain ⟨hself, hother, hfollows'⟩ := createSessionFinish_lease h
        have htotal := ((hquiet.follows.trans hfollows).trans
          (decClientIdRef_quiet h3).follows).trans hfollows'
        have hlive3 := (decClientIdRef_quiet h3).live
        rw [hid1 cl' hcl', hquiet.unconfirmedTable] at hremove
        have hremove' : s.unconfirmedTable arg.clientid = none ∧ s3.live = s.live ∨
            s.unconfirmedTable arg.clientid ≠ none ∧ s3.live = update s.live r' none := by
          rcases hremove with ⟨hnone, rfl⟩ | ⟨hsome, hgone⟩
          · exact .inl ⟨hnone, hlive3.trans hquiet.live⟩
          · exact .inr ⟨hsome, by rw [hlive3, hgone, hquiet.live]⟩
        simpa [hold'] using renewed_lease r' hconf hremove' hself hother htotal r

def Retains (s t : ClientStore) : Prop :=
  ∀ r cl, s.ids r = some cl → ∃ cl', t.ids r = some cl' ∧ cl'.clientid = cl.clientid ∧
    cl'.confirmed = cl.confirmed

theorem newSession_quiet {found addr : Nat}
    (h : newSession s clientid found = some (t, sessionId, addr)) :
    s.Quiet t ∧ Retains s t ∧
      (t.sessions.any fun y => y.hashed && decide (y.sessionId = sessionId)) =
        sessionIdUsed s clientid := by
  obtain ⟨u, hu, h⟩ := map_eq_some_iff.1 h
  have hquiet := incClientIdRef_quiet hu
  obtain ⟨cl, hcl, rfl⟩ := map_eq_some_iff.1 hu
  cases h
  refine ⟨{ hquiet with }, fun r cl' hcl' => ?_, rfl⟩
  by_cases hr : r = found
  · subst hr
    rw [hcl] at hcl'
    cases hcl'
    exact ⟨_, setId_ids_self .., rfl, rfl⟩
  · exact ⟨cl', (setId_ids_of_ne _ _ _ hr).trans hcl', rfl, rfl⟩

theorem sessionRenews_quiet (hquiet : s.Quiet t) (hretains : Retains s t) :
    SessionRenews s clientid key r found ↔ SessionRenews t clientid key r found := by
  cases found with
  | conf v => rw [SessionRenews, SessionRenews, hquiet.live]
  | unconf r' =>
    have hupdates : UpdatesConfirmed s clientid key r' r ↔ UpdatesConfirmed t clientid key r' r := by
      unfold UpdatesConfirmed
      rw [hquiet.records, hquiet.unconfirmedTable]
      constructor
      · rintro ⟨conf, hrec, hconf, hexp, hid, hsurvives⟩
        obtain ⟨conf', hconf', hid', hstate⟩ := hretains r conf hconf
        exact ⟨conf', hrec, hconf', hstate ▸ hexp, hid'.trans hid, hsurvives⟩
      · rintro ⟨conf, hrec, hconf, hexp, hid, hsurvives⟩
        obtain ⟨conf', hconf', hid', _, hstate⟩ := hquiet.ids r conf hconf
        exact ⟨conf', hrec, hconf', hstate ▸ hexp, hid'.symm.trans hid, hsurvives⟩
    have hnew : ConfirmsNew s clientid key ↔ ConfirmsNew t clientid key := by
      unfold ConfirmsNew
      rw [hquiet.records, hquiet.unconfirmedTable, hquiet.confirmedTable]
      refine and_congr_left fun _ => ⟨fun h v conf hv hconf => ?_, fun h v conf hv hconf => ?_⟩
      · obtain ⟨conf', hconf', hid, _⟩ := hquiet.ids v conf hconf
        exact hid ▸ h v conf' hv hconf'
      · obtain ⟨conf', hconf', hid, _⟩ := hretains v conf hconf
        exact hid ▸ h v conf' hv hconf'
    rw [SessionRenews, SessionRenews, hupdates, hnew]

theorem createSessionSection_lease
    (hid : ∀ cl, s.ids found.addr = some cl → cl.clientid = arg.clientid)
    (h : createSessionSection cfg s ctx arg found key = some (t, res)) (r : Nat) :
    RenewedOrKept (Renews s r (.createSession ctx arg found key)) s t ctx.now r := by
  obtain ⟨cl, hcl, h⟩ := bind_eq_some_iff.1 h
  cases hcheck : createSessionCheck ctx arg cl with
  | some res' =>
    rw [hcheck] at h
    refine .of_kept ?_ (leaseKept_of_quiet (createSessionOut_quiet h) r)
    rintro ⟨cl', hcl', hcheck', _⟩
    rw [hcl] at hcl'
    cases hcl'
    rw [hcheck] at hcheck'
    cases hcheck'
  | none =>
    rw [hcheck] at h
    obtain ⟨⟨s1, sessionId, addr⟩, h1, h⟩ := bind_eq_some_iff.1 h
    obtain ⟨hquiet, hretains, hused⟩ := newSession_quiet h1
    dsimp only at h
    cases hset : nfs41SessionSet s1 sessionId addr with
    | none =>
      rw [hset] at h
      obtain ⟨s2, h2, h⟩ := bind_eq_some_iff.1 h
      have hquiet' := (decSessionRef_quiet h2).trans (createSessionOut_quiet h)
      refine .of_kept ?_ (leaseKept_of_quiet (hquiet.trans hquiet') r)
      rintro ⟨_, _, _, hfree, _⟩
      rw [nfs41SessionSet, hused, if_neg (by simp [hfree])] at hset
      cases hset
    | some s2 =>
      rw [hset] at h
      rw [nfs41SessionSet, hused] at hset
      split_ifs at hset with hfree
      cases hset
      have hquiet' : s.Quiet (s1.mapSession addr fun x => { x with hashed := true }) :=
        { hquiet with }
      have hrenews : Renews s r (.createSession ctx arg found key) ↔
          SessionRenews s arg.clientid key r found := by
        refine ⟨?_, fun hr => ⟨cl, hcl, hcheck, Bool.eq_false_iff.2 hfree, hr⟩⟩
        rintro ⟨_, _, _, _, hr⟩
        exact hr
      rw [hrenews, sessionRenews_quiet hquiet' hretains]
      exact .after (leaseKept_of_quiet hquiet' r) (createSessionRecords_lease
        (clientid_of_follows hquiet'.follows hid) h r)

end EdgeComputing.MainNfsd
