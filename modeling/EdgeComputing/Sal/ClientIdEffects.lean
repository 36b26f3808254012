import EdgeComputing.Sal.ClientIdExpire

/-!
What the functions on client IDs do to the live ones, in any store: another thread may have expired
a record since it was found.
-/

namespace EdgeComputing.Sal

open Option Function Library

namespace ClientStore

variable {s t u : ClientStore} {r : Nat} {cl : ClientId}

/-- What these functions keep: a record its client ID and the reservations of its lease; and the
tables lose entries, except for those that move from the unconfirmed to the confirmed ones. -/
structure Follows (s t : ClientStore) : Prop where
  ids : ∀ r cl', t.ids r = some cl' → ∃ cl, s.ids r = some cl ∧ cl'.clientid = cl.clientid ∧
    cl'.leaseReservations = cl.leaseReservations
  confirmedTable : ∀ c r, t.confirmedTable c = some r →
    s.confirmedTable c = some r ∨ s.unconfirmedTable c = some r
  unconfirmedTable : ∀ c r, t.unconfirmedTable c = some r → s.unconfirmedTable c = some r

theorem Follows.refl (s : ClientStore) : s.Follows s :=
  ⟨fun _ cl h => ⟨cl, h, rfl, rfl⟩, fun _ _ h => .inl h, fun _ _ h => h⟩

theorem Follows.trans (hst : s.Follows t) (htu : t.Follows u) : s.Follows u where
  ids r cl'' h := by
    obtain ⟨cl', h', hid', hres'⟩ := htu.ids r cl'' h
    obtain ⟨cl, h, hid, hres⟩ := hst.ids r cl' h'
    exact ⟨cl, h, hid'.trans hid, hres'.trans hres⟩
  confirmedTable c r h := by
    rcases htu.confirmedTable c r h with h | h
    · exact hst.confirmedTable c r h
    · exact .inr (hst.unconfirmedTable c r h)
  unconfirmedTable c r h := hst.unconfirmedTable c r (htu.unconfirmedTable c r h)

theorem follows_setId (hids : s.ids r = some cl) (cl' : ClientId)
    (hid : cl'.clientid = cl.clientid)
    (hres : cl'.leaseReservations = cl.leaseReservations) :
    s.Follows (s.setId r (some cl')) where
  ids r' cl'' h := by
    by_cases hr : r' = r
    · subst hr
      rw [setId_ids_self] at h
      cases h
      exact ⟨cl, hids, hid, hres⟩
    · rw [setId_ids_of_ne _ _ _ hr] at h
      exact ⟨cl'', h, rfl, rfl⟩
  confirmedTable _ _ h := .inl h
  unconfirmedTable _ _ h := h

/-- Only reference counts, sessions and what belongs to expired records have changed. -/
structure Quiet (s t : ClientStore) : Prop where
  live : t.live = s.live
  records : t.records = s.records
  confirmedTable : t.confirmedTable = s.confirmedTable
  unconfirmedTable : t.unconfirmedTable = s.unconfirmedTable
  ids : ∀ r cl', t.ids r = some cl' → ∃ cl, s.ids r = some cl ∧ cl'.clientid = cl.clientid ∧
    cl'.leaseReservations = cl.leaseReservations ∧ cl'.confirmed = cl.confirmed

theorem Quiet.refl (s : ClientStore) : s.Quiet s :=
  ⟨rfl, rfl, rfl, rfl, fun _ cl h => ⟨cl, h, rfl, rfl, rfl⟩⟩

theorem Quiet.trans (hst : s.Quiet t) (htu : t.Quiet u) : s.Quiet u where
  live := htu.live.trans hst.live
  records := htu.records.trans hst.records
  confirmedTable := htu.confirmedTable.trans hst.confirmedTable
  unconfirmedTable := htu.unconfirmedTable.trans hst.unconfirmedTable
  ids r cl'' h := by
    obtain ⟨cl', h', hid', hres', hstate'⟩ := htu.ids r cl'' h
    obtain ⟨cl, h, hid, hres, hstate⟩ := hst.ids r cl' h'
    exact ⟨cl, h, hid'.trans hid, hres'.trans hres, hstate'.trans hstate⟩

theorem Quiet.follows (h : s.Quiet t) : s.Follows t where
  ids r cl' h' := by
    obtain ⟨cl, hids, hid, hres, _⟩ := h.ids r cl' h'
    exact ⟨cl, hids, hid, hres⟩
  confirmedTable c r h' := .inl (h.confirmedTable ▸ h')
  unconfirmedTable c r h' := h.unconfirmedTable ▸ h'

theorem quiet_setId (hids : s.ids r = some cl) (x : Option ClientId)
    (hlive : liveOf x = liveOf (some cl))
    (hx : ∀ cl', x = some cl' → cl'.clientid = cl.clientid ∧
      cl'.leaseReservations = cl.leaseReservations ∧ cl'.confirmed = cl.confirmed) :
    s.Quiet (s.setId r x) where
  live := by
    rw [live_setId, hlive, ← hids]
    exact update_eq_self r s.live
  records := rfl
  confirmedTable := rfl
  unconfirmedTable := rfl
  ids r' cl' h := by
    by_cases hr : r' = r
    · subst hr
      rw [setId_ids_self] at h
      exact ⟨cl, hids, hx cl' h⟩
    · rw [setId_ids_of_ne _ _ _ hr] at h
      exact ⟨cl', h, rfl, rfl, rfl⟩

theorem incClientIdRef_quiet (h : s.incClientIdRef r = some t) : s.Quiet t := by
  obtain ⟨cl, hids, rfl⟩ := map_eq_some_iff.1 h
  refine quiet_setId hids _ rfl fun cl' h => ?_
  cases h
  exact ⟨rfl, rfl, rfl⟩

theorem decClientIdRef_quiet (h : s.decClientIdRef r = some t) : s.Quiet t := by
  obtain ⟨cl, hids, h⟩ := bind_eq_some_iff.1 h
  split_ifs at h with hlast hexp
  · cases h
    refine quiet_setId hids _ rfl fun cl' h => ?_
    cases h
    exact ⟨rfl, rfl, rfl⟩
  · cases h
    exact quiet_setId hids none (liveOf_expired hexp).symm fun cl' h => by cases h

theorem decClientIdRefs_quiet {n : Nat} (h : s.decClientIdRefs r n = some t) : s.Quiet t := by
  induction n generalizing s with
  | zero =>
    cases h
    exact .refl _
  | succ n ih =>
    obtain ⟨u, hu, h⟩ := bind_eq_some_iff.1 h
    exact (decClientIdRef_quiet hu).trans (ih h)

theorem decSessionRef_quiet {addr : Nat} (h : s.decSessionRef addr = some t) : s.Quiet t := by
  obtain ⟨x, _, h⟩ := bind_eq_some_iff.1 h
  split_ifs at h
  · cases h
    exact ⟨rfl, rfl, rfl, rfl, fun _ cl h => ⟨cl, h, rfl, rfl, rfl⟩⟩
  · have hdrop : s.Quiet (s.dropSession addr) :=
      ⟨rfl, rfl, rfl, rfl, fun _ cl h => ⟨cl, h, rfl, rfl, rfl⟩⟩
    exact hdrop.trans (decClientIdRef_quiet h)

theorem nfs41SessionDel_quiet {sessionId : SessionId} (h : s.nfs41SessionDel sessionId = some t) :
    s.Quiet t := by
  unfold nfs41SessionDel at h
  split at h
  · cases h
    exact .refl _
  · rename_i x _
    have hmap : s.Quiet (s.mapSession x.addr fun x => { x with hashed := false }) :=
      ⟨rfl, rfl, rfl, rfl, fun _ cl h => ⟨cl, h, rfl, rfl, rfl⟩⟩
    exact hmap.trans (decSessionRef_quiet h)

theorem nfs41SessionDels_quiet {sessionIds : List SessionId}
    (h : s.nfs41SessionDels sessionIds = some t) : s.Quiet t := by
  induction sessionIds generalizing s with
  | nil =>
    cases h
    exact .refl _
  | cons sessionId rest ih =>
    obtain ⟨u, hu, h⟩ := bind_eq_some_iff.1 h
    exact (nfs41SessionDel_quiet hu).trans (ih h)

theorem releaseOwners_quiet (hids : s.ids r = some cl) (hexp : cl.confirmed = .expired)
    (h : s.releaseOwners r = some t) : s.Quiet t := by
  obtain ⟨cl', hids', h⟩ := bind_eq_some_iff.1 h
  rw [hids] at hids'
  cases hids'
  have hclear := quiet_setId hids
    (some { cl with openowners := [], lockowners := 0, ownerStates := [] })
    (by rw [liveOf_expired hexp]; exact liveOf_expired hexp) fun cl' h => by
      cases h
      exact ⟨rfl, rfl, rfl⟩
  exact hclear.trans (decClientIdRefs_quiet h)

theorem nfsClientIdGet_quiet {table : BitVec 64 → Option Nat} {clientid : BitVec 64}
    {res : Except ClientidStatus Nat} (h : s.nfsClientIdGet table clientid = some (t, res)) :
    s.Quiet t ∧ ∀ r, res = .ok r → table clientid = some r := by
  unfold nfsClientIdGet at h
  split at h
  · cases h
    exact ⟨.refl s, fun r h => by cases h⟩
  split at h
  · cases h
    exact ⟨.refl s, fun r h => by cases h⟩
  rename_i r hr
  obtain ⟨u, hu, h⟩ := bind_eq_some_iff.1 h
  obtain ⟨cl, _, h⟩ := bind_eq_some_iff.1 h
  split at h
  · obtain ⟨w, hw, h⟩ := map_eq_some_iff.1 h
    cases h
    exact ⟨(incClientIdRef_quiet hu).trans (decClientIdRef_quiet hw), fun r h => by cases h⟩
  · cases h
    refine ⟨incClientIdRef_quiet hu, fun r' h => ?_⟩
    cases h
    exact hr

theorem removeUnconfirmedClientId_effect (h : s.removeUnconfirmedClientId r = some t) :
    s.Follows t ∧ ∃ cl, s.ids r = some cl ∧
      (s.unconfirmedTable cl.clientid = none ∧ t = s ∨
        s.unconfirmedTable cl.clientid ≠ none ∧ t.live = update s.live r none) := by
  obtain ⟨cl, hids, h⟩ := bind_eq_some_iff.1 h
  cases htable : s.unconfirmedTable cl.clientid with
  | none =>
    rw [htable] at h
    cases h
    exact ⟨.refl _, cl, hids, .inl ⟨htable, rfl⟩⟩
  | some value =>
    rw [htable] at h
    dsimp only at h
    obtain ⟨w, hw, hquiet⟩ : ∃ w : ClientStore, (w.ids = s.ids ∧
        w.confirmedTable = s.confirmedTable ∧
        w.unconfirmedTable = update s.unconfirmedTable cl.clientid none) ∧
        (w.setId r (some { cl with confirmed := .expired })).Quiet t := by
      split at h
      · refine ⟨_, ?_, decClientIdRef_quiet h⟩
        exact ⟨rfl, rfl, rfl⟩
      · refine ⟨_, ?_, decClientIdRef_quiet h⟩
        exact ⟨rfl, rfl, rfl⟩
    obtain ⟨hids', hconf, hunconf⟩ := hw
    have hlive : w.live = s.live := by
      funext r'
      rw [live, live, hids']
    refine ⟨Follows.trans ⟨?_, ?_, ?_⟩ hquiet.follows, cl, hids, .inr ⟨by simp [htable], ?_⟩⟩
    · intro r' cl' h'
      by_cases hr : r' = r
      · subst hr
        rw [setId_ids_self] at h'
        cases h'
        exact ⟨cl, hids, rfl, rfl⟩
      · rw [setId_ids_of_ne _ _ _ hr, hids'] at h'
        exact ⟨cl', h', rfl, rfl⟩
    · intro c r' h'
      rw [setId_confirmedTable, hconf] at h'
      exact .inl h'
    · intro c r' h'
      rw [setId_unconfirmedTable, hunconf] at h'
      exact (of_update_none h').2
    · rw [hquiet.live, live_setId, hlive]
      rfl

theorem nfsClientIdConfirm_effect {rc : ClientidStatus}
    (h : s.nfsClientIdConfirm r = some (t, rc)) :
    s.Follows t ∧ ∃ cl, s.ids r = some cl ∧
      (rc = .success ∧ s.unconfirmedTable cl.clientid ≠ none ∧
          s.confirmedTable cl.clientid = none ∧
          t.ids r = some { cl with confirmed := .confirmed } ∧
          t.live = update s.live r (some { cl with confirmed := .confirmed }.erased) ∨
        rc ≠ .success ∧
          (s.unconfirmedTable cl.clientid = none ∨ s.confirmedTable cl.clientid ≠ none) ∧
          (t.live = s.live ∨ t.live = update s.live r none)) := by
  obtain ⟨cl, hids, h⟩ := bind_eq_some_iff.1 h
  obtain ⟨key, _, h⟩ := bind_eq_some_iff.1 h
  dsimp only at h
  rw [show (s.setRecord key { s.records key with unconfirmedRec := none }).unconfirmedTable =
    s.unconfirmedTable from rfl] at h
  cases htable : s.unconfirmedTable cl.clientid with
  | none =>
    rw [htable] at h
    cases h
    exact ⟨⟨fun _ cl h => ⟨cl, h, rfl, rfl⟩, fun _ _ h => .inl h, fun _ _ h => h⟩, cl, hids,
      .inr ⟨by simp, .inl htable, .inl rfl⟩⟩
  | some value =>
    rw [htable] at h
    dsimp only at h
    have hids' : ∀ r' cl' state,
        update s.ids r (some { cl with confirmed := state }) r' = some cl' →
        ∃ cl0, s.ids r' = some cl0 ∧ cl'.clientid = cl0.clientid ∧
          cl'.leaseReservations = cl0.leaseReservations := by
      intro r' cl' state h'
      rcases of_update_some h' with ⟨rfl, rfl⟩ | ⟨_, h'⟩
      · exact ⟨cl, hids, rfl, rfl⟩
      · exact ⟨cl', h', rfl, rfl⟩
    rw [show ({ (s.setRecord key { s.records key with unconfirmedRec := none }) with
        unconfirmedTable := update s.unconfirmedTable cl.clientid none } :
          ClientStore).confirmedTable = s.confirmedTable from rfl] at h
    cases hconf : s.confirmedTable cl.clientid with
    | some other =>
      rw [hconf] at h
      obtain ⟨w, hw, heq⟩ := map_eq_some_iff.1 h
      cases heq
      have hquiet := decClientIdRef_quiet hw
      refine ⟨Follows.trans ⟨?_, ?_, ?_⟩ hquiet.follows, cl, hids, .inr ⟨by simp, .inr ?_, ?_⟩⟩
      · exact fun r' cl' h' => hids' r' cl' .expired h'
      · exact fun c r' h' => .inl h'
      · exact fun c r' h' => (of_update_none h').2
      · simp [hconf]
      · right
        rw [hquiet.live, live_setId]
        rfl
    | none =>
      rw [hconf] at h
      cases h
      refine ⟨⟨?_, ?_, ?_⟩, cl, hids, .inl ⟨rfl, by simp [htable], hconf,
        update_self .., live_setId _ r (some { cl with confirmed := .confirmed })⟩⟩
      · exact fun r' cl' h' => hids' r' cl' .confirmed h'
      · intro c r' h'
        rcases of_update_some h' with ⟨rfl, rfl⟩ | ⟨_, h'⟩
        · exact .inr htable
        · exact .inl h'
      · exact fun c r' h' => (of_update_none h').2

theorem nfsClientIdExpire_effect (h : s.nfsClientIdExpire r false = some t) :
    s.Follows t ∧ t.live = update s.live r none ∧ ∃ cl, s.ids r = some cl ∧
      ∀ c, c ≠ cl.clientid → t.confirmedTable c = s.confirmedTable c ∧
        t.unconfirmedTable c = s.unconfirmedTable c := by
  obtain ⟨cl, hids, h⟩ := bind_eq_some_iff.1 h
  by_cases hexp : cl.confirmed = .expired
  · rw [if_pos hexp] at h
    cases h
    have hnone : s.live r = none := by rw [live, hids, liveOf_expired hexp]
    exact ⟨.refl _, (by rw [← hnone, update_eq_self]), cl, hids, fun _ _ => ⟨rfl, rfl⟩⟩
  rw [if_neg hexp] at h
  dsimp only [Bool.false_eq_true, if_false] at h
  obtain ⟨s1, h1, h⟩ := bind_eq_some_iff.1 h
  obtain ⟨s2, h2, h⟩ := bind_eq_some_iff.1 h
  obtain ⟨s3, h3, h4⟩ := bind_eq_some_iff.1 h
  obtain ⟨hdids, _, _, _, hdconf, hdunconf⟩ := detach_fields s r cl false
  -- the tables without the client ID
  have hunhash : s1.ids = (s.detachClientId r cl false).ids ∧
      (∀ c, c ≠ cl.clientid → s1.confirmedTable c = s.confirmedTable c ∧
        s1.unconfirmedTable c = s.unconfirmedTable c) ∧
      (∀ c r', s1.confirmedTable c = some r' → s.confirmedTable c = some r') ∧
      ∀ c r', s1.unconfirmedTable c = some r' → s.unconfirmedTable c = some r' := by
    simp only [Bool.false_eq_true, if_false] at h1
    unfold unhashClientId at h1
    rw [hdconf, hdunconf] at h1
    split_ifs at h1
    · obtain ⟨_, _, rfl⟩ := map_eq_some_iff.1 h1
      refine ⟨rfl, fun c hc => ⟨update_of_ne hc .., rfl⟩, ?_, ?_⟩
      · exact fun c r' h => (of_update_none h).2
      · exact fun c r' h => h
    · obtain ⟨_, _, rfl⟩ := map_eq_some_iff.1 h1
      refine ⟨rfl, fun c hc => ⟨rfl, update_of_ne hc ..⟩, ?_, ?_⟩
      · exact fun c r' h => h
      · exact fun c r' h => (of_update_none h).2
  obtain ⟨hids1, htables, hconf1, hunconf1⟩ := hunhash
  rw [hdids] at hids1
  have hself : s1.ids r = some { cl with clientRecord := none, confirmed := .expired } := by
    rw [hids1, update_self]
    rfl
  have hquiet : s1.Quiet t := by
    have hrelease := releaseOwners_quiet hself rfl h2
    have hsessions : s2.Quiet s3 := by
      split at h3
      · exact nfs41SessionDels_quiet h3
      · cases h3
        exact .refl _
    simp only [Bool.false_eq_true, if_false] at h4
    exact (hrelease.trans hsessions).trans (decClientIdRef_quiet h4)
  have hfollows : s.Follows s1 := by
    refine ⟨fun r' cl' h' => ?_, fun c r' h' => .inl (hconf1 c r' h'), hunconf1⟩
    rw [hids1] at h'
    rcases of_update_some h' with ⟨rfl, rfl⟩ | ⟨_, h'⟩
    · exact ⟨cl, hids, rfl, rfl⟩
    · exact ⟨cl', h', rfl, rfl⟩
  refine ⟨hfollows.trans hquiet.follows, ?_, cl, hids, fun c hc => ?_⟩
  · rw [hquiet.live]
    have hlive : s1.live = (s.setId r (some { cl with
        clientRecord := none, confirmed := .expired })).live := by
      funext r'
      rw [live, live, hids1]
      rfl
    rw [hlive, live_setId]
    rfl
  · rw [hquiet.confirmedTable, hquiet.unconfirmedTable]
    exact htables c hc

end ClientStore

end EdgeComputing.Sal
