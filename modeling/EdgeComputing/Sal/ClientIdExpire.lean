import EdgeComputing.Sal.ClientIdSteps

/-!
The sessions of the client IDs, and what expires a client ID. An expired client ID has lost its
owners, its sessions and the reference of the table, but not those of others.
-/

namespace EdgeComputing.Sal.ClientStore

open List Option Function Library

variable {s t : ClientStore} {held : Nat → Nat} {r addr : Nat} {cl : ClientId} {x : Session}
  {f : Session → Session}

theorem SessionsWf.eq_of_addr (h : s.SessionsWf) {x y : Session} (hx : x ∈ s.sessions)
    (hy : y ∈ s.sessions) (haddr : x.addr = y.addr) : x = y :=
  inj_on_of_nodup_map h.distinct hx hy haddr

theorem mem_mapSession {y : Session} (hy : y ∈ (s.mapSession addr f).sessions) :
    ∃ x ∈ s.sessions, y = if x.addr = addr then f x else x := by
  obtain ⟨x, hx, rfl⟩ := mem_map.1 hy
  exact ⟨x, hx, rfl⟩

theorem length_sessionsOf_mapSession (hf : ∀ x, (f x).clientidRecord = x.clientidRecord) (r : Nat) :
    ((s.mapSession addr f).sessionsOf r).length = (s.sessionsOf r).length := by
  unfold sessionsOf mapSession
  rw [List.filter_map, length_map]
  congr 2
  funext x
  dsimp only [Function.comp]
  split
  · rw [hf]
  · rfl

theorem Inv.mapSession (hinv : s.Inv held) (addr : Nat) (f : Session → Session)
    (hf : ∀ x, (f x).addr = x.addr ∧ (f x).sessionId = x.sessionId ∧
      (f x).clientidRecord = x.clientidRecord)
    (hunique : ∀ x ∈ s.sessions, ∀ y ∈ s.sessions,
      (if x.addr = addr then f x else x).hashed = true →
      (if y.addr = addr then f y else y).hashed = true → x.sessionId = y.sessionId →
      x.addr = y.addr) :
    (s.mapSession addr f).Inv held ∧ s.Agree (s.mapSession addr f) := by
  have hagree : s.Agree (s.mapSession addr f) := ⟨rfl, rfl, rfl, rfl, rfl, rfl⟩
  have hlength : ∀ r, ((s.mapSession addr f).sessionsOf r).length = (s.sessionsOf r).length :=
    length_sessionsOf_mapSession fun x => (hf x).2.2
  have hfields : ∀ x : Session, (if x.addr = addr then f x else x).addr = x.addr ∧
      (if x.addr = addr then f x else x).sessionId = x.sessionId ∧
      (if x.addr = addr then f x else x).clientidRecord = x.clientidRecord := by
    intro x
    split
    · exact hf x
    · exact ⟨rfl, rfl, rfl⟩
  refine ⟨⟨hinv.wf.agree hagree, ⟨?_, hinv.refs.pos, ?_⟩, ⟨?_, ?_, ?_, ?_⟩, hinv.fresh⟩, hagree⟩
  · intro r cl h
    rw [hlength]
    exact hinv.refs.count r cl h
  · intro r h
    obtain ⟨hheld, hnone⟩ := hinv.refs.free r h
    refine ⟨hheld, eq_nil_of_length_eq_zero ?_⟩
    rw [hlength, hnone]
    rfl
  · have hmap : (s.mapSession addr f).sessions.map Session.addr = s.sessions.map Session.addr := by
      unfold ClientStore.mapSession
      rw [List.map_map]
      exact map_congr_left fun x _ => (hfields x).1
    rw [hmap]
    exact hinv.sessionsWf.distinct
  · intro y hy cl h
    obtain ⟨x, hx, rfl⟩ := mem_mapSession hy
    rw [(hfields x).2.2] at h
    rw [(hfields x).2.1]
    exact hinv.sessionsWf.named x hx cl h
  · intro y hy
    obtain ⟨x, hx, rfl⟩ := mem_mapSession hy
    rw [(hfields x).1]
    exact hinv.sessionsWf.below x hx
  · intro y hy z hz hy' hz' hid
    obtain ⟨x, hx, rfl⟩ := mem_mapSession hy
    obtain ⟨w, hw, rfl⟩ := mem_mapSession hz
    rw [(hfields x).1, (hfields w).1]
    rw [(hfields x).2.1, (hfields w).2.1] at hid
    exact hunique x hx w hw hy' hz' hid

theorem Inv.mapSession_unnamed (hinv : s.Inv held) (addr : Nat) (f : Session → Session)
    (hf : ∀ x, (f x).addr = x.addr ∧ (f x).sessionId = x.sessionId ∧
      (f x).clientidRecord = x.clientidRecord) (hhashed : ∀ x, (f x).hashed = true → x.hashed = true) :
    (s.mapSession addr f).Inv held ∧ s.Agree (s.mapSession addr f) := by
  have hname : ∀ x : Session, (if x.addr = addr then f x else x).hashed = true → x.hashed = true := by
    intro x
    split
    · exact hhashed x
    · exact id
  exact hinv.mapSession addr f hf fun x hx y hy hx' hy' =>
    hinv.sessionsWf.unique x hx y hy (hname x hx') (hname y hy')

theorem Inv.addSession (hinv : s.Inv (bump held x.clientidRecord))
    (hids : s.ids x.clientidRecord = some cl) (hname : x.sessionId.clientid = cl.clientid)
    (haddr : x.addr = s.nextAddr) (hhashed : x.hashed = false) (sequence : BitVec 64) :
    { s with
      globalSequence := sequence
      sessions := x :: s.sessions
      nextAddr := s.nextAddr + 1 }.Inv held := by
  refine ⟨{ hinv.wf with }, ⟨?_, hinv.refs.pos, ?_⟩, ⟨?_, ?_, ?_, ?_⟩, ?_⟩
  · intro r cl' hids'
    have hcount := hinv.refs.count r cl' hids'
    by_cases hr : x.clientidRecord = r
    · subst hr
      simp only [sessionsOf, filter_cons, decide_true, if_true, length_cons, bump_self] at hcount ⊢
      omega
    · rw [bump_of_ne held (Ne.symm hr)] at hcount
      simp only [sessionsOf, filter_cons] at hcount ⊢
      rwa [if_neg (by simpa using hr)]
  · intro r hids'
    have hr : r ≠ x.clientidRecord := by
      rintro rfl
      rw [hids] at hids'
      cases hids'
    have hfree := hinv.refs.free r hids'
    rw [bump_of_ne held hr] at hfree
    simp only [sessionsOf, filter_cons] at hfree ⊢
    rwa [if_neg (by simpa using Ne.symm hr)]
  · refine nodup_cons.2 ⟨fun hmem => ?_, hinv.sessionsWf.distinct⟩
    obtain ⟨y, hy, hsame⟩ := mem_map.1 hmem
    exact absurd (hsame.trans haddr) (Nat.ne_of_lt (hinv.sessionsWf.below y hy))
  · intro y hy cl' hids'
    rcases mem_cons.1 hy with rfl | hy
    · rw [hname, some.inj (hids.symm.trans hids')]
    · exact hinv.sessionsWf.named y hy cl' hids'
  · intro y hy
    rcases mem_cons.1 hy with rfl | hy
    · exact Nat.lt_succ_of_le (Nat.le_of_eq haddr)
    · exact Nat.lt_succ_of_lt (hinv.sessionsWf.below y hy)
  · intro y hy z hz hy' hz'
    rcases mem_cons.1 hy with rfl | hy
    · rw [hhashed] at hy'
      cases hy'
    rcases mem_cons.1 hz with rfl | hz
    · rw [hhashed] at hz'
      cases hz'
    exact hinv.sessionsWf.unique y hy z hz hy' hz'
  · intro r hr
    exact hinv.fresh r (Nat.le_of_succ_le hr)

section

variable (hinv : s.Inv held) (hx : x ∈ s.sessions)
include hinv hx

theorem Inv.dropSession (haddr : x.addr = addr) :
    (s.dropSession addr).Inv (bump held x.clientidRecord) ∧ s.Agree (s.dropSession addr) := by
  have hagree : s.Agree (s.dropSession addr) := ⟨rfl, rfl, rfl, rfl, rfl, rfl⟩
  have hsub : ∀ y ∈ (s.dropSession addr).sessions, y ∈ s.sessions :=
    fun y hy => (mem_filter.1 hy).1
  have hother : ∀ r, r ≠ x.clientidRecord → (s.dropSession addr).sessionsOf r = s.sessionsOf r := by
    intro r hr
    unfold sessionsOf ClientStore.dropSession
    rw [List.filter_filter]
    refine filter_congr fun y hy => ?_
    by_cases heq : y.clientidRecord = r
    · have hne : y.addr ≠ addr := by
        intro h
        rw [hinv.sessionsWf.eq_of_addr hy hx (h.trans haddr.symm)] at heq
        exact hr heq.symm
      simp [heq, hne]
    · simp [heq]
  have hself : (s.sessionsOf x.clientidRecord).length =
      ((s.dropSession addr).sessionsOf x.clientidRecord).length + 1 := by
    have hmem : x ∈ s.sessionsOf x.clientidRecord := mem_filter.2 ⟨hx, by simp⟩
    have hnodup : ((s.sessionsOf x.clientidRecord).map Session.addr).Nodup :=
      hinv.sessionsWf.distinct.sublist (filter_sublist.map _)
    have hone : (s.sessionsOf x.clientidRecord).countP (fun y => y.addr = addr) = 1 := by
      have hcount := count_eq_one_of_mem hnodup (mem_map_of_mem (f := Session.addr) hmem)
      rw [haddr, List.count, countP_map] at hcount
      exact (countP_congr fun y _ => by simp).trans hcount
    have hdrop : (s.dropSession addr).sessionsOf x.clientidRecord =
        (s.sessionsOf x.clientidRecord).filter fun y => !decide (y.addr = addr) := by
      unfold sessionsOf ClientStore.dropSession
      rw [List.filter_filter, List.filter_filter]
      exact filter_congr fun y _ => by simp [Bool.and_comm]
    rw [hdrop, ← countP_eq_length_filter,
      length_eq_countP_add_countP (fun y => decide (y.addr = addr)), hone]
    simp [Nat.add_comm]
  refine ⟨⟨hinv.wf.agree hagree, ⟨?_, hinv.refs.pos, ?_⟩, ⟨?_, ?_, ?_, ?_⟩, hinv.fresh⟩, hagree⟩
  · intro r cl h
    have hcount := hinv.refs.count r cl h
    by_cases heq : r = x.clientidRecord
    · rw [heq] at hcount ⊢
      rw [bump_self]
      omega
    · rw [hother r heq, bump_of_ne held heq]
      exact hcount
  · intro r h
    obtain ⟨hheld, hnone⟩ := hinv.refs.free r h
    have hne : r ≠ x.clientidRecord := by
      rintro rfl
      rw [hnone] at hself
      cases hself
    rw [hother r hne, bump_of_ne held hne]
    exact ⟨hheld, hnone⟩
  · exact hinv.sessionsWf.distinct.sublist (filter_sublist.map _)
  · exact fun y hy => hinv.sessionsWf.named y (hsub y hy)
  · exact fun y hy => hinv.sessionsWf.below y (hsub y hy)
  · exact fun y hy z hz => hinv.sessionsWf.unique y (hsub y hy) z (hsub z hz)

theorem Inv.decSession (haddr : x.addr = addr) :
    ∃ t, s.decSessionRef addr = some t ∧ t.Inv held ∧ s.Agree t ∧
      (∀ y ∈ s.sessions, y.addr ≠ addr → y ∈ t.sessions) ∧
      (1 < x.refcount → { x with refcount := x.refcount - 1 } ∈ t.sessions) := by
  have hfind : s.sessions.find? (fun y => y.addr = addr) = some x :=
    haddr ▸ find?_key_of_mem hinv.sessionsWf.distinct hx
  unfold decSessionRef
  rw [hfind, bind_some]
  by_cases hlast : 1 < x.refcount
  · rw [if_pos hlast]
    obtain ⟨hinv', hagree⟩ := hinv.mapSession_unnamed addr
      (fun y => { y with refcount := y.refcount - 1 }) (fun y => ⟨rfl, rfl, rfl⟩) fun y hy => hy
    refine ⟨_, rfl, hinv', hagree, ?_, ?_⟩
    · intro y hy hne
      exact mem_map.2 ⟨y, hy, if_neg hne⟩
    · intro _
      exact mem_map.2 ⟨x, hx, if_pos haddr⟩
  · rw [if_neg hlast]
    obtain ⟨hinv', hagree⟩ := hinv.dropSession hx haddr
    obtain ⟨t, ht, hinv'', hagree', hsessions⟩ := hinv'.dec
    refine ⟨t, ht, hinv'', hagree.trans hagree', ?_, fun h => absurd h hlast⟩
    intro y hy hne
    rw [hsessions]
    exact mem_filter.2 ⟨hy, by simpa using hne⟩

theorem Inv.unhashSession :
    ∃ t, (s.mapSession x.addr fun y => { y with hashed := false }).decSessionRef x.addr = some t ∧
      t.Inv held ∧ s.Agree t ∧ (∀ y ∈ s.sessions, y.addr ≠ x.addr → y ∈ t.sessions) ∧
      (1 < x.refcount → { x with hashed := false, refcount := x.refcount - 1 } ∈ t.sessions) := by
  obtain ⟨hinv', hagree⟩ := hinv.mapSession_unnamed x.addr
    (fun y => { y with hashed := false }) (fun y => ⟨rfl, rfl, rfl⟩) fun y hy => nomatch hy
  have hx' : { x with hashed := false } ∈
      (s.mapSession x.addr fun y => { y with hashed := false }).sessions :=
    mem_map.2 ⟨x, hx, if_pos rfl⟩
  obtain ⟨t, ht, hinv'', hagree', hkeep, hleft⟩ := hinv'.decSession hx' rfl
  refine ⟨t, ht, hinv'', hagree.trans hagree', fun y hy hne => ?_, hleft⟩
  exact hkeep y (mem_map.2 ⟨y, hy, if_neg hne⟩) hne

end

theorem Inv.sessionDel (hinv : s.Inv held) (sessionId : SessionId) :
    ∃ t, s.nfs41SessionDel sessionId = some t ∧ t.Inv held ∧ s.Agree t ∧
      ∀ y ∈ s.sessions, y.sessionId ≠ sessionId → y ∈ t.sessions := by
  unfold nfs41SessionDel
  cases hfind : s.sessions.find? (fun y => y.hashed && decide (y.sessionId = sessionId)) with
  | none => exact ⟨s, rfl, hinv, .refl s, fun y hy _ => hy⟩
  | some x =>
    have hx := mem_of_find?_eq_some hfind
    have hid : x.sessionId = sessionId := by
      have hsome := find?_some hfind
      simp only [Bool.and_eq_true, decide_eq_true_eq] at hsome
      exact hsome.2
    obtain ⟨t, ht, hinv', hagree, hkeep, _⟩ := hinv.unhashSession hx
    refine ⟨t, ht, hinv', hagree, fun y hy hne => hkeep y hy fun heq => ?_⟩
    rw [hinv.sessionsWf.eq_of_addr hy hx heq] at hne
    exact hne hid

theorem Inv.sessionDels (hinv : s.Inv held) (sessionIds : List SessionId) :
    ∃ t, s.nfs41SessionDels sessionIds = some t ∧ t.Inv held ∧ s.Agree t ∧
      ∀ y ∈ s.sessions, y.sessionId ∉ sessionIds → y ∈ t.sessions := by
  induction sessionIds generalizing s with
  | nil => exact ⟨s, rfl, hinv, .refl s, fun y hy _ => hy⟩
  | cons sessionId rest ih =>
    obtain ⟨t, ht, hinv', hagree, hkeep⟩ := hinv.sessionDel sessionId
    obtain ⟨u, hu, hinv'', hagree', hkeep'⟩ := ih hinv'
    refine ⟨u, by rw [nfs41SessionDels, ht, bind_some, hu], hinv'', hagree.trans hagree', ?_⟩
    intro y hy hnot
    obtain ⟨hne, hrest⟩ := not_or.1 (mem_cons.not.1 hnot)
    exact hkeep' y (hkeep y hy hne) hrest

theorem detach_pointer (proj : ClientRecord → Option Nat)
    (hproj : ∀ rec', proj ⟨if rec'.confirmedRec = some r then none else rec'.confirmedRec,
      if rec'.unconfirmedRec = some r then none else rec'.unconfirmedRec⟩ =
        if proj rec' = some r then none else proj rec')
    (howner : ∀ key, proj (s.records key) = some r → cl.clientRecord = some key)
    (makeStale : Bool) (key : RecordKey) (r' : Nat) :
    proj ((s.detachClientId r cl makeStale).records key) = some r' ↔
      proj (s.records key) = some r' ∧ r' ≠ r := by
  unfold detachClientId
  have hne : cl.clientRecord ≠ some key → proj (s.records key) ≠ some r := mt (howner key)
  cases hrecord : cl.clientRecord with
  | none => exact eq_some_iff_and_ne (hne (by simp [hrecord]))
  | some key' =>
    dsimp only [setRecord, setId_records]
    by_cases heq : key = key'
    · subst heq
      rw [update_self, hproj]
      by_cases hr : proj (s.records key) = some r
      · simp [hr, eq_comm]
      · rw [if_neg hr]
        exact eq_some_iff_and_ne hr
    · rw [update_of_ne heq]
      refine eq_some_iff_and_ne (hne ?_)
      rw [hrecord]
      simpa using Ne.symm heq

theorem detach_fields (s : ClientStore) (r : Nat) (cl : ClientId) (makeStale : Bool) :
    (s.detachClientId r cl makeStale).ids = update s.ids r (some { cl with
        clientRecord := none, confirmed := if makeStale then .stale else .expired }) ∧
      (s.detachClientId r cl makeStale).sessions = s.sessions ∧
      (s.detachClientId r cl makeStale).nextAddr = s.nextAddr ∧
      (s.detachClientId r cl makeStale).epochLow = s.epochLow ∧
      (s.detachClientId r cl makeStale).confirmedTable = s.confirmedTable ∧
      (s.detachClientId r cl makeStale).unconfirmedTable = s.unconfirmedTable := by
  unfold detachClientId
  cases cl.clientRecord with
  | none | some key => exact ⟨rfl, rfl, rfl, rfl, rfl, rfl⟩

theorem Inv.unhash (hinv : s.Inv held) (hids : s.ids r = some cl)
    (hexp : cl.confirmed ≠ .expired) :
    ∃ t, (s.detachClientId r cl false).unhashClientId cl = some t ∧ t.Inv (bump held r) ∧
      s.Becomes t (update s.live r none) ∧ t.sessions = s.sessions ∧
      ∃ cl', t.ids r = some cl' ∧ cl'.confirmed = .expired := by
  have h := hinv.wf
  have hlive : s.live r = some cl.erased := live_of_ids hids hexp
  obtain ⟨hids', hsessions, hnext, hepoch, hconfT, hunconfT⟩ := detach_fields s r cl false
  have hcount := hinv.refs.count r cl hids
  have hgone : ∀ t : ClientStore, t.ids = (s.detachClientId r cl false).ids →
      t.live = update s.live r none := by
    intro t ht
    have heq : t.live = (s.setId r (some { cl with
        clientRecord := none, confirmed := .expired })).live := by
      funext r'
      rw [live, live, ht, hids']
      rfl
    rw [heq, live_setId]
    rfl
  -- the invariant needs only that the tables have lost the record
  have hmain : ∀ t : ClientStore, t.ids = (s.detachClientId r cl false).ids →
      t.records = (s.detachClientId r cl false).records →
      t.sessions = (s.detachClientId r cl false).sessions →
      t.nextAddr = (s.detachClientId r cl false).nextAddr →
      t.epochLow = (s.detachClientId r cl false).epochLow →
      (∀ c r', t.unconfirmedTable c = some r' ↔ s.unconfirmedTable c = some r' ∧ r' ≠ r) →
      (∀ c r', t.confirmedTable c = some r' ↔ s.confirmedTable c = some r' ∧ r' ≠ r) →
      t.Inv (bump held r) ∧ s.Becomes t (update s.live r none) ∧
        t.sessions = s.sessions ∧ ∃ cl', t.ids r = some cl' ∧ cl'.confirmed = .expired := by
    intro t ht hrecords hsess hnext' hepoch' hunconf hconf
    have hwf : t.Wf := h.remove (hgone t ht) hunconf hconf
      (hrecords ▸ detach_pointer ClientRecord.unconfirmedRec (fun _ => rfl)
        (fun _ hrec => ((h.unconfirmedRec_iff hlive).1 hrec).2) false)
      (hrecords ▸ detach_pointer ClientRecord.confirmedRec (fun _ => rfl)
        (fun _ hrec => ((h.confirmedRec_iff hlive).1 hrec).2) false)
    refine ⟨?_, ⟨hgone t ht, hnext'.trans hnext, hepoch'.trans hepoch⟩, hsess.trans hsessions,
      _, by rw [ht, hids', update_self], rfl⟩
    refine hinv.changeId hids hwf (ht.trans hids') (hsess.trans hsessions) (hnext'.trans hnext)
      rfl ?_ (hinv.refs.pos r cl hids) (fun r' hne => bump_of_ne held hne)
    simp only [tableRef, hexp, if_false, ClientId.ownerRefs, bump_self] at hcount ⊢
    simp at hcount ⊢
    omega
  unfold unhashClientId
  by_cases hun : cl.confirmed = .unconfirmed
  · have htable : s.unconfirmedTable cl.clientid = some r :=
      (h.unconfirmedTable_iff hlive).2 ⟨hun, rfl⟩
    rw [if_neg (by simp [hun]), hunconfT, htable]
    refine ⟨_, rfl, hmain _ rfl rfl rfl rfl rfl ?_ ?_⟩
    · intro c r'
      exact update_none_eq_some_iff htable fun c' hc => ((h.unconfirmedTable_iff hlive).1 hc).2.symm
    · intro c r'
      dsimp only
      rw [hconfT]
      exact eq_some_iff_and_ne fun hc => ((h.confirmedTable_iff hlive).1 hc).1 hun
  · have htable : s.confirmedTable cl.clientid = some r :=
      (h.confirmedTable_iff hlive).2 ⟨hun, rfl⟩
    have hconf : cl.confirmed = .confirmed ∨ cl.confirmed = .stale := by
      cases hc : cl.confirmed with
      | confirmed => exact .inl rfl
      | stale => exact .inr rfl
      | unconfirmed => exact absurd hc hun
      | expired => exact absurd hc hexp
    rw [if_pos hconf, hconfT, htable]
    refine ⟨_, rfl, hmain _ rfl rfl rfl rfl rfl ?_ ?_⟩
    · intro c r'
      dsimp only
      rw [hunconfT]
      exact eq_some_iff_and_ne fun hc => hun ((h.unconfirmedTable_iff hlive).1 hc).1
    · intro c r'
      exact update_none_eq_some_iff htable fun c' hc => ((h.confirmedTable_iff hlive).1 hc).2.symm

theorem Inv.decs {n : Nat} (hinv : s.Inv (update held r (held r + n))) :
    ∃ t, s.decClientIdRefs r n = some t ∧ t.Inv held ∧ s.Agree t ∧ t.sessions = s.sessions := by
  induction n generalizing s with
  | zero =>
    rw [Nat.add_zero, update_eq_self] at hinv
    exact ⟨s, rfl, hinv, .refl s, rfl⟩
  | succ n ih =>
    have hbump : update held r (held r + (n + 1)) = bump (update held r (held r + n)) r := by
      simp [bump, Nat.add_assoc]
    rw [hbump] at hinv
    obtain ⟨t, ht, hinv', hagree, hsessions⟩ := hinv.dec
    obtain ⟨u, hu, hinv'', hagree', hsessions'⟩ := ih hinv'
    exact ⟨u, by rw [decClientIdRefs, ht, bind_some, hu], hinv'', hagree.trans hagree',
      hsessions'.trans hsessions⟩

theorem Inv.releaseOwners (hinv : s.Inv held) (hids : s.ids r = some cl)
    (hexp : cl.confirmed = .expired) :
    ∃ t, s.releaseOwners r = some t ∧ t.Inv held ∧ s.Agree t ∧ t.sessions = s.sessions := by
  have hagree : s.Agree (s.setId r
      (some { cl with openowners := [], lockowners := 0, ownerStates := [] })) := by
    refine ⟨?_, rfl, rfl, rfl, rfl, rfl⟩
    rw [live_setId, liveOf_expired (by exact hexp), ← liveOf_expired hexp, ← hids]
    exact update_eq_self r s.live
  have hcount := hinv.refs.count r cl hids
  have hinv' : (s.setId r (some { cl with
      openowners := [], lockowners := 0, ownerStates := [] })).Inv
      (update held r (held r + cl.ownerRefs)) := by
    refine hinv.changeId hids (hinv.wf.agree hagree) rfl rfl rfl rfl ?_ (hinv.refs.pos r cl hids)
      (fun r' hne => by simp [hne])
    rw [update_self]
    simp only [tableRef, ClientId.ownerRefs] at hcount ⊢
    simp only [length_nil, countP_nil]
    omega
  obtain ⟨t, ht, hinv'', hagree', hsessions⟩ := hinv'.decs
  refine ⟨t, ?_, hinv'', hagree.trans hagree', hsessions⟩
  unfold ClientStore.releaseOwners
  rw [hids, bind_some, ht]

theorem Inv.expire (hinv : s.Inv held) (hlive : s.live r = some cl) :
    ∃ t, s.nfsClientIdExpire r false = some t ∧ t.Inv held ∧
      s.Becomes t (update s.live r none) ∧
      ∀ x ∈ s.sessions, x.sessionId.clientid ≠ cl.clientid → x ∈ t.sessions := by
  obtain ⟨cl0, hids, hexp, rfl⟩ := exists_ids_of_live hlive
  obtain ⟨s1, h1, hinv1, hbecomes, hsessions1, cl1, hids1, hexp1⟩ := hinv.unhash hids hexp
  obtain ⟨s2, h2, hinv2, hagree2, hsessions2⟩ := hinv1.releaseOwners hids1 hexp1
  have hnamed : ∀ x ∈ s2.sessionsOf r, x.sessionId.clientid = cl0.clientid := by
    intro x hx
    obtain ⟨hmem, hrecord⟩ := mem_filter.1 hx
    rw [hsessions2, hsessions1] at hmem
    exact hinv.sessionsWf.named x hmem cl0 ((of_decide_eq_true hrecord) ▸ hids)
  obtain ⟨s3, h3, hinv3, hagree3, hkeep⟩ : ∃ s3, (if 0 < cl0.minorversion then
      s2.nfs41SessionDels ((s2.sessionsOf r).map Session.sessionId) else some s2) = some s3 ∧
      s3.Inv (bump held r) ∧ s2.Agree s3 ∧
      ∀ x ∈ s2.sessions, x.sessionId.clientid ≠ cl0.clientid → x ∈ s3.sessions := by
    split
    · obtain ⟨s3, h3, hinv3, hagree3, hkeep⟩ :=
        hinv2.sessionDels ((s2.sessionsOf r).map Session.sessionId)
      refine ⟨s3, h3, hinv3, hagree3, ?_⟩
      intro x hx hne
      refine hkeep x hx fun hmem => ?_
      obtain ⟨y, hy, hid⟩ := mem_map.1 hmem
      rw [← hid] at hne
      exact hne (hnamed y hy)
    · exact ⟨s2, rfl, hinv2, .refl s2, fun x hx _ => hx⟩
  obtain ⟨t, ht, hinv', hagree, hsessions⟩ := hinv3.dec
  refine ⟨t, ?_, hinv', ?_, ?_⟩
  · unfold nfsClientIdExpire
    rw [hids, bind_some, if_neg hexp]
    simp only [Bool.false_eq_true, if_false, h1, bind_some, h2, h3, ht]
  · have hlast := hagree2.trans (hagree3.trans hagree)
    exact ⟨hlast.live.trans hbecomes.live, hlast.nextAddr.trans hbecomes.nextAddr,
      hlast.epochLow.trans hbecomes.epochLow⟩
  · intro x hx hne
    rw [hsessions]
    refine hkeep x ?_ hne
    rw [hsessions2, hsessions1]
    exact hx

end EdgeComputing.Sal.ClientStore
