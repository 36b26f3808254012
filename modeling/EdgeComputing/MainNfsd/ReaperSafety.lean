import EdgeComputing.MainNfsd.LeaseRenewal

/-!
When the reaper expires only idle clients. Between the test and the expiry no lease is reserved or
released, because the tested one is not valid; but it can be renewed.
-/

namespace EdgeComputing.MainNfsd

open Option Function Library Nfs4 Sal Sal.ClientStore ClientId

variable {cfg : ClientConfig} {σ τ : ReaperState} {s t : ClientStore} {r : Nat} {cl : ClientId}

def Waiting.found : Waiting → FoundId
  | .setclientidConfirm _ _ found _ => found
  | .createSession _ _ found _ => found

def Waiting.clientid : Waiting → BitVec 64
  | .setclientidConfirm _ arg _ _ => arg.clientid
  | .createSession _ arg _ _ => arg.clientid

/-- The tables find records with the client ID looked for, and so do the requests. -/
structure Named (σ : ReaperState) : Prop where
  tables : ∀ c r cl, σ.store.confirmedTable c = some r ∨ σ.store.unconfirmedTable c = some r →
    σ.store.ids r = some cl → cl.clientid = c
  waiting : ∀ w ∈ σ.waiting, ∀ cl, σ.store.ids w.found.addr = some cl → cl.clientid = w.clientid

theorem Named.of_store (hσ : Named σ)
    (hids : ∀ r cl', τ.store.ids r = some cl' → ∃ cl, σ.store.ids r = some cl ∧
      cl'.clientid = cl.clientid)
    (htables : ∀ c r, τ.store.confirmedTable c = some r ∨ τ.store.unconfirmedTable c = some r →
      σ.store.confirmedTable c = some r ∨ σ.store.unconfirmedTable c = some r)
    (hwaiting : ∀ w ∈ τ.waiting, w ∈ σ.waiting) : Named τ where
  tables c r cl' h hcl' := by
    obtain ⟨cl, hcl, hid⟩ := hids r cl' hcl'
    exact hid.trans (hσ.tables c r cl (htables c r h) hcl)
  waiting w hw cl' hcl' := by
    obtain ⟨cl, hcl, hid⟩ := hids _ cl' hcl'
    exact hid.trans (hσ.waiting w (hwaiting w hw) cl hcl)

theorem Named.follows (hσ : Named σ) (h : σ.store.Follows τ.store)
    (hwaiting : ∀ w ∈ τ.waiting, w ∈ σ.waiting) : Named τ := by
  refine hσ.of_store (fun r cl' hcl' => ?_) (fun c r hc => ?_) hwaiting
  · obtain ⟨cl, hcl, hid, _⟩ := h.ids r cl' hcl'
    exact ⟨cl, hcl, hid⟩
  · rcases hc with hc | hc
    · exact h.confirmedTable c r hc
    · exact .inr (h.unconfirmedTable c r hc)

theorem Named.setId (hσ : Named σ) (hcl : σ.store.ids r = some cl) (cl' : ClientId)
    (hid : cl'.clientid = cl.clientid) : Named { σ with store := σ.store.setId r (some cl') } := by
  refine hσ.of_store (fun r' cl'' hids => ?_) (fun _ _ h => h) (fun _ h => h)
  by_cases hr : r' = r
  · subst hr
    rw [setId_ids_self] at hids
    cases hids
    exact ⟨cl, hcl, hid⟩
  · rw [setId_ids_of_ne _ _ _ hr] at hids
    exact ⟨cl'', hids, rfl⟩

theorem lookupClientId_named {clientid : BitVec 64} {found : FoundId} {key : RecordKey}
    (hσ : Named σ) (h : lookupClientId σ.store clientid = some (t, .ok (found, key)))
    (hcl : t.ids found.addr = some cl) : cl.clientid = clientid := by
  rcases lookupClientId_inv h with ⟨r, key, h1, heq⟩ | ⟨u, rc, res, h1, h2, hres⟩
  · cases heq
    obtain ⟨hquiet, htable⟩ := nfsClientIdGet_quiet h1
    obtain ⟨cl0, hcl0, hid, _⟩ := hquiet.ids r cl hcl
    exact hid.trans (hσ.tables clientid r cl0 (.inr (htable r rfl)) hcl0)
  · obtain ⟨r, rfl, rfl⟩ := hres found key rfl
    have hquiet1 := (nfsClientIdGet_quiet h1).1
    obtain ⟨hquiet2, htable⟩ := nfsClientIdGet_quiet h2
    obtain ⟨cl0, hcl0, hid, _⟩ := (hquiet1.trans hquiet2).ids r cl hcl
    exact hid.trans (hσ.tables clientid r cl0 (.inl (hquiet1.confirmedTable ▸ htable r rfl)) hcl0)

theorem lookupAndWait_effect {clientid : BitVec 64} {w : FoundId → RecordKey → Waiting}
    (hσ : Named σ) (h : lookupAndWait σ clientid w = some τ)
    (hfound : ∀ found key, (w found key).found = found)
    (hclientid : ∀ found key, (w found key).clientid = clientid) :
    Named τ ∧ σ.store.Quiet τ.store ∧ τ.clock = σ.clock ∧ τ.reaper = σ.reaper := by
  obtain ⟨⟨t, res⟩, ht, h⟩ := map_eq_some_iff.1 h
  have hquiet : σ.store.Quiet t := by
    rcases lookupClientId_inv ht with ⟨r, key, h1, _⟩ | ⟨u, rc, res, h1, h2, _⟩
    · exact (nfsClientIdGet_quiet h1).1
    · exact (nfsClientIdGet_quiet h1).1.trans (nfsClientIdGet_quiet h2).1
  cases res with
  | error rc =>
    cases h
    exact ⟨hσ.follows hquiet.follows fun w hw => hw, hquiet, rfl, rfl⟩
  | ok found =>
    obtain ⟨found, key⟩ := found
    cases h
    refine ⟨?_, hquiet, rfl, rfl⟩
    have hold : Named { σ with store := t } := hσ.follows hquiet.follows fun w hw => hw
    refine ⟨hold.tables, fun w' hw' cl hcl => ?_⟩
    rcases List.mem_cons.1 hw' with rfl | hw'
    · rw [hfound] at hcl
      rw [hclientid]
      exact lookupClientId_named hσ ht hcl
    · exact hold.waiting w' hw' cl hcl

theorem runWaiting_lease {w : Waiting} {now : Nat}
    (hid : ∀ cl, s.ids w.found.addr = some cl → cl.clientid = w.clientid)
    (h : runWaiting cfg s now w = some t) (r : Nat) :
    RenewedOrKept (Renews s r w) s t now r := by
  cases w with
  | setclientidConfirm ctx arg found key =>
    obtain ⟨⟨t', status⟩, h', rfl⟩ := map_eq_some_iff.1 h
    have hlease := setclientidConfirmSection_lease hid h' r
    cases found with
    | conf v => exact hlease
    | unconf r' => exact hlease
  | createSession ctx arg found key =>
    obtain ⟨⟨t', res⟩, h', rfl⟩ := map_eq_some_iff.1 h
    exact createSessionSection_lease hid h' r

theorem expiresIdle_iff : ExpiresIdle cfg σ ↔ ∀ r x, σ.reaper = some r →
    leaseAt σ.store r = some x → x.2 = 0 ∧ x.1 + cfg.leaseLifetime ≤ σ.clock := by
  constructor
  · intro h r x hr hx
    obtain ⟨cl, hcl, rfl⟩ := map_eq_some_iff.1 hx
    obtain ⟨cl0, hids, hexp, rfl⟩ := exists_ids_of_live hcl
    exact h r cl0 hr hids hexp
  · intro h r cl hr hids hexp
    exact h r (cl.lastRenew, cl.leaseReservations) hr (by rw [leaseAt, live_of_ids hids hexp]; rfl)

theorem ExpiresIdle.of_kept (hσ : ExpiresIdle cfg σ) (hclock : σ.clock ≤ τ.clock)
    (hreaper : τ.reaper = σ.reaper)
    (hlease : ∀ r, σ.reaper = some r →
      leaseAt τ.store r = none ∨ leaseAt τ.store r = leaseAt σ.store r) : ExpiresIdle cfg τ := by
  rw [expiresIdle_iff] at hσ ⊢
  intro r x hr hx
  rw [hreaper] at hr
  rcases hlease r hr with h | h
  · rw [h] at hx
    cases hx
  · rw [h] at hx
    obtain ⟨hres, hrenew⟩ := hσ r x hr hx
    exact ⟨hres, Nat.le_trans hrenew hclock⟩

theorem leaseLeft_eq_zero {leaseLifetime now : Nat} (h : cl.validLease leaseLifetime now = false) :
    cl.confirmed = .expired ∨ cl.leaseReservations ≠ 0 ∧ leaseLifetime = 0 ∨
      cl.leaseReservations = 0 ∧ cl.lastRenew + leaseLifetime ≤ now := by
  simp only [validLease, leaseLeft, ne_eq, decide_not, Bool.not_eq_eq_eq_not,
    Bool.not_false, decide_eq_true_eq] at h
  split_ifs at h with hexp hres
  · exact .inl hexp
  · exact .inr (.inr ⟨hres, by omega⟩)
  · exact .inr (.inl ⟨hres, h⟩)

theorem reserveLease_effect (hnamed : Named σ) (hσ : ExpiresIdle cfg σ)
    (h : reserveLease cfg.leaseLifetime σ.clock σ.store r = some t) :
    Named { σ with store := t } ∧
      ∀ r', σ.reaper = some r' → leaseAt t r' = none ∨ leaseAt t r' = leaseAt σ.store r' := by
  obtain ⟨cl, hcl, rfl⟩ := map_eq_some_iff.1 h
  split
  · rename_i hvalid
    refine ⟨hnamed.setId hcl _ rfl, fun r' hr' => .inr ?_⟩
    have hne : r' ≠ r := by
      rintro rfl
      by_cases hexp : cl.confirmed = .expired
      · simp [validLease, leaseLeft, hexp] at hvalid
      · obtain ⟨hres, hrenew⟩ := hσ r' cl hr' hcl hexp
        simp only [validLease, leaseLeft, hexp, hres] at hvalid
        simp at hvalid
        omega
    rw [leaseAt, live_setId, update_of_ne hne, leaseAt]
  · exact ⟨hnamed, fun _ _ => .inr rfl⟩

theorem updateLease_effect (hnamed : Named σ) (hσ : ExpiresIdle cfg σ)
    (h : updateLease σ.clock σ.store r = some t) :
    Named { σ with store := t } ∧
      ∀ r', σ.reaper = some r' → leaseAt t r' = none ∨ leaseAt t r' = leaseAt σ.store r' := by
  obtain ⟨cl, hcl, h⟩ := bind_eq_some_iff.1 h
  split_ifs at h with hres
  dsimp only at h
  generalize hcl' : (if cl.leaseReservations - 1 = 0 then
    { cl with leaseReservations := cl.leaseReservations - 1, lastRenew := σ.clock }
    else { cl with leaseReservations := cl.leaseReservations - 1 }) = released at h
  have hfields : released.clientid = cl.clientid ∧ released.confirmed = cl.confirmed := by
    rw [← hcl']
    split
    · exact ⟨rfl, rfl⟩
    · exact ⟨rfl, rfl⟩
  cases h
  refine ⟨hnamed.setId hcl _ hfields.1, fun r' hr' => ?_⟩
  by_cases hr : r' = r
  · subst hr
    have hexp : cl.confirmed = .expired := by
      by_contra hexp
      exact hres (hσ r' cl hr' hcl hexp).1
    left
    rw [leaseAt, live_setId, update_self, liveOf_expired (hfields.2.trans hexp), map_none]
  · right
    rw [leaseAt, live_setId, update_of_ne hr, leaseAt]

theorem reaperStep_iff {a : ReaperAction} (hnamed : Named σ) (hσ : ExpiresIdle cfg σ)
    (h : (reaperMachine cfg).step σ a = some τ) :
    Named τ ∧ (SparesTarget cfg σ a ↔ ExpiresIdle cfg τ) := by
  cases a with
  | tick =>
    cases h
    refine ⟨⟨hnamed.tables, hnamed.waiting⟩, fun _ => ?_, fun _ => trivial⟩
    exact hσ.of_kept (Nat.le_succ _) rfl fun _ _ => .inr rfl
  | test r =>
    obtain ⟨cl, hcl, h⟩ := bind_eq_some_iff.1 h
    split_ifs at h with htest
    obtain ⟨t, ht, rfl⟩ := map_eq_some_iff.1 h
    have hquiet := incClientIdRef_quiet ht
    refine ⟨hnamed.follows hquiet.follows fun _ hw => hw, ?_⟩
    have hlease : leaseAt t r = leaseAt σ.store r := leaseAt_congr hquiet.live r
    have hleft := leaseLeft_eq_zero (by simpa using htest.2.2)
    rw [expiresIdle_iff]
    constructor
    · intro hspares r' x hr' hx
      cases hr'
      rw [hlease] at hx
      obtain ⟨cl', hcl', rfl⟩ := map_eq_some_iff.1 hx
      obtain ⟨cl0, hids, hexp, rfl⟩ := exists_ids_of_live hcl'
      rw [hcl] at hids
      cases hids
      rcases hleft with hexp' | ⟨hres, hzero⟩ | hidle
      · exact absurd hexp' hexp
      · rcases hspares with hpos | hnone
        · exact absurd hzero hpos
        · exact absurd (hnone cl hcl hexp) hres
      · exact hidle
    · intro hidle
      right
      intro cl' hcl' hexp
      rw [hcl] at hcl'
      cases hcl'
      exact (hidle r (cl.lastRenew, cl.leaseReservations) rfl
        (by rw [hlease, leaseAt, live_of_ids hcl hexp]; rfl)).1
  | expire =>
    obtain ⟨r, hr, h⟩ := bind_eq_some_iff.1 h
    obtain ⟨s1, h1, h⟩ := bind_eq_some_iff.1 h
    obtain ⟨t, ht, rfl⟩ := map_eq_some_iff.1 h
    have hfollows := (nfsClientIdExpire_effect h1).1.trans (decClientIdRef_quiet ht).follows
    refine ⟨hnamed.follows hfollows fun _ hw => hw, fun _ r' cl hr' => ?_, fun _ => trivial⟩
    cases hr'
  | reserveLease r =>
    obtain ⟨t, ht, rfl⟩ := map_eq_some_iff.1 h
    obtain ⟨hnamed', hlease⟩ := reserveLease_effect hnamed hσ ht
    exact ⟨hnamed', fun _ => hσ.of_kept (Nat.le_refl _) rfl hlease, fun _ => trivial⟩
  | updateLease r =>
    obtain ⟨t, ht, rfl⟩ := map_eq_some_iff.1 h
    obtain ⟨hnamed', hlease⟩ := updateLease_effect hnamed hσ ht
    exact ⟨hnamed', fun _ => hσ.of_kept (Nat.le_refl _) rfl hlease, fun _ => trivial⟩
  | setclientidConfirm ctx arg | createSession ctx arg =>
    obtain ⟨_, h⟩ := ite_none_left_eq_some.1 h
    obtain ⟨hnamed', hquiet, hclock, hreaper⟩ :=
      lookupAndWait_effect hnamed h (fun _ _ => rfl) (fun _ _ => rfl)
    exact ⟨hnamed', fun _ => hσ.of_kept (Nat.le_of_eq hclock.symm) hreaper
      fun r _ => .inr (leaseAt_congr hquiet.live r), fun _ => trivial⟩
  | enter i =>
    obtain ⟨w, hw, h⟩ := bind_eq_some_iff.1 h
    obtain ⟨t, ht, rfl⟩ := map_eq_some_iff.1 h
    have hid := hnamed.waiting w (List.mem_of_getElem? hw)
    have hlease := runWaiting_lease hid ht
    refine ⟨hnamed.follows (hlease 0).follows fun _ hmem => List.mem_of_mem_eraseIdx hmem, ?_⟩
    constructor
    · intro hspares
      rw [expiresIdle_iff] at hσ ⊢
      intro r x hr hx
      by_cases hrenews : Renews σ.store r w
      · obtain ⟨cl, hcl, heq⟩ := (hlease r).renewed hrenews
        obtain ⟨hzero, hres⟩ := hspares r w cl hr hw hcl hrenews
        rw [show leaseAt t r = some x from hx] at heq
        cases heq
        exact ⟨hres, by simp [hzero]⟩
      · rcases (hlease r).kept hrenews with hnone | hsame
        · rw [show leaseAt t r = some x from hx] at hnone
          cases hnone
        · exact hσ r x hr (hsame.symm.trans hx)
    · intro hidle r w' cl hr hw' hcl hrenews
      rw [hw] at hw'
      cases hw'
      obtain ⟨cl', hcl', heq⟩ := (hlease r).renewed hrenews
      rw [hcl] at hcl'
      cases hcl'
      obtain ⟨hres, hrenew⟩ := expiresIdle_iff.1 hidle r _ hr heq
      simp only at hrenew
      exact ⟨by omega, hres⟩

theorem named_of_init (h : (reaperMachine cfg).init σ) : Named σ := by
  obtain ⟨⟨held, hinv⟩, _, hwaiting⟩ := h
  refine ⟨fun c r cl hc hcl => ?_, fun w hw => by simp [hwaiting] at hw⟩
  obtain ⟨cl', hlive, hid⟩ : ∃ cl', σ.store.live r = some cl' ∧ cl'.clientid = c := by
    rcases hc with hc | hc
    · obtain ⟨cl', hlive, _, hid⟩ := (hinv.wf.confirmed c r).1 hc
      exact ⟨cl', hlive, hid⟩
    · obtain ⟨cl', hlive, _, hid⟩ := (hinv.wf.unconfirmed c r).1 hc
      exact ⟨cl', hlive, hid⟩
  obtain ⟨cl0, hcl0, _, rfl⟩ := exists_ids_of_live hlive
  rw [hcl] at hcl0
  cases hcl0
  exact hid

theorem named_and_idle (h : (reaperMachine cfg).ReachableBy (SparesTarget cfg) σ) :
    Named σ ∧ ExpiresIdle cfg σ := by
  refine Machine.ReachableBy.invariant (P := fun σ => Named σ ∧ ExpiresIdle cfg σ) ?_ ?_ h
  · intro σ hinit
    refine ⟨named_of_init hinit, fun r cl hr => ?_⟩
    rw [hinit.2.1] at hr
    cases hr
  · rintro σ a τ ⟨hnamed, hidle⟩ hspares hstep
    obtain ⟨hnamed', hiff⟩ := reaperStep_iff hnamed hidle hstep
    exact ⟨hnamed', hiff.1 hspares⟩

/-- In every run whose steps spare the target of the reaper, the reaper marks only idle clients;
and a step spares the target exactly if this goes on after it. -/
theorem reaper_expires_idle_iff (cfg : ClientConfig) (σ : ReaperState)
    (hσ : (reaperMachine cfg).ReachableBy (SparesTarget cfg) σ) :
    ExpiresIdle cfg σ ∧ ∀ a τ, (reaperMachine cfg).step σ a = some τ →
      (SparesTarget cfg σ a ↔
        ∀ υ, (reaperMachine cfg).RunBy (SparesTarget cfg) τ υ → ExpiresIdle cfg υ) := by
  obtain ⟨hnamed, hidle⟩ := named_and_idle hσ
  refine ⟨hidle, fun a τ hstep => ⟨fun hspares υ hrun => ?_, fun hrun => ?_⟩⟩
  · exact (named_and_idle ((hσ.step hspares hstep).run hrun)).2
  · exact (reaperStep_iff hnamed hidle hstep).2.2 (hrun τ .refl)

def idleCtx : RequestCtx := ⟨1, .unix 1000 1000, some 7, 10⟩

def leaseCreate : CreateSessionArgs where
  clientid := 0x300000001
  sequence := 1
  flags := 0
  foreChanAttrs := ⟨0, 4096, 4096, 4096, 16, 32⟩
  backChanAttrs := ⟨0, 4096, 4096, 4096, 16, 32⟩
  backChannelCreated := false

theorem exists_unconfirmed_client (as : List ReaperAction) {α : Type} (f : ReaperState → Option α)
    (x : α)
    (hrun : ((nfs4OpExchangeId plainConfig (empty 3) idleCtx ⟨5, [65], 0, 0, true, .ok⟩).bind
      fun r => ((reaperMachine plainConfig).runFrom ⟨r.1, 100, none, []⟩ as).bind f) = some x) :
    ∃ σ0 σ, (reaperMachine plainConfig).init σ0 ∧
      (reaperMachine plainConfig).runFrom σ0 as = some σ ∧ f σ = some x := by
  obtain ⟨⟨s, res⟩, hs, hrun⟩ := bind_eq_some_iff.1 hrun
  obtain ⟨σ, hσ, hf⟩ := bind_eq_some_iff.1 hrun
  obtain ⟨held, hinv, _⟩ := exchangeId_cases (inv_empty 3) hs
  exact ⟨⟨s, 100, none, []⟩, σ, ⟨⟨held, hinv⟩, rfl, rfl⟩, hσ, hf⟩

/-- The reaper tests the client 90 seconds after it was made; its lease of 60 seconds is over. -/
theorem reaper_expires_idle_client :
    ∃ (σ : ReaperState) (cl : ClientId), σ.reaper = some 0 ∧ σ.store.ids 0 = some cl ∧
      cl.confirmed ≠ .expired ∧ cl.leaseReservations = 0 ∧
      cl.lastRenew + plainConfig.leaseLifetime ≤ σ.clock := by
  obtain ⟨σ0, σ, hinit, hrun, hview⟩ := exists_unconfirmed_client [.test 0]
    (fun σ => (σ.store.ids 0).map fun cl => (σ.reaper, cl.confirmed)) (some 0, .unconfirmed)
    (by decide +kernel)
  obtain ⟨cl, hcl, hview⟩ := map_eq_some_iff.1 hview
  simp only [Prod.mk.injEq] at hview
  obtain ⟨τ, hstep, hτ⟩ := bind_eq_some_iff.1 hrun
  obtain rfl : τ = σ := some.inj hτ
  have hspares : SparesTarget plainConfig σ0 (.test 0) := .inl (by decide)
  have hexp : cl.confirmed ≠ .expired := by simp [hview.2]
  have hidle := (reaper_expires_idle_iff plainConfig τ (.step (.init hinit) hspares hstep)).1
  exact ⟨τ, cl, hview.1, hcl, hexp, hidle 0 cl hview.1 hcl hexp⟩

/-- The CREATE_SESSION of a client gets the mutex of the client record between the test and the
expiry: the client ID is confirmed and renewed, and expired in the same second. -/
theorem reaper_expires_renewed_client :
    ∃ σ, (reaperMachine plainConfig).Reachable σ ∧ σ.reaper = some 0 ∧ ∃ cl τ,
      σ.store.ids 0 = some cl ∧ cl.confirmed = .confirmed ∧ cl.lastRenew = σ.clock ∧
      0 < plainConfig.leaseLifetime ∧ (reaperMachine plainConfig).step σ .expire = some τ ∧
      τ.store.live 0 = none := by
  obtain ⟨σ0, σ, hinit, hrun, hview⟩ := exists_unconfirmed_client
    [.createSession idleCtx leaseCreate, .test 0, .enter 0]
    (fun σ => (σ.store.ids 0).bind fun cl =>
      ((reaperMachine plainConfig).step σ .expire).map fun τ =>
        (σ.reaper, cl.confirmed, cl.lastRenew, σ.clock, τ.store.live 0))
    (some 0, .confirmed, 100, 100, none) (by decide +kernel)
  obtain ⟨cl, hcl, hview⟩ := bind_eq_some_iff.1 hview
  obtain ⟨τ, hstep, hview⟩ := map_eq_some_iff.1 hview
  simp only [Prod.mk.injEq] at hview
  obtain ⟨hreaper, hstate, hrenew, hclock, hgone⟩ := hview
  exact ⟨σ, Machine.reachable_of_runFrom (.init hinit) _ hrun, hreaper, cl, τ, hcl, hstate,
    hrenew.trans hclock.symm, by decide, hstep, hgone⟩

end EdgeComputing.MainNfsd
