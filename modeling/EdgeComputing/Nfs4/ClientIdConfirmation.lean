import EdgeComputing.Library.Machine
import EdgeComputing.Nfs4.ClientIdChanges

/-!
Who confirms an NFSv4.0 client ID. SETCLIENTID_CONFIRM compares the verifier of the request with
that of an unconfirmed record only where the record has been confirmed in the meantime.
-/

namespace EdgeComputing.Nfs4

open Option Function Library Sal Sal.ClientStore ClientId

structure Issue where
  clientid : BitVec 64
  verifier : BitVec 64
  ctx : RequestCtx
deriving DecidableEq

structure V40Run where
  store : ClientStore
  issued : List Issue

inductive V40Request
  | setclientid (ctx : RequestCtx) (arg : SetclientidArgs)
  | setclientidConfirm (ctx : RequestCtx) (arg : SetclientidConfirmArgs)
deriving DecidableEq

def issueOf (cfg : ClientConfig) (t : ClientStore) (ctx : RequestCtx) (arg : SetclientidArgs)
    (res : SetclientidRes) : Option Issue :=
  res.verifier?.bind fun verifier =>
    (getClientRecord cfg arg.id 0 0).bind fun key =>
      ((t.records key).unconfirmedRec.bind t.ids).map fun unconf => ⟨unconf.clientid, verifier, ctx⟩

def v40Step (cfg : ClientConfig) (σ : V40Run) : V40Request → Option V40Run
  | .setclientid ctx arg =>
    (nfs4OpSetclientid cfg σ.store ctx arg).map fun (t, res) =>
      ⟨t, (issueOf cfg t ctx arg res).toList ++ σ.issued⟩
  | .setclientidConfirm ctx arg =>
    (nfs4OpSetclientidConfirm σ.store ctx arg).map fun (t, _) => { σ with store := t }

def v40Machine (cfg : ClientConfig) : Machine V40Run V40Request where
  init σ := ∃ epochLow, σ = ⟨empty epochLow, []⟩
  step := v40Step cfg

def latestIssue (issued : List Issue) (clientid : BitVec 64) : Option Issue :=
  issued.find? fun issue => issue.clientid = clientid

def Touched (s : ClientStore) (r : Nat) (cl' : ClientId) : Prop :=
  cl'.confirmed = .confirmed ∧ ∀ cl, s.ids r = some cl → cl.confirmed = .confirmed → cl.cb ≠ cl'.cb

/-- The request is a SETCLIENTID_CONFIRM of the client ID by its principal, with the verifier last
returned to this principal. -/
def RightfulConfirm (issued : List Issue) (cl' : ClientId) : V40Request → Prop
  | .setclientid _ _ => False
  | .setclientidConfirm ctx arg =>
    arg.clientid = cl'.clientid ∧ samePrincipal cl' ctx = true ∧
      ∃ issue, latestIssue issued arg.clientid = some issue ∧
        issue.verifier = arg.setclientidConfirm ∧
        nfsCompareClientcred issue.ctx.credential ctx.credential = true ∧
        issue.ctx.client = ctx.client

/-- The verifier of the request is that of the unconfirmed record, where this is going to be
confirmed, or where its callback goes to a confirmed record; the latter also has the principal
of the request. -/
structure VerifierChecked (s : ClientStore) (ctx : RequestCtx) (arg : SetclientidConfirmArgs)
    (unconf : ClientId) : Prop where
  confirms : s.confirmedTable arg.clientid = none → unconf.verifier = arg.setclientidConfirm
  updates : ∀ key v conf, unconf.clientRecord = some key →
    (s.records key).confirmedRec = some v → s.live v = some conf →
    conf.clientid = arg.clientid → conf.cb ≠ unconf.cb →
    unconf.verifier = arg.setclientidConfirm ∧ samePrincipal conf ctx = true

def RequestChecked (s : ClientStore) : V40Request → Prop
  | .setclientid _ _ => True
  | .setclientidConfirm ctx arg =>
    ∀ r unconf, Confirms s ctx arg r unconf → VerifierChecked s ctx arg unconf

structure IssuedInv (σ : V40Run) : Prop where
  inv : σ.store.Inv fun _ => 0
  issued : ∀ r cl, σ.store.live r = some cl → cl.confirmed = .unconfirmed →
    ∃ issue, latestIssue σ.issued cl.clientid = some issue ∧ issue.verifier = cl.verifier ∧
      issue.ctx.credential = cl.credential ∧ issue.ctx.client = cl.gshClient

variable {cfg : ClientConfig} {σ τ : V40Run} {s t : ClientStore} {ctx : RequestCtx}
  {res : SetclientidRes}

theorem issuedInv_init (h : (v40Machine cfg).init σ) : IssuedInv σ := by
  obtain ⟨epochLow, rfl⟩ := h
  exact ⟨inv_empty epochLow, fun r cl h => by simp [empty, live] at h⟩

theorem IssuedInv.setclientid {arg : SetclientidArgs} (hσ : IssuedInv σ)
    (h : nfs4OpSetclientid cfg σ.store ctx arg = some (t, res)) :
    IssuedInv ⟨t, (issueOf cfg t ctx arg res).toList ++ σ.issued⟩ := by
  obtain ⟨hinv, hcases⟩ := setclientid_cases hσ.inv h
  refine ⟨hinv, fun r cl hlive hun => ?_⟩
  rcases hcases with ⟨hsame, hnone⟩ | ⟨key, new?, hkey, hadds, hverifier⟩
  · rw [hsame] at hlive
    simpa [issueOf, hnone] using hσ.issued r cl hlive hun
  generalize hlive' : t.live = live' at hadds hlive
  cases hadds with
  | failed => simpa [issueOf, hverifier] using hσ.issued r cl (withoutUnconfirmed_le hlive) hun
  | @added r0 new _ hnew =>
    have hlive0 : t.live r0 = some new := by rw [hlive', update_self]
    have hrec := (hinv.wf.unconfirmedRec key r0).2
      ⟨new, hlive0, hnew.unconfirmed, hnew.clientRecord⟩
    obtain ⟨cl0, hids, _, rfl⟩ := exists_ids_of_live hlive0
    have hissue : issueOf cfg t ctx arg res = some ⟨cl0.clientid, cl0.verifier, ctx⟩ := by
      rw [issueOf, hverifier, map_some, bind_some, hkey, bind_some, hrec, bind_some, hids, map_some]
      rfl
    by_cases hr : r = r0
    · subst hr
      rw [update_self] at hlive
      cases hlive
      exact ⟨⟨cl0.clientid, cl0.verifier, ctx⟩, by simp [latestIssue, hissue, erased],
        rfl, hnew.credential.symm, hnew.gshClient.symm⟩
    · -- a table entry has one record, so the new client ID is another one
      have hother : cl0.clientid ≠ cl.clientid := by
        intro hid
        have h0 := (hinv.wf.unconfirmed cl.clientid r0).2 ⟨_, hlive0, hnew.unconfirmed, hid⟩
        have h1 := (hinv.wf.unconfirmed cl.clientid r).2 ⟨cl, hlive' ▸ hlive, hun, rfl⟩
        rw [h0] at h1
        exact hr (some.inj h1).symm
      rw [update_of_ne hr] at hlive
      simpa [latestIssue, hissue, hother] using hσ.issued r cl (withoutUnconfirmed_le hlive) hun

variable {arg : SetclientidConfirmArgs} {cl' : ClientId}

theorem ConfirmOutcome.confirmed_cases {live' : Nat → Option ClientId}
    (h : ConfirmOutcome s ctx arg live') {r' : Nat} (hlive : live' r' = some cl') :
    s.live r' = some cl' ∨
      (∃ r unconf key conf, Confirms s ctx arg r unconf ∧ unconf.clientRecord = some key ∧
        (s.records key).confirmedRec = some r' ∧ s.live r' = some conf ∧
        conf.clientid = arg.clientid ∧ cl' = updatedFrom conf unconf ctx.now) ∨
      ∃ unconf, Confirms s ctx arg r' unconf ∧ s.confirmedTable arg.clientid = none ∧
        cl' = { unconf with confirmed := .confirmed } := by
  cases h with
  | refused => exact .inl hlive
  | @updated r v unconf conf key hconfirms hkey hrec hconf hid =>
    obtain ⟨_, hlive⟩ := of_update_none hlive
    rcases of_update_some hlive with ⟨rfl, rfl⟩ | ⟨_, hlive⟩
    · exact .inr (.inl ⟨r, unconf, key, conf, hconfirms, hkey, hrec, hconf, hid, rfl⟩)
    · exact .inl hlive
  | @confirmed r unconf key hconfirms hkey _ hnone =>
    rcases of_update_some hlive with ⟨rfl, rfl⟩ | ⟨_, hlive⟩
    · exact .inr (.inr ⟨unconf, hconfirms, hnone, rfl⟩)
    · exact .inl (withoutConfirmed_le hlive)
  | failed =>
    obtain ⟨_, hlive⟩ := of_update_none hlive
    exact .inl (withoutConfirmed_le hlive)

theorem IssuedInv.setclientidConfirm (hσ : IssuedInv σ) (hinv : t.Inv fun _ => 0)
    (h : ConfirmOutcome σ.store ctx arg t.live) : IssuedInv { σ with store := t } := by
  refine ⟨hinv, fun r cl hlive hun => ?_⟩
  rcases h.confirmed_cases hlive with hsame | ⟨_, _, key, conf, _, _, hrec, hconf, _, rfl⟩ |
    ⟨_, _, _, rfl⟩
  · exact hσ.issued r cl hsame hun
  · obtain ⟨conf', hconf', hstate, _⟩ := (hσ.inv.wf.confirmedRec key r).1 hrec
    rw [hconf] at hconf'
    cases hconf'
    rw [updatedFrom, hstate] at hun
    cases hun
  · cases hun

theorem issuedInv_step {a : V40Request} (hσ : IssuedInv σ)
    (h : (v40Machine cfg).step σ a = some τ) : IssuedInv τ := by
  cases a with
  | setclientid ctx arg =>
    obtain ⟨⟨t, res⟩, ht, rfl⟩ := map_eq_some_iff.1 h
    exact hσ.setclientid ht
  | setclientidConfirm ctx arg =>
    obtain ⟨⟨t, status⟩, ht, rfl⟩ := map_eq_some_iff.1 h
    obtain ⟨hinv, houtcome⟩ := setclientidConfirm_cases hσ.inv ht
    exact hσ.setclientidConfirm hinv houtcome

theorem issuedInv_of_reachable (h : (v40Machine cfg).Reachable σ) : IssuedInv σ :=
  Machine.Reachable.invariant (fun _ => issuedInv_init) (fun _ _ _ => issuedInv_step) h

variable {r : Nat}

theorem not_touched (hlive : s.live r = some cl'.erased) : ¬ Touched s r cl' := by
  rintro ⟨hstate, htouched⟩
  obtain ⟨cl, hids, _, herased⟩ := exists_ids_of_live hlive
  have hcb : cl.cb = cl'.cb := (congrArg cb herased).symm
  have hconf : cl.confirmed = cl'.confirmed := (congrArg confirmed herased).symm
  exact htouched cl hids (hconf.trans hstate) hcb

theorem not_touched_of_setclientid {arg : SetclientidArgs} {held : Nat → Nat} (hinv : s.Inv held)
    (h : nfs4OpSetclientid cfg s ctx arg = some (t, res)) (hids : t.ids r = some cl') :
    ¬ Touched s r cl' := by
  intro htouched
  obtain ⟨_, hcases⟩ := setclientid_cases hinv h
  have hlive : t.live r = some cl'.erased := live_of_ids hids (by simp [htouched.1])
  refine not_touched ?_ htouched
  rcases hcases with ⟨hsame, _⟩ | ⟨key, new?, _, hadds, _⟩
  · exact hsame ▸ hlive
  generalize t.live = live' at hadds hlive
  cases hadds with
  | failed => exact withoutUnconfirmed_le hlive
  | added _ hnew =>
    rcases of_update_some hlive with ⟨rfl, heq⟩ | ⟨_, hlive⟩
    · have hstate : cl'.confirmed = .unconfirmed := by
        have := hnew.unconfirmed
        rw [← heq] at this
        exact this
      rw [htouched.1] at hstate
      cases hstate
    · exact withoutUnconfirmed_le hlive

theorem IssuedInv.exists_issue {unconf : ClientId} (hσ : IssuedInv σ)
    (h : Confirms σ.store ctx arg r unconf) :
    unconf.clientid = arg.clientid ∧ ∃ issue, latestIssue σ.issued arg.clientid = some issue ∧
      issue.verifier = unconf.verifier ∧
      nfsCompareClientcred issue.ctx.credential ctx.credential = true ∧
      issue.ctx.client = ctx.client := by
  obtain ⟨cl, hlive, hstate, hid⟩ := foundAt_spec hσ.inv.wf h.found
  rw [show FoundId.addr (.unconf r) = r from rfl, h.live] at hlive
  cases hlive
  obtain ⟨issue, hlatest, hverifier, hcred, hclient⟩ := hσ.issued r unconf h.live hstate
  have hprincipal := h.principal
  simp only [samePrincipal, Bool.and_eq_true, decide_eq_true_eq] at hprincipal
  exact ⟨hid, issue, hid ▸ hlatest, hverifier, hcred ▸ hprincipal.1.1.1,
    hclient.trans hprincipal.2.symm⟩

theorem rightful_of_checked (hσ : IssuedInv σ) (houtcome : ConfirmOutcome σ.store ctx arg t.live)
    (hchecked : RequestChecked σ.store (.setclientidConfirm ctx arg)) (hids : t.ids r = some cl')
    (htouched : Touched σ.store r cl') : RightfulConfirm σ.issued cl' (.setclientidConfirm ctx arg) := by
  have hlive : t.live r = some cl'.erased := live_of_ids hids (by simp [htouched.1])
  rcases houtcome.confirmed_cases hlive with hsame |
    ⟨r0, unconf, key, conf, hconfirms, hkey, hrec, hconf, hid, heq⟩ |
    ⟨unconf, hconfirms, hnone, heq⟩
  · exact absurd htouched (not_touched hsame)
  · obtain ⟨_, issue, hlatest, hverifier, hcred, hclient⟩ := hσ.exists_issue hconfirms
    obtain ⟨cl0, hids0, _, rfl⟩ := exists_ids_of_live hconf
    obtain ⟨cl1, hlive1, hstate, _⟩ := (hσ.inv.wf.confirmedRec key r).1 hrec
    rw [hconf] at hlive1
    cases hlive1
    have hcb' := congrArg cb heq
    have hcb : cl0.cb ≠ unconf.cb := fun h => htouched.2 cl0 hids0 hstate (h.trans hcb'.symm)
    obtain ⟨hmatch, hprincipal⟩ :=
      (hchecked r0 unconf hconfirms).updates key r _ hkey hrec hconf hid hcb
    refine ⟨?_, ?_, issue, hlatest, hverifier.trans hmatch, hcred, hclient⟩
    · exact hid.symm.trans (congrArg clientid heq).symm
    · change samePrincipal cl'.erased ctx = true
      rw [heq]
      exact hprincipal
  · obtain ⟨hid, issue, hlatest, hverifier, hcred, hclient⟩ := hσ.exists_issue hconfirms
    have hmatch := (hchecked r unconf hconfirms).confirms hnone
    refine ⟨?_, ?_, issue, hlatest, hverifier.trans hmatch, hcred, hclient⟩
    · exact hid.symm.trans (congrArg clientid heq).symm
    · change samePrincipal cl'.erased ctx = true
      rw [heq]
      exact hconfirms.principal

theorem checked_of_rightful {arg : SetclientidConfirmArgs} (hσ : IssuedInv σ)
    (houtcome : ConfirmOutcome σ.store ctx arg t.live)
    (hrightful : ∀ r cl', t.ids r = some cl' → Touched σ.store r cl' →
      RightfulConfirm σ.issued cl' (.setclientidConfirm ctx arg)) :
    RequestChecked σ.store (.setclientidConfirm ctx arg) := by
  intro r unconf hconfirms
  obtain ⟨hid, issue, hlatest, hverifier, _⟩ := hσ.exists_issue hconfirms
  -- what a touched client ID says of the unconfirmed record
  have htouch : ∀ r' cl', t.live r' = some cl' → cl'.confirmed = .confirmed →
      (∀ cl, σ.store.live r' = some cl → cl.confirmed = .confirmed → cl.cb ≠ cl'.cb) →
      unconf.verifier = arg.setclientidConfirm ∧ samePrincipal cl' ctx = true := by
    intro r' cl' hlive hstate hcb
    obtain ⟨cl0, hids, _, rfl⟩ := exists_ids_of_live hlive
    obtain ⟨_, hprincipal, issue', hlatest', hmatch, _⟩ := hrightful r' cl0 hids
      ⟨hstate, fun cl hcl hconf => hcb cl.erased (live_of_ids hcl (by simp [hconf])) hconf⟩
    rw [hlatest] at hlatest'
    cases hlatest'
    exact ⟨hverifier.symm.trans hmatch, hprincipal⟩
  generalize hlive' : t.live = live' at houtcome
  cases houtcome with
  | refused hnone => exact absurd hconfirms (hnone r unconf)
  | @updated r0 v unconf0 conf key hconfirms0 hkey hrec hconf hid0 =>
    obtain ⟨rfl, rfl⟩ := hconfirms.unique hconfirms0
    have htable := (hσ.inv.wf.confirmed arg.clientid v).2
    obtain ⟨conf', hconf', hstate, _⟩ := (hσ.inv.wf.confirmedRec key v).1 hrec
    rw [hconf] at hconf'
    cases hconf'
    have hne : v ≠ r := by
      rintro rfl
      obtain ⟨cl, hcl, hun, _⟩ := foundAt_spec hσ.inv.wf hconfirms.found
      rw [show FoundId.addr (.unconf v) = v from rfl, hconf] at hcl
      cases hcl
      rw [hstate] at hun
      cases hun
    refine ⟨fun h => ?_, fun key' v' conf'' hkey' hrec' hconf'' _ hcb => ?_⟩
    · rw [h] at htable
      exact absurd (htable ⟨conf, hconf, by simp [hstate], hid0⟩) (by simp)
    · rw [hkey] at hkey'
      cases hkey'
      rw [hrec] at hrec'
      cases hrec'
      rw [hconf] at hconf''
      cases hconf''
      refine htouch v (updatedFrom conf unconf ctx.now) ?_ hstate ?_
      · rw [hlive', update_of_ne hne, update_self]
      · intro cl hcl _
        rw [hconf] at hcl
        cases hcl
        exact hcb
  | @confirmed r0 unconf0 key hconfirms0 hkey hother hnone =>
    obtain ⟨rfl, rfl⟩ := hconfirms.unique hconfirms0
    have hright := htouch r { unconf with confirmed := .confirmed }
      (by rw [hlive', update_self]) rfl ?_
    · refine ⟨fun _ => hright.1, fun key' v conf hkey' hrec hconf hid' _ => ?_⟩
      rw [hkey] at hkey'
      cases hkey'
      exact absurd hid' (hother v conf hrec hconf)
    · intro cl hcl hconf
      obtain ⟨cl', hcl', hun, _⟩ := foundAt_spec hσ.inv.wf hconfirms.found
      rw [show FoundId.addr (.unconf r) = r from rfl, hcl] at hcl'
      cases hcl'
      rw [hconf] at hun
      cases hun
  | @failed r0 unconf0 key hconfirms0 hkey hother hsome =>
    obtain ⟨rfl, rfl⟩ := hconfirms.unique hconfirms0
    refine ⟨fun h => absurd h hsome, fun key' v conf hkey' hrec hconf hid' _ => ?_⟩
    rw [hkey] at hkey'
    cases hkey'
    exact absurd hid' (hother v conf hrec hconf)

/-- Along any run of SETCLIENTIDs and SETCLIENTID_CONFIRMs a client record has at most one
confirmed and one unconfirmed client ID; and a client ID is confirmed, or gets another
callback, only by its principal with the verifier issued last, exactly where the request has
the verifier that the operation does not look at. -/
theorem confirmed_by_owner_iff (cfg : ClientConfig) (σ : V40Run)
    (hσ : (v40Machine cfg).Reachable σ) :
    (∀ r r' cl cl' key, σ.store.ids r = some cl → σ.store.ids r' = some cl' →
      cl.clientRecord = some key → cl'.clientRecord = some key →
      (cl.confirmed = .confirmed ∧ cl'.confirmed = .confirmed ∨
        cl.confirmed = .unconfirmed ∧ cl'.confirmed = .unconfirmed) → r = r') ∧
    ∀ a τ, (v40Machine cfg).step σ a = some τ →
      (RequestChecked σ.store a ↔
        ∀ r cl', τ.store.ids r = some cl' → Touched σ.store r cl' →
          RightfulConfirm σ.issued cl' a) := by
  have hissued := issuedInv_of_reachable hσ
  have hwf := hissued.inv.wf
  constructor
  · intro r r' cl cl' key hids hids' hkey hkey' hstates
    rcases hstates with ⟨hstate, hstate'⟩ | ⟨hstate, hstate'⟩
    · have hrec := (hwf.confirmedRec key r).2 ⟨_, live_of_ids hids (by simp [hstate]), hstate, hkey⟩
      have hrec' := (hwf.confirmedRec key r').2
        ⟨_, live_of_ids hids' (by simp [hstate']), hstate', hkey'⟩
      exact some.inj (hrec.symm.trans hrec')
    · have hrec := (hwf.unconfirmedRec key r).2 ⟨_, live_of_ids hids (by simp [hstate]), hstate, hkey⟩
      have hrec' := (hwf.unconfirmedRec key r').2
        ⟨_, live_of_ids hids' (by simp [hstate']), hstate', hkey'⟩
      exact some.inj (hrec.symm.trans hrec')
  · intro a τ hstep
    cases a with
    | setclientid ctx arg =>
      obtain ⟨⟨t, res⟩, ht, rfl⟩ := map_eq_some_iff.1 hstep
      refine ⟨fun _ r cl' hids htouched => ?_, fun _ => trivial⟩
      exact not_touched_of_setclientid hissued.inv ht hids htouched
    | setclientidConfirm ctx arg =>
      obtain ⟨⟨t, status⟩, ht, rfl⟩ := map_eq_some_iff.1 hstep
      obtain ⟨_, houtcome⟩ := setclientidConfirm_cases hissued.inv ht
      exact ⟨fun hchecked r cl' => rightful_of_checked hissued houtcome hchecked,
        checked_of_rightful hissued houtcome⟩

def userCtx (now : Nat) : RequestCtx := ⟨0, .unix 1000 1000, some 7, now⟩

def userSetclientid : SetclientidArgs := ⟨5, [65], 100, [116], [49], 1⟩

def userClientId : ClientId where
  clientid := 0x300000001
  verifier := 1
  incomingVerifier := 5
  confirmed := .unconfirmed
  credential := .unix 1000 1000
  gshClient := some 7
  clientRecord := some ⟨[65], 0, 0⟩
  cb := ⟨[116], [49], 100, 1⟩
  minorversion := 0
  lastRenew := 10
  leaseReservations := 0
  createSessionSequence := 0
  createSessionSlot := ⟨.ok, none⟩
  openowners := []
  lockowners := 0
  ownerStates := []
  refcount := 1

theorem exists_run_userClientId :
    ∃ σ, (v40Machine plainConfig).Reachable σ ∧ σ.store.ids 0 = some userClientId ∧
      σ.issued = [⟨0x300000001, 1, userCtx 10⟩] ∧
      foundAt σ.store 0x300000001 = some (.unconf 0) ∧
      (σ.store.records ⟨[65], 0, 0⟩).confirmedRec = none ∧
      ∀ verifier ∈ [(1 : BitVec 64), 99], ((v40Machine plainConfig).step σ
        (.setclientidConfirm (userCtx 11) ⟨0x300000001, verifier⟩)).map (fun τ => τ.store.ids 0) =
          some (some { userClientId with confirmed := .confirmed }) := by
  have hrun : ((v40Machine plainConfig).runFrom ⟨empty 3, []⟩
      [.setclientid (userCtx 10) userSetclientid]).map (fun σ =>
        (σ.store.ids 0, σ.issued, foundAt σ.store 0x300000001,
          (σ.store.records ⟨[65], 0, 0⟩).confirmedRec)) =
      some (some userClientId, [⟨0x300000001, 1, userCtx 10⟩], some (.unconf 0), none) := by
    decide +kernel
  have hconfirm : ((v40Machine plainConfig).runFrom ⟨empty 3, []⟩
      [.setclientid (userCtx 10) userSetclientid]).map (fun σ =>
        [(1 : BitVec 64), 99].map fun verifier => ((v40Machine plainConfig).step σ
          (.setclientidConfirm (userCtx 11) ⟨0x300000001, verifier⟩)).map fun τ => τ.store.ids 0) =
      some (List.replicate 2 (some (some { userClientId with confirmed := .confirmed }))) := by
    decide +kernel
  obtain ⟨σ, hσ, hfields⟩ := map_eq_some_iff.1 hrun
  rw [hσ] at hconfirm
  simp only [Prod.mk.injEq] at hfields
  obtain ⟨hids, hissued, hfound, hrec⟩ := hfields
  refine ⟨σ, Machine.reachable_of_runFrom (.init ⟨3, rfl⟩) _ hσ, hids, hissued, hfound, hrec, ?_⟩
  simpa using hconfirm

/-- With the verifier that SETCLIENTID has returned, the confirmation is rightful. -/
theorem confirmed_by_owner_user :
    ∃ σ τ cl', (v40Machine plainConfig).step σ
        (.setclientidConfirm (userCtx 11) ⟨0x300000001, 1⟩) = some τ ∧
      τ.store.ids 0 = some cl' ∧ Touched σ.store 0 cl' ∧
      RightfulConfirm σ.issued cl' (.setclientidConfirm (userCtx 11) ⟨0x300000001, 1⟩) := by
  obtain ⟨σ, hσ, hids, _, hfound, hrec, hsteps⟩ := exists_run_userClientId
  obtain ⟨τ, hstep, hids'⟩ := map_eq_some_iff.1 (hsteps 1 (by simp))
  have htouched : Touched σ.store 0 { userClientId with confirmed := .confirmed } := by
    refine ⟨rfl, fun cl hcl hconf => ?_⟩
    rw [hids] at hcl
    cases hcl
    cases hconf
  refine ⟨σ, τ, _, hstep, hids', htouched, ?_⟩
  refine ((confirmed_by_owner_iff plainConfig σ hσ).2 _ τ hstep).1 ?_ 0 _ hids' htouched
  intro r unconf hconfirms
  obtain rfl : 0 = r := by simpa using hfound.symm.trans hconfirms.found
  have hlive := hconfirms.live
  rw [live_of_ids hids (by decide)] at hlive
  cases hlive
  refine ⟨fun _ => rfl, fun key v conf hkey hrec' => ?_⟩
  cases hkey
  rw [hrec] at hrec'
  cases hrec'

/-- The client that was given the verifier 1 confirms its client ID with the verifier 99. -/
theorem confirmed_with_wrong_verifier :
    ∃ σ, (v40Machine plainConfig).Reachable σ ∧ ∃ τ cl', (v40Machine plainConfig).step σ
        (.setclientidConfirm (userCtx 11) ⟨0x300000001, 99⟩) = some τ ∧
      τ.store.ids 0 = some cl' ∧ Touched σ.store 0 cl' ∧
      ∃ issue, latestIssue σ.issued 0x300000001 = some issue ∧ issue.verifier = 1 := by
  obtain ⟨σ, hσ, hids, hissued, _, _, hsteps⟩ := exists_run_userClientId
  obtain ⟨τ, hstep, hids'⟩ := map_eq_some_iff.1 (hsteps 99 (by simp))
  refine ⟨σ, hσ, τ, _, hstep, hids', ⟨rfl, fun cl hcl hconf => ?_⟩, ?_⟩
  · rw [hids] at hcl
    cases hcl
    cases hconf
  · exact ⟨⟨0x300000001, 1, userCtx 10⟩, by simp [latestIssue, hissued], rfl⟩

end EdgeComputing.Nfs4
