import EdgeComputing.Rpcal.DrcAccounting

/-!
A reference dropped, a cache queued for recycling and freed, and the accounting of references
over every run.
-/

namespace EdgeComputing.Rpcal

open List Option Library SvcXprt TcpDrc DrcSt

section Put

variable {σ τ : DrcSt} {r c d : Nat} {req : SvcReq} {xprt : SvcXprt} {drc : TcpDrc}

theorem AccountInv.dropped (h : AccountInv σ) (hdrc : σ.drc? d = some drc)
    (hdrcs : τ.drcs = (σ.setDrc d (nfsDupreqUnrefDrc drc)).drcs)
    (hset : Recounted σ τ (some d) none none
      (if (nfsDupreqUnrefDrc drc).refcnt = 0 then some d else none))
    (htree : τ.recycleT = σ.recycleT) (hqueue : τ.recycleQ = σ.recycleQ) (hattached : Attached τ) :
    AccountInv τ := by
  have hdrc' : ∀ e, τ.drc? e = (σ.setDrc d (nfsDupreqUnrefDrc drc)).drc? e := by
    intro e
    simp only [drc?, hdrcs]
  have hok := h.drcs d drc hdrc
  have hcount := hok.refcnt
  have hless := hset.users d
  have hmore := hset.queuers d
  rw [bit_self, bit_none] at hless
  obtain ⟨hflag, hnot, hnone⟩ := hok.used (by omega)
  refine h.only (d := d) ⟨fun e he => ?_, fun e he => ?_, fun e he => ?_,
    fun e _ hmem => htree ▸ hmem, fun e _ => by rw [hqueue]⟩
    ((hdrc' d).trans (drc?_setDrc_self hdrc _)) ⟨?_, hqueue ▸ hok.queued, fun hrecycle => ?_, ?_⟩
    (hqueue ▸ h.nodup) hattached
  · rw [hdrc', drc?_setDrc_ne he]
  · have hsame := hset.users e
    rwa [bit_ne he] at hsame
  · have hsame := hset.queuers e
    split_ifs at hsame
    · rwa [bit_ne he] at hsame
    · exact hsame
  · simp only [nfsDupreqUnrefDrc]
    omega
  · rw [show drc.flagRecycle = true from hrecycle] at hflag
    cases hflag
  · simp only [show (nfsDupreqUnrefDrc drc).flagRecycle = false from hflag, and_true]
    rw [hnone] at hmore
    split_ifs at hmore ⊢
    · rwa [bit_self] at hmore
    · exact hmore

variable {after : DrcSt} {zero : Bool}

theorem putDrc_some (h : nfsDupreqPutDrc σ d = some (after, zero)) :
    ∃ drc, σ.drc? d = some drc ∧ after = σ.setDrc d (nfsDupreqUnrefDrc drc) ∧
      zero = decide ((nfsDupreqUnrefDrc drc).refcnt = 0) := by
  obtain ⟨drc, hdrc, h⟩ := bind_eq_some_iff.1 h
  obtain ⟨hafter, hzero⟩ := Prod.mk.inj (some.inj h)
  exact ⟨drc, hdrc, hafter.symm, hzero.symm⟩

theorem AccountInv.putDrc (h : AccountInv σ) (hreq : σ.requests[r]? = some req)
    (hphase : req.phase = .putting d) (hput : nfsDupreqPutDrc σ d = some (after, zero)) :
    AccountInv (after.setPhase r req (if zero then .queueing d else .released)) := by
  obtain ⟨drc, hdrc, rfl, rfl⟩ := putDrc_some hput
  generalize hnext : (if decide ((nfsDupreqUnrefDrc drc).refcnt = 0) = true then
    SvcPhase.queueing d else .released) = next
  have hholds : next.holds = none := by
    rw [← hnext]
    split_ifs <;> rfl
  have hqueues : next.queues = if (nfsDupreqUnrefDrc drc).refcnt = 0 then some d else none := by
    rw [← hnext]
    split_ifs <;> simp_all [SvcPhase.queues]
  have hset := recounted_setPhase (σ := σ.setDrc d (nfsDupreqUnrefDrc drc)) hreq next
  rw [hphase, hholds, hqueues] at hset
  refine h.dropped hdrc rfl { hset with } rfl rfl
    (h.attached.setPhase hreq (by rw [hphase]; nofun) fun e he => ?_)
  rw [hholds] at he
  cases he

theorem Attached.setXprt (h : Attached σ) (hidle : σ.idle c = true) (new : SvcXprt) :
    Attached (σ.setXprt c new) := by
  intro i other hi hother
  obtain ⟨x, hx, hrest⟩ := h i other hi hother
  refine ⟨x, ?_, hrest⟩
  have hne : other.xprt ≠ c := by
    have hall := List.all_eq_true.1 hidle other (mem_of_getElem? hi)
    simpa [hother] using hall
  simp only [DrcSt.setXprt]
  rw [getElem?_set_ne (Ne.symm hne), hx]

theorem AccountInv.close (h : AccountInv σ) (hxprt : σ.xprts[c]? = some xprt)
    (hup : xprt.phase = .up) (hidle : σ.idle c = true) (hu2 : xprt.xpU2 = some d)
    (hput : nfsDupreqPutDrc σ d = some (after, zero)) :
    AccountInv (after.setXprt c (if zero then { xprt with phase := .queueing d }
      else { xprt with phase := .closed, xpU2 := none })) := by
  obtain ⟨drc, hdrc, rfl, rfl⟩ := putDrc_some hput
  generalize hnext : (if decide ((nfsDupreqUnrefDrc drc).refcnt = 0) = true then
    ({ xprt with phase := .queueing d } : SvcXprt)
      else { xprt with phase := .closed, xpU2 := none }) = next
  have hheld : xprt.holds = some d := by simp [holds, hup, hu2]
  have hnone : xprt.queues = none := by simp [queues, hup]
  have hholds : next.holds = none := by
    rw [← hnext]
    split_ifs <;> rfl
  have hqueues : next.queues = if (nfsDupreqUnrefDrc drc).refcnt = 0 then some d else none := by
    rw [← hnext]
    split_ifs <;> simp_all [queues]
  have hset := recounted_setXprt (σ := σ.setDrc d (nfsDupreqUnrefDrc drc)) hxprt next
  rw [hheld, hnone, hholds, hqueues] at hset
  exact h.dropped hdrc rfl { hset with } rfl rfl (h.attached.setXprt hidle next)

/-- The state after the section of `nfs_dupreq_put_drc` under both locks. -/
def enqueued (σ : DrcSt) (d : Nat) (drc : TcpDrc) (now : Int) : DrcSt :=
  ({ σ with recycleQ := σ.recycleQ ++ [d], recycleQlen := σ.recycleQlen + 1 } : DrcSt).setDrc d
    { drc with recycleTime := now, flagRecycle := true }

variable {now : Int}

theorem AccountInv.enqueueDrc (h : AccountInv σ) (hqueuer : 0 < queuers σ d)
    (henqueue : enqueueDrc now σ d = some after) :
    ∃ drc, σ.drc? d = some drc ∧ drc.refcnt = 0 ∧ drc.flagRecycle = false ∧
      after = enqueued σ d drc now := by
  obtain ⟨drc, hdrc, henqueue⟩ := bind_eq_some_iff.1 henqueue
  have hqueueing := (h.drcs d drc hdrc).queueing
  split_ifs at hqueueing with hidle
  · rw [if_pos hidle] at henqueue
    exact ⟨drc, hdrc, hidle.1, hidle.2, (some.inj henqueue).symm⟩
  · omega

theorem AccountInv.enqueued (h : AccountInv σ) (hdrc : σ.drc? d = some drc) (hzero : drc.refcnt = 0)
    (hflag : drc.flagRecycle = false) (hdrcs : τ.drcs = (enqueued σ d drc now).drcs)
    (hset : Recounted σ τ none none (some d) none) (htree : τ.recycleT = σ.recycleT)
    (hqueue : τ.recycleQ = σ.recycleQ ++ [d]) (hattached : Attached τ) : AccountInv τ := by
  have hdrc' : ∀ e, τ.drc? e = (Rpcal.enqueued σ d drc now).drc? e := by
    intro e
    simp only [drc?, hdrcs]
  have hok := h.drcs d drc hdrc
  have hnot : d ∉ σ.recycleQ := by
    rw [hok.queued, hflag]
    exact Bool.false_ne_true
  have hless := hset.queuers d
  rw [bit_self, bit_none, hok.queueing, if_pos ⟨hzero, hflag⟩] at hless
  refine h.only (d := d) ⟨fun e he => ?_, fun e _ => hset.users e, fun e he => ?_,
    fun e _ hmem => htree ▸ hmem, fun e he => ?_⟩
    ((hdrc' d).trans (drc?_setDrc_self hdrc _))
    ⟨hok.refcnt.trans (hset.users d).symm, ?_, fun _ => hzero, ?_⟩ ?_ hattached
  · exact (hdrc' e).trans (drc?_setDrc_ne he _)
  · have hsame := hset.queuers e
    rwa [bit_ne he] at hsame
  · rw [hqueue, mem_append, mem_singleton]
    exact ⟨fun hmem => hmem.resolve_right he, .inl⟩
  · rw [hqueue]
    exact iff_of_true (mem_append_right _ (.head _)) rfl
  · rw [if_neg (by simp)]
    omega
  · rw [hqueue, nodup_append]
    refine ⟨h.nodup, pairwise_singleton _ d, fun e he e' he' heq => hnot ?_⟩
    rw [← mem_singleton.1 he', ← heq]
    exact he

theorem AccountInv.enqueue (h : AccountInv σ) (hreq : σ.requests[r]? = some req)
    (hphase : req.phase = .queueing d) (henqueue : Rpcal.enqueueDrc now σ d = some after) :
    AccountInv (after.setPhase r req .released) := by
  have hqueuer : 0 < queuers σ d := by
    have hset := (recounted_setPhase hreq .released).queuers d
    rw [hphase] at hset
    simp only [SvcPhase.queues, bit_self, bit_none] at hset
    omega
  obtain ⟨drc, hdrc, hzero, hflag, rfl⟩ := h.enqueueDrc hqueuer henqueue
  have hset := recounted_setPhase (σ := Rpcal.enqueued σ d drc now) hreq .released
  rw [hphase] at hset
  exact h.enqueued hdrc hzero hflag rfl { hset with } rfl rfl
    (h.attached.setPhase hreq (by rw [hphase]; nofun) nofun)

theorem AccountInv.closeEnqueue (h : AccountInv σ) (hxprt : σ.xprts[c]? = some xprt)
    (hphase : xprt.phase = .queueing d) (henqueue : Rpcal.enqueueDrc now σ d = some after) :
    AccountInv (after.setXprt c { xprt with phase := .closed, xpU2 := none }) := by
  have hqueues : xprt.queues = some d := by simp [queues, hphase]
  have hholds : xprt.holds = none := by simp [holds, hphase]
  have hqueuer : 0 < queuers σ d := by
    have hset := (recounted_setXprt hxprt { xprt with phase := .closed, xpU2 := none }).queuers d
    rw [hqueues, bit_self] at hset
    simp only [queues, bit_none] at hset
    omega
  obtain ⟨drc, hdrc, hzero, hflag, rfl⟩ := h.enqueueDrc hqueuer henqueue
  have hset := recounted_setXprt (σ := Rpcal.enqueued σ d drc now) hxprt
    { xprt with phase := .closed, xpU2 := none }
  rw [hholds, hqueues] at hset
  refine h.enqueued hdrc hzero hflag rfl { hset with } rfl rfl ?_
  -- The connection is not up, so all its requests have been released.
  refine Attached.setXprt (σ := Rpcal.enqueued σ d drc now) h.attached ?_ _
  rw [idle, List.all_eq_true]
  intro other hother
  obtain ⟨i, hi⟩ := mem_iff_getElem?.1 hother
  by_contra hbusy
  have hbusy : other.xprt = c ∧ other.phase ≠ .released := by simpa using hbusy
  obtain ⟨x, hx, hup, -⟩ := h.attached i other hi hbusy.2
  rw [hbusy.1, hxprt] at hx
  cases hx
  rw [hphase] at hup
  cases hup

end Put

def freedFront (σ : DrcSt) (d : Nat) (drc : TcpDrc) (rest : List Nat) : DrcSt :=
  { σ with
    drcs := σ.drcs.set d none
    recycleT := if (σ.lookupAddr drc.addr).isSome then σ.recycleT.filter (· ≠ d) else σ.recycleT
    recycleQ := rest
    recycleQlen := σ.recycleQlen - 1 }

section Free

variable {σ : DrcSt} {d : Nat} {drc : TcpDrc} {rest : List Nat}

theorem drc?_freedFront_ne {e : Nat} (h : e ≠ d) : (freedFront σ d drc rest).drc? e = σ.drc? e := by
  simp only [drc?, freedFront]
  rw [getElem?_set_ne (Ne.symm h)]

theorem drc?_freedFront_self (hdrc : σ.drc? d = some drc) :
    (freedFront σ d drc rest).drc? d = none := by
  simp only [drc?, freedFront]
  rw [getElem?_set_of_some (join_eq_some_iff.1 hdrc)]
  rfl

theorem not_mem_freedFront_tree (hdrc : σ.drc? d = some drc) :
    d ∉ (freedFront σ d drc rest).recycleT := by
  simp only [freedFront]
  split_ifs with hfound
  · simp
  · intro hmem
    have hnone := find?_eq_none.1 (not_isSome_iff_eq_none.1 hfound) d hmem
    simp [hdrc] at hnone

theorem AccountInv.free (h : AccountInv σ) (hqueue : σ.recycleQ = d :: rest) (hdrc : σ.drc? d = some drc) :
    AccountInv (freedFront σ d drc rest) := by
  have hnodup := h.nodup
  rw [hqueue, nodup_cons] at hnodup
  have hok := h.drcs d drc hdrc
  have hflag : drc.flagRecycle = true := hok.queued.1 (hqueue ▸ .head _)
  have hzero := hok.unused hflag
  have hmem : ∀ e, e ≠ d → (e ∈ rest ↔ e ∈ σ.recycleQ) := by
    intro e he
    rw [hqueue, mem_cons]
    exact ⟨.inr, fun hor => hor.resolve_left he⟩
  refine ⟨fun e other he => ?_, fun e he => ?_, hnodup.2, h.attached⟩
  · have hne : e ≠ d := by
      rintro rfl
      rw [drc?_freedFront_self hdrc] at he
      cases he
    rw [drc?_freedFront_ne hne] at he
    obtain ⟨hcount, hqueued, hunused, hqueueing⟩ := h.drcs e other he
    exact ⟨hcount, (hmem e hne).trans hqueued, hunused, hqueueing⟩
  · by_cases hne : e = d
    · subst hne
      refine ⟨hok.refcnt.symm.trans hzero, ?_, not_mem_freedFront_tree hdrc, hnodup.1⟩
      have hqueueing := hok.queueing
      rwa [if_neg (by simp [hflag])] at hqueueing
    · rw [drc?_freedFront_ne hne] at he
      obtain ⟨husers, hqueuers, htree, hnot⟩ := h.gone e he
      refine ⟨husers, hqueuers, fun hin => htree ?_, fun hin => hnot ((hmem e hne).1 hin)⟩
      simp only [freedFront] at hin
      split_ifs at hin
      · exact (mem_filter.1 hin).1
      · exact hin

end Free

structure FreesQueued (σ τ : DrcSt) : Prop where
  inv : AccountInv τ
  requests : τ.requests = σ.requests
  xprts : τ.xprts = σ.xprts
  drc : ∀ d, τ.drc? d = σ.drc? d ∨ d ∈ σ.recycleQ

variable {σ : DrcSt}

theorem AccountInv.lastExpireCheck (h : AccountInv σ) (now : Int) :
    AccountInv { σ with lastExpireCheck := now } :=
  h.sameUsers (fun _ => rfl) (fun _ => rfl) (fun _ => rfl) rfl rfl h.attached

theorem freeExpiredLoop_frees {config : DrcConfig} {queue : List Nat} (h : AccountInv σ)
    (hqueue : σ.recycleQ = queue) : FreesQueued σ (freeExpiredLoop config now queue σ) := by
  induction queue generalizing σ with
  | nil => exact ⟨h.lastExpireCheck now, rfl, rfl, fun _ => .inl rfl⟩
  | cons d rest ih =>
    cases hdrc : σ.drc? d with
    | none => exact absurd (hqueue ▸ .head _) (h.gone d hdrc).queue
    | some drc =>
      simp only [freeExpiredLoop, hdrc]
      by_cases hexpired : 0 < drc.recycleTime ∧ (config.expireDelta : Int) < now - drc.recycleTime
      · rw [if_pos hexpired]
        change FreesQueued σ (freeExpiredLoop config now rest (freedFront σ d drc rest))
        obtain ⟨hinv, hrequests, hxprts, hothers⟩ := ih (h.free hqueue hdrc) rfl
        refine ⟨hinv, hrequests, hxprts, fun e => ?_⟩
        by_cases hne : e = d
        · exact .inr (by rw [hne, hqueue]; exact .head _)
        · rcases hothers e with hsame | hmem
          · exact .inl (hsame.trans (drc?_freedFront_ne hne))
          · exact .inr (by rw [hqueue]; exact .tail _ hmem)
      · rw [if_neg hexpired]
        exact ⟨h.lastExpireCheck now, rfl, rfl, fun _ => .inl rfl⟩

theorem drcFreeExpired_frees (config : DrcConfig) (now : Int) (h : AccountInv σ) :
    FreesQueued σ (drcFreeExpired config now σ) := by
  unfold drcFreeExpired
  split_ifs
  · exact ⟨h, rfl, rfl, fun _ => .inl rfl⟩
  · exact freeExpiredLoop_frees h rfl

def DrcSt.startedAs (σ : DrcSt) (r : Nat) : Option Phase := do
  let req ← σ.requests[r]?
  match req.phase with
  | .cached d i => σ.cachePhase d i
  | _ => none

/-- No release of a request that `nfs_dupreq_start` has answered with
`DUPREQ_BEING_PROCESSED`. -/
def GivesBack (σ : DrcSt) : DrcStAction → Prop
  | .rele r => σ.startedAs r ≠ some .beingProcessed
  | _ => True

section Steps

variable {config : DrcConfig} {σ τ : DrcSt} {r : Nat} {req : SvcReq} {xprt : SvcXprt}

theorem AccountInv.releCached (h : AccountInv σ) (hreq : σ.requests[r]? = some req)
    (hxprt : σ.xprts[req.xprt]? = some xprt) {d i : Nat} (hphase : req.phase = .cached d i)
    (hrele : releCached σ r req i xprt = some τ) :
    (σ.startedAs r ≠ some .beingProcessed → AccountInv τ) ∧
      (σ.startedAs r = some .beingProcessed → ¬ Accounted τ) := by
  have hbusy : req.phase ≠ .released := by
    rw [hphase]
    nofun
  have hu2 := (h.attached.ofXprt hreq hxprt hbusy).2 d (by rw [hphase]; rfl)
  obtain ⟨d', hd', hrele⟩ := bind_eq_some_iff.1 hrele
  obtain rfl : d = d' := some.inj (hu2.symm.trans hd')
  obtain ⟨phase, hcache, hrele⟩ := bind_eq_some_iff.1 hrele
  have hstarted : σ.startedAs r = some phase := by
    unfold startedAs
    rw [hreq]
    simp only [bind_eq_bind, bind_some, hphase, hcache]
  obtain ⟨-, hrele⟩ := ite_none_right_eq_some.1 hrele
  obtain ⟨after, hnext, hrele⟩ := bind_eq_some_iff.1 hrele
  cases hrele
  obtain ⟨hinv, hrequests⟩ := h.cacheStep hnext
  have hreq' : after.requests[r]? = some req := hrequests ▸ hreq
  rw [hstarted]
  constructor
  · intro hne
    rw [if_neg fun heq => hne (congrArg some heq)]
    exact hinv.setPhase hreq' hbusy (by rw [hphase]; rfl) (by rw [hphase]; rfl)
  · intro heq haccounted
    rw [if_pos (some.inj heq)] at haccounted
    -- The count is the one before, with one user less.
    obtain ⟨drc, cache, hdrc, rfl⟩ := cacheStep_some hnext
    have hcount := haccounted.refcnt d _ (drc?_setDrc_self hdrc _)
    have hbefore := (hinv.drcs d _ (drc?_setDrc_self hdrc _)).refcnt
    have hset := (recounted_setPhase hreq' .released).users d
    rw [hphase] at hset
    simp only [SvcPhase.holds, bit_self, bit_none] at hset
    omega

variable {a : DrcStAction}

theorem requestStep_inv (h : AccountInv σ) (hreq : σ.requests[r]? = some req)
    (hxprt : σ.xprts[req.xprt]? = some xprt)
    (hback : (∀ i, a ≠ .rele i) ∨ σ.startedAs r ≠ some .beingProcessed)
    (hstep : requestStep config σ r req xprt a = some τ) : AccountInv τ := by
  cases a with
  | getDrc i type =>
    simp only [requestStep] at hstep
    split at hstep
    case h_1 hphase =>
      obtain ⟨⟨d, check, after⟩, hget, hstep⟩ := bind_eq_some_iff.1 hstep
      cases hstep
      exact h.getDrc hreq hphase hxprt hget
    case h_2 => cases hstep
  | freeExpired i now =>
    simp only [requestStep] at hstep
    split at hstep
    case h_1 d hphase =>
      cases hstep
      obtain ⟨hinv, hrequests, -, -⟩ := drcFreeExpired_frees config now h
      exact hinv.setPhase (hrequests ▸ hreq) (by rw [hphase]; nofun) (by rw [hphase]; rfl)
        (by rw [hphase]; rfl)
    case h_2 => cases hstep
  | lookup i key =>
    simp only [requestStep] at hstep
    split at hstep
    case h_1 d hphase =>
      obtain ⟨drc, hdrc, hstep⟩ := bind_eq_some_iff.1 hstep
      obtain ⟨after, hstart, hstep⟩ := bind_eq_some_iff.1 hstep
      cases hstep
      obtain ⟨hinv, hrequests⟩ := h.cacheStep hstart
      exact hinv.setPhase (hrequests ▸ hreq) (by rw [hphase]; nofun) (by rw [hphase]; rfl)
        (by rw [hphase]; rfl)
    case h_2 => cases hstep
  | finish i | delete i =>
    simp only [requestStep] at hstep
    split at hstep
    case h_1 =>
      obtain ⟨d, -, hstep⟩ := bind_eq_some_iff.1 hstep
      exact (h.cacheStep hstep).1
    case h_2 => cases hstep
  | advance i =>
    simp only [requestStep] at hstep
    split at hstep
    case h_1 =>
      obtain ⟨d, -, hstep⟩ := bind_eq_some_iff.1 hstep
      obtain ⟨phase, -, hstep⟩ := bind_eq_some_iff.1 hstep
      obtain ⟨-, hstep⟩ := ite_none_left_eq_some.1 hstep
      exact (h.cacheStep hstep).1
    case h_2 => cases hstep
  | rele i =>
    simp only [requestStep] at hstep
    split at hstep
    case h_1 hphase =>
      cases hstep
      exact h.setPhase hreq (by rw [hphase]; nofun) (by rw [hphase]; rfl) (by rw [hphase]; rfl)
    case h_2 d i' hphase =>
      exact (h.releCached hreq hxprt hphase hstep).1 (hback.resolve_left fun hne => hne i rfl)
    case h_3 => cases hstep
  | putDrc i =>
    simp only [requestStep] at hstep
    split at hstep
    case h_1 d hphase =>
      obtain ⟨⟨after, zero⟩, hput, hstep⟩ := bind_eq_some_iff.1 hstep
      cases hstep
      exact h.putDrc hreq hphase hput
    case h_2 => cases hstep
  | enqueue i now =>
    simp only [requestStep] at hstep
    split at hstep
    case h_1 d hphase =>
      obtain ⟨after, henqueue, hstep⟩ := bind_eq_some_iff.1 hstep
      cases hstep
      exact h.enqueue hreq hphase henqueue
    case h_2 => cases hstep
  | connect _ | arrive _ _ | close _ | closeEnqueue _ _ => cases hstep

theorem AccountInv.connect (h : AccountInv σ) (addr : Nat) :
    AccountInv { σ with xprts := σ.xprts ++ [⟨addr, none, .up⟩] } := by
  refine h.sameUsers (fun _ => rfl) (fun d => ?_) (fun d => ?_) rfl rfl fun i other hi hother => ?_
  · simp [users, countP_append, holds]
  · simp [queuers, countP_append, queues]
  · obtain ⟨x, hx, hrest⟩ := h.attached i other hi hother
    refine ⟨x, ?_, hrest⟩
    have hlt := (List.getElem?_eq_some_iff.1 hx).1
    rw [getElem?_append_left hlt, hx]

theorem AccountInv.arrive (h : AccountInv σ) {c : Nat} (hxprt : σ.xprts[c]? = some xprt)
    (hup : xprt.phase = .up) (cacheable : Bool) :
    AccountInv { σ with
      requests := σ.requests ++ [⟨c, if cacheable then .arrived else .noCache⟩] } := by
  have hholds : (if cacheable then SvcPhase.arrived else .noCache).holds = none := by
    cases cacheable <;> rfl
  have hqueues : (if cacheable then SvcPhase.arrived else .noCache).queues = none := by
    cases cacheable <;> rfl
  refine h.sameUsers (fun _ => rfl) (fun d => ?_) (fun d => ?_) rfl rfl fun i other hi hother => ?_
  · simp [users, countP_append, hholds]
  · simp [queuers, countP_append, hqueues]
  · rcases getElem?_append_cases hi with ⟨-, rfl⟩ | ⟨-, hi⟩
    · refine ⟨xprt, hxprt, hup, fun d hd => ?_⟩
      rw [hholds] at hd
      cases hd
    · exact h.attached i other hi hother

theorem request_some (h : drcStStep.request config σ r a = some τ) :
    ∃ req xprt, σ.requests[r]? = some req ∧ σ.xprts[req.xprt]? = some xprt ∧
      requestStep config σ r req xprt a = some τ := by
  obtain ⟨req, hreq, h⟩ := bind_eq_some_iff.1 h
  obtain ⟨xprt, hxprt, h⟩ := bind_eq_some_iff.1 h
  exact ⟨req, xprt, hreq, hxprt, h⟩

theorem request_inv (h : AccountInv σ)
    (hback : (∀ i, a ≠ .rele i) ∨ σ.startedAs r ≠ some .beingProcessed)
    (hstep : drcStStep.request config σ r a = some τ) : AccountInv τ := by
  obtain ⟨req, xprt, hreq, hxprt, hstep⟩ := request_some hstep
  exact requestStep_inv h hreq hxprt hback hstep

theorem drcStStep_inv (h : AccountInv σ) (hback : GivesBack σ a)
    (hstep : drcStStep config σ a = some τ) : AccountInv τ := by
  cases a with
  | connect addr =>
    cases hstep
    exact h.connect addr
  | arrive c cacheable =>
    obtain ⟨xprt, hxprt, hstep⟩ := bind_eq_some_iff.1 hstep
    obtain ⟨hup, hstep⟩ := ite_none_right_eq_some.1 hstep
    cases hstep
    exact h.arrive hxprt hup cacheable
  | close c =>
    obtain ⟨xprt, hxprt, hstep⟩ := bind_eq_some_iff.1 hstep
    obtain ⟨⟨hup, hidle⟩, hstep⟩ := ite_none_right_eq_some.1 hstep
    split at hstep
    case h_1 hu2 =>
        cases hstep
        have hholds : xprt.holds = none := by simp [holds, hu2]
        have hqueues : xprt.queues = none := by simp [queues, hup]
        have hset := recounted_setXprt hxprt { xprt with phase := .closed }
        rw [hholds, hqueues] at hset
        exact h.sameUsers (fun _ => rfl) hset.users hset.queuers rfl rfl
          (h.attached.setXprt hidle _)
    case h_2 d hu2 =>
        obtain ⟨⟨after, zero⟩, hput, hstep⟩ := bind_eq_some_iff.1 hstep
        cases hstep
        exact h.close hxprt hup hidle hu2 hput
  | closeEnqueue c now =>
    obtain ⟨xprt, hxprt, hstep⟩ := bind_eq_some_iff.1 hstep
    split at hstep
    case h_1 d hphase =>
      obtain ⟨after, henqueue, hstep⟩ := bind_eq_some_iff.1 hstep
      cases hstep
      exact h.closeEnqueue hxprt hphase henqueue
    case h_2 => cases hstep
  | rele r => exact request_inv h (.inr hback) hstep
  | getDrc _ _ | freeExpired _ _ | lookup _ _ | finish _ | delete _ | advance _ | putDrc _
  | enqueue _ _ =>
    refine request_inv h (.inl ?_) hstep
    intro i heq
    cases heq

theorem freeExpired_queued (h : AccountInv σ)
    (hstep : drcStStep config σ (.freeExpired r now) = some τ) {d : Nat} {drc : TcpDrc}
    (hdrc : σ.drc? d = some drc) (hfreed : τ.drc? d = none) : d ∈ σ.recycleQ := by
  obtain ⟨req, xprt, hreq, hxprt, hrequest⟩ := request_some hstep
  simp only [requestStep] at hrequest
  split at hrequest
  case h_1 e hphase =>
    cases hrequest
    rcases (drcFreeExpired_frees config now h).drc d with hsame | hqueue
    · rw [show (drcFreeExpired config now σ).drc? d = none from hfreed, hdrc] at hsame
      cases hsame
    · exact hqueue
  case h_2 => cases hrequest

end Steps

/-- In every run without the release of a request that is being processed already the account is
right, such a release is what makes it wrong, and `drc_free_expired` frees only caches that are on
the queue and that nobody uses. -/
theorem drc_references_iff (config : DrcConfig) {σ : DrcSt}
    (hσ : (drcStMachine config).ReachableBy GivesBack σ) :
    Accounted σ ∧
      (∀ a τ, drcStStep config σ a = some τ → (GivesBack σ a ↔ Accounted τ)) ∧
      ∀ r now τ, drcStStep config σ (.freeExpired r now) = some τ →
        ∀ d, (σ.drc? d).isSome = true → τ.drc? d = none → d ∈ σ.recycleQ ∧ users σ d = 0 := by
  have hinv : AccountInv σ := by
    refine Machine.ReachableBy.invariant (P := AccountInv) ?_ ?_ hσ
    · rintro s ⟨start, rfl⟩
      exact ⟨nofun, fun d _ => ⟨rfl, rfl, nofun, nofun⟩, .nil, nofun⟩
    · intro s a t hs hback hstep
      exact drcStStep_inv hs hback hstep
  have haccounted := hinv.accounted
  refine ⟨haccounted, fun a τ hstep => ⟨fun hback => ?_, fun hτ => ?_⟩,
    fun r now τ hstep d hlive hfreed => ?_⟩
  · exact (drcStStep_inv hinv hback hstep).accounted
  · cases a with
    | rele r =>
      intro hbusy
      obtain ⟨req, xprt, hreq, hxprt, hrequest⟩ := request_some hstep
      simp only [requestStep] at hrequest
      split at hrequest
      case h_1 hphase => simp [startedAs, hreq, hphase] at hbusy
      case h_2 d i hphase => exact (hinv.releCached hreq hxprt hphase hrequest).2 hbusy hτ
      case h_3 => cases hrequest
    | _ => trivial
  · obtain ⟨drc, hdrc⟩ := isSome_iff_exists.1 hlive
    have hqueue := freeExpired_queued hinv hstep hdrc hfreed
    exact ⟨hqueue, ((haccounted.queued d drc hdrc).1 hqueue).1⟩

instance (σ : DrcSt) : (a : DrcStAction) → Decidable (GivesBack σ a)
  | .rele r => inferInstanceAs (Decidable (σ.startedAs r ≠ some .beingProcessed))
  | .connect _ | .arrive _ _ | .getDrc _ _ | .freeExpired _ _ | .lookup _ _ | .finish _
  | .delete _ | .advance _ | .putDrc _ | .enqueue _ _ | .close _ | .closeEnqueue _ _ =>
    .isTrue trivial

def smallDrcConfig : DrcConfig := ⟨1, 4, 2, 600⟩

def drcStart : DrcSt := ⟨[], [], [], 0, 0, [], []⟩

/-- A request that is processed and released, after which its connection is closed and the cache
queued; then a second connection from another address, whose first request frees it. -/
def drcRecycled : List DrcStAction :=
  [.connect 7, .arrive 0 true, .getDrc 0 .tcpV3, .freeExpired 0 5, .lookup 0 ⟨7, 1, 11⟩, .advance 0,
    .finish 0, .advance 0, .rele 0, .putDrc 0, .close 0, .closeEnqueue 0 10,
    .connect 8, .arrive 1 true, .getDrc 1 .tcpV3, .freeExpired 1 2000]

theorem drc_references_recycled :
    ∃ σ, (drcStMachine smallDrcConfig).ReachableBy GivesBack σ ∧
      σ.drcs.map (Option.map refcnt) = [none, some 2] ∧ σ.recycleQ = [] ∧ Accounted σ := by
  have hrun : ((drcStMachine smallDrcConfig).runFromBy GivesBack drcStart drcRecycled).map
      (fun σ => (σ.drcs.map (Option.map refcnt), σ.recycleQ)) = some ([none, some 2], []) := by
    decide +kernel
  obtain ⟨σ, hreach, hstate⟩ := Machine.exists_reachableBy hrun (.init ⟨0, rfl⟩)
  obtain ⟨hcounts, hqueue⟩ := Prod.mk.inj hstate
  exact ⟨σ, hreach, hcounts, hqueue, (drc_references_iff smallDrcConfig hreach).1⟩

def drcLeaked : List DrcStAction :=
  [.connect 7, .arrive 0 true, .getDrc 0 .tcpV3, .freeExpired 0 5, .lookup 0 ⟨7, 1, 11⟩, .advance 0,
    .arrive 0 true, .getDrc 1 .tcpV3, .lookup 1 ⟨7, 1, 11⟩, .rele 1,
    .finish 0, .advance 0, .rele 0, .putDrc 0, .close 0]

/-- The cache keeps a reference that belongs to nobody, so it is never put on the queue. -/
theorem copy_leaks_reference :
    ∃ σ, (drcStMachine smallDrcConfig).Reachable σ ∧
      σ.drcs.map (Option.map refcnt) = [some 1] ∧ users σ 0 = 0 ∧ queuers σ 0 = 0 ∧
      σ.recycleQ = [] ∧ ¬ Accounted σ := by
  have hrun : ((drcStMachine smallDrcConfig).runFrom drcStart drcLeaked).map
      (fun σ => (σ.drcs.map (Option.map refcnt), users σ 0, queuers σ 0, σ.recycleQ)) =
        some ([some 1], 0, 0, []) := by
    decide +kernel
  obtain ⟨σ, hreach, hstate⟩ := Machine.exists_reachable hrun (.init ⟨0, rfl⟩)
  simp only [Prod.mk.injEq] at hstate
  obtain ⟨hcounts, husers, hqueuers, hqueue⟩ := hstate
  refine ⟨σ, hreach, hcounts, husers, hqueuers, hqueue, fun haccounted => ?_⟩
  have hslot : (σ.drcs.map (Option.map refcnt))[0]? = some (some 1) := by
    rw [hcounts]
    rfl
  rw [getElem?_map, map_eq_some_iff] at hslot
  obtain ⟨slot, hslot, hcount⟩ := hslot
  obtain ⟨drc, rfl, hone⟩ := map_eq_some_iff.1 hcount
  have hdrc : σ.drc? 0 = some drc := by simp [drc?, hslot]
  have hrefcnt := haccounted.refcnt 0 drc hdrc
  omega

end EdgeComputing.Rpcal
