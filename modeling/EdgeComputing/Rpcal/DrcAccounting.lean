import EdgeComputing.Library.Table
import EdgeComputing.Rpcal.DrcRecycle

/-!
The references on the caches of TCP connections. A cache counts its connections and the requests
that have obtained it; without any it waits on the recycle queue, and only then is it freed. A
request that finds another copy of itself in progress never drops its reference.
-/

namespace EdgeComputing.Rpcal

open List Option Library DrcSt SvcXprt

/-- The cache a connection has a reference on. It is given back when the connection is torn
down. -/
def SvcXprt.holds (xprt : SvcXprt) : Option Nat :=
  if xprt.phase = .up then xprt.xpU2 else none

def SvcPhase.holds : SvcPhase → Option Nat
  | .gotten d _ | .cached d _ | .putting d => some d
  | _ => none

def SvcXprt.queues (xprt : SvcXprt) : Option Nat :=
  match xprt.phase with
  | .queueing d => some d
  | _ => none

def SvcPhase.queues : SvcPhase → Option Nat
  | .queueing d => some d
  | _ => none

def users (σ : DrcSt) (d : Nat) : Nat :=
  σ.xprts.countP (·.holds = some d) + σ.requests.countP (·.phase.holds = some d)

/-- The number of calls of `nfs_dupreq_put_drc` that are about to put a cache on the queue. -/
def queuers (σ : DrcSt) (d : Nat) : Nat :=
  σ.xprts.countP (·.queues = some d) + σ.requests.countP (·.phase.queues = some d)

/-- The count of a cache is the number of its users, a cache is on the queue exactly when it has
none and nobody is about to put it there, and a cache that is used has not been freed. -/
structure Accounted (σ : DrcSt) : Prop where
  refcnt : ∀ d drc, σ.drc? d = some drc → drc.refcnt = users σ d
  queued : ∀ d drc, σ.drc? d = some drc → (d ∈ σ.recycleQ ↔ users σ d = 0 ∧ queuers σ d = 0)
  live : ∀ d, 0 < users σ d → (σ.drc? d).isSome = true

def bit (held : Option Nat) (d : Nat) : Nat := if held = some d then 1 else 0

@[simp] theorem bit_none (d : Nat) : bit none d = 0 := rfl

@[simp] theorem bit_self (d : Nat) : bit (some d) d = 1 := if_pos rfl

theorem bit_ne {d e : Nat} (h : e ≠ d) : bit (some d) e = 0 :=
  if_neg fun heq => h (some.inj heq).symm

variable {d : Nat} {drc : TcpDrc}

section Counts

variable {σ : DrcSt} {r c : Nat} {req : SvcReq} {xprt : SvcXprt}

/-- One request or connection held `h` and was about to queue `q`; now it is `h'` and `q'`. -/
structure Recounted (σ τ : DrcSt) (h h' q q' : Option Nat) : Prop where
  users : ∀ d, users τ d + bit h d = users σ d + bit h' d
  queuers : ∀ d, queuers τ d + bit q d = queuers σ d + bit q' d

theorem recounted_setPhase (hreq : σ.requests[r]? = some req) (phase : SvcPhase) :
    Recounted σ (σ.setPhase r req phase) req.phase.holds phase.holds req.phase.queues
      phase.queues := by
  constructor
  · intro d
    have hcount := countP_set_add (d := { req with phase }) (·.phase.holds = some d) hreq
    simp only [decide_eq_true_eq] at hcount
    simp only [users, setPhase, bit]
    omega
  · intro d
    have hcount := countP_set_add (d := { req with phase }) (·.phase.queues = some d) hreq
    simp only [decide_eq_true_eq] at hcount
    simp only [queuers, setPhase, bit]
    omega

theorem recounted_setXprt (hxprt : σ.xprts[c]? = some xprt) (new : SvcXprt) :
    Recounted σ (σ.setXprt c new) xprt.holds new.holds xprt.queues new.queues := by
  constructor
  · intro d
    have hcount := countP_set_add (d := new) (·.holds = some d) hxprt
    simp only [decide_eq_true_eq] at hcount
    simp only [users, setXprt, bit]
    omega
  · intro d
    have hcount := countP_set_add (d := new) (·.queues = some d) hxprt
    simp only [decide_eq_true_eq] at hcount
    simp only [queuers, setXprt, bit]
    omega

theorem bit_le_users (hxprt : σ.xprts[c]? = some xprt) (d : Nat) : bit xprt.holds d ≤ users σ d := by
  unfold bit
  split_ifs with h
  · have hpos : 0 < σ.xprts.countP (·.holds = some d) :=
      countP_pos_iff.2 ⟨xprt, mem_of_getElem? hxprt, by simpa using h⟩
    unfold users
    omega
  · exact Nat.zero_le _

theorem drc?_setDrc_self (h : σ.drc? d = some drc) (new : TcpDrc) :
    (σ.setDrc d new).drc? d = some new := by
  obtain ⟨slot, hslot⟩ : ∃ slot, σ.drcs[d]? = some slot :=
    ⟨some drc, join_eq_some_iff.1 h⟩
  simp only [drc?, setDrc]
  rw [getElem?_set_of_some hslot]
  rfl

theorem drc?_setDrc_ne {d e : Nat} (h : e ≠ d) (new : TcpDrc) :
    (σ.setDrc d new).drc? e = σ.drc? e := by
  simp only [drc?, setDrc]
  rw [getElem?_set_ne (Ne.symm h)]

end Counts

structure DrcOk (σ : DrcSt) (d : Nat) (drc : TcpDrc) : Prop where
  refcnt : drc.refcnt = users σ d
  queued : d ∈ σ.recycleQ ↔ drc.flagRecycle = true
  unused : drc.flagRecycle = true → drc.refcnt = 0
  queueing : queuers σ d = if drc.refcnt = 0 ∧ drc.flagRecycle = false then 1 else 0

theorem DrcOk.ofUsed {σ : DrcSt} (hcount : drc.refcnt = users σ d) (hused : drc.refcnt ≠ 0)
    (hflag : drc.flagRecycle = false) (hqueue : d ∉ σ.recycleQ) (hqueuers : queuers σ d = 0) :
    DrcOk σ d drc where
  refcnt := hcount
  queued := iff_of_false hqueue (by simp [hflag])
  unused hset := by
    rw [hflag] at hset
    cases hset
  queueing := by rw [hqueuers, if_neg fun h => hused h.1]

theorem DrcOk.used {σ : DrcSt} (h : DrcOk σ d drc) (hused : drc.refcnt ≠ 0) :
    drc.flagRecycle = false ∧ d ∉ σ.recycleQ ∧ queuers σ d = 0 := by
  have hflag : drc.flagRecycle = false := by
    by_contra hset
    exact hused (h.unused (by simpa using hset))
  refine ⟨hflag, fun hmem => ?_, ?_⟩
  · rw [h.queued.1 hmem] at hflag
    cases hflag
  · rw [h.queueing, if_neg fun hand => hused hand.1]

structure DrcGone (σ : DrcSt) (d : Nat) : Prop where
  users : users σ d = 0
  queuers : queuers σ d = 0
  tree : d ∉ σ.recycleT
  queue : d ∉ σ.recycleQ

/-- A request that has not been released keeps its connection up, and the cache it has obtained
is the one of its connection. -/
def Attached (σ : DrcSt) : Prop :=
  ∀ (r : Nat) (req : SvcReq), σ.requests[r]? = some req → req.phase ≠ .released →
    ∃ xprt, σ.xprts[req.xprt]? = some xprt ∧ xprt.phase = .up ∧
      ∀ d, req.phase.holds = some d → xprt.xpU2 = some d

structure AccountInv (σ : DrcSt) : Prop where
  drcs : ∀ d drc, σ.drc? d = some drc → DrcOk σ d drc
  gone : ∀ d, σ.drc? d = none → DrcGone σ d
  nodup : σ.recycleQ.Nodup
  attached : Attached σ

theorem AccountInv.accounted {σ : DrcSt} (h : AccountInv σ) : Accounted σ where
  refcnt d drc hd := (h.drcs d drc hd).refcnt
  queued d drc hd := by
    obtain ⟨hrefcnt, hqueued, hunused, hqueueing⟩ := h.drcs d drc hd
    rw [hqueued, hqueueing, ← hrefcnt]
    constructor
    · intro hflag
      simp [hflag, hunused hflag]
    · rintro ⟨hzero, hnone⟩
      by_contra hflag
      simp [hzero, hflag] at hnone
  live d hpos := by
    cases hd : σ.drc? d with
    | none =>
      rw [(h.gone d hd).users] at hpos
      omega
    | some drc => rfl

structure OnlyDrc (σ τ : DrcSt) (d : Nat) : Prop where
  drc : ∀ e, e ≠ d → τ.drc? e = σ.drc? e
  users : ∀ e, e ≠ d → users τ e = users σ e
  queuers : ∀ e, e ≠ d → queuers τ e = queuers σ e
  tree : ∀ e, e ≠ d → e ∈ τ.recycleT → e ∈ σ.recycleT
  queue : ∀ e, e ≠ d → (e ∈ τ.recycleQ ↔ e ∈ σ.recycleQ)

variable {σ τ : DrcSt}

theorem AccountInv.only (h : AccountInv σ) (honly : OnlyDrc σ τ d) (hdrc : τ.drc? d = some drc)
    (hok : DrcOk τ d drc) (hnodup : τ.recycleQ.Nodup) (hattached : Attached τ) : AccountInv τ := by
  refine ⟨fun e other he => ?_, fun e he => ?_, hnodup, hattached⟩
  · by_cases heq : e = d
    · subst heq
      rw [hdrc] at he
      exact some.inj he ▸ hok
    · rw [honly.drc e heq] at he
      obtain ⟨hrefcnt, hqueued, hunused, hqueueing⟩ := h.drcs e other he
      exact ⟨by rw [hrefcnt, honly.users e heq], by rw [honly.queue e heq, hqueued], hunused,
        by rw [honly.queuers e heq, hqueueing]⟩
  · have heq : e ≠ d := by
      rintro rfl
      rw [hdrc] at he
      cases he
    rw [honly.drc e heq] at he
    obtain ⟨husers, hqueuers, htree, hqueue⟩ := h.gone e he
    exact ⟨by rw [honly.users e heq, husers], by rw [honly.queuers e heq, hqueuers],
      fun hmem => htree (honly.tree e heq hmem), by rwa [honly.queue e heq]⟩

theorem AccountInv.sameUsers (h : AccountInv σ)
    (hdrc : ∀ d, (τ.drc? d).map (fun drc => (drc.refcnt, drc.flagRecycle)) =
      (σ.drc? d).map fun drc => (drc.refcnt, drc.flagRecycle))
    (husers : ∀ d, users τ d = users σ d) (hqueuers : ∀ d, queuers τ d = queuers σ d)
    (htree : τ.recycleT = σ.recycleT) (hqueue : τ.recycleQ = σ.recycleQ) (hattached : Attached τ) :
    AccountInv τ := by
  refine ⟨fun d drc hd => ?_, fun d hd => ?_, hqueue ▸ h.nodup, hattached⟩
  · have hsame := hdrc d
    rw [hd, map_some, eq_comm, map_eq_some_iff] at hsame
    obtain ⟨old, hold, heq⟩ := hsame
    obtain ⟨hrefcnt, hflag⟩ := Prod.mk.inj heq
    obtain ⟨hcount, hqueued, hunused, hqueueing⟩ := h.drcs d old hold
    rw [hrefcnt] at hcount hunused hqueueing
    rw [hflag] at hqueued hunused hqueueing
    exact ⟨by rw [hcount, husers], by rw [hqueue, hqueued], hunused, by rw [hqueuers, hqueueing]⟩
  · have hsame := hdrc d
    rw [hd, map_none, eq_comm, map_eq_none_iff] at hsame
    obtain ⟨hu, hq, ht, hin⟩ := h.gone d hsame
    exact ⟨by rw [husers, hu], by rw [hqueuers, hq], htree ▸ ht, hqueue ▸ hin⟩

section Attached

variable {σ : DrcSt} {r c : Nat} {req : SvcReq} {xprt : SvcXprt}

theorem Attached.setPhase (h : Attached σ) (hreq : σ.requests[r]? = some req)
    (hphase : req.phase ≠ .released) {phase : SvcPhase}
    (hholds : ∀ d, phase.holds = some d → req.phase.holds = some d) :
    Attached (σ.setPhase r req phase) := by
  intro i other hi hother
  rcases getElem?_set_cases hi with ⟨rfl, rfl⟩ | ⟨-, hold⟩
  · obtain ⟨xprt, hxprt, hup, hu2⟩ := h i req hreq hphase
    exact ⟨xprt, hxprt, hup, fun d hd => hu2 d (hholds d hd)⟩
  · exact h i other hold hother

theorem Attached.ofXprt (h : Attached σ) (hreq : σ.requests[r]? = some req)
    (hxprt : σ.xprts[req.xprt]? = some xprt) (hphase : req.phase ≠ .released) :
    xprt.phase = .up ∧ ∀ d, req.phase.holds = some d → xprt.xpU2 = some d := by
  obtain ⟨found, hfound, hup, hu2⟩ := h r req hreq hphase
  rw [hxprt] at hfound
  cases hfound
  exact ⟨hup, hu2⟩

end Attached

theorem AccountInv.setPhase {σ : DrcSt} {r : Nat} {req : SvcReq} (h : AccountInv σ)
    (hreq : σ.requests[r]? = some req) (hphase : req.phase ≠ .released) {phase : SvcPhase}
    (hholds : phase.holds = req.phase.holds) (hqueues : phase.queues = req.phase.queues) :
    AccountInv (σ.setPhase r req phase) := by
  have hset := recounted_setPhase hreq phase
  rw [hholds, hqueues] at hset
  exact h.sameUsers (fun _ => rfl) (fun d => Nat.add_right_cancel (hset.users d))
    (fun d => Nat.add_right_cancel (hset.queuers d)) rfl rfl
    (h.attached.setPhase hreq hphase fun d hd => hholds ▸ hd)

theorem cacheStep_some {a : DrcAction} (h : cacheStep σ d a = some τ) :
    ∃ drc cache, σ.drc? d = some drc ∧ τ = σ.setDrc d { drc with cache } := by
  obtain ⟨drc, hdrc, h⟩ := bind_eq_some_iff.1 h
  obtain ⟨cache, -, h⟩ := bind_eq_some_iff.1 h
  exact ⟨drc, cache, hdrc, (some.inj h).symm⟩

theorem AccountInv.cacheStep {a : DrcAction} (h : AccountInv σ) (hstep : cacheStep σ d a = some τ) :
    AccountInv τ ∧ τ.requests = σ.requests := by
  obtain ⟨drc, cache, hdrc, rfl⟩ := cacheStep_some hstep
  refine ⟨h.sameUsers (fun e => ?_) (fun _ => rfl) (fun _ => rfl) rfl rfl h.attached, rfl⟩
  by_cases heq : e = d
  · subst heq
    rw [drc?_setDrc_self hdrc, hdrc]
    rfl
  · rw [drc?_setDrc_ne heq]

section GetDrc

variable {σ ρ : DrcSt} {r d : Nat} {req : SvcReq} {xprt : SvcXprt}

theorem AccountInv.attach (h : AccountInv σ) (drc : TcpDrc) (hreq : σ.requests[r]? = some req)
    (hphase : req.phase = .arrived) (hxprt : σ.xprts[req.xprt]? = some xprt)
    (hu2 : xprt.xpU2 = none) (hxprts : ρ.xprts = σ.xprts) (hrequests : ρ.requests = σ.requests)
    (hdrc : ∃ old, ρ.drc? d = some old) (hothers : ∀ e, e ≠ d → ρ.drc? e = σ.drc? e)
    (hcount : drc.refcnt = users σ d) (hflag : drc.flagRecycle = false)
    (hqueuers : queuers σ d = 0) (htree : ∀ e, e ≠ d → e ∈ ρ.recycleT → e ∈ σ.recycleT)
    (hqueue : ∀ e, e ∈ ρ.recycleQ ↔ e ≠ d ∧ e ∈ σ.recycleQ) (hnodup : ρ.recycleQ.Nodup)
    (check : Bool) :
    AccountInv ((attachDrc ρ req.xprt xprt d drc).setPhase r req (.gotten d check)) := by
  obtain ⟨hup, -⟩ := h.attached.ofXprt hreq hxprt (by rw [hphase]; nofun)
  obtain ⟨old, hold⟩ := hdrc
  have hreq' : (attachDrc ρ req.xprt xprt d drc).requests[r]? = some req := hrequests ▸ hreq
  have hxprt' : ρ.xprts[req.xprt]? = some xprt := hxprts ▸ hxprt
  have hno : xprt.holds = none := by simp [holds, hu2]
  have hnow : ({ xprt with xpU2 := some d } : SvcXprt).holds = some d := by
    simp [holds, hup]
  have hset := recounted_setPhase hreq' (.gotten d check)
  have hconn := recounted_setXprt hxprt' { xprt with xpU2 := some d }
  have hnone : xprt.queues = none := by simp [queues, hup]
  have hnone' : ({ xprt with xpU2 := some d } : SvcXprt).queues = none := by
    simp [queues, hup]
  rw [hno, hnow, hnone, hnone'] at hconn
  rw [hphase] at hset
  have husers : ∀ e, users ((attachDrc ρ req.xprt xprt d drc).setPhase r req (.gotten d check)) e =
      users σ e + bit (some d) e + bit (some d) e := by
    intro e
    have hsame : users ρ e = users σ e := by simp only [users, hxprts, hrequests]
    rw [← hsame]
    exact (hset.users e).trans (congrArg (· + _) (hconn.users e))
  have hqueuers' : ∀ e, queuers ((attachDrc ρ req.xprt xprt d drc).setPhase r req
      (.gotten d check)) e = queuers σ e := by
    intro e
    have hsame : queuers ρ e = queuers σ e := by simp only [queuers, hxprts, hrequests]
    rw [← hsame]
    exact (hset.queuers e).trans (hconn.queuers e)
  refine h.only (d := d) ⟨fun e he => ?_, fun e he => ?_, fun e _ => hqueuers' e, htree, fun e he => ?_⟩
    (drc?_setDrc_self hold _)
    (DrcOk.ofUsed ?_ (Nat.succ_ne_zero _) hflag (fun hmem => ((hqueue d).1 hmem).1 rfl)
      ((hqueuers' d).trans hqueuers)) hnodup ?_
  · exact (drc?_setDrc_ne he _).trans (hothers e he)
  · rw [husers, bit_ne he]
    rfl
  · exact (hqueue e).trans ⟨And.right, fun hmem => ⟨he, hmem⟩⟩
  · rw [husers, bit_self, ← hcount]
    rfl
  · intro i other hi hother
    rcases getElem?_set_cases hi with ⟨rfl, rfl⟩ | ⟨hne, hi⟩
    · exact ⟨{ xprt with xpU2 := some d }, getElem?_set_of_some hxprt', hup, fun e he => he⟩
    · have hi : σ.requests[i]? = some other := hrequests ▸ hi
      obtain ⟨x, hx, hxup, hxu2⟩ := h.attached i other hi hother
      by_cases hc : other.xprt = req.xprt
      · rw [hc, hxprt] at hx
        cases hx
        refine ⟨{ xprt with xpU2 := some d }, ?_, hup, fun e he => ?_⟩
        · rw [hc]
          exact getElem?_set_of_some hxprt'
        · rw [hxu2 e he] at hu2
          cases hu2
      · refine ⟨x, ?_, hxup, hxu2⟩
        have hset : (attachDrc ρ req.xprt xprt d drc).xprts[other.xprt]? = σ.xprts[other.xprt]? := by
          simp only [attachDrc, setDrc, setXprt]
          rw [getElem?_set_ne (Ne.symm hc), hxprts]
        exact hset.trans hx

theorem AccountInv.getDrc {config : DrcConfig} {τ : DrcSt} {type : DrcType} {check : Bool}
    (h : AccountInv σ) (hreq : σ.requests[r]? = some req) (hphase : req.phase = .arrived)
    (hxprt : σ.xprts[req.xprt]? = some xprt)
    (hget : nfsDupreqGetDrc config σ req.xprt xprt type = some (d, check, τ)) :
    AccountInv (τ.setPhase r req (.gotten d check)) := by
  obtain ⟨hup, -⟩ := h.attached.ofXprt hreq hxprt (by rw [hphase]; nofun)
  unfold nfsDupreqGetDrc at hget
  cases hu2 : xprt.xpU2 with
  | some e =>
    simp only [hu2] at hget
    obtain ⟨drc, hdrc, hget⟩ := bind_eq_some_iff.1 hget
    obtain ⟨rfl, rfl, rfl⟩ : e = d ∧ false = check ∧ σ.setDrc e (nfsDupreqRefDrc drc) = τ := by
      simpa using hget
    have hok := h.drcs e drc hdrc
    -- The connection itself has a reference, so the cache is not on the queue.
    have hused : drc.refcnt ≠ 0 := by
      have hle := bit_le_users hxprt e
      have hholds : xprt.holds = some e := by simp [holds, hup, hu2]
      rw [hholds, bit_self, ← hok.refcnt] at hle
      omega
    obtain ⟨hflag, hqueue, hqueuers⟩ := hok.used hused
    have hset := recounted_setPhase (σ := σ.setDrc e (nfsDupreqRefDrc drc)) hreq (.gotten e false)
    rw [hphase] at hset
    refine h.only (d := e) ⟨fun d' he => drc?_setDrc_ne he _, fun d' he => ?_,
      fun d' _ => hset.queuers d', fun _ _ hmem => hmem, fun _ _ => .rfl⟩ (drc?_setDrc_self hdrc _)
      (DrcOk.ofUsed ?_ (Nat.succ_ne_zero _) hflag hqueue ((hset.queuers e).trans hqueuers))
      h.nodup ?_
    · exact (hset.users d').trans (congrArg (users σ d' + ·) (bit_ne he))
    · exact (congrArg (· + 1) hok.refcnt).trans
        ((hset.users e).trans (congrArg (users σ e + ·) (bit_self e))).symm
    · intro i other hi hother
      rcases getElem?_set_cases hi with ⟨rfl, rfl⟩ | ⟨-, hi⟩
      · exact ⟨xprt, hxprt, hup, fun d' hd' => hu2.trans hd'⟩
      · exact h.attached i other hi hother
  | none =>
    simp only [hu2] at hget
    cases hlookup : σ.lookupAddr xprt.addr with
    | some e =>
      simp only [hlookup] at hget
      obtain ⟨tdrc, hdrc, hget⟩ := bind_eq_some_iff.1 hget
      have hok := h.drcs e tdrc hdrc
      split_ifs at hget with hzero hflag
      · obtain ⟨rfl, rfl, rfl⟩ := by simpa using hget
        refine h.attach (ρ := { σ with recycleQ := σ.recycleQ.erase e, recycleQlen := _ })
          { tdrc with flagRecycle := false } hreq hphase hxprt hu2 rfl rfl ⟨tdrc, hdrc⟩
          (fun _ _ => rfl) hok.refcnt rfl ?_ (fun _ _ hmem => hmem)
          (fun d' => h.nodup.mem_erase_iff) (h.nodup.erase e) true
        rw [hok.queueing, if_neg (by simp [hflag])]
      · obtain ⟨rfl, rfl, rfl⟩ := by simpa using hget
        obtain ⟨hflag, hqueue, hqueuers⟩ := hok.used hzero
        refine h.attach tdrc hreq hphase hxprt hu2 rfl rfl ⟨tdrc, hdrc⟩ (fun _ _ => rfl) hok.refcnt
          hflag hqueuers (fun _ _ hmem => hmem) (fun d' => ?_) h.nodup true
        refine ⟨fun hmem => ⟨?_, hmem⟩, And.right⟩
        rintro rfl
        exact hqueue hmem
    | none =>
      simp only [hlookup] at hget
      obtain ⟨rfl, rfl, rfl⟩ := by simpa using hget
      have hgone := h.gone σ.drcs.length (by simp [drc?])
      refine h.attach (ρ := { σ with
          drcs := σ.drcs ++ [some (allocTcpDrc config type xprt.addr)]
          recycleT := σ.drcs.length :: σ.recycleT })
        (allocTcpDrc config type xprt.addr) hreq hphase hxprt hu2 rfl rfl
        ⟨allocTcpDrc config type xprt.addr, ?_⟩ (fun e he => ?_)
        hgone.users.symm rfl hgone.queuers (fun e he hmem => ?_) (fun e => ?_) h.nodup true
      · simp [drc?]
      · simp only [drc?]
        rcases Nat.lt_or_gt_of_ne he with hlt | hgt
        · rw [getElem?_append_left hlt]
        · rw [getElem?_eq_none (by simp; omega), getElem?_eq_none (by omega)]
      · exact (mem_cons.1 hmem).resolve_left he
      · refine ⟨fun hmem => ⟨?_, hmem⟩, And.right⟩
        rintro rfl
        exact hgone.queue hmem

end GetDrc

end EdgeComputing.Rpcal
