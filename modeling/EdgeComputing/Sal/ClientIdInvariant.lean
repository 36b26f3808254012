import Mathlib.Tactic.ByContra
import Mathlib.Tactic.SplitIfs
import EdgeComputing.Sal.ClientId

/-!
What the functions on client IDs keep true. The live client IDs are those not expired, seen without
their reference counts; the tables and the client records are indexes of them. A reference is held
by the table, each session, owner and write delegation, and by others: `held` counts the latter.
-/

namespace EdgeComputing.Sal

open Function

def ClientId.erased (cl : ClientId) : ClientId := { cl with refcount := 0 }

def liveOf (x : Option ClientId) : Option ClientId :=
  x.bind fun cl => if cl.confirmed = .expired then none else some cl.erased

@[simp] theorem liveOf_none : liveOf none = none := rfl

variable {cl : ClientId}

theorem liveOf_some (h : cl.confirmed ≠ .expired) : liveOf (some cl) = some cl.erased := by
  simp [liveOf, h]

theorem liveOf_expired (h : cl.confirmed = .expired) : liveOf (some cl) = none := by
  simp [liveOf, h]

theorem liveOf_refcount (cl : ClientId) (n : Nat) :
    liveOf (some { cl with refcount := n }) = liveOf (some cl) := rfl

namespace ClientStore

def live (s : ClientStore) (r : Nat) : Option ClientId := liveOf (s.ids r)

theorem live_setId (s : ClientStore) (r : Nat) (x : Option ClientId) :
    (s.setId r x).live = update s.live r (liveOf x) := by
  funext r'
  unfold live setId
  by_cases h : r' = r
  · subst h
    simp
  · simp [update_of_ne h]

structure Wf (s : ClientStore) : Prop where
  unconfirmed : ∀ c r, s.unconfirmedTable c = some r ↔
    ∃ cl, s.live r = some cl ∧ cl.confirmed = .unconfirmed ∧ cl.clientid = c
  confirmed : ∀ c r, s.confirmedTable c = some r ↔
    ∃ cl, s.live r = some cl ∧ cl.confirmed ≠ .unconfirmed ∧ cl.clientid = c
  unconfirmedRec : ∀ key r, (s.records key).unconfirmedRec = some r ↔
    ∃ cl, s.live r = some cl ∧ cl.confirmed = .unconfirmed ∧ cl.clientRecord = some key
  confirmedRec : ∀ key r, (s.records key).confirmedRec = some r ↔
    ∃ cl, s.live r = some cl ∧ cl.confirmed = .confirmed ∧ cl.clientRecord = some key
  detached : ∀ r cl, s.live r = some cl → (cl.clientRecord = none ↔ cl.confirmed = .stale)

def tableRef (cl : ClientId) : Nat := if cl.confirmed = .expired then 0 else 1

/-- The references on the records are those of the table, the sessions and the owners, and
those `held` by others. -/
structure Refs (s : ClientStore) (held : Nat → Nat) : Prop where
  count : ∀ r cl, s.ids r = some cl →
    cl.refcount = tableRef cl + (s.sessionsOf r).length + cl.ownerRefs + held r
  pos : ∀ r cl, s.ids r = some cl → 0 < cl.refcount
  free : ∀ r, s.ids r = none → held r = 0 ∧ s.sessionsOf r = []

structure SessionsWf (s : ClientStore) : Prop where
  distinct : (s.sessions.map Session.addr).Nodup
  named : ∀ x ∈ s.sessions, ∀ cl, s.ids x.clientidRecord = some cl →
    x.sessionId.clientid = cl.clientid
  below : ∀ x ∈ s.sessions, x.addr < s.nextAddr
  unique : ∀ x ∈ s.sessions, ∀ y ∈ s.sessions, x.hashed = true → y.hashed = true →
    x.sessionId = y.sessionId → x.addr = y.addr

structure Inv (s : ClientStore) (held : Nat → Nat) : Prop where
  wf : s.Wf
  refs : s.Refs held
  sessionsWf : s.SessionsWf
  fresh : ∀ r, s.nextAddr ≤ r → s.ids r = none

def bump (held : Nat → Nat) (r : Nat) : Nat → Nat := update held r (held r + 1)

@[simp] theorem bump_self (held : Nat → Nat) (r : Nat) : bump held r r = held r + 1 := by
  simp [bump]

theorem bump_of_ne (held : Nat → Nat) {r r' : Nat} (h : r' ≠ r) : bump held r r' = held r' := by
  simp [bump, h]

theorem bump_comm (held : Nat → Nat) (r r' : Nat) :
    bump (bump held r) r' = bump (bump held r') r := by
  by_cases h : r' = r
  · rw [h]
  · unfold bump
    rw [update_of_ne h, update_of_ne (Ne.symm h), update_comm h]

section SetId

variable (s : ClientStore) (r : Nat) (x : Option ClientId)

@[simp] theorem setId_records : (s.setId r x).records = s.records := rfl
@[simp] theorem setId_confirmedTable : (s.setId r x).confirmedTable = s.confirmedTable := rfl
@[simp] theorem setId_unconfirmedTable : (s.setId r x).unconfirmedTable = s.unconfirmedTable := rfl
@[simp] theorem setId_ids_self : (s.setId r x).ids r = x := by simp [setId]

theorem setId_ids_of_ne {r' : Nat} (h : r' ≠ r) : (s.setId r x).ids r' = s.ids r' := by
  simp [setId, h]

end SetId

/-- Two stores with the same live client IDs and indexes, which have given out the same
addresses. -/
structure Agree (s t : ClientStore) : Prop where
  live : t.live = s.live
  records : t.records = s.records
  confirmedTable : t.confirmedTable = s.confirmedTable
  unconfirmedTable : t.unconfirmedTable = s.unconfirmedTable
  nextAddr : t.nextAddr = s.nextAddr
  epochLow : t.epochLow = s.epochLow

theorem Agree.refl (s : ClientStore) : s.Agree s := ⟨rfl, rfl, rfl, rfl, rfl, rfl⟩

theorem Agree.trans {s t u : ClientStore} (hst : s.Agree t) (htu : t.Agree u) : s.Agree u :=
  ⟨htu.live.trans hst.live, htu.records.trans hst.records,
    htu.confirmedTable.trans hst.confirmedTable, htu.unconfirmedTable.trans hst.unconfirmedTable,
    htu.nextAddr.trans hst.nextAddr, htu.epochLow.trans hst.epochLow⟩

variable {s t : ClientStore} {held held' : Nat → Nat} {r : Nat} {cl cl' : ClientId}

theorem Wf.agree (h : s.Wf) (hagree : s.Agree t) : t.Wf where
  unconfirmed := by simpa only [hagree.unconfirmedTable, hagree.live] using h.unconfirmed
  confirmed := by simpa only [hagree.confirmedTable, hagree.live] using h.confirmed
  unconfirmedRec := by simpa only [hagree.records, hagree.live] using h.unconfirmedRec
  confirmedRec := by simpa only [hagree.records, hagree.live] using h.confirmedRec
  detached := by simpa only [hagree.live] using h.detached

theorem live_of_ids (h : s.ids r = some cl) (hexp : cl.confirmed ≠ .expired) :
    s.live r = some cl.erased := by
  rw [live, h, liveOf_some hexp]

theorem exists_ids_of_live (h : s.live r = some cl) :
    ∃ cl0, s.ids r = some cl0 ∧ cl0.confirmed ≠ .expired ∧ cl = cl0.erased := by
  unfold live liveOf at h
  obtain ⟨cl0, hids, hcl⟩ := Option.bind_eq_some_iff.1 h
  split_ifs at hcl with hexp
  exact ⟨cl0, hids, hexp, (Option.some.inj hcl).symm⟩

theorem Inv.setId {x? : Option ClientId} (hinv : s.Inv held) (hwf : t.Wf)
    (hids : t.ids = update s.ids r x?) (hsessions : t.sessions = s.sessions)
    (hnext : s.nextAddr ≤ t.nextAddr)
    (hsome : ∀ x, x? = some x → r < t.nextAddr ∧
      (∀ y ∈ s.sessions, y.clientidRecord = r → y.sessionId.clientid = x.clientid) ∧
      x.refcount = tableRef x + (s.sessionsOf r).length + x.ownerRefs + held' r ∧ 0 < x.refcount)
    (hnone : x? = none → held' r = 0 ∧ s.sessionsOf r = [])
    (hheld : ∀ r', r' ≠ r → held' r' = held r') : t.Inv held' := by
  have hself : t.ids r = x? := by simp [hids]
  have hother : ∀ r', r' ≠ r → t.ids r' = s.ids r' := fun r' hne => by simp [hids, hne]
  have hof : ∀ r', t.sessionsOf r' = s.sessionsOf r' := fun r' => by
    simp only [sessionsOf, hsessions]
  refine ⟨hwf, ⟨?_, ?_, ?_⟩, ⟨?_, ?_, ?_, ?_⟩, ?_⟩
  · intro r' x hr'
    rw [hof]
    by_cases hne : r' = r
    · subst hne
      exact (hsome x (hself.symm.trans hr')).2.2.1
    · rw [hheld r' hne]
      exact hinv.refs.count r' x (hother r' hne ▸ hr')
  · intro r' x hr'
    by_cases hne : r' = r
    · subst hne
      exact (hsome x (hself.symm.trans hr')).2.2.2
    · exact hinv.refs.pos r' x (hother r' hne ▸ hr')
  · intro r' hr'
    rw [hof]
    by_cases hne : r' = r
    · subst hne
      exact hnone (hself.symm.trans hr')
    · rw [hheld r' hne]
      exact hinv.refs.free r' (hother r' hne ▸ hr')
  · rw [hsessions]
    exact hinv.sessionsWf.distinct
  · intro x hx y hy
    rw [hsessions] at hx
    by_cases hne : x.clientidRecord = r
    · rw [hne] at hy
      exact (hsome y (hself.symm.trans hy)).2.1 x hx hne
    · exact hinv.sessionsWf.named x hx y (hother _ hne ▸ hy)
  · rw [hsessions]
    exact fun x hx => Nat.lt_of_lt_of_le (hinv.sessionsWf.below x hx) hnext
  · rw [hsessions]
    exact hinv.sessionsWf.unique
  · intro r' hr'
    by_cases hne : r' = r
    · subst hne
      cases hx : x? with
      | none => exact hself.trans hx
      | some x => exact absurd (hsome x hx).1 (Nat.not_lt.2 hr')
    · rw [hother r' hne]
      exact hinv.fresh r' (Nat.le_trans hnext hr')

theorem Inv.changeId (hinv : s.Inv held) (h : s.ids r = some cl) (hwf : t.Wf)
    (hids : t.ids = update s.ids r (some cl')) (hsessions : t.sessions = s.sessions)
    (hnext : t.nextAddr = s.nextAddr) (hclientid : cl'.clientid = cl.clientid)
    (hcount : cl'.refcount = tableRef cl' + (s.sessionsOf r).length + cl'.ownerRefs + held' r)
    (hpos : 0 < cl'.refcount) (hheld : ∀ r', r' ≠ r → held' r' = held r') : t.Inv held' := by
  refine hinv.setId hwf hids hsessions (Nat.le_of_eq hnext.symm) (fun x hx => ?_) nofun hheld
  cases hx
  refine ⟨?_, fun y hy hr => ?_, hcount, hpos⟩
  · by_contra hge
    cases h.symm.trans (hinv.fresh r (hnext ▸ Nat.le_of_not_lt hge))
  · rw [hclientid]
    exact hinv.sessionsWf.named y hy cl (hr ▸ h)

theorem Inv.freeId (hinv : s.Inv held) (hwf : t.Wf)
    (hids : t.ids = update s.ids r none) (hsessions : t.sessions = s.sessions)
    (hnext : t.nextAddr = s.nextAddr) (hnone : s.sessionsOf r = []) (hr : held' r = 0)
    (hheld : ∀ r', r' ≠ r → held' r' = held r') : t.Inv held' := by
  refine hinv.setId hwf hids hsessions (Nat.le_of_eq hnext.symm) (fun x hx => ?_)
    (fun _ => ⟨hr, hnone⟩) hheld
  cases hx

theorem agree_refcount (h : s.ids r = some cl) (n : Nat) :
    s.Agree (s.setId r (some { cl with refcount := n })) := by
  refine ⟨?_, rfl, rfl, rfl, rfl, rfl⟩
  rw [live_setId, liveOf_refcount, ← h]
  exact update_eq_self r s.live

theorem incClientIdRef_eq (h : s.ids r = some cl) :
    s.incClientIdRef r = some (s.setId r (some { cl with refcount := cl.refcount + 1 })) := by
  simp [incClientIdRef, h]

theorem Inv.inc (hinv : s.Inv held) (h : s.ids r = some cl) :
    (s.setId r (some { cl with refcount := cl.refcount + 1 })).Inv (bump held r) := by
  have hcount := hinv.refs.count r cl h
  refine hinv.changeId h (hinv.wf.agree (agree_refcount h _)) rfl rfl rfl rfl ?_ (Nat.succ_pos _)
    (fun r' hne => bump_of_ne held hne)
  simp only [tableRef, ClientId.ownerRefs, bump_self] at hcount ⊢
  omega

theorem Inv.exists_inc (hinv : s.Inv held) (h : s.ids r = some cl) :
    ∃ t, s.incClientIdRef r = some t ∧ t.Inv (bump held r) ∧ s.Agree t ∧
      t.sessions = s.sessions ∧ t.ids r = some { cl with refcount := cl.refcount + 1 } :=
  ⟨_, incClientIdRef_eq h, hinv.inc h, agree_refcount h _, rfl, by simp⟩

theorem Inv.dec (hinv : s.Inv (bump held r)) :
    ∃ t, s.decClientIdRef r = some t ∧ t.Inv held ∧ s.Agree t ∧ t.sessions = s.sessions := by
  have hheld : ∀ r', r' ≠ r → held r' = bump held r r' := fun r' hne => (bump_of_ne held hne).symm
  obtain ⟨cl, h⟩ : ∃ cl, s.ids r = some cl := by
    cases h : s.ids r with
    | none =>
      have hzero := (hinv.refs.free r h).1
      simp at hzero
    | some cl => exact ⟨cl, rfl⟩
  have hcount := hinv.refs.count r cl h
  rw [bump_self] at hcount
  unfold decClientIdRef
  rw [h, Option.bind_some]
  by_cases hlast : 1 < cl.refcount
  · rw [if_pos hlast]
    refine ⟨_, rfl, ?_, agree_refcount h _, rfl⟩
    refine hinv.changeId h (hinv.wf.agree (agree_refcount h _)) rfl rfl rfl rfl ?_ ?_ hheld
    · simp only [tableRef, ClientId.ownerRefs] at hcount ⊢
      omega
    · simp only
      omega
  · have hzero : tableRef cl = 0 ∧ (s.sessionsOf r).length = 0 ∧ held r = 0 := by omega
    have hexp : cl.confirmed = .expired := by
      by_contra hne
      simp [tableRef, hne] at hzero
    rw [if_neg hlast, if_pos hexp]
    have hagree : s.Agree (s.setId r none) := by
      refine ⟨?_, rfl, rfl, rfl, rfl, rfl⟩
      rw [live_setId, liveOf_none, ← liveOf_expired hexp, ← h]
      exact update_eq_self r s.live
    exact ⟨_, rfl, hinv.freeId (hinv.wf.agree hagree) rfl rfl rfl
      (List.eq_nil_of_length_eq_zero hzero.2.1) hzero.2.2 hheld, hagree, rfl⟩

theorem inv_empty (epochLow : BitVec 32) : (empty epochLow).Inv fun _ => 0 where
  wf := by constructor <;> simp [empty, live]
  refs := by constructor <;> simp [empty, sessionsOf]
  sessionsWf := by constructor <;> simp [empty]
  fresh _ _ := rfl

end ClientStore

end EdgeComputing.Sal
