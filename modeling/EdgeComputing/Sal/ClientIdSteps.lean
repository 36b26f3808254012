import EdgeComputing.Library.Table
import EdgeComputing.Sal.ClientIdInvariant

/-!
The functions on client IDs keep the invariant and succeed; the live client IDs before and after say
what each does.
-/

namespace EdgeComputing.Sal

open Option Function Library ClientRecord ClientId

namespace ClientStore

variable {s t : ClientStore} {held : Nat → Nat} {r : Nat} {cl : ClientId} {key : RecordKey}

section Update

variable (records : RecordKey → ClientRecord) (x : Option Nat) (key' : RecordKey)

theorem update_unconfirmedRec :
    (update records key { records key with unconfirmedRec := x } key').unconfirmedRec =
      update (fun k => (records k).unconfirmedRec) key x key' :=
  Function.apply_update (fun _ => unconfirmedRec) ..

theorem update_unconfirmedRec_confirmedRec :
    (update records key { records key with unconfirmedRec := x } key').confirmedRec =
      (records key').confirmedRec := by
  rw [Function.apply_update (fun _ => confirmedRec), update_eq_self]

theorem update_confirmedRec :
    (update records key { records key with confirmedRec := x } key').confirmedRec =
      update (fun k => (records k).confirmedRec) key x key' :=
  Function.apply_update (fun _ => confirmedRec) ..

theorem update_confirmedRec_unconfirmedRec :
    (update records key { records key with confirmedRec := x } key').unconfirmedRec =
      (records key').unconfirmedRec := by
  rw [Function.apply_update (fun _ => unconfirmedRec), update_eq_self]

end Update

def IsIndex {α : Type} (live : Nat → Option ClientId) (f : α → Option Nat)
    (P : α → ClientId → Prop) : Prop :=
  ∀ a r, f a = some r ↔ ∃ cl, live r = some cl ∧ P a cl

section

variable {α : Type} {live live' : Nat → Option ClientId} {f f' : α → Option Nat}
  {P : α → ClientId → Prop} (h : IsIndex live f P)
include h

theorem IsIndex.remove (hlive : live' = update live r none)
    (hf : ∀ a r', f' a = some r' ↔ f a = some r' ∧ r' ≠ r) : IsIndex live' f' P := by
  intro a r'
  rw [hf, h, hlive, update_apply]
  split_ifs with heq <;> simp [heq]

theorem IsIndex.insert (hnone : live r = none) (hlive : live' = update live r (some cl))
    (hf : ∀ a r', f' a = some r' ↔ f a = some r' ∨ r' = r ∧ P a cl) : IsIndex live' f' P := by
  intro a r'
  rw [hf, h, hlive, update_apply]
  split_ifs with heq <;> simp [heq, hnone]

theorem IsIndex.touch {cl' : ClientId} (hlive : live r = some cl)
    (hlive' : live' = update live r (some cl')) (hP : ∀ a, P a cl' ↔ P a cl) (hf : f' = f) :
    IsIndex live' f' P := by
  intro a r'
  rw [hf, h, hlive', update_apply]
  split_ifs with heq
  · simp [heq, hlive, hP]
  · rfl

end

section

variable (h : s.Wf) (hlive : s.live r = some cl)
include h hlive

theorem Wf.unconfirmedTable_iff {c : BitVec 64} : s.unconfirmedTable c = some r ↔
    cl.confirmed = .unconfirmed ∧ cl.clientid = c := by
  simp [h.unconfirmed, hlive]

theorem Wf.confirmedTable_iff {c : BitVec 64} : s.confirmedTable c = some r ↔
    cl.confirmed ≠ .unconfirmed ∧ cl.clientid = c := by
  simp [h.confirmed, hlive]

theorem Wf.unconfirmedRec_iff {key : RecordKey} : (s.records key).unconfirmedRec = some r ↔
    cl.confirmed = .unconfirmed ∧ cl.clientRecord = some key := by
  simp [h.unconfirmedRec, hlive]

theorem Wf.confirmedRec_iff {key : RecordKey} : (s.records key).confirmedRec = some r ↔
    cl.confirmed = .confirmed ∧ cl.clientRecord = some key := by
  simp [h.confirmedRec, hlive]

theorem Wf.exists_key (hstale : cl.confirmed ≠ .stale) : ∃ key, cl.clientRecord = some key := by
  cases hkey : cl.clientRecord with
  | none => exact absurd ((h.detached r cl hlive).1 hkey) hstale
  | some key => exact ⟨key, rfl⟩

end

theorem Wf.remove (h : s.Wf) (hlive : t.live = update s.live r none)
    (hunconf : ∀ c r', t.unconfirmedTable c = some r' ↔ s.unconfirmedTable c = some r' ∧ r' ≠ r)
    (hconf : ∀ c r', t.confirmedTable c = some r' ↔ s.confirmedTable c = some r' ∧ r' ≠ r)
    (hunconfRec : ∀ key r', (t.records key).unconfirmedRec = some r' ↔
      (s.records key).unconfirmedRec = some r' ∧ r' ≠ r)
    (hconfRec : ∀ key r', (t.records key).confirmedRec = some r' ↔
      (s.records key).confirmedRec = some r' ∧ r' ≠ r) : t.Wf := by
  refine ⟨IsIndex.remove h.unconfirmed hlive hunconf, IsIndex.remove h.confirmed hlive hconf,
    IsIndex.remove h.unconfirmedRec hlive hunconfRec, IsIndex.remove h.confirmedRec hlive hconfRec,
    fun r' cl hl => ?_⟩
  rw [hlive, update_apply] at hl
  split_ifs at hl
  exact h.detached r' cl hl

theorem Wf.insert (h : s.Wf) (hnone : s.live r = none)
    (hlive : t.live = update s.live r (some cl))
    (hunconf : ∀ c r', t.unconfirmedTable c = some r' ↔ s.unconfirmedTable c = some r' ∨
      (r' = r ∧ cl.confirmed = .unconfirmed ∧ cl.clientid = c))
    (hconf : ∀ c r', t.confirmedTable c = some r' ↔ s.confirmedTable c = some r' ∨
      (r' = r ∧ cl.confirmed ≠ .unconfirmed ∧ cl.clientid = c))
    (hunconfRec : ∀ key r', (t.records key).unconfirmedRec = some r' ↔
      (s.records key).unconfirmedRec = some r' ∨
        (r' = r ∧ cl.confirmed = .unconfirmed ∧ cl.clientRecord = some key))
    (hconfRec : ∀ key r', (t.records key).confirmedRec = some r' ↔
      (s.records key).confirmedRec = some r' ∨
        (r' = r ∧ cl.confirmed = .confirmed ∧ cl.clientRecord = some key))
    (hdetached : cl.clientRecord = none ↔ cl.confirmed = .stale) : t.Wf := by
  refine ⟨IsIndex.insert h.unconfirmed hnone hlive hunconf, IsIndex.insert h.confirmed hnone hlive hconf,
    IsIndex.insert h.unconfirmedRec hnone hlive hunconfRec,
    IsIndex.insert h.confirmedRec hnone hlive hconfRec, fun r' cl' hl => ?_⟩
  rw [hlive, update_apply] at hl
  split_ifs at hl
  · cases hl
    exact hdetached
  · exact h.detached r' cl' hl

/-- The store `t` comes from `s` by a function that leaves the live client IDs `live'`. -/
structure Becomes (s t : ClientStore) (live' : Nat → Option ClientId) : Prop where
  live : t.live = live'
  nextAddr : t.nextAddr = s.nextAddr
  epochLow : t.epochLow = s.epochLow

def unlinkUnconfirmed (s : ClientStore) (r : Nat) (cl : ClientId) (key : RecordKey) :
    ClientStore :=
  { s with
    unconfirmedTable := update s.unconfirmedTable cl.clientid none
    records := update s.records key { s.records key with unconfirmedRec := none }
    ids := update s.ids r (some { cl with confirmed := .expired }) }

theorem live_unlinkUnconfirmed (s : ClientStore) (r : Nat) (cl : ClientId) (key : RecordKey) :
    (s.unlinkUnconfirmed r cl key).live = update s.live r none :=
  (live_setId s r (some { cl with confirmed := .expired })).trans (by simp [liveOf])

theorem Wf.unlinkUnconfirmed (h : s.Wf) (hids : s.ids r = some cl)
    (hun : cl.confirmed = .unconfirmed) (hkey : cl.clientRecord = some key) :
    (s.unlinkUnconfirmed r cl key).Wf := by
  have hlive : s.live r = some cl.erased := live_of_ids hids (by simp [hun])
  refine h.remove (live_unlinkUnconfirmed s r cl key) ?_ ?_ ?_ ?_
  · intro c r'
    exact update_none_eq_some_iff ((h.unconfirmedTable_iff hlive).2 ⟨hun, rfl⟩)
      fun c' hc => ((h.unconfirmedTable_iff hlive).1 hc).2.symm
  · intro c r'
    exact eq_some_iff_and_ne fun hc => ((h.confirmedTable_iff hlive).1 hc).1 hun
  · intro key' r'
    unfold ClientStore.unlinkUnconfirmed
    dsimp only
    rw [update_unconfirmedRec]
    refine update_none_eq_some_iff ((h.unconfirmedRec_iff hlive).2 ⟨hun, hkey⟩) fun k hk => ?_
    exact some.inj (((h.unconfirmedRec_iff hlive).1 hk).2.symm.trans hkey)
  · intro key' r'
    unfold ClientStore.unlinkUnconfirmed
    dsimp only
    rw [update_unconfirmedRec_confirmedRec]
    refine eq_some_iff_and_ne fun hc => ?_
    cases hun.symm.trans ((h.confirmedRec_iff hlive).1 hc).1

theorem Inv.unlinkUnconfirmed (hinv : s.Inv held) (hids : s.ids r = some cl)
    (hun : cl.confirmed = .unconfirmed) (hkey : cl.clientRecord = some key) :
    (s.unlinkUnconfirmed r cl key).Inv (bump held r) := by
  have hcount := hinv.refs.count r cl hids
  refine hinv.changeId hids (hinv.wf.unlinkUnconfirmed hids hun hkey) rfl rfl rfl rfl ?_
    (hinv.refs.pos r cl hids) (fun r' hne => bump_of_ne held hne)
  simp only [tableRef, hun, ownerRefs, bump_self] at hcount ⊢
  simp at hcount ⊢
  omega

theorem Inv.removeUnconfirmed (hinv : s.Inv held) (hlive : s.live r = some cl)
    (hun : cl.confirmed = .unconfirmed) :
    ∃ t, s.removeUnconfirmedClientId r = some t ∧ t.Inv held ∧
      s.Becomes t (update s.live r none) ∧ t.sessions = s.sessions := by
  obtain ⟨key, hkey⟩ := hinv.wf.exists_key hlive (by simp [hun])
  have htable := (hinv.wf.unconfirmedTable_iff hlive).2 ⟨hun, rfl⟩
  obtain ⟨cl0, hids, _, rfl⟩ := exists_ids_of_live hlive
  dsimp only [ClientId.erased] at hkey htable
  obtain ⟨t, ht, hinv', hagree, hsessions⟩ := (hinv.unlinkUnconfirmed hids hun hkey).dec
  refine ⟨t, ?_, hinv', ⟨?_, hagree.nextAddr, hagree.epochLow⟩, hsessions⟩
  · rw [← ht]
    unfold removeUnconfirmedClientId ClientStore.unlinkUnconfirmed setRecord ClientStore.setId
    simp only [hids, bind_some, htable, hkey]
  · rw [hagree.live, live_unlinkUnconfirmed]

def linkConfirmed (s : ClientStore) (r : Nat) (cl : ClientId) (key : RecordKey) : ClientStore :=
  { s with
    confirmedTable := update s.confirmedTable cl.clientid (some r)
    records := update s.records key { s.records key with confirmedRec := some r }
    ids := update s.ids r (some { cl with confirmed := .confirmed }) }

theorem live_linkConfirmed (s : ClientStore) (r : Nat) (cl : ClientId) (key : RecordKey) :
    (s.linkConfirmed r cl key).live =
      update s.live r (some { cl with confirmed := .confirmed, refcount := 0 }) :=
  (live_setId s r (some { cl with confirmed := .confirmed })).trans
    (by simp [liveOf, erased])

theorem nfsClientIdConfirm_eq (hids : s.ids r = some cl) (hkey : cl.clientRecord = some key)
    (htable : s.unconfirmedTable cl.clientid = some r) :
    s.nfsClientIdConfirm r =
      if s.confirmedTable cl.clientid = none then
        some ((s.unlinkUnconfirmed r cl key).linkConfirmed r cl key, .success)
      else
        ((s.unlinkUnconfirmed r cl key).decClientIdRef r).map (·, .insertMallocError) := by
  unfold nfsClientIdConfirm ClientStore.unlinkUnconfirmed linkConfirmed setRecord setId
  simp only [hids, bind_some, htable, hkey]
  cases s.confirmedTable cl.clientid with
  | none => simp
  | some r' => simp

theorem Wf.linkConfirmed (h : s.Wf) (hnone : s.live r = none) (hkey : cl.clientRecord = some key)
    (htable : s.confirmedTable cl.clientid = none)
    (hrec : (s.records key).confirmedRec = none) : (s.linkConfirmed r cl key).Wf := by
  refine h.insert hnone (live_linkConfirmed s r cl key) ?_ ?_ ?_ ?_ ?_
  · intro c r'
    simp [ClientStore.linkConfirmed]
  · intro c r'
    refine (update_some_eq_some_iff htable).trans (or_congr_right ?_)
    simp [eq_comm]
  · intro key' r'
    unfold ClientStore.linkConfirmed
    dsimp only
    rw [update_confirmedRec_unconfirmedRec]
    simp
  · intro key' r'
    unfold ClientStore.linkConfirmed
    dsimp only
    rw [update_confirmedRec]
    refine (update_some_eq_some_iff (f := fun k => (s.records k).confirmedRec) hrec).trans
      (or_congr_right ?_)
    simp [hkey, eq_comm]
  · simp [hkey]

section

variable (hinv : s.Inv held)
include hinv

theorem Inv.confirm (hlive : s.live r = some cl) (hun : cl.confirmed = .unconfirmed)
    (hkey : cl.clientRecord = some key) (hnone : (s.records key).confirmedRec = none) :
    ∃ t rc, s.nfsClientIdConfirm r = some (t, rc) ∧ t.Inv held ∧ t.sessions = s.sessions ∧
      (s.confirmedTable cl.clientid = none ∧ rc = .success ∧
          s.Becomes t (update s.live r (some { cl with confirmed := .confirmed })) ∨
        s.confirmedTable cl.clientid ≠ none ∧ rc = .insertMallocError ∧
          s.Becomes t (update s.live r none)) := by
  have htable := (hinv.wf.unconfirmedTable_iff hlive).2 ⟨hun, rfl⟩
  obtain ⟨cl0, hids, _, rfl⟩ := exists_ids_of_live hlive
  have hunlink := hinv.unlinkUnconfirmed hids hun hkey
  rw [nfsClientIdConfirm_eq hids hkey htable]
  by_cases hconf : s.confirmedTable cl0.clientid = none
  · rw [if_pos hconf]
    have hgone : (s.unlinkUnconfirmed r cl0 key).live r = none := by
      simp [live_unlinkUnconfirmed]
    have hrec : ((s.unlinkUnconfirmed r cl0 key).records key).confirmedRec = none := by
      simp [ClientStore.unlinkUnconfirmed, hnone]
    have hcount := hinv.refs.count r cl0 hids
    have hun0 : cl0.confirmed = .unconfirmed := hun
    refine ⟨_, _, rfl, ?_, rfl, .inl ⟨hconf, rfl, ?_, rfl, rfl⟩⟩
    · refine hinv.changeId hids (hunlink.wf.linkConfirmed hgone hkey hconf hrec)
        (update_idem _ _ _) rfl rfl rfl ?_ (hinv.refs.pos r cl0 hids) (fun r' _ => rfl)
      simp only [tableRef, hun0, ownerRefs] at hcount ⊢
      simpa using hcount
    · rw [live_linkConfirmed, live_unlinkUnconfirmed, update_idem]
      rfl
  · rw [if_neg hconf]
    obtain ⟨t, ht, hinv', hagree, hsessions⟩ := hunlink.dec
    refine ⟨t, .insertMallocError, by rw [ht]; rfl, hinv', hsessions,
      .inr ⟨hconf, rfl, ?_, hagree.nextAddr, hagree.epochLow⟩⟩
    rw [hagree.live, live_unlinkUnconfirmed]

theorem Inv.of_same (hwf : t.Wf) (hids : t.ids = s.ids) (hsessions : t.sessions = s.sessions)
    (hnext : t.nextAddr = s.nextAddr) : t.Inv held := by
  have hnone := hinv.fresh s.nextAddr (Nat.le_refl _)
  refine hinv.freeId hwf ?_ hsessions hnext (hinv.refs.free _ hnone).2 (hinv.refs.free _ hnone).1
    fun _ _ => rfl
  rw [hids, ← hnone, update_eq_self]

theorem Inv.counters (counter : BitVec 32) (verifier : BitVec 64) :
    { s with clientidCounter := counter, clientidVerifier := verifier }.Inv held := by
  have hagree : s.Agree { s with clientidCounter := counter, clientidVerifier := verifier } :=
    ⟨rfl, rfl, rfl, rfl, rfl, rfl⟩
  exact hinv.of_same (hinv.wf.agree hagree) rfl rfl rfl

theorem Inv.allocId (hwf : t.Wf) (hids : t.ids = update s.ids s.nextAddr (some cl))
    (hsessions : t.sessions = s.sessions) (hnext : t.nextAddr = s.nextAddr + 1)
    (hcount : cl.refcount = tableRef cl + cl.ownerRefs) (hpos : 0 < cl.refcount) : t.Inv held := by
  obtain ⟨hheld, hnone⟩ := hinv.refs.free _ (hinv.fresh _ (Nat.le_refl _))
  refine hinv.setId hwf hids hsessions (by omega) (fun x hx => ?_) nofun fun _ _ => rfl
  cases hx
  refine ⟨by omega, fun y hy hr => ?_, ?_, hpos⟩
  · have hmem : y ∈ s.sessionsOf s.nextAddr := List.mem_filter.2 ⟨hy, by simpa using hr⟩
    rw [hnone] at hmem
    cases hmem
  · rw [hheld, hnone, hcount]
    simp

theorem Inv.insert (hun : cl.confirmed = .unconfirmed) (hkey : cl.clientRecord = some key)
    (hrefs : cl.refcount = 0) (howners : cl.ownerRefs = 0)
    (hrec : (s.records key).unconfirmedRec = none) :
    (s.unconfirmedTable cl.clientid = none ∧
      ∃ t, s.nfsClientIdInsert key cl = (t, .success) ∧ t.Inv held ∧
        t.live = update s.live s.nextAddr (some cl)) ∨
    (s.unconfirmedTable cl.clientid ≠ none ∧
      s.nfsClientIdInsert key cl = (s, .insertMallocError)) := by
  unfold nfsClientIdInsert
  cases htable : s.unconfirmedTable cl.clientid with
  | some r => exact .inr ⟨by simp, rfl⟩
  | none =>
    have hnew : liveOf (some { cl with refcount := cl.refcount + 1 }) = some cl := by
      rw [liveOf_refcount, liveOf_some (by simp [hun]), erased, ← hrefs]
    have hlive := (live_setId s s.nextAddr (some { cl with refcount := cl.refcount + 1 })).trans
      (congrArg _ hnew)
    have hnone : s.live s.nextAddr = none := by
      rw [live, hinv.fresh _ (Nat.le_refl _), liveOf_none]
    refine .inl ⟨rfl, _, rfl, ?_, hlive⟩
    refine hinv.allocId ?_ rfl rfl rfl ?_ (Nat.succ_pos _)
    · refine hinv.wf.insert hnone hlive ?_ ?_ ?_ ?_ ?_
      · intro c r
        refine (update_some_eq_some_iff htable).trans (or_congr_right ?_)
        simp [hun, eq_comm]
      · intro c r
        simp [hun]
      · intro key' r
        dsimp only
        rw [update_unconfirmedRec]
        refine (update_some_eq_some_iff (f := fun k => (s.records k).unconfirmedRec) hrec).trans
          (or_congr_right ?_)
        simp [hun, hkey, eq_comm]
      · intro key' r
        dsimp only
        rw [update_unconfirmedRec_confirmedRec]
        simp [hun]
      · simp [hun, hkey]
    · simp only [tableRef, hun, ownerRefs] at howners ⊢
      simp
      omega

end

theorem Wf.touch {cl' : ClientId} (h : s.Wf) (hlive : s.live r = some cl)
    (hagree : t.live = update s.live r (some cl'))
    (hclientid : cl'.clientid = cl.clientid) (hconfirmed : cl'.confirmed = cl.confirmed)
    (hrecord : cl'.clientRecord = cl.clientRecord) (hrecords : t.records = s.records)
    (hconf : t.confirmedTable = s.confirmedTable)
    (hunconf : t.unconfirmedTable = s.unconfirmedTable) : t.Wf := by
  refine ⟨IsIndex.touch h.unconfirmed hlive hagree (fun c => by rw [hconfirmed, hclientid]) hunconf,
    IsIndex.touch h.confirmed hlive hagree (fun c => by rw [hconfirmed, hclientid]) hconf,
    IsIndex.touch h.unconfirmedRec hlive hagree (fun key => by rw [hconfirmed, hrecord]) (by rw [hrecords]),
    IsIndex.touch h.confirmedRec hlive hagree (fun key => by rw [hconfirmed, hrecord]) (by rw [hrecords]),
    fun r' x hx => ?_⟩
  rw [hagree, update_apply] at hx
  split_ifs at hx with heq
  · cases hx
    rw [hrecord, hconfirmed]
    exact h.detached r cl hlive
  · exact h.detached r' x hx

theorem Inv.touch (hinv : s.Inv held) (hids : s.ids r = some cl) (cl' : ClientId)
    (hexp : cl.confirmed ≠ .expired) (hclientid : cl'.clientid = cl.clientid)
    (hconfirmed : cl'.confirmed = cl.confirmed) (hrecord : cl'.clientRecord = cl.clientRecord)
    (hrefs : cl'.refcount = cl.refcount) (howners : cl'.ownerRefs = cl.ownerRefs) :
    (s.setId r (some cl')).Inv held ∧
      s.Becomes (s.setId r (some cl')) (update s.live r (some cl'.erased)) := by
  have hlive := (live_setId s r (some cl')).trans
    (congrArg _ (liveOf_some (hconfirmed ▸ hexp)))
  refine ⟨?_, hlive, rfl, rfl⟩
  have hcount := hinv.refs.count r cl hids
  refine hinv.changeId hids ?_ rfl rfl rfl hclientid ?_ (hrefs ▸ hinv.refs.pos r cl hids)
    (fun r' _ => rfl)
  · exact hinv.wf.touch (live_of_ids hids hexp) hlive hclientid hconfirmed hrecord rfl rfl rfl
  · simp only [tableRef, hconfirmed, howners, hrefs] at hcount ⊢
    exact hcount

end ClientStore

end EdgeComputing.Sal
