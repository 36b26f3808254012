import EdgeComputing.Library.Machine
import EdgeComputing.Sal.LockState
import EdgeComputing.Sal.LockSubtract
import Mathlib.Data.List.Nodup

/-!
Mutual exclusion of granted byte-range locks on a file system without asynchronous blocking locks.
Every operation weakens the list, replaces entries by pieces, or makes one entry active after a
search for a conflict; a merge gives a granted entry only bytes that its owner held in that mode.
-/

namespace EdgeComputing.Sal

open List Library LockState

variable {Owner : Type*}

def LockEntry.Active (e : LockEntry Owner) : Prop :=
  e.sleBlocked = .nonBlocking ∨ e.sleBlocked = .granting

/-- The two entries are not active locks of different owners with a byte in common
of which one is a write lock. -/
def Excludes (e f : LockEntry Owner) : Prop :=
  e.sleOwner ≠ f.sleOwner → e.Active → f.Active →
    (e.sleLock.lockType = .lockW ∨ f.sleLock.lockType = .lockW) →
    ∀ b, e.sleLock.Covers b → ¬ f.sleLock.Covers b

variable {e f entry : LockEntry Owner}

theorem Excludes.symm (h : Excludes e f) : Excludes f e :=
  fun hne hf he htype b hfb heb => h hne.symm he hf htype.symm b heb hfb

theorem Excludes.partOf {c d : LockEntry Owner} (h : Excludes c d) (hec : PartOf e c)
    (hfd : PartOf f d) : Excludes e f := by
  intro hne he hf htype b heb hfb
  rw [hec.owner, hfd.owner] at hne
  rw [hec.type_eq, hfd.type_eq] at htype
  unfold LockEntry.Active at he hf
  rw [hec.blocked] at he
  rw [hfd.blocked] at hf
  exact h hne he hf htype b (hec.covers b heb) (hfd.covers b hfb)

theorem Excludes.of_not_active (h : ¬ e.Active) : Excludes e f :=
  fun _ he => absurd he h

structure LockInv (s : LockState Owner) : Prop where
  admitted : ∀ e ∈ s.lockList ++ s.unlinked, e.sleLock.Admitted
  fresh : ∀ e ∈ s.lockList ++ s.unlinked, e.sleId < s.nextId
  nodup : (s.lockList.map (·.sleId)).Nodup
  excludes : ∀ e ∈ s.lockList, ∀ f ∈ s.lockList, Excludes e f

variable {s t : LockState Owner} {id : Nat}

theorem LockInv.eq_of_id (h : LockInv s) (he : e ∈ s.lockList) (hf : f ∈ s.lockList)
    (hid : e.sleId = f.sleId) : e = f :=
  inj_on_of_nodup_map h.nodup he hf hid

structure Weaker (t s : LockState Owner) : Prop where
  nextId : t.nextId = s.nextId
  ids : (t.lockList.map (·.sleId)).Sublist (s.lockList.map (·.sleId))
  list : ∀ e ∈ t.lockList, ∃ c ∈ s.lockList, e.sleId = c.sleId ∧ e.sleOwner = c.sleOwner ∧
    e.sleLock = c.sleLock ∧ (e.Active → c.Active)
  unlinked : ∀ e ∈ t.unlinked, ∃ c ∈ s.lockList ++ s.unlinked,
    e.sleId = c.sleId ∧ e.sleLock = c.sleLock

namespace Weaker

theorem refl (s : LockState Owner) : Weaker s s where
  nextId := rfl
  ids := List.Sublist.refl _
  list e he := ⟨e, he, rfl, rfl, rfl, id⟩
  unlinked e he := ⟨e, by simp [he], rfl, rfl⟩

theorem mem (h : Weaker t s) (he : e ∈ t.lockList ++ t.unlinked) :
    ∃ c ∈ s.lockList ++ s.unlinked, e.sleId = c.sleId ∧ e.sleLock = c.sleLock := by
  rcases mem_append.1 he with he | he
  · obtain ⟨c, hc, hid, -, hlock, -⟩ := h.list e he
    exact ⟨c, by simp [hc], hid, hlock⟩
  · exact h.unlinked e he

theorem trans {u : LockState Owner} (hut : Weaker u t) (hts : Weaker t s) : Weaker u s where
  nextId := hut.nextId.trans hts.nextId
  ids := hut.ids.trans hts.ids
  list e he := by
    obtain ⟨d, hd, hid, howner, hlock, hactive⟩ := hut.list e he
    obtain ⟨c, hc, hid', howner', hlock', hactive'⟩ := hts.list d hd
    exact ⟨c, hc, hid.trans hid', howner.trans howner', hlock.trans hlock',
      fun h => hactive' (hactive h)⟩
  unlinked e he := by
    obtain ⟨d, hd, hid, hlock⟩ := hut.unlinked e he
    obtain ⟨c, hc, hid', hlock'⟩ := hts.mem hd
    exact ⟨c, hc, hid.trans hid', hlock.trans hlock'⟩

end Weaker

theorem LockInv.weaker (hs : LockInv s) (h : Weaker t s) : LockInv t where
  admitted e he := by
    obtain ⟨c, hc, -, hlock⟩ := h.mem he
    rw [hlock]
    exact hs.admitted c hc
  fresh e he := by
    obtain ⟨c, hc, hid, -⟩ := h.mem he
    rw [hid, h.nextId]
    exact hs.fresh c hc
  nodup := hs.nodup.sublist h.ids
  excludes e he f hf := by
    obtain ⟨c, hc, -, howner, hlock, hactive⟩ := h.list e he
    obtain ⟨d, hd, -, howner', hlock', hactive'⟩ := h.list f hf
    intro hne hea hfa
    rw [howner, howner'] at hne
    rw [hlock, hlock']
    exact hs.excludes c hc d hd hne (hactive hea) (hactive' hfa)

theorem map_update_id {list : List (LockEntry Owner)} {f : LockEntry Owner → LockEntry Owner}
    (hf : ∀ e, e.sleId = id → (f e).sleId = id) :
    (list.map fun e => if e.sleId = id then f e else e).map (·.sleId) = list.map (·.sleId) := by
  rw [map_map]
  refine map_congr_left fun e _ => ?_
  dsimp only [Function.comp_apply]
  split_ifs with h
  · rw [hf e h, h]
  · rfl

theorem update_weaker {s : LockState Owner} {f : LockEntry Owner → LockEntry Owner}
    (hid : ∀ e, (f e).sleId = e.sleId) (hlock : ∀ e, (f e).sleLock = e.sleLock)
    (hf : ∀ e ∈ s.lockList, e.sleId = id → (f e).sleOwner = e.sleOwner ∧ ((f e).Active → e.Active)) :
    Weaker (s.update id f) s where
  nextId := rfl
  ids := by rw [LockState.update, map_update_id fun e he => (hid e).trans he]
  list e he := by
    obtain ⟨c, hc, rfl⟩ := mem_map.1 he
    refine ⟨c, hc, ?_⟩
    split_ifs with hcid
    · exact ⟨hid c, (hf c hc hcid).1, hlock c, (hf c hc hcid).2⟩
    · exact ⟨rfl, rfl, rfl, fun h => h⟩
  unlinked e he := by
    obtain ⟨c, hc, rfl⟩ := mem_map.1 he
    refine ⟨c, by simp [hc], ?_⟩
    split_ifs
    · exact ⟨hid c, hlock c⟩
    · exact ⟨rfl, rfl⟩

theorem setBlocked_weaker (s : LockState Owner) (id : Nat) {blocked : Blocking}
    (h : blocked ≠ .nonBlocking ∧ blocked ≠ .granting) : Weaker (s.setBlocked id blocked) s := by
  refine update_weaker (fun _ => rfl) (fun _ => rfl) fun e _ _ => ⟨rfl, fun hactive => ?_⟩
  exact absurd hactive fun h' => h'.elim h.1 h.2

theorem setBlockData_weaker (s : LockState Owner) (id : Nat) (f : BlockData → BlockData) :
    Weaker (s.setBlockData id f) s :=
  update_weaker (fun _ => rfl) (fun _ => rfl) fun _ _ _ => ⟨rfl, fun h => h⟩

theorem removeFromLocklist_weaker (s : LockState Owner) (id : Nat) :
    Weaker (s.removeFromLocklist id) s where
  nextId := rfl
  ids := filter_sublist.map _
  list e he := ⟨e, mem_of_mem_filter he, rfl, rfl, rfl, fun h => h⟩
  unlinked e he := by
    rcases mem_append.1 he with he | he
    · exact ⟨e, by simp [he], rfl, rfl⟩
    · exact ⟨e, by simp [mem_of_mem_filter he], rfl, rfl⟩

theorem cookies_weaker (s : LockState Owner) (cookies taken : List Cookie) (nextCookie : Nat) :
    Weaker { s with cookies := cookies, taken := taken, nextCookie := nextCookie } s :=
  ⟨rfl, List.Sublist.refl _, (Weaker.refl s).list, (Weaker.refl s).unlinked⟩

theorem freeCookie_weaker (s : LockState Owner) (cookie : Cookie) :
    Weaker (s.freeCookie cookie) s :=
  (cookies_weaker _ _ _ _).trans (setBlockData_weaker s cookie.lockEntry _)

theorem stateFindGrant_weaker {key : Nat} {cookie : Cookie}
    (h : s.stateFindGrant key = some (cookie, t)) : Weaker t s := by
  unfold LockState.stateFindGrant at h
  obtain ⟨c, -, heq⟩ := Option.map_eq_some_iff.1 h
  cases heq
  exact cookies_weaker s _ _ _

variable {nextId : Nat}

def FreshIds (ids : List Nat) (nextId : Nat) : Prop :=
  ids.Nodup ∧ ∀ i ∈ ids, i < nextId

theorem FreshIds.append_next {ids : List Nat} (h : FreshIds ids nextId) :
    FreshIds (ids ++ [nextId]) (nextId + 1) := by
  constructor
  · refine List.Nodup.append h.1 (nodup_singleton _) ?_
    intro i hi hnext
    rw [mem_singleton] at hnext
    exact Nat.ne_of_lt (h.2 i hi) hnext
  · intro i hi
    rcases mem_append.1 hi with hi | hi
    · exact Nat.lt_succ_of_lt (h.2 i hi)
    · rw [mem_singleton] at hi
      omega

theorem FreshIds.sublist {ids ids' : List Nat} (h : FreshIds ids nextId) (hsub : ids'.Sublist ids) :
    FreshIds ids' nextId :=
  ⟨h.1.sublist hsub, fun i hi => h.2 i (hsub.subset hi)⟩

theorem LockInv.freshIds (hs : LockInv s) : FreshIds (s.lockList.map (·.sleId)) s.nextId := by
  refine ⟨hs.nodup, fun i hi => ?_⟩
  obtain ⟨e, he, rfl⟩ := mem_map.1 hi
  exact hs.fresh e (by simp [he])

theorem LockInv.append (hs : LockInv s) (hadm : entry.sleLock.Admitted)
    (hid : entry.sleId < s.nextId) (hnew : ∀ e ∈ s.lockList, e.sleId ≠ entry.sleId)
    (hexcl : ∀ e ∈ s.lockList, Excludes entry e) :
    LockInv { s with lockList := s.lockList ++ [entry] } := by
  constructor
  · intro e he
    simp only [append_assoc, mem_append, singleton_append, mem_cons] at he
    rcases he with he | rfl | he
    · exact hs.admitted e (by simp [he])
    · exact hadm
    · exact hs.admitted e (by simp [he])
  · intro e he
    simp only [append_assoc, mem_append, singleton_append, mem_cons] at he
    rcases he with he | rfl | he
    · exact hs.fresh e (by simp [he])
    · exact hid
    · exact hs.fresh e (by simp [he])
  · rw [map_append]
    refine List.Nodup.append hs.nodup (nodup_singleton _) fun i hi hnext => ?_
    obtain ⟨e, he, rfl⟩ := mem_map.1 hi
    exact hnew e he (mem_singleton.1 hnext)
  · intro x hx y hy
    simp only [mem_append, mem_singleton] at hx hy
    rcases hx with hx | rfl <;> rcases hy with hy | rfl
    · exact hs.excludes x hx y hy
    · exact (hexcl x hx).symm
    · exact hexcl y hy
    · exact fun hne => absurd rfl hne

theorem stateAddGrantCookie_weaker (env : LockEnv) (s : LockState Owner)
    (entry : LockEntry Owner) : Weaker (stateAddGrantCookie env s entry).2 s := by
  unfold stateAddGrantCookie
  cases entry.sleBlockData with
  | none => exact cookies_weaker s _ _ _
  | some blockData =>
    dsimp only
    split_ifs
    · exact cookies_weaker s _ _ _
    · refine (cookies_weaker _ _ _ _).trans ((setBlockData_weaker _ _ _).trans ?_)
      exact cookies_weaker s _ _ _
    · exact cookies_weaker s _ _ _

theorem nlmGrantedCallback_weaker (env : LockEnv) (s : LockState Owner)
    (entry : LockEntry Owner) : Weaker (nlmGrantedCallback env s entry).2 s := by
  have hadd := stateAddGrantCookie_weaker env s entry
  unfold nlmGrantedCallback
  dsimp only
  split_ifs
  · exact hadd
  · exact hadd
  · exact (freeCookie_weaker _ _).trans hadd

theorem mem_of_find (h : s.find id = some e) : e ∈ s.lockList ∧ e.sleId = id :=
  ⟨mem_of_find?_eq_some h, by simpa using find?_some h⟩

variable [DecidableEq Owner] {r : Merge Owner}

section

variable {owner : Owner} {lockId : Nat} {todo : List (LockEntry Owner)} {m : Merge Owner}
  (hrun : MergeRun owner lockId m todo r)
include hrun

theorem MergeRun.freshIds (h : FreshIds ((m.list ++ todo).map (·.sleId)) m.nextId) :
    FreshIds (r.list.map (·.sleId)) r.nextId ∧ m.nextId ≤ r.nextId := by
  induction hrun with
  | done =>
    rw [append_nil] at h
    exact ⟨h, Nat.le_refl _⟩
  | skip _ _ ih | shrink _ _ _ ih => exact ih (by simpa using h)
  | split _ _ _ ih =>
    obtain ⟨hfresh, hle⟩ := ih (by simpa [LockEntry.dup] using h.append_next)
    exact ⟨hfresh, Nat.le_of_succ_le hle⟩
  | splitLast => exact ⟨by simpa [LockEntry.dup] using h.append_next, Nat.le_succ _⟩
  | @absorb m r check todo _ _ _ _ ih =>
    have hsub : (m.list ++ todo).Sublist (m.list ++ check :: todo) :=
      (List.Sublist.refl _).append (sublist_cons_self _ _)
    exact ih (h.sublist (hsub.map _))

theorem MergeRun.mem_of_id (hid : lockId < m.nextId) (he : e ∈ r.list) (heid : e.sleId = lockId) :
    e ∈ m.list ++ todo := by
  have hcandidate : ∀ {c : LockEntry Owner}, mergeCandidate owner lockId c = true →
      c.sleId ≠ lockId := by
    intro c hc
    simp only [mergeCandidate, Bool.and_eq_true, decide_eq_true_eq] at hc
    exact hc.1.1
  induction hrun with
  | done => simpa using he
  | skip _ _ ih => simpa using ih hid he
  | @shrink m r check todo piece hcand _ _ ih =>
    have hmem := ih hid he
    simp only [append_assoc, mem_append, singleton_append, mem_cons] at hmem ⊢
    rcases hmem with hmem | rfl | hmem
    · exact .inl hmem
    · exact absurd heid (hcandidate hcand)
    · exact .inr (.inr hmem)
  | @split m r check todo left right hcand _ _ ih =>
    have hmem := ih (Nat.lt_succ_of_lt hid) he
    simp only [mem_append, mem_cons, not_mem_nil, or_false] at hmem ⊢
    rcases hmem with (hmem | rfl) | (hmem | rfl)
    · exact .inl hmem
    · exact absurd heid (hcandidate hcand)
    · exact .inr (.inr hmem)
    · exact absurd heid (Nat.ne_of_gt hid)
  | @splitLast m check left right hcand _ =>
    simp only [mem_append, mem_cons, not_mem_nil, or_false] at he ⊢
    rcases he with he | rfl | rfl
    · exact .inl he
    · exact absurd heid (hcandidate hcand)
    · exact absurd heid (Nat.ne_of_gt hid)
  | @absorb m r check todo grown _ _ _ ih =>
    have hmem := ih hid he
    simp only [mem_append, mem_cons] at hmem ⊢
    exact hmem.imp id .inr

end

variable {lockList : List (LockEntry Owner)}

theorem MergeRun.excludes_list {owner : Owner} {lockId : Nat} {m : Merge Owner}
    (hrun : MergeRun owner lockId m lockList r) (hm : m.list = [])
    (hlist : ∀ e ∈ lockList, ∀ f ∈ lockList, Excludes e f) :
    ∀ e ∈ r.list, ∀ f ∈ r.list, Excludes e f := by
  intro e he f hf
  obtain ⟨c, hc, hec⟩ := hrun.partOf he
  obtain ⟨d, hd, hfd⟩ := hrun.partOf hf
  rw [hm, nil_append] at hc hd
  exact (hlist c hc d hd).partOf hec hfd

/-- A granted entry that excludes the entries of the list excludes them after it
has been merged: a byte it has gained was held by its owner in the same mode. -/
theorem MergeRun.excludes_merged
    (hrun : MergeRun entry.sleOwner entry.sleId ⟨[], entry.sleLock, nextId⟩ lockList r)
    (hgranted : entry.sleBlocked = .nonBlocking)
    (hlist : ∀ e ∈ lockList, ∀ f ∈ lockList, Excludes e f)
    (hentry : ∀ f ∈ lockList, Excludes entry f) :
    ∀ f ∈ r.list, Excludes { entry with sleLock := r.lock } f := by
  intro f hf hne _ hfa htype b heb hfb
  obtain ⟨d, hd, hfd⟩ := hrun.partOf hf
  have hd : d ∈ lockList := by simpa using hd
  obtain ⟨hlockType, -, horigin⟩ := hrun.lock_origin
  have hlockType : r.lock.lockType = entry.sleLock.lockType := hlockType
  have htype' : entry.sleLock.lockType = .lockW ∨ f.sleLock.lockType = .lockW :=
    hlockType ▸ htype
  rcases horigin b heb with hb | ⟨c, hc, hco, hctype, hcb⟩
  · exact ((hentry d hd).partOf (.refl entry) hfd) hne (.inl hgranted) hfa htype' b hb hfb
  · have hctype : c.sleLock.lockType = entry.sleLock.lockType := hctype
    have hcf := (hlist c hc d hd).partOf (.refl c) hfd
    rw [← hctype] at htype'
    exact hcf (hco.1 ▸ hne) (.inl hco.2) hfa htype' b hcb hfb

/-- The entry as an operation has read it: on the list with this address, owner and
range and a status with property `P`, or not on the list at all. -/
def Located (P : Blocking → Prop) (s : LockState Owner) (entry : LockEntry Owner) : Prop :=
  (∃ e ∈ s.lockList, e.sleId = entry.sleId ∧ e.sleOwner = entry.sleOwner ∧
      e.sleLock = entry.sleLock ∧ P e.sleBlocked) ∨
    ∀ e ∈ s.lockList, e.sleId ≠ entry.sleId

theorem LockInv.merge (hs : LockInv s) (hadm : entry.sleLock.Admitted)
    (hid : entry.sleId < s.nextId) (hloc : Located (· = .nonBlocking) s entry) :
    LockInv { s with
      lockList := (mergeLockEntry s.lockList s.nextId entry).list
      nextId := (mergeLockEntry s.lockList s.nextId entry).nextId } := by
  have hlistAdm : ∀ e ∈ s.lockList, e.sleLock.Admitted :=
    fun e he => hs.admitted e (by simp [he])
  obtain ⟨m, hrun, heq⟩ := mergeLockEntry_run s.nextId hadm hlistAdm
  rw [heq]
  obtain ⟨hfresh, hle⟩ := hrun.freshIds (by simpa using hs.freshIds)
  -- an entry with the address of the merged entry is the merged entry
  have hself : ∀ e ∈ m.list, e.sleId = entry.sleId → e.sleOwner = entry.sleOwner ∧
      ∀ f ∈ m.list, Excludes { e with sleLock := m.lock } f := by
    intro e he heid
    have heList : e ∈ s.lockList := by simpa using hrun.mem_of_id hid he heid
    obtain ⟨c, hc, hcid, howner, hlock, hgranted⟩ :=
      hloc.resolve_right fun hne => hne e heList heid
    obtain rfl := hs.eq_of_id heList hc (heid.trans hcid.symm)
    refine ⟨howner, ?_⟩
    rw [← howner, ← hcid, ← hlock] at hrun
    exact hrun.excludes_merged hgranted hs.excludes (hs.excludes e heList)
  have hexcl := hrun.excludes_list rfl hs.excludes
  constructor
  · intro e he
    rcases mem_append.1 he with he | he
    · obtain ⟨f, hf, rfl⟩ := mem_map.1 he
      split_ifs with hfid
      · exact hrun.lock_origin.2.1 hadm
      · obtain ⟨c, hc, hpart⟩ := hrun.partOf hf
        exact hpart.admitted (hlistAdm c (by simpa using hc))
    · exact hs.admitted e (by simp [he])
  · intro e he
    rcases mem_append.1 he with he | he
    · obtain ⟨f, hf, rfl⟩ := mem_map.1 he
      have hlt := hfresh.2 f.sleId (mem_map_of_mem hf)
      split_ifs
      · exact hlt
      · exact hlt
    · exact Nat.lt_of_lt_of_le (hs.fresh e (by simp [he])) hle
  · rw [map_update_id (f := fun e => { e with sleLock := m.lock }) fun _ h => h]
    exact hfresh.1
  · intro x hx y hy
    obtain ⟨e, he, rfl⟩ := mem_map.1 hx
    obtain ⟨f, hf, rfl⟩ := mem_map.1 hy
    split_ifs with heid hfid hfid
    · have howner := (hself e he heid).1.trans (hself f hf hfid).1.symm
      exact fun hne => absurd howner hne
    · exact (hself e he heid).2 f hf
    · exact ((hself f hf hfid).2 e he).symm
    · exact hexcl e he f hf

theorem LockInv.merge_new (hs : LockInv s) (hgranted : entry.sleBlocked = .nonBlocking)
    (hadm : entry.sleLock.Admitted) (hid : entry.sleId < s.nextId)
    (hnew : ∀ e ∈ s.lockList, e.sleId ≠ entry.sleId) (hexcl : ∀ e ∈ s.lockList, Excludes entry e) :
    let m := mergeLockEntry s.lockList s.nextId entry
    m.lock.Admitted ∧ s.nextId ≤ m.nextId ∧
      ∀ e ∈ m.list, e.sleId ≠ entry.sleId ∧ Excludes { entry with sleLock := m.lock } e := by
  have hlistAdm : ∀ e ∈ s.lockList, e.sleLock.Admitted :=
    fun e he => hs.admitted e (by simp [he])
  obtain ⟨m, hrun, heq⟩ := mergeLockEntry_run s.nextId hadm hlistAdm
  obtain ⟨-, hle⟩ := hrun.freshIds (by simpa using hs.freshIds)
  rw [heq]
  refine ⟨hrun.lock_origin.2.1 hadm, hle, fun x hx => ?_⟩
  obtain ⟨e, he, rfl⟩ := mem_map.1 hx
  have hne : e.sleId ≠ entry.sleId := fun heid =>
    hnew e (by simpa using hrun.mem_of_id hid he heid) heid
  rw [if_neg hne]
  exact ⟨hne, hrun.excludes_merged hgranted hs.excludes hexcl e he⟩

theorem LockInv.grant (hs : LockInv s) {found granting : LockEntry Owner}
    (hfound : found ∈ s.lockList) (hid : granting.sleId = found.sleId)
    (howner : granting.sleOwner = found.sleOwner) (hlock : granting.sleLock = found.sleLock)
    (hclear : getOverlappingEntry s.lockList found.sleOwner found.sleLock = none) :
    LockInv (s.update found.sleId fun _ => granting) := by
  have hadm := hs.admitted found (by simp [hfound])
  have hexcl : ∀ f ∈ s.lockList, Excludes granting f := by
    intro f hf hne _ hfa htype b hgb hfb
    have hnone := find?_eq_none.1 hclear f hf
    rw [hlock] at htype hgb
    rw [howner] at hne
    have hoverlaps := (LockParam.overlaps_iff (hs.admitted f (by simp [hf])) hadm).2 ⟨b, hfb, hgb⟩
    apply hnone
    rcases hfa with hfa | hfa <;>
      simp [hfa, hoverlaps, hne.symm, htype.symm]
  constructor
  · intro e he
    rcases mem_append.1 he with he | he <;>
      obtain ⟨c, hc, rfl⟩ := mem_map.1 he <;> split_ifs
    · exact hlock ▸ hadm
    · exact hs.admitted c (by simp [hc])
    · exact hlock ▸ hadm
    · exact hs.admitted c (by simp [hc])
  · intro e he
    rcases mem_append.1 he with he | he <;>
      obtain ⟨c, hc, rfl⟩ := mem_map.1 he <;> split_ifs
    · exact hid ▸ hs.fresh found (by simp [hfound])
    · exact hs.fresh c (by simp [hc])
    · exact hid ▸ hs.fresh found (by simp [hfound])
    · exact hs.fresh c (by simp [hc])
  · rw [LockState.update, map_update_id fun _ _ => hid]
    exact hs.nodup
  · intro x hx y hy
    obtain ⟨e, he, rfl⟩ := mem_map.1 hx
    obtain ⟨f, hf, rfl⟩ := mem_map.1 hy
    split_ifs with heid hfid hfid
    · exact fun hne => absurd rfl hne
    · exact hexcl f hf
    · exact (hexcl e he).symm
    · exact hs.excludes e he f hf

theorem LockInv.tryToGrantLock (hs : LockInv s) (env : LockEnv) {found : LockEntry Owner}
    (hfound : found ∈ s.lockList)
    (hblocked : found.sleBlocked = .nlmBlocking ∨ found.sleBlocked = .nfsv4Blocking)
    (hclear : getOverlappingEntry s.lockList found.sleOwner found.sleLock = none) :
    LockInv (tryToGrantLock env s found) := by
  have hremove : LockInv (s.removeFromLocklist found.sleId) :=
    hs.weaker (removeFromLocklist_weaker s found.sleId)
  have hinactive : found.sleBlocked ≠ .nonBlocking ∧ found.sleBlocked ≠ .granting := by
    rcases hblocked with h | h <;> simp [h]
  unfold Sal.tryToGrantLock
  cases found.sleBlockData with
  | none => exact hremove
  | some blockData =>
    dsimp only
    split_ifs with hgone
    · exact hremove
    · have hgrant : LockInv (s.update found.sleId fun _ => grantingEntry found blockData) :=
        hs.grant hfound rfl rfl rfl hclear
      have hcallback := hgrant.weaker
        (nlmGrantedCallback_weaker env _ (grantingEntry found blockData))
      generalize nlmGrantedCallback env _ (grantingEntry found blockData) = answer
        at hcallback ⊢
      obtain ⟨status, s'⟩ := answer
      cases status with
      | lockBlocked =>
        exact hcallback.weaker ((setBlockData_weaker _ _ _).trans
          (setBlocked_weaker _ _ hinactive))
      | success => exact hcallback
      | _ => exact hcallback.weaker (removeFromLocklist_weaker _ _)

theorem LockInv.grantBlockedLock (hs : LockInv s) (env : LockEnv) (id : Nat) :
    LockInv (grantBlockedLock env s id) := by
  unfold Sal.grantBlockedLock
  cases hfind : s.find id with
  | none => exact hs
  | some found =>
    dsimp only
    split_ifs with hstatus
    · exact hs
    · cases hclear : getOverlappingEntry s.lockList found.sleOwner found.sleLock with
      | some _ => exact hs
      | none =>
        refine hs.tryToGrantLock env (mem_of_find hfind).1 ?_ hclear
        by_contra hne
        exact hstatus (not_or.1 hne)

theorem LockInv.grantBlockedLocks (hs : LockInv s) (env : LockEnv) :
    LockInv (grantBlockedLocks env s) := by
  unfold Sal.grantBlockedLocks
  split_ifs
  · exact hs
  · generalize s.lockList.map (·.sleId) = ids
    induction ids generalizing s with
    | nil => exact hs
    | cons id ids ih => exact ih (hs.grantBlockedLock env id)

end EdgeComputing.Sal
