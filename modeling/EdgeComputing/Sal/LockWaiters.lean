import EdgeComputing.Sal.LockExclusion

/-!
Waiting for a byte-range lock on a file system without asynchronous blocking locks. A request that
conflicts with an entry of the list waits for Ganesha to grant it; one that conflicts in the file
system only is polled. The upcall that the polling thread schedules tries to grant the entry without
a search for conflicts.
-/

namespace EdgeComputing.Sal

open List Library LockState

variable {Owner : Type*}

def BlockData.types (b : BlockData) : GrantType × BlockType := (b.sbdGrantType, b.sbdBlockType)

namespace LockEntry

def Waits (e : LockEntry Owner) : Prop :=
  e.sleBlocked = .nlmBlocking ∨ e.sleBlocked = .nfsv4Blocking

def InternalWaiter (e : LockEntry Owner) : Prop :=
  e.Waits ∧ e.sleBlockData.map (·.sbdBlockType) = some .internal

def Live (e : LockEntry Owner) : Prop := e.sleBlocked ≠ .canceled

def Obstructs (x w : LockEntry Owner) : Prop :=
  x.sleLock.overlaps w.sleLock = true ∧
    (x.sleLock.lockType = .lockW ∨ w.sleLock.lockType = .lockW) ∧ x.sleOwner ≠ w.sleOwner

instance (e : LockEntry Owner) : Decidable e.Waits :=
  inferInstanceAs (Decidable (_ ∨ _))

instance (e : LockEntry Owner) : Decidable e.InternalWaiter :=
  inferInstanceAs (Decidable (_ ∧ _))

instance (e : LockEntry Owner) : Decidable e.Live :=
  inferInstanceAs (Decidable (_ ≠ _))

instance [DecidableEq Owner] (x w : LockEntry Owner) : Decidable (x.Obstructs w) :=
  inferInstanceAs (Decidable (_ = _ ∧ (_ ∨ _) ∧ _ ≠ _))

end LockEntry

def NoStrandedWaiter (lockList : List (LockEntry Owner)) : Prop :=
  ∀ w ∈ lockList, w.InternalWaiter → ∃ x ∈ lockList, x.Live ∧ x.Obstructs w

instance [DecidableEq Owner] (lockList : List (LockEntry Owner)) :
    Decidable (NoStrandedWaiter lockList) :=
  inferInstanceAs (Decidable (∀ w ∈ lockList, _ → ∃ x ∈ lockList, _ ∧ _))

structure WaitState (Owner : Type*) where
  locks : LockState Owner
  scheduled : List Nat

inductive WaitAction (Owner : Type*) where
  | lock (env : LockEnv) (req : LockRequest Owner)
  | unlock (env : LockEnv) (owner : Option Owner) (stateApplies : Bool) (nsmState : Int)
      (lock : LockParam)
  | cancel (env : LockEnv) (owner : Owner) (lock : LockParam)
  | findGrant (key : Nat)
  | completeGrant (env : LockEnv) (cookie : Cookie)
  | releaseGrant (env : LockEnv) (cookie : Cookie)
  | poll (id : Nat)
  | upcall (env : LockEnv) (id : Nat)

variable [DecidableEq Owner] {entry : LockEntry Owner} {s t : LockState Owner}
  {blockData : BlockData}

/-- One turn of `blocked_lock_polling`: a blocked entry of the right type is marked, and an upcall
for it is scheduled. -/
def blockedLockPolling (s : WaitState Owner) (id : Nat) : Option (WaitState Owner) :=
  match s.locks.find id with
  | none => none
  | some entry =>
    if entry.Waits ∧ entry.sleBlockData.map (·.sbdBlockType) = some .poll then
      some ⟨s.locks.setBlockData id fun b => { b with sbdGrantType := .poll }, id :: s.scheduled⟩
    else none

def processBlockedLockUpcall (env : LockEnv) (s : WaitState Owner) (id : Nat) :
    Option (WaitState Owner) :=
  match s.locks.find id with
  | none => none
  | some entry => some ⟨tryToGrantLock env s.locks entry, s.scheduled.erase id⟩

/-- The lock operations and the polling on one file of a file system without asynchronous blocking
locks. -/
def waitMachine : Machine (WaitState Owner) (WaitAction Owner) where
  init s := s = ⟨LockState.empty, []⟩
  step s
    | .lock env req =>
      if env.fsalAsyncBlock = false then some { s with locks := (stateLock env req s.locks).2 }
      else none
    | .unlock env owner stateApplies nsmState lock =>
      if env.fsalAsyncBlock = false then
        some { s with locks := (stateUnlock env owner stateApplies nsmState lock s.locks).2 }
      else none
    | .cancel env owner lock =>
      if env.fsalAsyncBlock = false then some { s with locks := stateCancel env owner lock s.locks }
      else none
    | .findGrant key => (s.locks.stateFindGrant key).map fun r => { s with locks := r.2 }
    | .completeGrant env cookie =>
      if env.fsalAsyncBlock = false ∧ cookie ∈ s.locks.taken then
        some { s with locks := stateCompleteGrant env s.locks cookie }
      else none
    | .releaseGrant env cookie =>
      if env.fsalAsyncBlock = false ∧ cookie ∈ s.locks.taken then
        some { s with locks := (stateReleaseGrant env s.locks cookie).2 }
      else none
    | .poll id => blockedLockPolling s id
    | .upcall env id =>
      if env.fsalAsyncBlock = false ∧ id ∈ s.scheduled then processBlockedLockUpcall env s id
      else none

omit [DecidableEq Owner]

structure SameWait (e c : LockEntry Owner) : Prop where
  sleId : e.sleId = c.sleId
  owner : e.sleOwner = c.sleOwner
  lock : e.sleLock = c.sleLock
  blocked : e.sleBlocked = c.sleBlocked
  types : e.sleBlockData.map BlockData.types = c.sleBlockData.map BlockData.types

namespace SameWait

variable {e c d x w x' w' : LockEntry Owner}

theorem refl (e : LockEntry Owner) : SameWait e e := ⟨rfl, rfl, rfl, rfl, rfl⟩

theorem trans (hec : SameWait e c) (hcd : SameWait c d) : SameWait e d :=
  ⟨hec.sleId.trans hcd.sleId, hec.owner.trans hcd.owner, hec.lock.trans hcd.lock,
    hec.blocked.trans hcd.blocked, hec.types.trans hcd.types⟩

theorem blockType (h : SameWait e c) :
    e.sleBlockData.map (·.sbdBlockType) = c.sleBlockData.map (·.sbdBlockType) := by
  have hmap := congrArg (Option.map Prod.snd) h.types
  rw [Option.map_map, Option.map_map] at hmap
  exact hmap

theorem waits_iff (h : SameWait e c) : e.Waits ↔ c.Waits := by
  simp only [LockEntry.Waits, h.blocked]

theorem internalWaiter_iff (h : SameWait e c) : e.InternalWaiter ↔ c.InternalWaiter := by
  simp only [LockEntry.InternalWaiter, h.waits_iff, h.blockType]

theorem live_iff (h : SameWait e c) : e.Live ↔ c.Live := by
  simp only [LockEntry.Live, h.blocked]

theorem obstructs_iff (hx : SameWait x' x) (hw : SameWait w' w) :
    x'.Obstructs w' ↔ x.Obstructs w := by
  simp only [LockEntry.Obstructs, hx.lock, hx.owner, hw.lock, hw.owner]

end SameWait

structure CookiesOnly (t s : LockState Owner) : Prop where
  nextId : t.nextId = s.nextId
  ids : t.lockList.map (·.sleId) = s.lockList.map (·.sleId)
  left : ∀ e ∈ t.lockList, ∃ c ∈ s.lockList, SameWait e c
  right : ∀ c ∈ s.lockList, ∃ e ∈ t.lockList, SameWait e c

namespace CookiesOnly

variable {u t s : LockState Owner}

theorem of_list (hnextId : t.nextId = s.nextId) (hlist : t.lockList = s.lockList) :
    CookiesOnly t s where
  nextId := hnextId
  ids := by rw [hlist]
  left e he := ⟨e, hlist ▸ he, SameWait.refl e⟩
  right c hc := ⟨c, hlist ▸ hc, SameWait.refl c⟩

theorem trans (hut : CookiesOnly u t) (hts : CookiesOnly t s) : CookiesOnly u s where
  nextId := hut.nextId.trans hts.nextId
  ids := hut.ids.trans hts.ids
  left e he := by
    obtain ⟨c, hc, hec⟩ := hut.left e he
    obtain ⟨d, hd, hcd⟩ := hts.left c hc
    exact ⟨d, hd, hec.trans hcd⟩
  right d hd := by
    obtain ⟨c, hc, hcd⟩ := hts.right d hd
    obtain ⟨e, he, hec⟩ := hut.right c hc
    exact ⟨e, he, hec.trans hcd⟩

theorem removeFromLocklist (h : CookiesOnly t s) (id : Nat) :
    CookiesOnly (t.removeFromLocklist id) (s.removeFromLocklist id) where
  nextId := h.nextId
  ids := by
    have hmap := congrArg (filter (· ≠ id)) h.ids
    rwa [List.filter_map, List.filter_map] at hmap
  left e he := by
    obtain ⟨he, hne⟩ := mem_filter.1 he
    obtain ⟨c, hc, hec⟩ := h.left e he
    exact ⟨c, mem_filter.2 ⟨hc, hec.sleId ▸ hne⟩, hec⟩
  right c hc := by
    obtain ⟨hc, hne⟩ := mem_filter.1 hc
    obtain ⟨e, he, hec⟩ := h.right c hc
    exact ⟨e, mem_filter.2 ⟨he, hec.sleId ▸ hne⟩, hec⟩

theorem update (h : CookiesOnly t s) (id : Nat) {f : LockEntry Owner → LockEntry Owner}
    (hid : ∀ e, e.sleId = id → (f e).sleId = id)
    (hf : ∀ e c, SameWait e c → SameWait (f e) (f c)) :
    CookiesOnly (t.update id f) (s.update id f) := by
  have hstep : ∀ e c, SameWait e c →
      SameWait (if e.sleId = id then f e else e) (if c.sleId = id then f c else c) := by
    intro e c hec
    rw [hec.sleId]
    split_ifs
    · exact hf e c hec
    · exact hec
  refine ⟨h.nextId, ?_, ?_, ?_⟩
  · simp only [LockState.update, map_update_id hid, h.ids]
  · intro e' he'
    obtain ⟨e, he, rfl⟩ := mem_map.1 he'
    obtain ⟨c, hc, hec⟩ := h.left e he
    exact ⟨_, mem_map_of_mem hc, hstep e c hec⟩
  · intro c' hc'
    obtain ⟨c, hc, rfl⟩ := mem_map.1 hc'
    obtain ⟨e, he, hec⟩ := h.right c hc
    exact ⟨_, mem_map_of_mem he, hstep e c hec⟩

theorem noStrandedWaiter_iff (h : CookiesOnly t s) :
    NoStrandedWaiter t.lockList ↔ NoStrandedWaiter s.lockList := by
  constructor
  · intro ht w hw hwaiter
    obtain ⟨w', hw', hsame⟩ := h.right w hw
    obtain ⟨x', hx', hlive, hobstructs⟩ := ht w' hw' (hsame.internalWaiter_iff.2 hwaiter)
    obtain ⟨x, hx, hxsame⟩ := h.left x' hx'
    exact ⟨x, hx, hxsame.live_iff.1 hlive, (hxsame.obstructs_iff hsame).1 hobstructs⟩
  · intro hs w' hw' hwaiter
    obtain ⟨w, hw, hsame⟩ := h.left w' hw'
    obtain ⟨x, hx, hlive, hobstructs⟩ := hs w hw (hsame.internalWaiter_iff.1 hwaiter)
    obtain ⟨x', hx', hxsame⟩ := h.right x hx
    exact ⟨x', hx', hxsame.live_iff.2 hlive, (hxsame.obstructs_iff hsame).2 hobstructs⟩

end CookiesOnly

theorem setCookie_cookiesOnly (s : LockState Owner) (id : Nat) (cookie : Option Nat) :
    CookiesOnly (s.setBlockData id fun b => { b with sbdBlockedCookie := cookie }) s := by
  have hstep : ∀ e : LockEntry Owner, SameWait (if e.sleId = id then
      { e with sleBlockData :=
          e.sleBlockData.map (fun b => { b with sbdBlockedCookie := cookie }) } else e) e := by
    intro e
    split_ifs
    · refine ⟨rfl, rfl, rfl, rfl, ?_⟩
      rw [Option.map_map]
      rfl
    · exact SameWait.refl e
  refine ⟨rfl, map_update_id fun _ h => h, ?_, ?_⟩
  · intro e' he'
    obtain ⟨e, he, rfl⟩ := mem_map.1 he'
    exact ⟨e, he, hstep e⟩
  · intro e he
    exact ⟨_, mem_map_of_mem he, hstep e⟩

theorem freeCookie_cookiesOnly (s : LockState Owner) (cookie : Cookie) :
    CookiesOnly (s.freeCookie cookie) s :=
  let h := setCookie_cookiesOnly s cookie.lockEntry none
  { h with }

theorem stateFindGrant_cookiesOnly {key : Nat} {cookie : Cookie}
    (h : s.stateFindGrant key = some (cookie, t)) : CookiesOnly t s := by
  unfold LockState.stateFindGrant at h
  obtain ⟨c, -, heq⟩ := Option.map_eq_some_iff.1 h
  cases heq
  exact .of_list rfl rfl

theorem stateAddGrantCookie_cookiesOnly (env : LockEnv) (s : LockState Owner)
    (entry : LockEntry Owner) : CookiesOnly (stateAddGrantCookie env s entry).2 s := by
  unfold stateAddGrantCookie
  cases entry.sleBlockData with
  | none => exact .of_list rfl rfl
  | some blockData =>
    dsimp only
    split_ifs
    · exact .of_list rfl rfl
    · have h := setCookie_cookiesOnly s entry.sleId (some s.nextCookie)
      exact { h with }
    · exact .of_list rfl rfl

theorem nlmGrantedCallback_cookiesOnly (env : LockEnv) (s : LockState Owner)
    (entry : LockEntry Owner) : CookiesOnly (nlmGrantedCallback env s entry).2 s := by
  unfold nlmGrantedCallback
  have hadd := stateAddGrantCookie_cookiesOnly env s entry
  dsimp only
  split_ifs
  · exact hadd
  · exact hadd
  · exact (freeCookie_cookiesOnly _ _).trans hadd

def grantStatus (env : LockEnv) (blockData : BlockData) (entry : Nat) : StateStatus :=
  if env.cookieInsert entry = false then .hashTableError
  else grantLockOp env
    (if blockData.sbdGrantType = .none then .internal else blockData.sbdGrantType) entry

/-- The entry cannot be granted and is not left blocked either: it was canceled or has no block
data, its export is gone, the file system or the cookie table fails, or the lock is there and its
owner cannot be told. -/
def GrantFails (env : LockEnv) (entry : LockEntry Owner) : Prop :=
  match entry.sleBlockData with
  | none => True
  | some blockData =>
    (entry.sleBlocked = .canceled ∨ env.exportReady entry.sleExport = false) ∨
      grantStatus env blockData entry.sleId ≠ .lockBlocked ∧
        (grantStatus env blockData entry.sleId = .success → env.asyncSchedule entry.sleId = false)

instance (env : LockEnv) (entry : LockEntry Owner) : Decidable (GrantFails env entry) := by
  unfold GrantFails
  split <;> infer_instance

theorem stateAddGrantCookie_status (env : LockEnv) (s : LockState Owner)
    (hdata : entry.sleBlockData = some blockData) :
    (stateAddGrantCookie env s entry).1 =
      if env.cookieInsert entry.sleId = false then .hashTableError
      else grantLockOp env blockData.sbdGrantType entry.sleId := by
  simp only [stateAddGrantCookie, hdata, Bool.not_eq_eq_eq_not, Bool.not_true]
  split_ifs with hinsert hstatus
  · rfl
  · exact hstatus.symm
  · rfl

theorem nlmGrantedCallback_status (env : LockEnv) (s : LockState Owner) (entry : LockEntry Owner)
    (blockData : BlockData) :
    (nlmGrantedCallback env s (grantingEntry entry blockData)).1 =
      if grantStatus env blockData entry.sleId = .success ∧
          env.asyncSchedule entry.sleId = false then .signalError
      else grantStatus env blockData entry.sleId := by
  have hadd : (stateAddGrantCookie env s (grantingEntry entry blockData)).1 =
      grantStatus env blockData entry.sleId := by
    have hdata : (grantingEntry entry blockData).sleBlockData = some _ := rfl
    rw [stateAddGrantCookie_status env s hdata]
    rfl
  rw [← hadd]
  unfold nlmGrantedCallback
  cases stateAddGrantCookie env s (grantingEntry entry blockData) with
  | mk status s' =>
    simp only [grantingEntry]
    by_cases hstatus : status = .success
    · split_ifs <;> simp_all
    · simp [hstatus]

theorem settleGrant_eq (entry : LockEntry Owner) (r : StateStatus × LockState Owner) :
    settleGrant entry r =
      if r.1 = .lockBlocked then
        (r.2.setBlocked entry.sleId entry.sleBlocked).setBlockData entry.sleId
          fun b => { b with sbdGrantType := .none }
      else if r.1 = .success then r.2
      else r.2.removeFromLocklist entry.sleId := by
  obtain ⟨status, s⟩ := r
  unfold settleGrant
  split <;> simp_all

inductive GrantOutcome (env : LockEnv) (s : LockState Owner) (entry : LockEntry Owner)
    (t : LockState Owner) : Prop
  | removed (hfails : GrantFails env entry)
      (ht : CookiesOnly t (s.removeFromLocklist entry.sleId))
  | granting (blockData : BlockData) (hdata : entry.sleBlockData = some blockData)
      (hfails : ¬ GrantFails env entry)
      (ht : CookiesOnly t (s.update entry.sleId fun _ => grantingEntry entry blockData))
  | blocked (blockData : BlockData) (hdata : entry.sleBlockData = some blockData)
      (hfails : ¬ GrantFails env entry)
      (hstatus : grantStatus env blockData entry.sleId = .lockBlocked)
      (ht : CookiesOnly t (s.update entry.sleId fun _ =>
        { entry with sleBlockData := some { blockData with sbdGrantType := .none } }))

theorem update_const_remove {s : LockState Owner} (entry : LockEntry Owner) :
    ((s.update entry.sleId fun _ => entry).removeFromLocklist entry.sleId).lockList =
      (s.removeFromLocklist entry.sleId).lockList := by
  simp only [LockState.update, LockState.removeFromLocklist]
  induction s.lockList with
  | nil => rfl
  | cons e rest ih =>
    by_cases h : e.sleId = entry.sleId
    · simpa [h] using ih
    · simpa [h] using ih

theorem settleGrant_blocked
    (h : CookiesOnly t (s.update entry.sleId fun _ => grantingEntry entry blockData)) :
    CookiesOnly
      ((t.setBlocked entry.sleId entry.sleBlocked).setBlockData entry.sleId
        fun b => { b with sbdGrantType := .none })
      (s.update entry.sleId fun _ =>
        { entry with sleBlockData := some { blockData with sbdGrantType := .none } }) := by
  have hset := h.update entry.sleId (f := fun e => { e with sleBlocked := entry.sleBlocked })
    (fun _ hid => hid) fun e c hec => ⟨hec.sleId, hec.owner, hec.lock, rfl, hec.types⟩
  have hreset := hset.update entry.sleId (f := fun e => { e with
      sleBlockData := e.sleBlockData.map (fun b => { b with sbdGrantType := .none }) })
    (fun _ hid => hid) fun e c hec => ⟨hec.sleId, hec.owner, hec.lock, hec.blocked, by
      have htypes := congrArg (Option.map fun p => (GrantType.none, p.2)) hec.types
      simp only [Option.map_map] at htypes ⊢
      exact htypes⟩
  refine hreset.trans (.of_list rfl ?_)
  have hentry : (grantingEntry entry blockData).sleId = entry.sleId := rfl
  rw [← hentry]
  simp only [LockState.update, List.map_map]
  refine map_congr_left fun e _ => ?_
  dsimp only [Function.comp_apply]
  split_ifs <;> first | rfl | contradiction

theorem tryToGrantLock_outcome (env : LockEnv) (s : LockState Owner) (entry : LockEntry Owner) :
    GrantOutcome env s entry (tryToGrantLock env s entry) := by
  unfold tryToGrantLock
  cases hdata : entry.sleBlockData with
  | none =>
    refine .removed ?_ (.of_list rfl rfl)
    simp only [GrantFails, hdata]
  | some blockData =>
    dsimp only
    split_ifs with hgone
    · refine .removed ?_ (.of_list rfl rfl)
      simp only [GrantFails, hdata]
      exact .inl hgone
    have hcookies := nlmGrantedCallback_cookiesOnly env
      (s.update entry.sleId fun _ => grantingEntry entry blockData)
      (grantingEntry entry blockData)
    have hstatus := nlmGrantedCallback_status env
      (s.update entry.sleId fun _ => grantingEntry entry blockData) entry blockData
    have hfails : GrantFails env entry ↔
        grantStatus env blockData entry.sleId ≠ .lockBlocked ∧
          (grantStatus env blockData entry.sleId = .success →
            env.asyncSchedule entry.sleId = false) := by
      simp only [GrantFails, hdata, hgone, false_or]
    generalize nlmGrantedCallback env _ (grantingEntry entry blockData) = r at hcookies hstatus ⊢
    rw [settleGrant_eq]
    by_cases hblocked : grantStatus env blockData entry.sleId = .lockBlocked
    · rw [hblocked, if_neg (by simp)] at hstatus
      rw [if_pos hstatus]
      refine .blocked blockData hdata (fun h => (hfails.1 h).1 hblocked) hblocked ?_
      exact settleGrant_blocked hcookies
    · by_cases hsent : grantStatus env blockData entry.sleId = .success ∧
          env.asyncSchedule entry.sleId = true
      · rw [hsent.1, hsent.2, if_neg (by simp)] at hstatus
        rw [if_neg (by rw [hstatus]; simp), if_pos hstatus]
        refine .granting blockData hdata (fun h => ?_) hcookies
        have hfalse := (hfails.1 h).2 hsent.1
        rw [hsent.2] at hfalse
        cases hfalse
      · have hnot : r.1 ≠ .lockBlocked ∧ r.1 ≠ .success := by
          rw [hstatus]
          split_ifs with hsignal
          · simp
          · refine ⟨hblocked, fun h => ?_⟩
            cases hasync : env.asyncSchedule entry.sleId with
            | false => exact hsignal ⟨h, hasync⟩
            | true => exact hsent ⟨h, hasync⟩
        rw [if_neg hnot.1, if_neg hnot.2]
        refine .removed (hfails.2 ⟨hblocked, fun h => ?_⟩) ?_
        · cases hasync : env.asyncSchedule entry.sleId with
          | false => rfl
          | true => exact absurd ⟨h, hasync⟩ hsent
        · refine (hcookies.removeFromLocklist entry.sleId).trans (.of_list rfl ?_)
          exact update_const_remove (grantingEntry entry blockData)

end EdgeComputing.Sal
