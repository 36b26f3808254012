import EdgeComputing.Sal.LockExclusion

/-!
Any interleaving of the lock operations on one file keeps granted locks of different owners apart. A
grant cookie may be used after any number of steps of other threads.
-/

namespace EdgeComputing.Sal

open List Option Library LockState LockState

variable {Owner : Type*}

variable {s : LockState Owner} {entry : LockEntry Owner} {P : Blocking → Prop} {id : Nat}
  {lock : LockParam} {nextId : Nat} {req : LockRequest Owner} {env : LockEnv}

theorem Located.update {f : LockEntry Owner → LockEntry Owner}
    (hf : ∀ e, (f e).sleId = e.sleId ∧ (f e).sleOwner = e.sleOwner ∧
      (f e).sleLock = e.sleLock ∧ (f e).sleBlocked = e.sleBlocked)
    (h : Located P s entry) : Located P (s.update id f) entry := by
  rcases h with ⟨c, hc, hid, howner, hlock, hP⟩ | hnone
  · refine .inl ⟨_, mem_map_of_mem hc, ?_⟩
    split_ifs
    · obtain ⟨hid', howner', hlock', hblocked⟩ := hf c
      rw [hid', howner', hlock', hblocked]
      exact ⟨hid, howner, hlock, hP⟩
    · exact ⟨hid, howner, hlock, hP⟩
  · refine .inr fun e he => ?_
    obtain ⟨c, hc, rfl⟩ := mem_map.1 he
    split_ifs
    · rw [(hf c).1]
      exact hnone c hc
    · exact hnone c hc

theorem Located.freeCookie (h : Located P s entry) (cookie : Cookie) :
    Located P (s.freeCookie cookie) entry := by
  have hupdate : Located P
      (s.setBlockData cookie.lockEntry fun b => { b with sbdBlockedCookie := none }) entry :=
    h.update fun _ => ⟨rfl, rfl, rfl, rfl⟩
  exact hupdate

theorem located_of_find (h : (s.lockList ++ s.unlinked).find? (·.sleId = id) = some entry) :
    entry ∈ s.lockList ++ s.unlinked ∧ entry.sleId = id ∧
      Located (· = entry.sleBlocked) s entry := by
  have hid : entry.sleId = id := by simpa using find?_some h
  refine ⟨mem_of_find?_eq_some h, hid, ?_⟩
  rw [find?_append] at h
  cases hlist : s.lockList.find? (·.sleId = id) with
  | some e =>
    rw [hlist, some_or, some.injEq] at h
    subst h
    exact .inl ⟨e, mem_of_find?_eq_some hlist, rfl, rfl, rfl, rfl⟩
  | none =>
    refine .inr fun e he heid => ?_
    have hne := find?_eq_none.1 hlist e he
    simp [heid, hid] at hne

theorem cancelBlockedLock_weaker (env : LockEnv) (s : LockState Owner)
    (entry : LockEntry Owner) : Weaker (cancelBlockedLock env s entry) s := by
  have hcancel : Weaker (s.setBlocked entry.sleId .canceled) s :=
    setBlocked_weaker s entry.sleId (by simp)
  have hremove := (removeFromLocklist_weaker _ entry.sleId).trans hcancel
  unfold cancelBlockedLock
  cases entry.sleBlockData.bind (·.sbdBlockedCookie) with
  | none =>
    dsimp only
    split_ifs
    · exact hremove
    · exact hcancel
  | some key =>
    dsimp only
    cases hfind : (s.setBlocked entry.sleId .canceled).stateFindGrant key with
    | none => exact hremove
    | some found =>
      obtain ⟨cookie, s'⟩ := found
      exact (removeFromLocklist_weaker _ _).trans ((freeCookie_weaker s' cookie).trans
        ((stateFindGrant_weaker hfind).trans hcancel))

theorem FreshIds.append_pieces {ids : List Nat} (h : FreshIds ids nextId) (found : LockEntry Owner)
    (ranges : List LockParam) :
    FreshIds (ids ++ (found.pieces nextId ranges).map (·.sleId)) (nextId + ranges.length) := by
  induction ranges generalizing ids nextId with
  | nil => simpa using h
  | cons range ranges ih =>
    have hrest := ih h.append_next
    rw [pieces_cons, map_cons, length_cons]
    simpa [LockEntry.dup, Nat.add_assoc, Nat.add_comm 1] using hrest

theorem LockInv.nextId_succ (hs : LockInv s) : LockInv { s with nextId := s.nextId + 1 } :=
  ⟨hs.admitted, fun e he => Nat.lt_succ_of_lt (hs.fresh e he), hs.nodup, hs.excludes⟩

theorem LockInv.appendBlocked (hs : LockInv s) (env : LockEnv) (hadm : req.lock.Admitted)
    (found : Option (LockEntry Owner)) (hblocking : req.blocking = .nlmBlocking) :
    LockInv { s with
      nextId := s.nextId + 1
      lockList := s.lockList ++ [blockedEntry env req found (newEntry s req)] } := by
  refine hs.nextId_succ.append hadm (Nat.lt_succ_self _) ?_ fun e _ => ?_
  · intro e he
    exact Nat.ne_of_lt (hs.fresh e (by simp [he]))
  · apply Excludes.of_not_active
    rintro (h | h) <;> rw [blockedEntry, hblocking] at h <;> cases h

variable [DecidableEq Owner]

theorem LockInv.grantAndMerge (hs : LockInv s) (env : LockEnv) (hadm : entry.sleLock.Admitted)
    (hid : entry.sleId < s.nextId) (hloc : Located (· = .granting) s entry) :
    LockInv (grantAndMerge env s entry) := by
  have hweaker : Weaker (s.update entry.sleId fun e => { e with sleBlocked := .nonBlocking }) s := by
    refine update_weaker (fun _ => rfl) (fun _ => rfl) fun e he heid => ⟨rfl, fun _ => ?_⟩
    rcases hloc with ⟨c, hc, hcid, -, -, hgranting⟩ | hnone
    · obtain rfl := hs.eq_of_id he hc (heid.trans hcid.symm)
      exact .inr hgranting
    · exact absurd heid (hnone e he)
  unfold Sal.grantAndMerge
  apply LockInv.grantBlockedLocks
  refine (hs.weaker hweaker).merge hadm hid ?_
  rcases hloc with ⟨c, hc, hcid, howner, hlock, -⟩ | hnone
  · refine .inl ⟨{ c with sleBlocked := .nonBlocking }, ?_, hcid, howner, hlock, rfl⟩
    exact mem_map.2 ⟨c, hc, if_pos hcid⟩
  · refine .inr fun e he => ?_
    obtain ⟨c, hc, heid, -⟩ := hweaker.list e he
    rw [heid]
    exact hnone c hc

theorem LockInv.grantBlockedLockImmediate (hs : LockInv s) (env : LockEnv)
    (hmem : entry ∈ s.lockList) (hgranting : entry.sleBlocked = .granting) :
    LockInv (grantBlockedLockImmediate env s entry) := by
  have hadm := hs.admitted entry (by simp [hmem])
  have hid := hs.fresh entry (by simp [hmem])
  have hloc : Located (· = .granting) s entry := .inl ⟨entry, hmem, rfl, rfl, rfl, hgranting⟩
  unfold Sal.grantBlockedLockImmediate
  cases entry.sleBlockData with
  | none => exact hs.grantAndMerge env hadm hid hloc
  | some blockData =>
    dsimp only
    cases blockData.sbdBlockedCookie with
    | none =>
      have hweaker : Weaker (s.update entry.sleId fun e => { e with sleBlockData := none }) s :=
        update_weaker (fun _ => rfl) (fun _ => rfl) fun _ _ _ => ⟨rfl, fun h => h⟩
      have hloc' : Located (· = .granting) s { entry with sleBlockData := none } := hloc
      exact (hs.weaker hweaker).grantAndMerge env hadm hid
        (hloc'.update fun e => ⟨rfl, rfl, rfl, rfl⟩)
    | some key =>
      dsimp only
      cases hfind : s.stateFindGrant key with
      | none => exact hs
      | some found =>
        obtain ⟨cookie, s'⟩ := found
        have hweaker := (freeCookie_weaker s' cookie).trans (stateFindGrant_weaker hfind)
        refine (hs.weaker hweaker).grantAndMerge env hadm ?_ ?_
        · rw [hweaker.nextId]
          exact hid
        · unfold stateFindGrant at hfind
          obtain ⟨c, -, heq⟩ := map_eq_some_iff.1 hfind
          cases heq
          have hloc' : Located (· = .granting)
              { s with cookies := s.cookies.filter (·.key ≠ key), taken := cookie :: s.taken }
              entry := hloc
          exact hloc'.freeCookie cookie

theorem LockInv.stateCompleteGrant (hs : LockInv s) (env : LockEnv) (cookie : Cookie) :
    LockInv (stateCompleteGrant env s cookie) := by
  unfold Sal.stateCompleteGrant
  cases hfind : (s.lockList ++ s.unlinked).find? (·.sleId = cookie.lockEntry) with
  | none => exact hs.weaker (freeCookie_weaker s cookie)
  | some entry =>
    dsimp only
    obtain ⟨hmem, -, hloc⟩ := located_of_find hfind
    split_ifs with hgranting
    · rw [hgranting] at hloc
      have hmerged := hs.grantAndMerge env (hs.admitted entry hmem) (hs.fresh entry hmem) hloc
      exact hmerged.weaker (freeCookie_weaker _ cookie)
    · exact hs.weaker (freeCookie_weaker s cookie)

theorem LockInv.stateReleaseGrant (hs : LockInv s) (env : LockEnv) (cookie : Cookie) :
    LockInv (stateReleaseGrant env s cookie).2 := by
  unfold Sal.stateReleaseGrant
  have hfree := (hs.weaker (freeCookie_weaker s cookie)).grantBlockedLocks env
  cases (s.lockList ++ s.unlinked).find? (·.sleId = cookie.lockEntry) with
  | none => exact hfree
  | some entry =>
    dsimp only
    have hcancel : Weaker (s.setBlocked entry.sleId .canceled) s :=
      setBlocked_weaker s entry.sleId (by simp)
    split_ifs
    · refine (hs.weaker ((freeCookie_weaker _ cookie).trans ?_)).grantBlockedLocks env
      exact (removeFromLocklist_weaker _ _).trans hcancel
    · exact (hs.weaker ((freeCookie_weaker _ cookie).trans hcancel)).grantBlockedLocks env
    · exact hfree

theorem cancelBlockedLocksRange_weaker (env : LockEnv) (owner : Option Owner) (applies : Bool)
    (state : Int) (lock : LockParam) (s : LockState Owner) :
    Weaker (cancelBlockedLocksRange env owner applies state lock s) s := by
  unfold cancelBlockedLocksRange
  generalize s.lockList.map (·.sleId) = ids
  induction ids generalizing s with
  | nil => exact Weaker.refl s
  | cons id ids ih =>
    rw [foldl_cons]
    refine (ih _).trans ?_
    cases s.find id with
    | none => exact Weaker.refl s
    | some found =>
      dsimp only
      split_ifs
      · exact cancelBlockedLock_weaker env s found
      · exact Weaker.refl s

theorem LockInv.stateCancel (hs : LockInv s) (env : LockEnv) (owner : Owner) (lock : LockParam) :
    LockInv (stateCancel env owner lock s) := by
  unfold Sal.stateCancel
  split
  · exact hs
  · exact (hs.weaker (cancelBlockedLock_weaker env s _)).grantBlockedLocks env

theorem FreshIds.perm {ids ids' : List Nat} (h : FreshIds ids nextId) (hperm : ids.Perm ids') :
    FreshIds ids' nextId :=
  ⟨hperm.nodup h.1, fun i hi => h.2 i (hperm.mem_iff.2 hi)⟩

theorem subtractLoop_freshIds (owner : Option Owner) (applies : Bool) (state : Int)
    (lock : LockParam) (todo : List (LockEntry Owner)) (acc : Subtract Owner)
    (h : FreshIds ((acc.kept ++ acc.split ++ todo).map (·.sleId)) acc.nextId) :
    let r := subtractLoop owner applies state lock acc todo
    FreshIds ((r.kept ++ r.split).map (·.sleId)) r.nextId ∧ acc.nextId ≤ r.nextId := by
  induction todo generalizing acc with
  | nil => exact ⟨by simpa [subtractLoop] using h, Nat.le_refl _⟩
  | cons found rest ih =>
    simp only [subtractLoop]
    split
    · refine ih _ (h.perm ?_)
      refine List.Perm.map _ (perm_iff_count.2 fun e => ?_)
      simp only [count_append, count_cons, count_nil]
      omega
    · rename_i ranges _
      have hless : FreshIds ((acc.kept ++ acc.split ++ rest).map (·.sleId)) acc.nextId :=
        h.sublist (List.Sublist.map _
          ((List.Sublist.refl _).append (sublist_cons_self _ _)))
      have hpieces := hless.append_pieces found ranges
      obtain ⟨hfresh, hle⟩ := ih ⟨acc.kept, acc.split ++ found.pieces acc.nextId ranges,
        acc.nextId + ranges.length, true⟩ (hpieces.perm (by
          rw [← map_append]
          refine List.Perm.map _ (perm_iff_count.2 fun e => ?_)
          simp only [count_append]
          omega))
      exact ⟨hfresh, Nat.le_trans (Nat.le_add_right _ _) hle⟩

theorem LockInv.subtract (hs : LockInv s) {owner : Option Owner} {applies : Bool} {state : Int}
    (hlock : lock.Admitted) :
    LockInv { s with
      lockList := (subtractLockFromList owner applies state lock s.nextId s.lockList).kept
      nextId := (subtractLockFromList owner applies state lock s.nextId s.lockList).nextId } := by
  obtain ⟨hids, hle⟩ := subtractLoop_freshIds owner applies state lock s.lockList
    ⟨[], [], s.nextId, false⟩ hs.freshIds
  have hlistFresh : ∀ e ∈ s.lockList, e.sleId < s.nextId :=
    fun e he => hs.fresh e (by simp [he])
  obtain ⟨hfresh, hpart, -⟩ := subtractLockFromList_spec owner applies state hlock hlistFresh
  constructor
  · intro e he
    rcases mem_append.1 he with he | he
    · obtain ⟨c, hc, hec⟩ := hpart e he
      exact hec.admitted (hs.admitted c (by simp [hc]))
    · exact hs.admitted e (by simp [he])
  · intro e he
    rcases mem_append.1 he with he | he
    · exact hfresh e he
    · exact Nat.lt_of_lt_of_le (hs.fresh e (by simp [he])) hle
  · exact hids.1
  · intro e he f hf
    obtain ⟨c, hc, hec⟩ := hpart e he
    obtain ⟨d, hd, hfd⟩ := hpart f hf
    exact (hs.excludes c hc d hd).partOf hec hfd

theorem LockInv.stateUnlock (hs : LockInv s) (env : LockEnv) (owner : Option Owner) (applies : Bool)
    (state : Int) (hlock : lock.Admitted) :
    LockInv (stateUnlock env owner applies state lock s).2 := by
  unfold Sal.stateUnlock
  split_ifs
  · exact hs
  · have hcancel := hs.weaker (cancelBlockedLocksRange_weaker env owner applies state lock s)
    exact (hcancel.subtract hlock).grantBlockedLocks env

theorem newEntry_excludes (hs : LockInv s) (hadm : req.lock.Admitted)
    (hreclaim : req.lock.lockReclaim = false)
    (hclear : ∀ e ∈ s.lockList, conflictsWith req e = false) :
    ∀ e ∈ s.lockList, Excludes (newEntry s req) e := by
  intro e he hne _ _ htype b hnb heb
  have hnone := hclear e he
  have hoverlaps := (LockParam.overlaps_iff (hs.admitted e (by simp [he])) hadm).2 ⟨b, heb, hnb⟩
  have hne : e.sleOwner ≠ req.owner := fun h => hne h.symm
  have htype : e.sleLock.lockType = .lockW ∨ req.lock.lockType = .lockW := htype.symm
  have hconflict : conflictsWith req e = true := by
    rcases htype with htype | htype <;> simp [conflictsWith, hreclaim, hoverlaps, hne, htype]
  rw [hconflict] at hnone
  cases hnone

theorem LockInv.insertGranted (hs : LockInv s) (env : LockEnv) (hadm : req.lock.Admitted)
    (hexcl : ∀ e ∈ s.lockList, Excludes (newEntry s req) e) :
    LockInv (insertGranted env { s with nextId := s.nextId + 1 } (newEntry s req)) := by
  have hnew : ∀ e ∈ s.lockList, e.sleId ≠ (newEntry s req).sleId := fun e he =>
    Nat.ne_of_lt (hs.fresh e (by simp [he]))
  have hid : (newEntry s req).sleId < s.nextId + 1 := Nat.lt_succ_self _
  have hmerged := hs.nextId_succ.merge hadm hid (.inr hnew)
  obtain ⟨hlock, hle, hlist⟩ := hs.nextId_succ.merge_new rfl hadm hid hnew hexcl
  unfold Sal.insertGranted
  apply LockInv.grantBlockedLocks
  exact hmerged.append hlock (Nat.lt_of_lt_of_le hid hle) (fun e he => (hlist e he).1)
    fun e he => (hlist e he).2

theorem LockInv.stateLock (hs : LockInv s) (hasync : env.fsalAsyncBlock = false)
    (hadm : req.lock.Admitted) (hreclaim : req.lock.lockReclaim = false) :
    LockInv (stateLock env req s).2 := by
  unfold Sal.stateLock
  generalize (if req.blocking = .nonBlocking then none
    else findBlockedRequest req s.lockList) = blocked
  cases blocked with
  | some status => exact hs
  | none =>
    dsimp only
    cases hscan : lockScan req s.lockList with
    | exportConflict => exact hs
    | existing found =>
      dsimp only
      split_ifs with hgranting
      · exact hs.grantBlockedLockImmediate env (lockScan_existing_mem hscan).1 hgranting
      · exact hs
    | conflict found =>
      simp only [placeLock, isSome_some, true_and]
      split_ifs with hblocking
      · exact hs
      · have hstatus : acquireStatus env req (some found) s.nextId = .lockBlocked := by
          simp [acquireStatus, hasync]
        rw [hstatus]
        exact hs.appendBlocked env hadm (some found) (not_not.1 hblocking)
    | clear =>
      have hexcl := newEntry_excludes hs hadm hreclaim (lockScan_clear hscan)
      simp only [placeLock, isSome_none, Bool.false_eq_true, false_and, if_false]
      cases hstatus : acquireStatus env req none s.nextId with
      | success => exact hs.insertGranted env hadm hexcl
      | lockBlocked =>
        refine hs.appendBlocked env hadm none ?_
        by_contra hne
        simp only [acquireStatus, isNone_none, Bool.true_or, if_true, hne, if_false, doLockOp]
          at hstatus
        split_ifs at hstatus <;> simp_all
      | _ => exact hs.nextId_succ

inductive LockAction (Owner : Type*) where
  | lock (env : LockEnv) (req : LockRequest Owner)
  | unlock (env : LockEnv) (owner : Option Owner) (stateApplies : Bool) (nsmState : Int)
      (lock : LockParam)
  | cancel (env : LockEnv) (owner : Owner) (lock : LockParam)
  | grantBlocked (env : LockEnv)
  | findGrant (key : Nat)
  | completeGrant (env : LockEnv) (cookie : Cookie)
  | releaseGrant (env : LockEnv) (cookie : Cookie)

/-- The lock operations on one file of a file system without asynchronous blocking
locks. Lock requests are no reclaims, and ranges are those the protocol layers
admit; a grant is completed or released by a thread that holds its cookie. -/
def lockActions : Machine (LockState Owner) (LockAction Owner) where
  init s := s = empty
  step s
    | .lock env req =>
      if env.fsalAsyncBlock = false ∧ req.lock.Admitted ∧ req.lock.lockReclaim = false then
        some (stateLock env req s).2
      else none
    | .unlock env owner stateApplies nsmState lock =>
      if env.fsalAsyncBlock = false ∧ lock.Admitted then
        some (stateUnlock env owner stateApplies nsmState lock s).2
      else none
    | .cancel env owner lock =>
      if env.fsalAsyncBlock = false then some (stateCancel env owner lock s) else none
    | .grantBlocked env =>
      if env.fsalAsyncBlock = false then some (grantBlockedLocks env s) else none
    | .findGrant key => (s.stateFindGrant key).map (·.2)
    | .completeGrant env cookie =>
      if env.fsalAsyncBlock = false ∧ cookie ∈ s.taken then
        some (stateCompleteGrant env s cookie)
      else none
    | .releaseGrant env cookie =>
      if env.fsalAsyncBlock = false ∧ cookie ∈ s.taken then
        some (stateReleaseGrant env s cookie).2
      else none

theorem lockActions_step {t : LockState Owner} {a : LockAction Owner} (hs : LockInv s)
    (h : lockActions.step s a = some t) : LockInv t := by
  cases a with
  | lock env req =>
    simp only [lockActions, ite_none_right_eq_some, some.injEq] at h
    obtain ⟨⟨hasync, hadm, hreclaim⟩, rfl⟩ := h
    exact hs.stateLock hasync hadm hreclaim
  | unlock env owner applies state lock =>
    simp only [lockActions, ite_none_right_eq_some, some.injEq] at h
    obtain ⟨⟨-, hadm⟩, rfl⟩ := h
    exact hs.stateUnlock env owner applies state hadm
  | cancel env owner lock =>
    simp only [lockActions, ite_none_right_eq_some, some.injEq] at h
    obtain ⟨-, rfl⟩ := h
    exact hs.stateCancel env owner lock
  | grantBlocked env =>
    simp only [lockActions, ite_none_right_eq_some, some.injEq] at h
    obtain ⟨-, rfl⟩ := h
    exact hs.grantBlockedLocks env
  | findGrant key =>
    obtain ⟨⟨cookie, s'⟩, hfind, rfl⟩ := map_eq_some_iff.1 h
    exact hs.weaker (stateFindGrant_weaker hfind)
  | completeGrant env cookie =>
    simp only [lockActions, ite_none_right_eq_some, some.injEq] at h
    obtain ⟨-, rfl⟩ := h
    exact hs.stateCompleteGrant env cookie
  | releaseGrant env cookie =>
    simp only [lockActions, ite_none_right_eq_some, some.injEq] at h
    obtain ⟨-, rfl⟩ := h
    exact hs.stateReleaseGrant env cookie

end EdgeComputing.Sal
