import EdgeComputing.Sal.WaiterPass
import Mathlib.Data.Fintype.Defs

/-!
Waiters that nothing stands in the way of any more. Every step that takes a lock off the list ends
with a pass over the waiters, but an upcall that fails just removes its entry, and a request may
start to wait behind a canceled entry only.
-/

namespace EdgeComputing.Sal

open List Option Library LockState LockState

variable {Owner : Type*}

variable {lockList : List (LockEntry Owner)} {w : LockEntry Owner}

theorem NoStrandedWaiter.map (h : NoStrandedWaiter lockList) {f : LockEntry Owner → LockEntry Owner}
    (hlock : ∀ e ∈ lockList, (f e).sleLock = e.sleLock ∧ (f e).sleOwner = e.sleOwner)
    (hwaiter : ∀ e ∈ lockList, (f e).InternalWaiter → e.InternalWaiter)
    (hlive : ∀ e ∈ lockList, e.Live → (f e).Live) : NoStrandedWaiter (lockList.map f) := by
  intro w' hw' hw'waiter
  obtain ⟨w, hw, rfl⟩ := mem_map.1 hw'
  obtain ⟨x, hx, hxlive, hobstructs⟩ := h w hw (hwaiter w hw hw'waiter)
  refine ⟨f x, mem_map_of_mem hx, hlive x hx hxlive, ?_⟩
  simp only [LockEntry.Obstructs, hlock w hw, hlock x hx]
  exact hobstructs

structure Calm (s : LockState Owner) : Prop where
  inv : WaitInv s
  obstructed : NoStrandedWaiter s.lockList

theorem Calm.cookiesOnly {s t : LockState Owner} (hs : Calm s) (h : CookiesOnly t s) : Calm t :=
  ⟨hs.inv.cookiesOnly h, h.noStrandedWaiter_iff.2 hs.obstructed⟩

theorem noStrandedWaiter_append (h : NoStrandedWaiter lockList)
    (hw : w.InternalWaiter → ∃ x ∈ lockList, x.Live ∧ x.Obstructs w) :
    NoStrandedWaiter (lockList ++ [w]) := by
  intro c hc hwaiter
  have hold : ∃ x ∈ lockList, x.Live ∧ x.Obstructs c := by
    rcases mem_append.1 hc with hc | hc
    · exact h c hc hwaiter
    · rw [mem_singleton.1 hc] at hwaiter ⊢
      exact hw hwaiter
  obtain ⟨x, hx, hrest⟩ := hold
  exact ⟨x, mem_append_left _ hx, hrest⟩

theorem noStrandedWaiter_append_iff (h : NoStrandedWaiter lockList) (hw : w.InternalWaiter) :
    NoStrandedWaiter (lockList ++ [w]) ↔ ∃ x ∈ lockList, x.Live ∧ x.Obstructs w := by
  refine ⟨fun happend => ?_, fun hold => noStrandedWaiter_append h fun _ => hold⟩
  obtain ⟨x, hx, hlive, hobstructs⟩ := happend w (by simp) hw
  rcases mem_append.1 hx with hx | hx
  · exact ⟨x, hx, hlive, hobstructs⟩
  · rw [mem_singleton.1 hx] at hobstructs
    exact absurd rfl hobstructs.2.2

variable [DecidableEq Owner]

section Operations

variable {s : LockState Owner} {env : LockEnv}

theorem WaitInv.grantBlockedLocks (hs : WaitInv s) (hasync : env.fsalAsyncBlock = false) :
    Calm (grantBlockedLocks env s) :=
  ⟨(grantBlockedLocks_settles hs hasync).1, (grantBlockedLocks_settles hs hasync).2⟩

theorem WaitInv.grantAndMerge (hs : WaitInv s) (hasync : env.fsalAsyncBlock = false)
    (entry : LockEntry Owner) : Calm (grantAndMerge env s entry) := by
  have hgranted : WaitInv (s.setBlocked entry.sleId .nonBlocking) :=
    hs.setBlocked entry.sleId (by simp)
  exact WaitInv.grantBlockedLocks
    (mergeLockEntry_sound hgranted { entry with sleBlocked := .nonBlocking }) hasync

section

variable (hs : Calm s) (hasync : env.fsalAsyncBlock = false)
include hs hasync

theorem Calm.grantBlockedLockImmediate (entry : LockEntry Owner) :
    Calm (grantBlockedLockImmediate env s entry) := by
  unfold Sal.grantBlockedLockImmediate
  cases entry.sleBlockData with
  | none => exact hs.inv.grantAndMerge hasync entry
  | some blockData =>
    dsimp only
    cases blockData.sbdBlockedCookie with
    | none =>
      refine WaitInv.grantAndMerge (hs.inv.update entry.sleId ?_ ?_) hasync _
      · exact fun _ hid => hid
      · exact fun _ _ _ => unmarked_of_no_data rfl
    | some key =>
      dsimp only
      cases hfind : s.stateFindGrant key with
      | none => exact hs
      | some found =>
        obtain ⟨cookie, s'⟩ := found
        exact ((hs.inv.cookiesOnly (stateFindGrant_cookiesOnly hfind)).cookiesOnly
          (freeCookie_cookiesOnly s' cookie)).grantAndMerge hasync entry

theorem Calm.stateCompleteGrant (cookie : Cookie) : Calm (stateCompleteGrant env s cookie) := by
  unfold Sal.stateCompleteGrant
  split
  · exact hs.cookiesOnly (freeCookie_cookiesOnly s cookie)
  · split_ifs
    · exact (hs.inv.grantAndMerge hasync _).cookiesOnly (freeCookie_cookiesOnly _ cookie)
    · exact hs.cookiesOnly (freeCookie_cookiesOnly s cookie)

theorem Calm.stateReleaseGrant (cookie : Cookie) : Calm (stateReleaseGrant env s cookie).2 := by
  have hpass : ∀ t : LockState Owner, WaitInv t →
      Calm (Sal.grantBlockedLocks env (t.freeCookie cookie)) := fun t ht =>
    (ht.cookiesOnly (freeCookie_cookiesOnly t cookie)).grantBlockedLocks hasync
  unfold Sal.stateReleaseGrant
  split
  · exact hpass s hs.inv
  · rename_i entry _
    have hcancel : WaitInv (s.setBlocked entry.sleId .canceled) :=
      hs.inv.setBlocked entry.sleId (by simp)
    split_ifs
    · dsimp only
      split_ifs
      · exact hpass _ (hcancel.removeFromLocklist entry.sleId)
      · exact hpass _ hcancel
    · exact hpass s hs.inv

theorem Calm.stateCancel (owner : Owner) (lock : LockParam) :
    Calm (stateCancel env owner lock s) := by
  unfold Sal.stateCancel
  split
  · exact hs
  · exact (hs.inv.cancelBlockedLock env _).grantBlockedLocks hasync

end

theorem WaitInv.cancelBlockedLocksRange (hs : WaitInv s) (owner : Option Owner) (applies : Bool)
    (state : Int) (lock : LockParam) :
    WaitInv (cancelBlockedLocksRange env owner applies state lock s) := by
  unfold Sal.cancelBlockedLocksRange
  generalize s.lockList.map (·.sleId) = ids
  induction ids generalizing s with
  | nil => exact hs
  | cons id ids ih =>
    apply ih
    dsimp only
    cases s.find id with
    | none => exact hs
    | some found =>
      dsimp only
      split_ifs
      · exact hs.cancelBlockedLock env found
      · exact hs

theorem WaitInv.subtract (hs : WaitInv s) (owner : Option Owner) (applies : Bool) (state : Int)
    (lock : LockParam) :
    let sub := subtractLockFromList owner applies state lock s.nextId s.lockList
    WaitersSound [] sub.kept sub.nextId :=
  ⟨(subtractLoop_freshIds owner applies state lock s.lockList ⟨[], [], s.nextId, false⟩ hs.ids).1,
    subtractLoop_unmarked owner applies state lock s.lockList ⟨[], [], s.nextId, false⟩
      hs.unmarked⟩

theorem Calm.stateUnlock (hs : Calm s) (hasync : env.fsalAsyncBlock = false)
    (owner : Option Owner) (applies : Bool) (state : Int) (lock : LockParam) :
    Calm (stateUnlock env owner applies state lock s).2 := by
  unfold Sal.stateUnlock
  split_ifs
  · exact hs
  · have hcancel : WaitInv (cancelBlockedLocksRange env owner applies state lock s) :=
      hs.inv.cancelBlockedLocksRange owner applies state lock
    exact WaitInv.grantBlockedLocks (hcancel.subtract owner applies state lock) hasync

theorem WaitInv.insertGranted (hs : WaitInv s) (hasync : env.fsalAsyncBlock = false)
    {entry : LockEntry Owner} (hid : entry.sleId = s.nextId) (hentry : entry.Unmarked) :
    Calm (insertGranted env { s with nextId := s.nextId + 1 } entry) := by
  refine WaitInv.grantBlockedLocks ?_ hasync
  exact (mergeLockEntry_sound hs.reserve entry).unreserve hid hentry

end Operations

/-- The request is an NLM request that `state_lock` is about to queue: the same request does not
wait yet, and the scan of the list stops at a conflicting entry. -/
def queuesBehind (req : LockRequest Owner) (lockList : List (LockEntry Owner)) : Bool :=
  req.blocking = .nlmBlocking && (findBlockedRequest req lockList).isNone
    && match lockScan req lockList with
      | .conflict _ => true
      | _ => false

variable {req : LockRequest Owner} {σ τ : WaitState Owner}

theorem lockScan_conflict {found : LockEntry Owner} (h : lockScan req lockList = .conflict found) :
    conflictsWith req found = true := by
  induction lockList with
  | nil => cases h
  | cons e rest ih =>
    simp only [lockScan] at h
    split_ifs at h with hexport hconflict hanswers
    · cases h
      exact hconflict
    · exact ih h

theorem obstructs_blockedEntry_iff {env : LockEnv} {s : LockState Owner}
    (hreclaim : req.lock.lockReclaim = false) (found : Option (LockEntry Owner))
    (x : LockEntry Owner) :
    x.Obstructs (blockedEntry env req found (newEntry s req)) ↔ conflictsWith req x = true := by
  simp only [LockEntry.Obstructs, blockedEntry, newEntry, conflictsWith, hreclaim, Bool.not_false,
    Bool.true_and, Bool.and_eq_true, Bool.or_eq_true, decide_eq_true_eq, and_assoc]

section Requests

variable {s : LockState Owner} {env : LockEnv} {req : LockRequest Owner}

omit [DecidableEq Owner] in
theorem WaitInv.appendBlocked (hs : WaitInv s) (found : Option (LockEntry Owner)) :
    WaitInv { s with
      nextId := s.nextId + 1
      lockList := s.lockList ++ [blockedEntry env req found (newEntry s req)] } :=
  WaitersSound.append_next hs rfl fun _ => rfl

theorem Calm.placeLock_clear (hs : Calm s) (hasync : env.fsalAsyncBlock = false) :
    Calm (placeLock env s req none).2 := by
  have hnext : Calm { s with nextId := s.nextId + 1 } :=
    ⟨⟨⟨hs.inv.ids.1, fun i hi => Nat.lt_succ_of_lt (hs.inv.ids.2 i hi)⟩, hs.inv.unmarked⟩,
      hs.obstructed⟩
  simp only [placeLock, isSome_none, Bool.false_eq_true, false_and, if_false]
  unfold placeEntry
  split
  · exact hs.inv.insertGranted hasync rfl (unmarked_of_no_data rfl)
  · exact hnext
  · refine ⟨hs.inv.appendBlocked none, noStrandedWaiter_append hs.obstructed ?_⟩
    rintro ⟨-, htype⟩
    simp [blockedEntry, hasync] at htype
  · exact hnext

theorem placeLock_conflict_eq (hasync : env.fsalAsyncBlock = false) (found : LockEntry Owner) :
    (placeLock env s req (some found)).2 =
      if req.blocking = .nlmBlocking then
        { s with
          nextId := s.nextId + 1
          lockList := s.lockList ++ [blockedEntry env req (some found) (newEntry s req)] }
      else s := by
  by_cases hblocking : req.blocking = .nlmBlocking
  · simp [placeLock, hblocking, acquireStatus, hasync, placeEntry]
  · simp [placeLock, hblocking]

theorem Calm.stateLock (hs : Calm s) (hasync : env.fsalAsyncBlock = false) :
    WaitInv (stateLock env req s).2 ∧
      ((queuesBehind req s.lockList = true →
          ∃ x ∈ s.lockList, x.Live ∧ conflictsWith req x = true) ↔
        NoStrandedWaiter (stateLock env req s).2.lockList) := by
  -- A step that does not queue the request has only to leave the list calm.
  have hcalm : ∀ t : LockState Owner, Calm t → queuesBehind req s.lockList = false →
      WaitInv t ∧ ((queuesBehind req s.lockList = true →
          ∃ x ∈ s.lockList, x.Live ∧ conflictsWith req x = true) ↔
        NoStrandedWaiter t.lockList) := by
    intro t ht hqueue
    refine ⟨ht.inv, fun _ => ht.obstructed, fun _ h => ?_⟩
    rw [hqueue] at h
    cases h
  unfold Sal.stateLock
  dsimp only
  split
  · rename_i status hblocked
    refine hcalm s hs ?_
    split_ifs at hblocked
    simp [queuesBehind, hblocked]
  · rename_i hblocked
    cases hscan : lockScan req s.lockList with
    | exportConflict => exact hcalm s hs (by simp [queuesBehind, hscan])
    | existing found =>
      refine hcalm _ ?_ (by simp [queuesBehind, hscan])
      dsimp only
      split_ifs
      · exact hs.grantBlockedLockImmediate hasync found
      · exact hs
    | clear => exact hcalm _ (hs.placeLock_clear hasync) (by simp [queuesBehind, hscan])
    | conflict found =>
      dsimp only
      rw [placeLock_conflict_eq hasync]
      by_cases hblocking : req.blocking = .nlmBlocking
      · rw [if_pos hblocking]
        rw [if_neg (by simp [hblocking])] at hblocked
        have hreclaim : req.lock.lockReclaim = false := by
          have hconflict := lockScan_conflict hscan
          simp only [conflictsWith, Bool.and_eq_true, Bool.not_eq_true'] at hconflict
          exact hconflict.1.1.1
        have hwaiter : (blockedEntry env req (some found) (newEntry s req)).InternalWaiter :=
          ⟨.inl hblocking, by simp [blockedEntry, hasync]⟩
        refine ⟨hs.inv.appendBlocked (some found), ?_⟩
        rw [noStrandedWaiter_append_iff hs.obstructed hwaiter]
        simp only [obstructs_blockedEntry_iff hreclaim, queuesBehind, hblocking, hblocked, hscan,
          decide_true, isNone_none, Bool.and_self, forall_const]
      · rw [if_neg hblocking]
        exact hcalm s hs (by simp [queuesBehind, hblocking])

end Requests

section Upcalls

omit [DecidableEq Owner]

variable {s t : LockState Owner} {env : LockEnv} {entry : LockEntry Owner}

theorem Calm.blockedLockPolling (hs : Calm σ.locks) {id : Nat}
    (h : blockedLockPolling σ id = some τ) : Calm τ.locks := by
  unfold Sal.blockedLockPolling at h
  cases hfind : σ.locks.find id with
  | none =>
    rw [hfind] at h
    cases h
  | some entry =>
    obtain ⟨hmem, hid⟩ := mem_of_find hfind
    simp only [hfind, ite_none_right_eq_some, some.injEq] at h
    obtain ⟨⟨-, hpoll⟩, rfl⟩ := h
    refine ⟨hs.inv.update id (fun _ h => h) ?_, hs.obstructed.map ?_ ?_ ?_⟩
    · rintro e he heid ⟨-, htype⟩
      rw [hs.inv.eq_of_id he hmem (heid.trans hid.symm)] at htype
      simp only [Option.map_map] at htype
      have hboth := hpoll.symm.trans htype
      cases hboth
    · intro e _
      split_ifs <;> exact ⟨rfl, rfl⟩
    · intro e _
      split_ifs
      · rintro ⟨hwaits, htype⟩
        simp only [Option.map_map] at htype
        exact ⟨hwaits, htype⟩
      · exact fun hwaiter => hwaiter
    · intro e _
      split_ifs <;> exact fun hlive => hlive

theorem Calm.replace (hs : Calm s) (hentry : entry ∈ s.lockList) {new : LockEntry Owner}
    (hlock : new.sleLock = entry.sleLock ∧ new.sleOwner = entry.sleOwner)
    (hwaiter : new.InternalWaiter → entry.InternalWaiter) (hlive : entry.Live → new.Live) :
    NoStrandedWaiter (s.update entry.sleId fun _ => new).lockList := by
  have heq : ∀ e ∈ s.lockList, e.sleId = entry.sleId → e = entry :=
    fun e he hid => hs.inv.eq_of_id he hentry hid
  refine hs.obstructed.map ?_ ?_ ?_
  · intro e he
    split_ifs with hid
    · rw [heq e he hid]
      exact hlock
    · exact ⟨rfl, rfl⟩
  · intro e he
    split_ifs with hid
    · rw [heq e he hid]
      exact hwaiter
    · exact fun hw => hw
  · intro e he
    split_ifs with hid
    · rw [heq e he hid]
      exact hlive
    · exact fun hw => hw

theorem Calm.outcome (hs : Calm s) (hentry : entry ∈ s.lockList)
    (h : GrantOutcome env s entry t) :
    (GrantFails env entry → ∀ w ∈ s.lockList, w.sleId ≠ entry.sleId → w.InternalWaiter →
        ∃ x ∈ s.lockList, x.sleId ≠ entry.sleId ∧ x.Live ∧ x.Obstructs w) ↔
      NoStrandedWaiter t.lockList := by
  cases h with
  | removed hfails ht =>
    rw [ht.noStrandedWaiter_iff]
    simp only [hfails, forall_const, NoStrandedWaiter, removeFromLocklist,
      mem_filter, decide_eq_true_eq, and_imp, and_assoc]
  | granting blockData hdata hfails ht =>
    rw [ht.noStrandedWaiter_iff]
    refine ⟨fun _ => hs.replace hentry ⟨rfl, rfl⟩ ?_ ?_, fun _ h => absurd h hfails⟩
    · rintro ⟨hw | hw, -⟩ <;> cases hw
    · rintro - hcanceled
      cases hcanceled
  | blocked blockData hdata hfails hstatus ht =>
    rw [ht.noStrandedWaiter_iff]
    refine ⟨fun _ => hs.replace hentry ⟨rfl, rfl⟩ ?_ fun hlive => hlive, fun _ h => absurd h hfails⟩
    rintro ⟨hwaits, htype⟩
    exact ⟨hwaits, by rw [hdata]; exact htype⟩

end Upcalls

/-- The step leaves every waiter of Ganesha's with something in its way: a queued request conflicts
with an entry that is not canceled, and the entry of a failing upcall is not the only obstacle of a
waiter. -/
def StillObstructed (σ : WaitState Owner) : WaitAction Owner → Prop
  | .lock _ req =>
    queuesBehind req σ.locks.lockList = true →
      ∃ x ∈ σ.locks.lockList, x.Live ∧ conflictsWith req x = true
  | .upcall env id =>
    ∀ entry ∈ σ.locks.lockList, entry.sleId = id → GrantFails env entry →
      ∀ w ∈ σ.locks.lockList, w.sleId ≠ entry.sleId → w.InternalWaiter →
        ∃ x ∈ σ.locks.lockList, x.sleId ≠ entry.sleId ∧ x.Live ∧ x.Obstructs w
  | _ => True

instance (σ : WaitState Owner) (a : WaitAction Owner) : Decidable (StillObstructed σ a) := by
  unfold StillObstructed
  split <;> infer_instance

theorem waitMachine_step {a : WaitAction Owner} (hs : Calm σ.locks)
    (h : waitMachine.step σ a = some τ) :
    WaitInv τ.locks ∧ (StillObstructed σ a ↔ NoStrandedWaiter τ.locks.lockList) := by
  have hcalm : Calm τ.locks →
      WaitInv τ.locks ∧ (True ↔ NoStrandedWaiter τ.locks.lockList) :=
    fun hτ => ⟨hτ.inv, fun _ => hτ.obstructed, fun _ => trivial⟩
  cases a with
  | lock env req =>
    simp only [waitMachine, ite_none_right_eq_some, some.injEq] at h
    obtain ⟨hasync, rfl⟩ := h
    exact hs.stateLock hasync
  | unlock env owner applies state lock =>
    simp only [waitMachine, ite_none_right_eq_some, some.injEq] at h
    obtain ⟨hasync, rfl⟩ := h
    exact hcalm (hs.stateUnlock hasync owner applies state lock)
  | cancel env owner lock =>
    simp only [waitMachine, ite_none_right_eq_some, some.injEq] at h
    obtain ⟨hasync, rfl⟩ := h
    exact hcalm (hs.stateCancel hasync owner lock)
  | findGrant key =>
    simp only [waitMachine, map_eq_some_iff] at h
    obtain ⟨⟨cookie, t⟩, hfind, rfl⟩ := h
    exact hcalm (hs.cookiesOnly (stateFindGrant_cookiesOnly hfind))
  | completeGrant env cookie =>
    simp only [waitMachine, ite_none_right_eq_some, some.injEq] at h
    obtain ⟨⟨hasync, -⟩, rfl⟩ := h
    exact hcalm (hs.stateCompleteGrant hasync cookie)
  | releaseGrant env cookie =>
    simp only [waitMachine, ite_none_right_eq_some, some.injEq] at h
    obtain ⟨⟨hasync, -⟩, rfl⟩ := h
    exact hcalm (hs.stateReleaseGrant hasync cookie)
  | poll id => exact hcalm (hs.blockedLockPolling h)
  | upcall env id =>
    simp only [waitMachine, ite_none_right_eq_some] at h
    obtain ⟨-, h⟩ := h
    unfold processBlockedLockUpcall at h
    cases hfind : σ.locks.find id with
    | none =>
      rw [hfind] at h
      cases h
    | some entry =>
      obtain ⟨hmem, hid⟩ := mem_of_find hfind
      simp only [hfind, some.injEq] at h
      subst h
      have hout := tryToGrantLock_outcome env σ.locks entry
      refine ⟨hs.inv.outcome hout, Iff.trans ?_ (hs.outcome hmem hout)⟩
      constructor
      · exact fun hguard => hguard entry hmem hid
      · intro hguard e he heid
        rw [hs.inv.eq_of_id he hmem (heid.trans hid.symm)]
        exact hguard

/-- No waiter of Ganesha's is stranded in a run whose steps leave something in the way of each, and
a step that does not strands one. -/
theorem no_stranded_waiter_iff {σ : WaitState Owner}
    (hσ : waitMachine.ReachableBy StillObstructed σ) :
    NoStrandedWaiter σ.locks.lockList ∧
      ∀ a τ, waitMachine.step σ a = some τ →
        (StillObstructed σ a ↔ NoStrandedWaiter τ.locks.lockList) := by
  have hcalm : Calm σ.locks := by
    refine Machine.ReachableBy.invariant (P := fun σ => Calm σ.locks) ?_ ?_ hσ
    · rintro s rfl
      exact ⟨⟨⟨nodup_nil, by simp [empty]⟩, by simp [empty]⟩,
        fun w hw => by cases hw⟩
    · intro s a t hs hguard hstep
      obtain ⟨hinv, hiff⟩ := waitMachine_step hs hstep
      exact ⟨hinv, hiff.1 hguard⟩
  exact ⟨hcalm.obstructed, fun a τ hstep => (waitMachine_step hcalm hstep).2⟩

def waitingRun : List (WaitAction Nat) :=
  [.lock grantingEnv (lockRequest 1 .nonBlocking .lockW 0 10),
    .lock grantingEnv (lockRequest 2 .nlmBlocking .lockW 5 10)]

theorem no_stranded_waiter_second_owner :
    ∃ σ : WaitState Nat, waitMachine.ReachableBy StillObstructed σ ∧
      (∃ w ∈ σ.locks.lockList, w.InternalWaiter) ∧ NoStrandedWaiter σ.locks.lockList := by
  have hrun : (waitMachine.runFromBy StillObstructed ⟨empty, []⟩ waitingRun).map
      (fun σ => decide (∃ w ∈ σ.locks.lockList, w.InternalWaiter)) = some true := by
    decide +kernel
  obtain ⟨σ, hreach, hwaiter⟩ := Machine.exists_reachableBy hrun (.init rfl)
  exact ⟨σ, hreach, of_decide_eq_true hwaiter, (no_stranded_waiter_iff hreach).1⟩

def conflictingEnv : LockEnv := { grantingEnv with lockOp2 := fun _ _ => .lockConflict }

def failingEnv : LockEnv := { grantingEnv with lockOp2 := fun _ _ => .ioError }

/-- Owner 1 waits for the file system and owner 2 waits behind owner 1; the upcall for owner 1 finds
the file system failing. -/
def failedPollRun : List (WaitAction Nat) :=
  [.lock conflictingEnv (lockRequest 1 .nlmBlocking .lockW 0 10),
    .lock conflictingEnv (lockRequest 2 .nlmBlocking .lockW 0 10),
    .poll 0, .upcall failingEnv 0]

/-- The upcall takes the entry of owner 1 off the list without a pass, and owner 2 waits for
nothing. -/
theorem failed_poll_strands_waiter :
    ∃ σ : WaitState Nat, waitMachine.Reachable σ ∧ ¬ NoStrandedWaiter σ.locks.lockList := by
  have hrun : (waitMachine.runFrom ⟨empty, []⟩ failedPollRun).map
      (fun σ => decide (NoStrandedWaiter σ.locks.lockList)) = some false := by
    decide +kernel
  obtain ⟨σ, hreach, hstranded⟩ := Machine.exists_reachable hrun (.init rfl)
  exact ⟨σ, hreach, of_decide_eq_false hstranded⟩

end EdgeComputing.Sal
