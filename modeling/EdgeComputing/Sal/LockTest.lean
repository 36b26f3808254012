import EdgeComputing.Sal.GrantedLocks
import EdgeComputing.Sal.WaiterPass

/-!
The test for a lock, and that it does not contradict the request for the lock. Only one direction
holds: a request also waits behind blocked entries, which a test passes over.
-/

namespace EdgeComputing.Sal

open List Option Library LockState LockState

variable {Owner : Type*} [DecidableEq Owner] {s : LockState Owner} {e found : LockEntry Owner}
  {env : LockEnv} {req : LockRequest Owner}

/-- `state_test`. The holder of a conflict that the file system reports is not known. -/
def stateTest (env : LockEnv) (owner : Owner) (lock : LockParam) (s : LockState Owner) :
    LockReply Owner :=
  match getOverlappingEntry s.lockList owner lock with
  | some found => ⟨.lockConflict, some (some found.sleOwner, found.sleLock)⟩
  | none =>
    let status := doLockOp env .lockt s.nextId
    ⟨status, if status = .lockConflict then some (none, env.conflictingLock) else none⟩

theorem not_existing_of_conflict (hs : LockInv s) (hadm : req.lock.Admitted) (he : e ∈ s.lockList)
    (hactive : e.Active) (hconflict : conflictsWith req e = true) :
    lockScan req s.lockList ≠ .existing found := by
  intro hscan
  obtain ⟨hmem, hanswers⟩ := lockScan_existing_mem hscan
  simp only [conflictsWith, answersRequest, Bool.and_eq_true, Bool.or_eq_true, decide_eq_true_eq,
    ge_iff_le] at hconflict hanswers
  obtain ⟨⟨⟨-, hoverlaps⟩, hwrite⟩, howner⟩ := hconflict
  obtain ⟨⟨⟨⟨hend, hstart⟩, htype⟩, hactive'⟩, howner'⟩ := hanswers
  obtain ⟨b, heb, hb⟩ := (LockParam.overlaps_iff (hs.admitted e (by simp [he])) hadm).1 hoverlaps
  -- the entry that answers the request covers the byte, and is a lock of the same type
  apply hs.excludes e he found hmem (howner' ▸ howner) hactive hactive' (htype ▸ hwrite) b heb
  exact ⟨hstart.trans hb.1, hb.2.trans hend⟩

theorem stateLock_refuses (hs : LockInv s) (hadm : req.lock.Admitted) (he : e ∈ s.lockList)
    (hactive : e.Active) (hconflict : conflictsWith req e = true)
    (hasync : env.fsalAsyncBlock = false) : (stateLock env req s).1.status ≠ .success := by
  unfold stateLock
  generalize hblocked : (if req.blocking = .nonBlocking then none
    else findBlockedRequest req s.lockList) = blocked
  cases blocked with
  | some status =>
    split_ifs at hblocked
    rintro rfl
    exact findBlockedRequest_ne_success req s.lockList hblocked
  | none =>
    cases hscan : lockScan req s.lockList with
    | exportConflict => simp
    | existing found => exact absurd hscan (not_existing_of_conflict hs hadm he hactive hconflict)
    | conflict found =>
      simp only [placeLock]
      split_ifs
      · simp
      · simp [acquireStatus, hasync, placeEntry]
    | clear => simp [lockScan_clear hscan e he] at hconflict

/-- In every interleaving, a holder that `state_test` finds in the list is another owner with an
active lock of the range it reports, and `state_lock` does not give the lock. -/
theorem state_test_agrees_with_state_lock (s : LockState Owner) (hs : lockActions.Reachable s)
    (env : LockEnv) (req : LockRequest Owner) (hadm : req.lock.Admitted)
    (hreclaim : req.lock.lockReclaim = false) (holder : Owner) (held : LockParam)
    (htest : (stateTest env req.owner req.lock s).conflict = some (some holder, held)) :
    holder ≠ req.owner ∧
      (∃ e ∈ s.lockList, e.Active ∧ e.sleOwner = holder ∧ e.sleLock = held) ∧
      ∀ env', env'.fsalAsyncBlock = false → (stateLock env' req s).1.status ≠ .success := by
  have hinv : LockInv s := by
    apply hs.invariant
    · rintro s rfl
      constructor <;> simp [empty]
    · intro s a t hs hstep
      exact lockActions_step hs hstep
  unfold stateTest at htest
  cases hfound : getOverlappingEntry s.lockList req.owner req.lock with
  | none =>
    rw [hfound] at htest
    dsimp only at htest
    split_ifs at htest
    cases htest
  | some e =>
    rw [hfound] at htest
    cases htest
    obtain ⟨he, hactive, hoverlaps, hwrite, howner⟩ :=
      getOverlappingEntry_some (w := newEntry s req) hfound
    have hconflict : conflictsWith req e = true := by
      simp_all [conflictsWith, newEntry]
    refine ⟨howner, ⟨e, he, hactive, rfl, rfl⟩, ?_⟩
    intro env' hasync
    exact stateLock_refuses hinv hadm he hactive hconflict hasync

/-- Owner 1 has locked a part of the range that owner 2 asks for. -/
theorem state_test_agrees_for_second_owner :
    (stateLock grantingEnv (lockRequest 2 .nonBlocking .lockR 5 10)
      (stateLock grantingEnv (lockRequest 1 .nonBlocking .lockW 0 10) empty).2).1.status ≠ .success :=
  (state_test_agrees_with_state_lock _
    (.step (a := .lock grantingEnv (lockRequest 1 .nonBlocking .lockW 0 10)) (.init rfl) trivial rfl)
    grantingEnv (lockRequest 2 .nonBlocking .lockR 5 10) (by decide) rfl 1 ⟨.lockW, 0, 10, false⟩
    (by decide +kernel)).2.2 grantingEnv rfl

end EdgeComputing.Sal
