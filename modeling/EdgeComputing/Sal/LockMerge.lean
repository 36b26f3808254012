import EdgeComputing.Sal.LockList

/-!
What one visit of the merge loop does to the bytes the ranges cover. The source adds one to a 64-bit
end before it compares; `Meets` states the two comparisons over unbounded numbers.
-/

namespace EdgeComputing.Sal

structure ByteRange where
  first : Nat
  last : Nat
  deriving DecidableEq

namespace ByteRange

def hull (r c : ByteRange) : ByteRange :=
  ⟨min r.first c.first, max r.last c.last⟩

def Touches (r c : ByteRange) : Prop :=
  r.first ≤ c.last + 1 ∧ c.first ≤ r.last + 1

/-- Neither of the two sums of an end and one wraps to zero in a comparison with a
start that is not zero. -/
def Reaches (r c : ByteRange) : Prop :=
  (c.last = uint64Max → r.first = 0) ∧ (r.last = uint64Max → c.first = 0)

instance (r c : ByteRange) : Decidable (r.Touches c) := by
  unfold Touches; infer_instance

instance (r c : ByteRange) : Decidable (r.Reaches c) := by
  unfold Reaches; infer_instance

end ByteRange

def LockParam.range (lock : LockParam) : ByteRange :=
  ⟨lock.lockStart, lockEnd lock⟩

def Meets (lock check : LockParam) : Prop :=
  lock.range.Touches check.range ∧ lock.range.Reaches check.range

theorem addU64_one_lt_iff {last start : Nat} (hlast : last ≤ uint64Max) :
    ¬ addU64 last 1 < start ↔ start ≤ last + 1 ∧ (last = uint64Max → start = 0) := by
  simp only [addU64, uint64Max] at *
  omega

theorem subU64_of_le {a b : Nat} (h : b ≤ a) (ha : a ≤ uint64Max) : subU64 a b = a - b := by
  simp only [subU64, uint64Max] at *
  omega

/-- What a visit can do with an entry of the same owner. The pieces kept of the
entry are the bytes the merged lock does not cover, and a lock that takes the
entry over covers the bytes of both. -/
inductive VisitSpec (lock check : LockParam) : MergeVisit → Prop
  | skip (hmeets : ¬ Meets lock check) : VisitSpec lock check .skip
  | shrink {piece : LockParam} (hmeets : Meets lock check) (hadm : piece.Admitted)
      (htype : check.lockType ≠ lock.lockType) (hpiece : piece.lockType = check.lockType)
      (hcovers : ∀ b, piece.Covers b ↔ check.Covers b ∧ ¬ lock.Covers b) :
      VisitSpec lock check (.shrink piece)
  | split {left right : LockParam} (hmeets : Meets lock check) (hleft : left.Admitted)
      (hright : right.Admitted) (htype : check.lockType ≠ lock.lockType)
      (hleftType : left.lockType = check.lockType)
      (hrightType : right.lockType = check.lockType)
      (hcovers : ∀ b, left.Covers b ∨ right.Covers b ↔ check.Covers b ∧ ¬ lock.Covers b)
      (hdisjoint : ∀ b, left.Covers b → ¬ right.Covers b)
      (hstart : check.lockStart < lock.lockStart) (hafter : lock.lockStart ≤ right.lockStart) :
      VisitSpec lock check (.split left right)
  | absorb {grown : LockParam} (hmeets : Meets lock check) (hadm : grown.Admitted)
      (hgrown : grown.lockType = lock.lockType)
      (htype : check.lockType = lock.lockType ∨
        lock.lockStart ≤ check.lockStart ∧ lockEnd check ≤ lockEnd lock)
      (hstart : grown.lockStart = min lock.lockStart check.lockStart)
      (hend : lockEnd grown = max (lockEnd lock) (lockEnd check))
      (hcovers : ∀ b, grown.Covers b ↔ lock.Covers b ∨ check.Covers b) :
      VisitSpec lock check (.absorb grown)

variable {lock check : LockParam} {grown : LockParam}

theorem shrinkRight_spec (hlast : lockEnd lock < lockEnd check) :
    (shrinkRight check lock).Admitted ∧
      (shrinkRight check lock).lockStart = lockEnd lock + 1 ∧
      lockEnd (shrinkRight check lock) = lockEnd check := by
  have hmax := lockEnd_le_uint64Max check
  have hstart : (shrinkRight check lock).lockStart = lockEnd lock + 1 :=
    addU64_one_of_lt (by omega)
  have hlen : (shrinkRight check lock).lockLength = lockEnd check - lockEnd lock :=
    subU64_of_le (by omega) hmax
  have hspec := lockEnd_of_length (shrinkRight check lock) (lockEnd check) (by omega) hmax
    (by
      rw [hstart, hlen]
      simp only [uint64Max] at hmax
      omega)
  exact ⟨hspec.2, hstart, hspec.1⟩

theorem shrinkLeft_spec (hlock : lock.lockStart ≤ uint64Max)
    (hfirst : check.lockStart < lock.lockStart) :
    (shrinkLeft check lock).Admitted ∧ (shrinkLeft check lock).lockStart = check.lockStart ∧
      lockEnd (shrinkLeft check lock) = lock.lockStart - 1 := by
  have hstart : (shrinkLeft check lock).lockStart = check.lockStart := rfl
  have hlen : (shrinkLeft check lock).lockLength = lock.lockStart - check.lockStart :=
    subU64_of_le (by omega) hlock
  have hspec := lockEnd_of_length (shrinkLeft check lock) (lock.lockStart - 1) (by omega) (by omega) (by
      rw [hstart, hlen]
      simp only [uint64Max] at hlock
      omega)
  exact ⟨hspec.2, hstart, hspec.1⟩

theorem expandLock_spec (check : LockParam) (hlock : lock.Admitted) :
    (expandLock check lock).Admitted ∧
      (expandLock check lock).lockStart = min lock.lockStart check.lockStart ∧
      lockEnd (expandLock check lock) = max (lockEnd lock) (lockEnd check) := by
  have hle := hlock.start_le_end
  have hmax := lockEnd_le_uint64Max lock
  have hmaxCheck := lockEnd_le_uint64Max check
  have hstart : (expandLock check lock).lockStart = min lock.lockStart check.lockStart := by
    simp only [expandLock]
    split_ifs <;> omega
  have hspec := lockEnd_of_length (expandLock check lock)
    (max (lockEnd lock) (lockEnd check)) (by omega) (by omega) (by
      rw [hstart]
      simp only [expandLock, addU64, subU64, uint64Max] at *
      split_ifs <;> omega)
  exact ⟨hspec.2, hstart, hspec.1⟩

theorem mergeRanges_spec (hlock : lock.Admitted) (hcheck : check.Admitted) :
    VisitSpec lock check (mergeRanges lock check) := by
  have hlockLe := hlock.start_le_end
  have hcheckLe := hcheck.start_le_end
  have hmeets : Meets lock check ↔
      ¬ addU64 (lockEnd check) 1 < lock.lockStart ∧
        ¬ addU64 (lockEnd lock) 1 < check.lockStart := by
    rw [addU64_one_lt_iff (lockEnd_le_uint64Max check),
      addU64_one_lt_iff (lockEnd_le_uint64Max lock)]
    simp only [Meets, ByteRange.Touches, ByteRange.Reaches, LockParam.range]
    tauto
  unfold mergeRanges
  split_ifs with hbefore hafter htype hboth hlast
  · exact .skip fun h => (hmeets.1 h).1 hbefore
  · exact .skip fun h => (hmeets.1 h).2 hafter
  · obtain ⟨hadmL, hstartL, hendL⟩ := shrinkLeft_spec hlock.1 hboth.2
    obtain ⟨hadmR, hstartR, hendR⟩ := shrinkRight_spec hboth.1
    refine .split (hmeets.2 ⟨hbefore, hafter⟩) hadmL hadmR htype.1 rfl rfl ?_ ?_ hboth.2
      (by omega)
    all_goals
      intro b
      simp only [LockParam.Covers, hstartL, hendL, hstartR, hendR]
      omega
  · obtain ⟨hadm, hstart, hend⟩ := shrinkRight_spec hlast
    have hm := hmeets.2 ⟨hbefore, hafter⟩
    refine .shrink hm hadm htype.1 rfl fun b => ?_
    have hreach : check.lockStart ≤ lockEnd lock + 1 := hm.1.2
    simp only [LockParam.Covers, hstart, hend]
    omega
  · have hfirst : check.lockStart < lock.lockStart := htype.2.resolve_left hlast
    obtain ⟨hadm, hstart, hend⟩ := shrinkLeft_spec hlock.1 hfirst
    have hm := hmeets.2 ⟨hbefore, hafter⟩
    refine .shrink hm hadm htype.1 rfl fun b => ?_
    have hreach : lock.lockStart ≤ lockEnd check + 1 := hm.1.1
    simp only [LockParam.Covers, hstart, hend]
    omega
  · obtain ⟨hadm, hstart, hend⟩ := expandLock_spec check hlock
    have hm := hmeets.2 ⟨hbefore, hafter⟩
    refine .absorb hm hadm rfl ?_ hstart hend fun b => ?_
    · by_cases heq : check.lockType = lock.lockType
      · exact .inl heq
      · have hinside := not_and.1 htype heq
        exact .inr (by omega)
    · have hreach : lock.lockStart ≤ lockEnd check + 1 := hm.1.1
      have hreach' : check.lockStart ≤ lockEnd lock + 1 := hm.1.2
      simp only [LockParam.Covers, hstart, hend]
      omega

variable {Owner : Type*}

/-- The number of visits that can still be made: an entry that starts before the
merged lock may be split once more. -/
def mergeWeight (lock : LockParam) (todo : List (LockEntry Owner)) : Nat :=
  (todo.map fun e => if e.sleLock.lockStart < lock.lockStart then 2 else 1).sum

@[simp] theorem mergeWeight_nil (lock : LockParam) :
    mergeWeight lock ([] : List (LockEntry Owner)) = 0 := rfl

@[simp] theorem mergeWeight_cons (lock : LockParam) (e : LockEntry Owner)
    (todo : List (LockEntry Owner)) :
    mergeWeight lock (e :: todo)
      = (if e.sleLock.lockStart < lock.lockStart then 2 else 1) + mergeWeight lock todo := by
  simp [mergeWeight]

@[simp] theorem mergeWeight_append (lock : LockParam) (todo more : List (LockEntry Owner)) :
    mergeWeight lock (todo ++ more) = mergeWeight lock todo + mergeWeight lock more := by
  simp [mergeWeight]

theorem mergeWeight_le (lock : LockParam) (todo : List (LockEntry Owner)) :
    mergeWeight lock todo ≤ 2 * todo.length := by
  induction todo with
  | nil => simp
  | cons e todo ih =>
    simp only [mergeWeight_cons, List.length_cons]
    split_ifs <;> omega

theorem mergeWeight_mono (h : grown.lockStart ≤ lock.lockStart) (todo : List (LockEntry Owner)) :
    mergeWeight grown todo ≤ mergeWeight lock todo := by
  induction todo with
  | nil => simp
  | cons e todo ih =>
    simp only [mergeWeight_cons]
    split_ifs <;> omega

variable [DecidableEq Owner] {owner : Owner} {lockId : Nat}

/-- The complete executions of the merge loop, from the loop state and the entries
still to be visited to the loop state at its end. -/
inductive MergeRun (owner : Owner) (lockId : Nat) :
    Merge Owner → List (LockEntry Owner) → Merge Owner → Prop
  | done {m : Merge Owner} : MergeRun owner lockId m [] m
  | skip {m r : Merge Owner} {check : LockEntry Owner} {todo : List (LockEntry Owner)}
      (hskip : mergeCandidate owner lockId check = true → ¬ Meets m.lock check.sleLock)
      (hrest : MergeRun owner lockId { m with list := m.list ++ [check] } todo r) :
      MergeRun owner lockId m (check :: todo) r
  | shrink {m r : Merge Owner} {check : LockEntry Owner} {todo : List (LockEntry Owner)}
      {piece : LockParam} (hcand : mergeCandidate owner lockId check = true)
      (hspec : VisitSpec m.lock check.sleLock (.shrink piece))
      (hrest : MergeRun owner lockId
        { m with list := m.list ++ [{ check with sleLock := piece }] } todo r) :
      MergeRun owner lockId m (check :: todo) r
  | split {m r : Merge Owner} {check : LockEntry Owner} {todo : List (LockEntry Owner)}
      {left right : LockParam} (hcand : mergeCandidate owner lockId check = true)
      (hspec : VisitSpec m.lock check.sleLock (.split left right))
      (hrest : MergeRun owner lockId
        { m with
          list := m.list ++ [{ check with sleLock := left }]
          nextId := m.nextId + 1 } (todo ++ [check.dup m.nextId right]) r) :
      MergeRun owner lockId m (check :: todo) r
  | splitLast {m : Merge Owner} {check : LockEntry Owner} {left right : LockParam}
      (hcand : mergeCandidate owner lockId check = true)
      (hspec : VisitSpec m.lock check.sleLock (.split left right)) :
      MergeRun owner lockId m [check]
        { m with
          list := m.list ++ [{ check with sleLock := left }, check.dup m.nextId right]
          nextId := m.nextId + 1 }
  | absorb {m r : Merge Owner} {check : LockEntry Owner} {todo : List (LockEntry Owner)}
      {grown : LockParam} (hcand : mergeCandidate owner lockId check = true)
      (hspec : VisitSpec m.lock check.sleLock (.absorb grown))
      (hrest : MergeRun owner lockId { m with lock := grown } todo r) :
      MergeRun owner lockId m (check :: todo) r

theorem visitSpec_of_ne_skip {check : LockEntry Owner} {visit : MergeVisit} (hlock : lock.Admitted)
    (hcheck : check.sleLock.Admitted) (hvisit : mergeVisit owner lockId lock check = visit)
    (hne : visit ≠ .skip) :
    mergeCandidate owner lockId check = true ∧ VisitSpec lock check.sleLock visit := by
  unfold mergeVisit at hvisit
  split_ifs at hvisit with hcand
  · exact ⟨hcand, hvisit ▸ mergeRanges_spec hlock hcheck⟩
  · exact absurd hvisit.symm hne

/-- With admitted ranges the loop never runs out of fuel: it is a complete
execution of the source's loop. -/
theorem mergeLoop_run (fuel : Nat) (m : Merge Owner) (todo : List (LockEntry Owner))
    (hlock : m.lock.Admitted) (htodo : ∀ e ∈ todo, e.sleLock.Admitted)
    (hfuel : mergeWeight m.lock todo ≤ fuel) :
    MergeRun owner lockId m todo (mergeLoop owner lockId fuel m todo) := by
  induction fuel generalizing m todo with
  | zero =>
    cases todo with
    | nil => simpa [mergeLoop] using MergeRun.done
    | cons check todo =>
      simp only [mergeWeight_cons] at hfuel
      split_ifs at hfuel <;> omega
  | succ fuel ih =>
    cases todo with
    | nil => exact .done
    | cons check todo =>
      have hcheck := htodo check (by simp)
      have hrest : ∀ e ∈ todo, e.sleLock.Admitted := fun e he => htodo e (by simp [he])
      have hpos : mergeWeight m.lock todo ≤ fuel := by
        simp only [mergeWeight_cons] at hfuel
        split_ifs at hfuel <;> omega
      simp only [mergeLoop]
      cases hvisit : mergeVisit owner lockId m.lock check with
      | skip =>
        refine .skip (fun hcand => ?_) (ih _ todo hlock hrest hpos)
        have hspec := mergeRanges_spec hlock hcheck
        rw [mergeVisit, if_pos hcand] at hvisit
        rw [hvisit] at hspec
        cases hspec with
        | skip hmeets => exact hmeets
      | shrink piece =>
        obtain ⟨hcand, hspec⟩ := visitSpec_of_ne_skip hlock hcheck hvisit (by simp)
        exact .shrink hcand hspec (ih _ todo hlock hrest hpos)
      | split left right =>
        obtain ⟨hcand, hspec⟩ := visitSpec_of_ne_skip hlock hcheck hvisit (by simp)
        have hsplit := hspec
        cases hsplit with
        | split _ _ hright _ _ _ _ _ hstart hafter =>
          cases htail : todo with
          | nil => simpa [htail] using MergeRun.splitLast hcand hspec
          | cons next rest =>
            refine .split hcand hspec ?_
            simp only [List.isEmpty_cons, Bool.false_eq_true, if_false]
            refine ih _ _ hlock ?_ ?_
            · intro e he
              rcases List.mem_append.1 he with he | he
              · exact hrest e (htail ▸ he)
              · rw [List.mem_singleton] at he
                subst he
                exact hright
            · have hone : ¬ right.lockStart < m.lock.lockStart := by omega
              simp only [mergeWeight_cons, hstart, if_true] at hfuel
              rw [← htail]
              simp only [mergeWeight_append, mergeWeight_cons, mergeWeight_nil,
                LockEntry.dup, hone, if_false]
              omega
      | absorb grown =>
        obtain ⟨hcand, hspec⟩ := visitSpec_of_ne_skip hlock hcheck hvisit (by simp)
        have habsorb := hspec
        cases habsorb with
        | absorb _ hadm _ _ hstart _ _ =>
          refine .absorb hcand hspec (ih _ todo hadm hrest ?_)
          have hless : grown.lockStart ≤ m.lock.lockStart := by omega
          exact Nat.le_trans (mergeWeight_mono hless todo) hpos

theorem mergeLockEntry_run {lockList : List (LockEntry Owner)} (nextId : Nat)
    {entry : LockEntry Owner} (hentry : entry.sleLock.Admitted)
    (hlist : ∀ e ∈ lockList, e.sleLock.Admitted) :
    ∃ m : Merge Owner,
      MergeRun entry.sleOwner entry.sleId ⟨[], entry.sleLock, nextId⟩ lockList m ∧
      mergeLockEntry lockList nextId entry =
        { m with list := m.list.map fun e =>
            if e.sleId = entry.sleId then { e with sleLock := m.lock } else e } :=
  ⟨_, mergeLoop_run _ _ _ hentry hlist (mergeWeight_le _ _), rfl⟩

end EdgeComputing.Sal
