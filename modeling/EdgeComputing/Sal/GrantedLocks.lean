import EdgeComputing.Library.Machine
import EdgeComputing.Sal.LockReplacement
import EdgeComputing.Sal.LockState
import EdgeComputing.Sal.LockSubtract
import Mathlib.Data.List.Pairwise

/-!
POSIX replacement semantics of the lock list over runs of granted `state_lock` and `state_unlock`
calls.
-/

namespace EdgeComputing.Sal

open List Library

variable {Owner : Type*} [DecidableEq Owner] {s : LockState Owner}

def Replaced (before : List (LockEntry Owner)) (req : LockRequest Owner)
    (after : List (LockEntry Owner)) : Prop :=
  AtMostOneHolder after ∧
    ∀ o b t, HeldAs after o b t ↔
      if o = req.owner ∧ req.lock.Covers b then t = req.lock.lockType else HeldAs before o b t

/-- The scan of `state_lock` comes to an entry that already gives what the request
asks for before it comes to a conflicting one. -/
def AnsweredByExisting (lockList : List (LockEntry Owner)) (req : LockRequest Owner) : Prop :=
  ∃ before found after, lockList = before ++ found :: after ∧
    answersRequest req found = true ∧ ∀ e ∈ before, conflictsWith req e = false

def LockSafe (lockList : List (LockEntry Owner)) (req : LockRequest Owner) : Prop :=
  AnsweredByExisting lockList req ∨ mergeSafe req.owner req.lock req.lock.range lockList

inductive LockCall (Owner : Type*) where
  | lock (env : LockEnv) (req : LockRequest Owner)
  | unlock (env : LockEnv) (owner : Option Owner) (stateApplies : Bool) (nsmState : Int)
      (lock : LockParam)

def grantedCalls : Machine (LockState Owner) (LockCall Owner) where
  init s := s = LockState.empty
  step s
    | .lock env req =>
      if req.lock.Admitted ∧ (stateLock env req s).1.status = .success then
        some (stateLock env req s).2
      else none
    | .unlock env owner stateApplies nsmState lock =>
      if lock.Admitted then some (stateUnlock env owner stateApplies nsmState lock s).2
      else none

def SafeCall (s : LockState Owner) : LockCall Owner → Prop
  | .lock _ req => LockSafe s.lockList req
  | .unlock .. => True

structure GrantedList (s : LockState Owner) : Prop where
  granted : ∀ e ∈ s.lockList, e.sleBlocked = .nonBlocking
  admitted : ∀ e ∈ s.lockList, e.sleLock.Admitted
  fresh : ∀ e ∈ s.lockList, e.sleId < s.nextId
  apart : s.lockList.Pairwise Apart

theorem foldl_eq_self {α β : Type*} {f : β → α → β} {b : β} (l : List α)
    (h : ∀ a ∈ l, f b a = b) : l.foldl f b = b := by
  induction l with
  | nil => rfl
  | cons a l ih =>
    rw [foldl_cons, h a (by simp)]
    exact ih fun a ha => h a (by simp [ha])

omit [DecidableEq Owner] in
theorem find_granted (h : ∀ e ∈ s.lockList, e.sleBlocked = .nonBlocking) {id : Nat}
    {e : LockEntry Owner} (he : s.find id = some e) : e.sleBlocked = .nonBlocking :=
  h e (mem_of_find?_eq_some he)

theorem grantBlockedLocks_of_granted (env : LockEnv)
    (h : ∀ e ∈ s.lockList, e.sleBlocked = .nonBlocking) : grantBlockedLocks env s = s := by
  unfold grantBlockedLocks
  split_ifs with hasync
  · rfl
  · refine foldl_eq_self _ fun id _ => ?_
    unfold grantBlockedLock
    cases hfind : s.find id with
    | none => rfl
    | some e => simp [find_granted h hfind]

section Insert

variable {lockList : List (LockEntry Owner)} {nextId : Nat} {entry : LockEntry Owner}

def mergedList (lockList : List (LockEntry Owner)) (nextId : Nat) (entry : LockEntry Owner) :
    List (LockEntry Owner) :=
  (mergeLockEntry lockList nextId entry).list
    ++ [{ entry with sleLock := (mergeLockEntry lockList nextId entry).lock }]

variable (hentry : entry.sleLock.Admitted) (hgranted : entry.sleBlocked = .nonBlocking)
  (hlist : ∀ e ∈ lockList, e.sleLock.Admitted)

include hentry hgranted hlist

theorem mergedList_safe (hfresh : ∀ e ∈ lockList, e.sleId < entry.sleId) (hid : entry.sleId < nextId)
    (hapart : lockList.Pairwise Apart)
    (hsafe : mergeSafe entry.sleOwner entry.sleLock entry.sleLock.range lockList) :
    (mergedList lockList nextId entry).Pairwise Apart ∧
      (∀ e ∈ mergedList lockList nextId entry, e.sleLock.Admitted) ∧
      (∀ e ∈ mergedList lockList nextId entry,
        e.sleId < (mergeLockEntry lockList nextId entry).nextId) ∧
      ∀ o b t, HeldAs (mergedList lockList nextId entry) o b t ↔
        if o = entry.sleOwner ∧ entry.sleLock.Covers b then t = entry.sleLock.lockType
        else HeldAs lockList o b t := by
  obtain ⟨m, hrun, heq⟩ := mergeLockEntry_run nextId hentry hlist
  have hinit : MergeInv entry.sleOwner entry.sleId entry.sleLock lockList
      ⟨[], entry.sleLock, nextId⟩ lockList := by
    refine ⟨⟨hentry, rfl, fun _ h => h, hlist, ?_, hid, hapart, ?_, ?_⟩, hentry, ?_, hsafe⟩
    · intro e he
      have hlt := hfresh e he
      exact ⟨Nat.ne_of_lt hlt, Nat.lt_trans hlt hid⟩
    · exact fun e he _ b _ hb => hb
    · exact fun o b t => Iff.rfl
    · simp
  have hend := hrun.inv hinit
  have hcore := hend.core
  rw [append_nil] at hcore
  have hmap : (m.list.map fun e =>
      if e.sleId = entry.sleId then { e with sleLock := m.lock } else e) = m.list := by
    conv_rhs => rw [← map_id m.list]
    exact map_congr_left fun e he => if_neg (hcore.fresh e he).1
  have hmerged : mergedList lockList nextId entry
      = m.list ++ [{ entry with sleLock := m.lock }] := by
    rw [mergedList, heq, hmap]
  rw [hmerged, heq]
  refine ⟨?_, ?_, ?_, ?_⟩
  · refine pairwise_append.2 ⟨hcore.apart, pairwise_singleton _ _, ?_⟩
    intro e he g hg o b heo hgo heb hgb
    rw [mem_singleton] at hg
    subst hg
    have howner : entry.sleOwner = o := hgo.1
    exact hend.done_apart e he (howner ▸ heo) b heb hgb
  · intro e he
    rcases mem_append.1 he with he | he
    · exact hcore.admitted e he
    · rw [mem_singleton] at he
      subst he
      exact hcore.lock_admitted
  · intro e he
    rcases mem_append.1 he with he | he
    · exact (hcore.fresh e he).2
    · rw [mem_singleton] at he
      subst he
      exact hcore.id_lt
  · intro o b t
    rw [← hcore.held o b t, heldAs_append, heldAs_cons]
    by_cases ho : o = entry.sleOwner ∧ m.lock.Covers b
    · -- the byte belongs to the merged entry alone
      obtain ⟨rfl, hb⟩ := ho
      have hothers : ¬ HeldAs m.list entry.sleOwner b t := by
        rintro ⟨e, he, heo, heb, -⟩
        exact hend.done_apart e he heo b heb hb
      simp [hothers, LockEntry.GrantedTo, hgranted, hb, hcore.lock_type, eq_comm]
    · rw [if_neg ho]
      have hnew : ¬ (LockEntry.GrantedTo { entry with sleLock := m.lock } o ∧
          m.lock.Covers b ∧ m.lock.lockType = t) := by
        rintro ⟨hgo, hb, -⟩
        exact ho ⟨hgo.1.symm, hb⟩
      simp [hnew]

theorem mergedList_missing (hfresh : ∀ e ∈ lockList, e.sleId < entry.sleId) (hid : entry.sleId < nextId)
    (hmissed : ¬ mergeSafe entry.sleOwner entry.sleLock entry.sleLock.range lockList) :
    ¬ (mergedList lockList nextId entry).Pairwise Apart := by
  obtain ⟨m, hrun, heq⟩ := mergeLockEntry_run nextId hentry hlist
  have htodo : ∀ e ∈ lockList, e.sleLock.Admitted ∧ e.sleId ≠ entry.sleId :=
    fun e he => ⟨hlist e he, Nat.ne_of_lt (hfresh e he)⟩
  obtain ⟨e, he, heo, hne, b, heb, hreq⟩ :=
    hrun.missed rfl (fun _ h => h) hentry htodo hid hmissed
  intro hapart
  rw [mergedList, heq] at hapart
  have hmem : e ∈ m.list.map fun e =>
      if e.sleId = entry.sleId then { e with sleLock := m.lock } else e :=
    mem_map.2 ⟨e, he, if_neg hne⟩
  have hpair := (pairwise_append.1 hapart).2.2 e hmem _ (mem_singleton_self _)
  exact hpair entry.sleOwner b heo ⟨rfl, hgranted⟩ heb (hrun.lock_covers hreq)

theorem mergedList_granted (hlistGranted : ∀ e ∈ lockList, e.sleBlocked = .nonBlocking) :
    ∀ e ∈ mergedList lockList nextId entry, e.sleBlocked = .nonBlocking := by
  obtain ⟨m, hrun, heq⟩ := mergeLockEntry_run nextId hentry hlist
  intro e he
  rw [mergedList, heq] at he
  rcases mem_append.1 he with he | he
  · obtain ⟨f, hf, rfl⟩ := mem_map.1 he
    obtain ⟨c, hc, hpart⟩ := hrun.partOf hf
    have hblocked := hpart.blocked.trans (hlistGranted c (by simpa using hc))
    split_ifs <;> exact hblocked
  · rw [mem_singleton] at he
    subst he
    exact hgranted

end Insert

variable {req : LockRequest Owner} {lockList : List (LockEntry Owner)} {found : LockEntry Owner}
  {env : LockEnv}

theorem answered_of_lockScan (h : lockScan req lockList = .existing found) :
    AnsweredByExisting lockList req := by
  induction lockList with
  | nil => cases h
  | cons e rest ih =>
    simp only [lockScan] at h
    split_ifs at h with hexport hconflict hanswers
    · exact ⟨[], e, rest, rfl, hanswers, by simp⟩
    · obtain ⟨before, f, after, hsplit, hf, hbefore⟩ := ih h
      refine ⟨e :: before, f, after, by simp [hsplit], hf, ?_⟩
      intro x hx
      rcases mem_cons.1 hx with rfl | hx
      · exact Bool.eq_false_iff.2 hconflict
      · exact hbefore x hx

theorem lockScan_of_answered (h : AnsweredByExisting lockList req) :
    lockScan req lockList = .exportConflict ∨ ∃ found, lockScan req lockList = .existing found := by
  obtain ⟨before, found, after, rfl, hanswers, hbefore⟩ := h
  induction before with
  | nil =>
    have howner : found.sleOwner = req.owner := by
      simp only [answersRequest, Bool.and_eq_true, decide_eq_true_eq] at hanswers
      exact hanswers.2
    simp only [nil_append, lockScan]
    split_ifs with hexport hconflict
    · exact .inl rfl
    · simp [conflictsWith, howner] at hconflict
    · exact .inr ⟨found, rfl⟩
  | cons e before ih =>
    have hrest := ih fun x hx => hbefore x (by simp [hx])
    have hclear := hbefore e (by simp)
    simp only [cons_append, lockScan, hclear, Bool.false_eq_true, if_false]
    split_ifs with hexport hexisting
    · exact .inl rfl
    · exact .inr ⟨e, rfl⟩
    · exact hrest

theorem findBlockedRequest_ne_success (req : LockRequest Owner)
    (lockList : List (LockEntry Owner)) :
    findBlockedRequest req lockList ≠ some .success := by
  induction lockList with
  | nil => simp [findBlockedRequest]
  | cons e rest ih =>
    simp only [findBlockedRequest]
    split_ifs <;> simp [ih]

theorem placeLock_success {found : Option (LockEntry Owner)}
    (h : (placeLock env s req found).1.status = .success) :
    (placeLock env s req found).2
      = insertGranted env { s with nextId := s.nextId + 1 } (newEntry s req) := by
  unfold placeLock at h ⊢
  split_ifs at h ⊢ with hknown
  generalize acquireStatus env req found s.nextId = status at h ⊢
  cases status with
  | success => rfl
  | _ => cases h

theorem stateLock_success (hs : ∀ e ∈ s.lockList, e.sleBlocked = .nonBlocking)
    (h : (stateLock env req s).1.status = .success) :
    (∃ found, lockScan req s.lockList = .existing found ∧ (stateLock env req s).2 = s) ∨
      (¬ AnsweredByExisting s.lockList req ∧
        (stateLock env req s).2
          = insertGranted env { s with nextId := s.nextId + 1 } (newEntry s req)) := by
  unfold stateLock at h ⊢
  generalize hblocked : (if req.blocking = .nonBlocking then none
    else findBlockedRequest req s.lockList) = blocked at h ⊢
  cases blocked with
  | some status =>
    have hsuccess : status = .success := h
    split_ifs at hblocked
    exact absurd (hsuccess ▸ hblocked) (findBlockedRequest_ne_success req s.lockList)
  | none =>
    cases hscan : lockScan req s.lockList with
    | exportConflict => simp [hscan] at h
    | existing found =>
      have hfound := hs found (lockScan_existing_mem hscan).1
      exact .inl ⟨found, rfl, by simp [hfound]⟩
    | conflict found | clear =>
      simp only [hscan] at h
      refine .inr ⟨fun hans => ?_, placeLock_success h⟩
      rcases lockScan_of_answered hans with heq | ⟨f, heq⟩ <;> rw [hscan] at heq <;> cases heq

theorem replaced_of_existing (hapart : lockList.Pairwise Apart) (hmem : found ∈ lockList)
    (hgranted : found.sleBlocked = .nonBlocking) (hanswers : answersRequest req found = true) :
    Replaced lockList req lockList := by
  simp only [answersRequest, Bool.and_eq_true, decide_eq_true_eq] at hanswers
  obtain ⟨⟨⟨⟨hend, hstart⟩, htype⟩, -⟩, howner⟩ := hanswers
  refine ⟨(atMostOneHolder_iff _).2 hapart, fun o b t => ?_⟩
  split_ifs with hreq
  · obtain ⟨rfl, hb⟩ := hreq
    have hfb : found.sleLock.Covers b := ⟨Nat.le_trans hstart hb.1, Nat.le_trans hb.2 hend⟩
    have hfo : found.GrantedTo req.owner := ⟨howner, hgranted⟩
    constructor
    · rintro ⟨e, he, heo, heb, rfl⟩
      obtain rfl : e = found := by
        by_contra hne
        exact (hapart.forall he hmem hne : Apart e found) _ b heo hfo heb hfb
      exact htype
    · rintro rfl
      exact ⟨found, hmem, hfo, hfb, htype⟩
  · exact Iff.rfl

section

variable {env : LockEnv} {s : LockState Owner} (hs : GrantedList s) (hreq : req.lock.Admitted)
include hs hreq

theorem insertGranted_eq :
    insertGranted env { s with nextId := s.nextId + 1 } (newEntry s req) =
      { s with
        lockList := mergedList s.lockList (s.nextId + 1) (newEntry s req)
        nextId := (mergeLockEntry s.lockList (s.nextId + 1) (newEntry s req)).nextId } :=
  grantBlockedLocks_of_granted env (mergedList_granted hreq rfl hs.admitted hs.granted)

theorem stateLock_replaces_iff (h : (stateLock env req s).1.status = .success) :
    Replaced s.lockList req (stateLock env req s).2.lockList ↔ LockSafe s.lockList req := by
  rcases stateLock_success hs.granted h with ⟨found, hscan, heq⟩ | ⟨hnew, heq⟩
  · obtain ⟨hmem, hanswers⟩ := lockScan_existing_mem hscan
    rw [heq]
    have hreplaced := replaced_of_existing hs.apart hmem (hs.granted found hmem) hanswers
    exact ⟨fun _ => .inl (answered_of_lockScan hscan), fun _ => hreplaced⟩
  · rw [heq, insertGranted_eq hs hreq]
    have hfresh : ∀ e ∈ s.lockList, e.sleId < (newEntry s req).sleId := hs.fresh
    constructor
    · intro hreplaced
      refine .inr ?_
      by_contra hmissed
      exact mergedList_missing hreq rfl hs.admitted hfresh (Nat.lt_succ_self _) hmissed
        ((atMostOneHolder_iff _).1 hreplaced.1)
    · intro hsafe
      obtain ⟨hapart, -, -, hheld⟩ := mergedList_safe hreq rfl hs.admitted hfresh
        (Nat.lt_succ_self _) hs.apart (hsafe.resolve_left hnew)
      exact ⟨(atMostOneHolder_iff _).2 hapart, hheld⟩

theorem GrantedList.stateLock (h : (stateLock env req s).1.status = .success)
    (hsafe : LockSafe s.lockList req) : GrantedList (stateLock env req s).2 := by
  rcases stateLock_success hs.granted h with ⟨found, hscan, heq⟩ | ⟨hnew, heq⟩
  · rwa [heq]
  · rw [heq, insertGranted_eq hs hreq]
    have hfresh : ∀ e ∈ s.lockList, e.sleId < (newEntry s req).sleId := hs.fresh
    obtain ⟨hapart, hadm, hids, -⟩ := mergedList_safe hreq rfl hs.admitted hfresh
      (Nat.lt_succ_self _) hs.apart (hsafe.resolve_left hnew)
    exact ⟨mergedList_granted hreq rfl hs.admitted hs.granted, hadm, hids, hapart⟩

end

section Unlock

variable {env : LockEnv} {s : LockState Owner} {owner : Option Owner} {applies : Bool}
  {state : Int} {lock : LockParam}

theorem stateUnlock_eq (hs : GrantedList s) (hlock : lock.Admitted) :
    (stateUnlock env owner applies state lock s).2 =
      { s with
        lockList := (subtractLockFromList owner applies state lock s.nextId s.lockList).kept
        nextId := (subtractLockFromList owner applies state lock s.nextId s.lockList).nextId } := by
  unfold stateUnlock
  split_ifs with hempty
  · rw [List.isEmpty_iff] at hempty
    simp only [hempty, subtractLockFromList, subtractLoop, append_nil]
    rw [← hempty]
  · have hcancel : cancelBlockedLocksRange env owner applies state lock s = s := by
      refine foldl_eq_self _ fun id _ => ?_
      cases hfind : s.find id with
      | none => rfl
      | some e => simp [cancelsInRange, find_granted hs.granted hfind]
    simp only [hcancel]
    refine grantBlockedLocks_of_granted env fun e he => ?_
    obtain ⟨-, hpart, -⟩ := subtractLockFromList_spec owner applies state hlock hs.fresh
    obtain ⟨c, hc, hpart⟩ := hpart e he
    exact hpart.blocked.trans (hs.granted c hc)

theorem GrantedList.stateUnlock (hs : GrantedList s) (hlock : lock.Admitted) :
    GrantedList (stateUnlock env owner applies state lock s).2 := by
  rw [stateUnlock_eq hs hlock]
  obtain ⟨hids, hpart, hapart⟩ := subtractLockFromList_spec owner applies state hlock hs.fresh
  refine ⟨?_, ?_, hids, hapart hs.apart⟩
  · intro e he
    obtain ⟨c, hc, hec⟩ := hpart e he
    exact hec.blocked.trans (hs.granted c hc)
  · intro e he
    obtain ⟨c, hc, hec⟩ := hpart e he
    exact hec.admitted (hs.admitted c hc)

end Unlock

theorem grantedCalls_inv (h : grantedCalls.ReachableBy SafeCall s) : GrantedList s := by
  refine h.invariant ?_ ?_
  · rintro s rfl
    constructor <;> simp [LockState.empty]
  · intro s call t hs hsafe hstep
    cases call with
    | lock env req =>
      simp only [grantedCalls] at hstep
      split_ifs at hstep with hcall
      cases hstep
      exact hs.stateLock hcall.1 hcall.2 hsafe
    | unlock env owner applies state lock =>
      simp only [grantedCalls] at hstep
      split_ifs at hstep with hlock
      cases hstep
      exact hs.stateUnlock hlock

theorem reachableBy_lock (hs : grantedCalls.ReachableBy SafeCall s) (env : LockEnv)
    (req : LockRequest Owner)
    (hcall : req.lock.Admitted ∧ (stateLock env req s).1.status = .success)
    (hsafe : LockSafe s.lockList req) :
    grantedCalls.ReachableBy SafeCall (stateLock env req s).2 := by
  refine .step (a := .lock env req) hs hsafe ?_
  simp only [grantedCalls]
  exact if_pos hcall

/-- In every run whose lock calls all meet `LockSafe`, no byte is covered by two
granted entries of one owner, and the next granted call replaces the modes of
exactly the requested bytes if and only if it meets `LockSafe` too. -/
theorem granted_lock_replaces_iff {s : LockState Owner}
    (hrun : grantedCalls.ReachableBy SafeCall s) :
    AtMostOneHolder s.lockList ∧
      ∀ env req, req.lock.Admitted → (stateLock env req s).1.status = .success →
        (Replaced s.lockList req (stateLock env req s).2.lockList ↔ LockSafe s.lockList req) := by
  have hs := grantedCalls_inv hrun
  refine ⟨(atMostOneHolder_iff _).2 hs.apart, ?_⟩
  intro env req hreq hstatus
  exact stateLock_replaces_iff hs hreq hstatus

/-- A write lock inside a read lock of the same owner splits the read lock. -/
theorem granted_lock_replaces_inside :
    ∃ s : LockState Nat, s.lockList.length = 3 ∧ AtMostOneHolder s.lockList := by
  have h1 := reachableBy_lock (.init rfl) grantingEnv (lockRequest 1 .nonBlocking .lockR 0 1000)
    (by decide +kernel) (.inr trivial)
  have h2 := reachableBy_lock h1 grantingEnv (lockRequest 1 .nonBlocking .lockW 100 100)
    (by decide +kernel) (.inr (by decide +kernel))
  exact ⟨_, by decide +kernel, (granted_lock_replaces_iff h2).1⟩

/-- A read lock of the whole file followed by a write lock of bytes 100 to 199 of
the same owner: the merge compares `UINT64_MAX + 1 = 0` with the start of the new
lock and leaves the read lock as it is, so byte 100 is covered twice. -/
theorem whole_file_lock_covered_twice :
    ∃ s : LockState Nat, grantedCalls.Reachable s ∧ ¬ AtMostOneHolder s.lockList := by
  have hrun : ((grantedCalls.runFrom LockState.empty
      [.lock grantingEnv (lockRequest 1 .nonBlocking .lockR 0 0),
        .lock grantingEnv (lockRequest 1 .nonBlocking .lockW 100 100)]).map
      fun s => (coverers s.lockList 1 100).length) = some 2 := by
    decide +kernel
  obtain ⟨s, hreach, hlen⟩ := Machine.exists_reachable hrun (.init rfl)
  refine ⟨s, hreach, fun hone => ?_⟩
  have hle := hone 1 100
  omega

end EdgeComputing.Sal
