import EdgeComputing.Sal.LockInterleaving
import EdgeComputing.Sal.LockWaiters

/-!
A pass of `grant_blocked_locks` looks at every waiter. A waiter of Ganesha's that no granted lock
obstructs is granted or leaves the list, because the polling never marks it.
-/

namespace EdgeComputing.Sal

open List Library LockState

variable {Owner : Type*}

def LockEntry.Unmarked (e : LockEntry Owner) : Prop :=
  e.InternalWaiter → e.sleBlockData.map (·.sbdGrantType) = some .none

variable {e : LockEntry Owner} {f : LockEntry Owner → LockEntry Owner}

theorem unmarked_of_not_waits (h : ¬ e.Waits) : e.Unmarked :=
  fun hwaiter => absurd hwaiter.1 h

theorem unmarked_of_no_data (h : e.sleBlockData = none) : e.Unmarked := by
  rintro ⟨-, htype⟩
  rw [h] at htype
  cases htype

theorem SameWait.unmarked {c : LockEntry Owner} (h : SameWait e c) (hc : c.Unmarked) : e.Unmarked := by
  intro hwaiter
  have htype := hc (h.internalWaiter_iff.1 hwaiter)
  have hmap := congrArg (Option.map Prod.fst) h.types
  rw [Option.map_map, Option.map_map] at hmap
  exact hmap.trans htype

/-- The entries have addresses of their own, none of them reserved, and no waiter of Ganesha's is
marked by the polling. -/
structure WaitersSound (reserved : List Nat) (lockList : List (LockEntry Owner)) (nextId : Nat) :
    Prop where
  ids : FreshIds (reserved ++ lockList.map (·.sleId)) nextId
  unmarked : ∀ e ∈ lockList, e.Unmarked

def WaitInv (s : LockState Owner) : Prop := WaitersSound [] s.lockList s.nextId

namespace WaitInv

variable {s t : LockState Owner}

theorem eq_of_id (hs : WaitInv s) {f : LockEntry Owner} (he : e ∈ s.lockList) (hf : f ∈ s.lockList)
    (h : e.sleId = f.sleId) : e = f :=
  inj_on_of_nodup_map hs.ids.1 he hf h

theorem cookiesOnly (hs : WaitInv s) (h : CookiesOnly t s) : WaitInv t := by
  refine ⟨?_, fun e he => ?_⟩
  · rw [nil_append, h.ids, h.nextId]
    exact hs.ids
  · obtain ⟨c, hc, hec⟩ := h.left e he
    exact hec.unmarked (hs.unmarked c hc)

theorem removeFromLocklist (hs : WaitInv s) (id : Nat) : WaitInv (s.removeFromLocklist id) :=
  ⟨hs.ids.sublist (filter_sublist.map _), fun e he => hs.unmarked e (mem_of_mem_filter he)⟩

theorem update (hs : WaitInv s) (id : Nat) (hid : ∀ e, e.sleId = id → (f e).sleId = id)
    (hf : ∀ e ∈ s.lockList, e.sleId = id → (f e).Unmarked) : WaitInv (s.update id f) := by
  refine ⟨?_, fun e' he' => ?_⟩
  · rw [nil_append, LockState.update, map_update_id hid]
    exact hs.ids
  · obtain ⟨e, he, rfl⟩ := mem_map.1 he'
    split_ifs with h
    · exact hf e he h
    · exact hs.unmarked e he

theorem setBlocked (hs : WaitInv s) (id : Nat) {blocked : Blocking}
    (h : blocked ≠ .nlmBlocking ∧ blocked ≠ .nfsv4Blocking) : WaitInv (s.setBlocked id blocked) :=
  hs.update id (fun _ hid => hid) fun _ _ _ =>
    unmarked_of_not_waits fun hwaits => hwaits.elim h.1 h.2

variable {env : LockEnv}

theorem outcome (hs : WaitInv s) {entry : LockEntry Owner} (h : GrantOutcome env s entry t) :
    WaitInv t := by
  cases h with
  | removed _ ht => exact (hs.removeFromLocklist _).cookiesOnly ht
  | granting blockData _ _ ht =>
    refine WaitInv.cookiesOnly (hs.update entry.sleId ?_ ?_) ht
    · exact fun _ _ => rfl
    · intro _ _ _
      apply unmarked_of_not_waits
      rintro (h | h) <;> cases h
  | blocked blockData _ _ _ ht =>
    refine WaitInv.cookiesOnly (hs.update entry.sleId ?_ ?_) ht
    · exact fun _ _ => rfl
    · exact fun _ _ _ _ => rfl

theorem cancelBlockedLock (hs : WaitInv s) (env : LockEnv) (entry : LockEntry Owner) :
    WaitInv (cancelBlockedLock env s entry) := by
  have hcancel : WaitInv (s.setBlocked entry.sleId .canceled) :=
    hs.setBlocked entry.sleId (by simp)
  unfold Sal.cancelBlockedLock
  cases entry.sleBlockData.bind (·.sbdBlockedCookie) with
  | none =>
    dsimp only
    split_ifs
    · exact hcancel.removeFromLocklist _
    · exact hcancel
  | some key =>
    dsimp only
    cases hfind : (s.setBlocked entry.sleId .canceled).stateFindGrant key with
    | none => exact hcancel.removeFromLocklist _
    | some found =>
      obtain ⟨cookie, s'⟩ := found
      exact ((hcancel.cookiesOnly (stateFindGrant_cookiesOnly hfind)).cookiesOnly
        (freeCookie_cookiesOnly s' cookie)).removeFromLocklist _

end WaitInv

theorem grantStatus_ne_blocked {blockData : BlockData} (entry : Nat)
    (h : blockData.sbdGrantType = .none) : grantStatus env blockData entry ≠ .lockBlocked := by
  simp only [grantStatus, h, if_true]
  split_ifs
  · simp
  · simp only [grantLockOp, doLockOp]
    split_ifs <;> simp_all

theorem LockEntry.Active.live (h : e.Active) : e.Live := by
  intro hcanceled
  rcases h with h | h <;> rw [h] at hcanceled <;> cases hcanceled

theorem LockEntry.Active.not_waits (h : e.Active) : ¬ e.Waits := by
  rintro (hwaits | hwaits) <;> rcases h with h | h <;> rw [h] at hwaits <;> cases hwaits

def Settled (visited : Nat → Prop) (lockList : List (LockEntry Owner)) : Prop :=
  ∀ w ∈ lockList, visited w.sleId → w.InternalWaiter → ∃ x ∈ lockList, x.Active ∧ x.Obstructs w

variable {visited : Nat → Prop} {s : LockState Owner} {id : Nat}

theorem Settled.cookiesOnly {s t : LockState Owner} (hs : Settled visited s.lockList)
    (h : CookiesOnly t s) : Settled visited t.lockList := by
  intro w' hw' hvisited hwaiter
  obtain ⟨w, hw, hsame⟩ := h.left w' hw'
  obtain ⟨x, hx, hactive, hobstructs⟩ :=
    hs w hw (hsame.sleId ▸ hvisited) (hsame.internalWaiter_iff.1 hwaiter)
  obtain ⟨x', hx', hxsame⟩ := h.right x hx
  refine ⟨x', hx', ?_, (hxsame.obstructs_iff hsame).2 hobstructs⟩
  rw [LockEntry.Active, hxsame.blocked]
  exact hactive

theorem Settled.visit {lockList lockList' : List (LockEntry Owner)} (h : Settled visited lockList)
    (hwaiters : ∀ w ∈ lockList', w.InternalWaiter → w ∈ lockList ∧ w.sleId ≠ id)
    (hactive : ∀ x ∈ lockList, x.Active → x ∈ lockList') :
    Settled (fun i => i = id ∨ visited i) lockList' := by
  intro w hw hvisited hwaiter
  obtain ⟨hw', hne⟩ := hwaiters w hw hwaiter
  obtain ⟨x, hx, hxactive, hobstructs⟩ := h w hw' (hvisited.resolve_left hne) hwaiter
  exact ⟨x, hactive x hx hxactive, hxactive, hobstructs⟩

theorem mem_update_of_ne (he : e ∈ s.lockList) (hne : e.sleId ≠ id) :
    e ∈ (s.update id f).lockList :=
  mem_map.2 ⟨e, he, by rw [if_neg hne]⟩

theorem Settled.outcome {s t : LockState Owner} {found : LockEntry Owner} (hinv : WaitInv s)
    (h : Settled visited s.lockList) (hfound : found ∈ s.lockList) (hwaits : found.Waits)
    (hout : GrantOutcome env s found t) : Settled (fun i => i = found.sleId ∨ visited i) t.lockList := by
  have hactive : ∀ x ∈ s.lockList, x.Active → x.sleId ≠ found.sleId := by
    intro x hx hxactive hid
    rw [hinv.eq_of_id hx hfound hid] at hxactive
    exact hxactive.not_waits hwaits
  have hupdate : ∀ new : LockEntry Owner, ¬ new.InternalWaiter →
      ∀ w ∈ (s.update found.sleId fun _ => new).lockList, w.InternalWaiter →
        w ∈ s.lockList ∧ w.sleId ≠ found.sleId := by
    intro new hnew w hw hwaiter
    obtain ⟨e, he, rfl⟩ := mem_map.1 hw
    dsimp only at hwaiter ⊢
    split_ifs at hwaiter ⊢ with hid
    · exact absurd hwaiter hnew
    · exact ⟨he, hid⟩
  cases hout with
  | removed _ ht =>
    refine (h.visit (fun w hw _ => ?_) fun x hx hxactive => ?_).cookiesOnly ht
    · obtain ⟨hw, hne⟩ := mem_filter.1 hw
      exact ⟨hw, of_decide_eq_true hne⟩
    · exact mem_filter.2 ⟨hx, decide_eq_true (hactive x hx hxactive)⟩
  | granting blockData _ _ ht =>
    refine (h.visit (hupdate _ ?_) fun x hx hxactive =>
      mem_update_of_ne hx (hactive x hx hxactive)).cookiesOnly ht
    rintro ⟨hw | hw, -⟩ <;> cases hw
  | blocked blockData hdata _ hstatus ht =>
    refine (h.visit (hupdate _ ?_) fun x hx hxactive =>
      mem_update_of_ne hx (hactive x hx hxactive)).cookiesOnly ht
    -- A waiter of Ganesha's is not marked, and without a mark the file system is asked for a
    -- lock that does not wait.
    rintro ⟨-, htype⟩
    have hunmarked := hinv.unmarked found hfound ⟨hwaits, by rw [hdata]; exact htype⟩
    rw [hdata] at hunmarked
    exact grantStatus_ne_blocked found.sleId (Option.some.inj hunmarked) hstatus

variable [DecidableEq Owner] {lockList : List (LockEntry Owner)} {reserved : List Nat}
  {nextId : Nat}

theorem getOverlappingEntry_some {w x : LockEntry Owner}
    (h : getOverlappingEntry lockList w.sleOwner w.sleLock = some x) :
    x ∈ lockList ∧ x.Active ∧ x.Obstructs w := by
  have hmem := mem_of_find?_eq_some h
  have hx := find?_some h
  simp only [Bool.and_eq_true, Bool.or_eq_true, Bool.not_eq_true', Bool.or_eq_false_iff,
    decide_eq_true_eq, decide_eq_false_iff_not] at hx
  obtain ⟨⟨⟨⟨⟨hnlm, hnfs⟩, hcanceled⟩, hoverlap⟩, htype⟩, howner⟩ := hx
  refine ⟨hmem, ?_, hoverlap, htype, howner⟩
  cases hblocked : x.sleBlocked with
  | nonBlocking => exact .inl hblocked
  | granting => exact .inr hblocked
  | nlmBlocking => exact absurd hblocked hnlm
  | nfsv4Blocking => exact absurd hblocked hnfs
  | canceled => exact absurd hblocked hcanceled

theorem grantBlockedLock_cases (env : LockEnv) (s : LockState Owner) (id : Nat) :
    (grantBlockedLock env s id = s ∧ ∀ w ∈ s.lockList, w.sleId = id → s.find id = some w →
        w.Waits → ∃ x ∈ s.lockList, x.Active ∧ x.Obstructs w) ∨
      ∃ found ∈ s.lockList, found.sleId = id ∧ found.Waits ∧
        GrantOutcome env s found (grantBlockedLock env s id) := by
  unfold grantBlockedLock
  cases hfind : s.find id with
  | none => exact .inl ⟨rfl, fun w _ _ h => by cases h⟩
  | some found =>
    obtain ⟨hmem, hid⟩ := mem_of_find hfind
    dsimp only
    split_ifs with hwaits
    · refine .inl ⟨rfl, fun w _ _ h hw => ?_⟩
      cases h
      exact absurd hw (not_or.2 hwaits)
    · rw [not_and_or, not_not, not_not] at hwaits
      cases hoverlap : getOverlappingEntry s.lockList found.sleOwner found.sleLock with
      | none => exact .inr ⟨found, hmem, hid, hwaits, tryToGrantLock_outcome env s found⟩
      | some x =>
        refine .inl ⟨rfl, fun w _ _ h _ => ?_⟩
        cases h
        exact ⟨x, getOverlappingEntry_some hoverlap⟩

omit [DecidableEq Owner] in
theorem find_of_mem (hs : WaitInv s) {w : LockEntry Owner} (hw : w ∈ s.lockList) :
    s.find w.sleId = some w := by
  cases hfind : s.find w.sleId with
  | none =>
    have hnone := find?_eq_none.1 hfind w hw
    simp at hnone
  | some found =>
    obtain ⟨hmem, hid⟩ := mem_of_find hfind
    rw [hs.eq_of_id hmem hw hid]

theorem WaitInv.grantBlockedLock (hs : WaitInv s) (env : LockEnv) (id : Nat) :
    WaitInv (grantBlockedLock env s id) := by
  rcases grantBlockedLock_cases env s id with ⟨heq, -⟩ | ⟨found, -, -, -, hout⟩
  · rw [heq]
    exact hs
  · exact hs.outcome hout

theorem Settled.grantBlockedLock (hs : WaitInv s) (h : Settled visited s.lockList) (env : LockEnv)
    (id : Nat) : Settled (fun i => i = id ∨ visited i) (grantBlockedLock env s id).lockList := by
  rcases grantBlockedLock_cases env s id with ⟨heq, hobstructed⟩ | ⟨found, hfound, hid, hwaits, hout⟩
  · rw [heq]
    rintro w hw (hid | hvisited) hwaiter
    · exact hobstructed w hw hid (hid ▸ find_of_mem hs hw) hwaiter.1
    · exact h w hw hvisited hwaiter
  · subst hid
    exact h.outcome hs hfound hwaits hout

theorem grantBlockedLock_ids (env : LockEnv) (s : LockState Owner) (id : Nat) :
    ∀ e ∈ (grantBlockedLock env s id).lockList, ∃ c ∈ s.lockList, c.sleId = e.sleId := by
  rcases grantBlockedLock_cases env s id with ⟨heq, -⟩ | ⟨found, -, -, -, hout⟩
  · rw [heq]
    exact fun e he => ⟨e, he, rfl⟩
  · have hids : (Sal.grantBlockedLock env s id).lockList.map (·.sleId) ⊆
        s.lockList.map (·.sleId) := by
      cases hout with
      | removed _ ht =>
        rw [ht.ids]
        exact (filter_sublist.map _).subset
      | granting _ _ _ ht | blocked _ _ _ _ ht =>
        rw [ht.ids]
        refine (List.Perm.of_eq (map_update_id ?_)).subset
        exact fun _ _ => rfl
    intro e he
    exact mem_map.1 (hids (mem_map_of_mem he))

theorem foldl_grantBlockedLock (env : LockEnv) (ids : List Nat) (visited : Nat → Prop)
    (s : LockState Owner) (hs : WaitInv s) (h : Settled visited s.lockList)
    (hids : ∀ e ∈ s.lockList, e.sleId ∈ ids ∨ visited e.sleId) :
    let t := ids.foldl (grantBlockedLock env) s
    WaitInv t ∧ Settled (fun _ => True) t.lockList := by
  induction ids generalizing s visited with
  | nil =>
    refine ⟨hs, fun w hw _ hwaiter => ?_⟩
    exact h w hw ((hids w hw).resolve_left not_mem_nil) hwaiter
  | cons id ids ih =>
    refine ih (fun i => i = id ∨ visited i) _ (hs.grantBlockedLock env id)
      (h.grantBlockedLock hs env id) fun e he => ?_
    obtain ⟨c, hc, hid⟩ := grantBlockedLock_ids env s id e he
    rw [← hid]
    rcases hids c hc with hmem | hvisited
    · rcases mem_cons.1 hmem with heq | hmem
      · exact .inr (.inl heq)
      · exact .inl hmem
    · exact .inr (.inr hvisited)

theorem grantBlockedLocks_settles (hs : WaitInv s) (hasync : env.fsalAsyncBlock = false) :
    WaitInv (grantBlockedLocks env s) ∧ NoStrandedWaiter (grantBlockedLocks env s).lockList := by
  unfold grantBlockedLocks
  rw [hasync]
  obtain ⟨hinv, hsettled⟩ := foldl_grantBlockedLock env (s.lockList.map (·.sleId))
    (fun _ => False) s hs (fun _ _ h => h.elim) fun e he => .inl (mem_map_of_mem he)
  refine ⟨hinv, fun w hw hwaiter => ?_⟩
  obtain ⟨x, hx, hactive, hobstructs⟩ := hsettled w hw trivial hwaiter
  exact ⟨x, hx, hactive.live, hobstructs⟩

namespace WaitersSound

omit [DecidableEq Owner]

variable {reserved : List Nat} {lockList : List (LockEntry Owner)} {nextId : Nat}

theorem sublist (h : WaitersSound reserved lockList nextId) {kept : List (LockEntry Owner)}
    (hsub : kept.Sublist lockList) : WaitersSound reserved kept nextId :=
  ⟨h.ids.sublist ((List.Sublist.refl _).append (hsub.map _)),
    fun e he => h.unmarked e (hsub.subset he)⟩

theorem map (h : WaitersSound reserved lockList nextId) (hid : ∀ e, (f e).sleId = e.sleId)
    (hf : ∀ e, e.Unmarked → (f e).Unmarked) : WaitersSound reserved (lockList.map f) nextId := by
  refine ⟨?_, fun e' he' => ?_⟩
  · rw [map_map, show (fun e : LockEntry Owner => e.sleId) ∘ f = (·.sleId) from funext hid]
    exact h.ids
  · obtain ⟨e, he, rfl⟩ := mem_map.1 he'
    exact hf e (h.unmarked e he)

theorem relock {rest : List (LockEntry Owner)} {check : LockEntry Owner}
    (h : WaitersSound reserved (lockList ++ check :: rest) nextId) (lock : LockParam) :
    WaitersSound reserved (lockList ++ { check with sleLock := lock } :: rest) nextId := by
  refine ⟨by simpa using h.ids, fun e he => ?_⟩
  have hcheck : check.Unmarked := h.unmarked check (by simp)
  simp only [mem_append, mem_cons] at he
  rcases he with he | rfl | he
  · exact h.unmarked e (by simp [he])
  · exact hcheck
  · exact h.unmarked e (by simp [he])

theorem append_next (h : WaitersSound reserved lockList nextId) (hid : e.sleId = nextId)
    (he : e.Unmarked) : WaitersSound reserved (lockList ++ [e]) (nextId + 1) := by
  refine ⟨?_, fun c hc => ?_⟩
  · rw [map_append, ← append_assoc, map_singleton, hid]
    exact h.ids.append_next
  · rcases mem_append.1 hc with hc | hc
    · exact h.unmarked c hc
    · rw [mem_singleton.1 hc]
      exact he

theorem reserve (h : WaitersSound [] lockList nextId) :
    WaitersSound [nextId] lockList (nextId + 1) :=
  ⟨h.ids.append_next.perm (by simp), h.unmarked⟩

theorem unreserve (h : WaitersSound [id] lockList nextId) (hid : e.sleId = id) (he : e.Unmarked) :
    WaitersSound [] (lockList ++ [e]) nextId := by
  refine ⟨h.ids.perm ?_, fun c hc => ?_⟩
  · simpa [hid] using (perm_append_singleton id (lockList.map (·.sleId))).symm
  · rcases mem_append.1 hc with hc | hc
    · exact h.unmarked c hc
    · rw [mem_singleton.1 hc]
      exact he

end WaitersSound

theorem mergeLoop_sound (owner : Owner) (lockId : Nat) (fuel : Nat) (m : Merge Owner)
    (todo : List (LockEntry Owner)) (h : WaitersSound reserved (m.list ++ todo) m.nextId) :
    let r := mergeLoop owner lockId fuel m todo
    WaitersSound reserved r.list r.nextId := by
  induction fuel generalizing m todo with
  | zero => exact h
  | succ fuel ih =>
    cases todo with
    | nil => simpa [mergeLoop] using h
    | cons check todo =>
      simp only [mergeLoop]
      cases mergeVisit owner lockId m.lock check with
      | skip => exact ih _ _ (by simpa using h)
      | shrink lock => exact ih _ _ (by simpa using h.relock lock)
      | split left right =>
        have hsplit := (h.relock left).append_next (e := check.dup m.nextId right) rfl
          (unmarked_of_no_data rfl)
        dsimp only
        split_ifs with hlast
        · rw [isEmpty_iff.1 hlast] at hsplit
          simpa using hsplit
        · exact ih _ _ (by simpa using hsplit)
      | absorb lock =>
        exact ih _ _ (h.sublist ((List.Sublist.refl _).append (sublist_cons_self _ _)))

theorem mergeLockEntry_sound (h : WaitersSound reserved lockList nextId) (entry : LockEntry Owner) :
    let m := mergeLockEntry lockList nextId entry
    WaitersSound reserved m.list m.nextId := by
  refine WaitersSound.map (mergeLoop_sound _ _ _ ⟨[], entry.sleLock, nextId⟩ lockList h) ?_ ?_
  · intro e
    split_ifs <;> rfl
  · intro e he
    split_ifs
    · exact he
    · exact he

theorem subtractLoop_unmarked (owner : Option Owner) (applies : Bool) (state : Int)
    (lock : LockParam) (todo : List (LockEntry Owner)) (acc : Subtract Owner)
    (h : ∀ e ∈ acc.kept ++ acc.split ++ todo, e.Unmarked) :
    let r := subtractLoop owner applies state lock acc todo
    ∀ e ∈ r.kept ++ r.split, e.Unmarked := by
  induction todo generalizing acc with
  | nil => simpa [subtractLoop] using h
  | cons found rest ih =>
    simp only [subtractLoop]
    split
    · refine ih _ fun e he => h e ?_
      simp only [mem_append, mem_cons, not_mem_nil, or_false] at he ⊢
      tauto
    · refine ih _ fun e he => ?_
      simp only [mem_append] at he
      rcases he with (he | he | he) | he
      · exact h e (by simp [he])
      · exact h e (by simp [he])
      · obtain ⟨_, _, rfl⟩ := mem_map.1 he
        exact unmarked_of_no_data rfl
      · exact h e (by simp [he])

end EdgeComputing.Sal
