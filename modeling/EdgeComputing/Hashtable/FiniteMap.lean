import EdgeComputing.Hashtable.TableUpdates
import Mathlib.Data.List.Infix

/-!
The hash table as a finite map, over sequences of calls with latches held in between.
`hashtable_delall` frees nodes and leaves the caches alone.
-/

namespace EdgeComputing.Hashtable

open List Option Library

variable {Key Val : Type} {p : HashParam Key} {ht ht' : Table Key Val} {rc : HashError}
  {other : Key}

def lastStored (p : HashParam Key) (key : Key) : List (Event Key Val) → Option Val
  | [] => none
  | .stored k val :: earlier => if p.compareKey key k then some val else lastStored p key earlier
  | .deleted k :: earlier => if p.compareKey key k then none else lastStored p key earlier
  | .cleared :: _ => none

structure FiniteMap (p : HashParam Key) (σ : HtState Key Val) : Prop where
  lookup : ∀ key index rbtHash, p.compute key = .ok (index, rbtHash) → index < p.indexSize →
    ∃ got, hashtableGetlatch p σ.table key = some got ∧
      got.val = lastStored p key σ.events ∧
      got.rc = if got.val.isSome then .success else .noSuchKey
  one_node : (nodes σ.table).Pairwise (DistinctKeys p)
  count : ∀ partition ∈ σ.table, partition.count = partition.rbt.length
  cache : ∀ partition ∈ σ.table, ∀ slots, partition.cache = some slots →
    ∀ addr, some addr ∈ slots → ∃ n ∈ partition.rbt, n.addr = addr

def Recorded (p : HashParam Key) (ht : Table Key Val) (events : List (Event Key Val)) : Prop :=
  ∀ key val, lastStored p key events = some val ↔
    ∃ n ∈ nodes ht, p.compareKey key n.key = true ∧ n.val = val

theorem SameOthers.exists_iff {key : Key} (hothers : SameOthers p key ht ht')
    (hne : ¬ p.compareKey other key = true) (P : Node Key Val → Prop) :
    (∃ n ∈ nodes ht, p.compareKey other n.key = true ∧ P n) ↔
      ∃ n ∈ nodes ht', p.compareKey other n.key = true ∧ P n := by
  have hsame : ∀ n : Node Key Val, p.compareKey other n.key = true →
      (n ∈ nodes ht' ↔ n ∈ nodes ht) := by
    intro n hn
    exact hothers n fun hkey => hne (p.compare_trans hn (p.compare_symm hkey))
  constructor
  · rintro ⟨n, hn, hcompare, hP⟩
    exact ⟨n, (hsame n hcompare).2 hn, hcompare, hP⟩
  · rintro ⟨n, hn, hcompare, hP⟩
    exact ⟨n, (hsame n hcompare).1 hn, hcompare, hP⟩

section Recorded

variable {events : List (Event Key Val)} (h : Recorded p ht events)

include h

theorem Recorded.congr (hnodes : nodes ht' = nodes ht) : Recorded p ht' events := by
  unfold Recorded
  rw [hnodes]
  exact h

variable {key : Key}

variable {val : Val}

theorem Recorded.store (htrees : TreesOk p ht') (hothers : SameOthers p key ht ht')
    (hnew : ∃ n ∈ nodes ht', p.compareKey key n.key = true ∧ n.val = val) :
    Recorded p ht' (.stored key val :: events) := by
  intro other value
  unfold lastStored
  split_ifs with hcompare
  · obtain ⟨n, hn, hkey, rfl⟩ := hnew
    constructor
    · intro hvalue
      exact ⟨n, hn, p.compare_trans hcompare hkey, some.inj hvalue⟩
    · rintro ⟨m, hm, hother, rfl⟩
      have hnm := p.compare_trans (p.compare_symm (p.compare_trans hcompare hkey)) hother
      rw [htrees.eq_of_key hn hm hnm]
  · exact (h _ value).trans (hothers.exists_iff hcompare _)

theorem Recorded.delete (hothers : SameOthers p key ht ht')
    (hnone : ∀ n ∈ nodes ht', ¬ p.compareKey key n.key = true) :
    Recorded p ht' (.deleted key :: events) := by
  intro other value
  unfold lastStored
  split_ifs with hcompare
  · simp only [false_iff]
    rintro ⟨n, hn, hother, -⟩
    exact hnone n hn (p.compare_trans (p.compare_symm hcompare) hother)
  · exact (h _ value).trans (hothers.exists_iff hcompare _)

omit h in
theorem lastStored_deleted (freed : List (Node Key Val)) :
    lastStored p key (freed.map (fun n => Event.deleted n.key) ++ events) = some val ↔
      (∀ n ∈ freed, ¬ p.compareKey key n.key = true) ∧ lastStored p key events = some val := by
  induction freed with
  | nil => simp
  | cons n rest ih =>
    rw [map_cons, cons_append, lastStored]
    split_ifs with hcompare
    · simp [hcompare]
    · rw [ih, forall_mem_cons]
      simp [hcompare]

variable {freeFunc : Key → Val → Bool}

theorem Recorded.purge (htrees : TreesOk p ht) {freed : List (Node Key Val)}
    (hpurged : Purged freeFunc rc (nodes ht) freed (nodes ht')) :
    Recorded p ht' (delallEvents rc freed ++ events) := by
  intro key val
  obtain ⟨hall, ⟨rfl, hleft, -⟩ | ⟨rfl, -⟩⟩ := hpurged
  · rw [hleft]
    simp [delallEvents, lastStored]
  · have hdistinct := htrees.keys
    rw [hall, pairwise_append] at hdistinct
    rw [delallEvents, if_neg (by decide), lastStored_deleted, h key val, hall]
    constructor
    · rintro ⟨hfreed, n, hn, hcompare, hval⟩
      rcases mem_append.1 hn with hn | hn
      · exact absurd hcompare (hfreed n hn)
      · exact ⟨n, hn, hcompare, hval⟩
    · rintro ⟨n, hn, hcompare, hval⟩
      refine ⟨fun m hm hkey => ?_, n, mem_append_right _ hn, hcompare, hval⟩
      exact hdistinct.2.2 m hm n hn (p.compare_trans (p.compare_symm hkey) hcompare)

end Recorded

def Exclusive (held : List (Held Key)) : Prop :=
  ∀ (i j : Nat) (h g : Held Key), held[i]? = some h → held[j]? = some g → i ≠ j →
    h.latch.index = g.latch.index → h.mayWrite = false

structure HtInv (p : HashParam Key) (σ : HtState Key Val) : Prop where
  trees : TreesOk p σ.table
  events : Recorded p σ.table σ.events
  latches : ∀ h ∈ σ.held, Latched p σ.table h.key h.latch
  exclusive : Exclusive σ.held

variable {held : List (Held Key)}

theorem Exclusive.eraseIdx (h : Exclusive held) (k : Nat) : Exclusive (held.eraseIdx k) := by
  intro i j a b ha hb hij
  refine h _ _ a b (getElem?_eraseIdx_cases ha) (getElem?_eraseIdx_cases hb) ?_
  split_ifs <;> omega

theorem Exclusive.append (h : Exclusive held) {new : Held Key}
    (hlock : canLock held new.latch.index new.mayWrite = true) : Exclusive (held ++ [new]) := by
  have hnew : ∀ g ∈ held, g.latch.index = new.latch.index →
      new.mayWrite = false ∧ g.mayWrite = false := by
    intro g hg hindex
    have hall := all_eq_true.1 hlock g hg
    simpa [hindex] using hall
  intro i j a b ha hb hij hindex
  rcases getElem?_append_cases ha with ⟨hi, rfl⟩ | ⟨-, ha'⟩
  · rcases getElem?_append_cases hb with ⟨hj, -⟩ | ⟨-, hb'⟩
    · exact absurd (hi.trans hj.symm) hij
    · exact (hnew b (mem_of_getElem? hb') hindex.symm).1
  · rcases getElem?_append_cases hb with ⟨-, rfl⟩ | ⟨-, hb'⟩
    · exact (hnew a (mem_of_getElem? ha') hindex).2
    · exact h i j a b ha' hb' hij hindex

theorem Exclusive.set (h : Exclusive held) {k : Nat} {old new : Held Key}
    (hold : held[k]? = some old) (hindex : new.latch.index = old.latch.index)
    (hwrite : new.mayWrite = old.mayWrite) : Exclusive (held.set k new) := by
  have hback : ∀ {i : Nat} {g : Held Key}, (held.set k new)[i]? = some g → ∃ g', held[i]? = some g' ∧
      g.latch.index = g'.latch.index ∧ g.mayWrite = g'.mayWrite := by
    intro i g hg
    rcases getElem?_set_cases hg with ⟨rfl, rfl⟩ | ⟨-, hg⟩
    · exact ⟨old, hold, hindex, hwrite⟩
    · exact ⟨g, hg, rfl, rfl⟩
  intro i j a b ha hb hij hab
  obtain ⟨a', ha', hai, haw⟩ := hback ha
  obtain ⟨b', hb', hbi, -⟩ := hback hb
  rw [haw]
  exact h i j a' b' ha' hb' hij (by rw [← hai, ← hbi, hab])

theorem Latched.others {index rbtHash : Nat} (hcompute : p.compute key = .ok (index, rbtHash))
    (hothers : SameOthers p key ht ht') {latch : HashLatch} (h : Latched p ht other latch)
    (hne : latch.index ≠ index) : Latched p ht' other latch := by
  refine ⟨h.computed, h.inRange, fun addr => (h.locator addr).trans (hothers.exists_iff ?_ _)⟩
  intro hkey
  have hcongr := p.compute_congr _ _ hkey
  rw [h.computed, hcompute] at hcongr
  exact hne (congrArg Prod.fst (Except.ok.inj hcongr))

theorem compute_error (h : p.compute key = .error rc) : rc = .invalidArgument := by
  unfold HashFuncs.compute at h
  split at h
  · split at h
    · exact (Except.error.inj h).symm
    · cases h
  · cases h

theorem getlatch_some (htrees : TreesOk p ht) (hcache : CacheOk p ht) {got : GetResult Key Val}
    (h : hashtableGetlatch p ht key = some got) :
    SameTrees ht got.table ∧ CacheOk p got.table ∧
      (got.latch = none ∧ got.rc = .invalidArgument ∨
      ∃ latch, got.latch = some latch ∧ Latched p ht key latch ∧
        (got.rc = if latch.locator.isSome then .success else .noSuchKey)) := by
  cases hcompute : p.compute key with
  | error rc =>
    simp only [hashtableGetlatch, hcompute, some.injEq] at h
    subst h
    exact ⟨.refl ht, hcache, .inl ⟨rfl, compute_error hcompute⟩⟩
  | ok pair =>
    obtain ⟨index, rbtHash⟩ := pair
    by_cases hindex : index < p.indexSize
    · obtain ⟨found, latch, hfound, hlatch, hlatched, hsame, hcache', hrc, -⟩ :=
        getlatch_spec htrees hcache hcompute hindex
      rw [hfound] at h
      cases h
      exact ⟨hsame, hcache', .inr ⟨latch, hlatch, hlatched, hrc⟩⟩
    · simp only [hashtableGetlatch, hcompute, hindex, if_false, reduceCtorEq] at h

variable {σ τ : HtState Key Val} {newAddr place : Nat} {how : SetHow}

theorem HtInv.sameTrees (h : HtInv p σ) {table : Table Key Val} (hsame : SameTrees σ.table table) :
    HtInv p { σ with table } where
  trees := h.trees.congr hsame
  events := h.events.congr hsame.nodes_eq
  latches g hg := (h.latches g hg).congr hsame.nodes_eq
  exclusive := h.exclusive

theorem HtInv.setlatched (h : HtInv p σ) (hcache : CacheOk p σ.table) {i : Nat} {overwrite : Bool}
    (hstep : htStep p σ (.setlatched i key val overwrite newAddr place) = some τ) :
    HtInv p τ ∧ CacheOk p τ.table := by
  obtain ⟨latched, hheld, hstep⟩ := bind_eq_some_iff.1 hstep
  split_ifs at hstep with hcond
  obtain ⟨hwrite, hkey, hfresh⟩ := hcond
  have hlatched := h.latches latched (mem_of_getElem? hheld)
  obtain ⟨rc, table, hset, htrees, hcache', hothers, hresult⟩ :=
    setlatched_spec h.trees hcache hlatched hkey hfresh val overwrite place
  rw [hset] at hstep
  cases hstep
  have hcompute : p.compute key = .ok (latched.latch.index, latched.latch.rbtHash) := by
    rw [← p.compute_congr _ _ hkey, hlatched.computed]
  refine ⟨⟨htrees, ?_, fun g hg => ?_, h.exclusive.eraseIdx i⟩, hcache'⟩
  · rcases hresult with ⟨rfl, -, -, rfl⟩ | ⟨hrc, hnew⟩
    · exact h.events
    · have hstored : storedIf rc key val = [.stored key val] := by
        rw [hrc]
        cases latched.latch.locator <;> rfl
      rw [hstored]
      exact h.events.store htrees hothers hnew
  · obtain ⟨j, hj, hg⟩ := mem_eraseIdx_iff_getElem?.1 hg
    refine (h.latches g (mem_of_getElem? hg)).others hcompute hothers fun heq => ?_
    have hread := h.exclusive i j latched g hheld hg (Ne.symm hj) heq.symm
    rw [hread] at hwrite
    cases hwrite

theorem HtInv.deletelatched (h : HtInv p σ) (hcache : CacheOk p σ.table) {i : Nat}
    (hstep : htStep p σ (.deletelatched i) = some τ) : HtInv p τ ∧ CacheOk p τ.table := by
  obtain ⟨latched, hheld, hstep⟩ := bind_eq_some_iff.1 hstep
  split_ifs at hstep with hwrite
  obtain ⟨⟨latch, table⟩, hdelete, hstep⟩ := bind_eq_some_iff.1 hstep
  cases hstep
  have hlatched := h.latches latched (mem_of_getElem? hheld)
  obtain ⟨htrees, hcache', hothers, hlatch, hindex, hnone⟩ :=
    deletelatched_spec h.trees hcache hlatched hdelete
  refine ⟨⟨htrees, h.events.delete hothers hnone, fun g hg => ?_,
    h.exclusive.set hheld hindex rfl⟩, hcache'⟩
  obtain ⟨j, hj⟩ := mem_iff_getElem?.1 hg
  rcases getElem?_set_cases hj with ⟨-, rfl⟩ | ⟨hne, hg⟩
  · exact hlatch
  · refine (h.latches g (mem_of_getElem? hg)).others hlatched.computed hothers fun heq => ?_
    have hread := h.exclusive i j latched g hheld hg (Ne.symm hne) heq.symm
    rw [hread] at hwrite
    cases hwrite

theorem HtInv.getlatch (h : HtInv p σ) (hcache : CacheOk p σ.table) {mayWrite : Bool}
    (hstep : htStep p σ (.getlatch key mayWrite) = some τ) : HtInv p τ ∧ CacheOk p τ.table := by
  simp only [htStep] at hstep
  split_ifs at hstep with hlock
  obtain ⟨got, hgot, hstep⟩ := bind_eq_some_iff.1 hstep
  obtain ⟨hsame, hcache', ⟨hnone, -⟩ | ⟨latch, hlatch, hlatched, -⟩⟩ :=
    getlatch_some h.trees hcache hgot
  · simp only [hnone, some.injEq] at hstep
    subst hstep
    exact ⟨h.sameTrees hsame, hcache'⟩
  · simp only [hlatch, some.injEq] at hstep
    subst hstep
    simp only [canLockFor, hlatched.computed] at hlock
    obtain ⟨htrees, hevents, hlatches, hexclusive⟩ := h.sameTrees hsame
    refine ⟨⟨htrees, hevents, fun g hg => ?_, hexclusive.append hlock⟩, hcache'⟩
    rcases mem_append.1 hg with hg | hg
    · exact hlatches g hg
    · rw [mem_singleton.1 hg]
      exact hlatched.congr hsame.nodes_eq

theorem testAndSet_spec (htrees : TreesOk p ht) (hcache : CacheOk p ht)
    (hfresh : nodeAt ht newAddr = none)
    (h : hashtableTestAndSet p ht key val how newAddr place = some (rc, ht')) :
    CacheOk p ht' ∧
      (SameTrees ht ht' ∧ (how = .testOnly ∨ storedIf rc key val = []) ∨
        how ≠ .testOnly ∧ rc = .success ∧ TreesOk p ht' ∧ SameOthers p key ht ht' ∧
          (∃ latch, Latched p ht key latch) ∧
          ∃ n ∈ nodes ht', p.compareKey key n.key = true ∧ n.val = val) := by
  obtain ⟨got, hgot, h⟩ := bind_eq_some_iff.1 h
  obtain ⟨hsame, hcache', ⟨hnone, hrc⟩ | ⟨latch, hlatch, hlatched, hrc⟩⟩ :=
    getlatch_some htrees hcache hgot
  · simp only [hnone, some.injEq, Prod.mk.injEq] at h
    obtain ⟨rfl, rfl⟩ := h
    exact ⟨hcache', .inl ⟨hsame, .inr (by rw [hrc]; rfl)⟩⟩
  · simp only [hlatch] at h
    -- The set that may follow works on the table after the lookup.
    have hfresh' : nodeAt got.table newAddr = none := by
      rw [nodeAt_eq_none, hsame.nodes_eq]
      exact nodeAt_eq_none.1 hfresh
    have hset := setlatched_spec (htrees.congr hsame) hcache' (hlatched.congr hsame.nodes_eq)
      (p.compare_refl key) hfresh' val
    have hothers : ∀ {table}, SameOthers p key got.table table → SameOthers p key ht table := by
      intro table hothers n hn
      rw [hothers n hn, hsame.nodes_eq]
    cases how with
    | testOnly =>
      simp only [some.injEq, Prod.mk.injEq] at h
      obtain ⟨rfl, rfl⟩ := h
      exact ⟨hcache', .inl ⟨hsame, .inl rfl⟩⟩
    | setNoOverwrite =>
      simp only at h
      split_ifs at h with hfound
      · obtain ⟨rfl, rfl⟩ := Prod.mk.inj (some.inj h)
        exact ⟨hcache', .inl ⟨hsame, .inr rfl⟩⟩
      · obtain ⟨rc', table, heq, htrees', hcache'', hsameOthers, hresult⟩ := hset false place
        rw [heq] at h
        obtain ⟨rfl, rfl⟩ := Prod.mk.inj (some.inj h)
        have hlocator : latch.locator.isSome = false := by
          by_contra hsome
          rw [Bool.not_eq_false] at hsome
          rw [hsome] at hrc
          exact hfound hrc
        rcases hresult with ⟨-, -, hsome, -⟩ | ⟨hrc', hnew⟩
        · rw [hlocator] at hsome
          cases hsome
        · rw [hlocator] at hrc'
          exact ⟨hcache'', .inr ⟨nofun, hrc', htrees', hothers hsameOthers, ⟨latch, hlatched⟩, hnew⟩⟩
    | setOverwrite =>
      obtain ⟨rc', table, heq, htrees', hcache'', hsameOthers, hresult⟩ := hset true place
      simp only [heq, bind_eq_bind, bind_some, some.injEq, Prod.mk.injEq] at h
      obtain ⟨rfl, rfl⟩ := h
      rcases hresult with ⟨-, hfalse, -⟩ | ⟨hrc', hnew⟩
      · cases hfalse
      · refine ⟨hcache'', .inr ⟨nofun, ?_, htrees', hothers hsameOthers, ⟨latch, hlatched⟩, hnew⟩⟩
        rw [hrc']
        cases latch.locator <;> rfl

theorem HtInv.testAndSet (h : HtInv p σ) (hcache : CacheOk p σ.table)
    (hstep : htStep p σ (.testAndSet key val how newAddr place) = some τ) :
    HtInv p τ ∧ CacheOk p τ.table := by
  simp only [htStep, ite_none_right_eq_some] at hstep
  obtain ⟨⟨hlock, hfresh⟩, hstep⟩ := hstep
  obtain ⟨⟨rc, table⟩, htest, hstep⟩ := bind_eq_some_iff.1 hstep
  obtain ⟨hcache', ⟨hsame, hquiet⟩ | ⟨hhow, rfl, htrees, hothers, ⟨latch, hlatched⟩, hnew⟩⟩ :=
    testAndSet_spec h.trees hcache hfresh htest
  · have hevents : (if how = .testOnly then [] else storedIf rc key val) = [] := by
      split_ifs with hhow
      · rfl
      · exact hquiet.resolve_left hhow
    simp only [hevents, nil_append, some.injEq] at hstep
    subst hstep
    exact ⟨h.sameTrees hsame, hcache'⟩
  · simp only [hhow, if_false, some.injEq] at hstep
    subst hstep
    refine ⟨⟨htrees, h.events.store htrees hothers hnew, fun g hg => ?_, h.exclusive⟩, hcache'⟩
    refine (h.latches g hg).others hlatched.computed hothers fun heq => ?_
    -- The write lock is not given while a latch is held.
    simp only [canLockFor, hlatched.computed] at hlock
    have hall := all_eq_true.1 hlock g hg
    simp [heq, hhow] at hall

theorem HtInv.delall (h : HtInv p σ) (hstep : htStep p σ (.delall freeFunc) = some τ) :
    HtInv p τ ∧ List.Forall₂ PurgedPartition σ.table τ.table ∧
      ∃ rc freed, Purged freeFunc rc (nodes σ.table) freed (nodes τ.table) := by
  obtain ⟨⟨rc, freed, table⟩, hdelall, hstep⟩ := bind_eq_some_iff.1 hstep
  cases hstep
  obtain ⟨hpurged, hforall, hlocked⟩ := delallLoop_spec hdelall
  have hsublist : (nodes table).Sublist (nodes σ.table) := by
    rw [hpurged.1]
    exact sublist_append_right _ _
  refine ⟨⟨treesOk_of_partitions (by rw [← hforall.length_eq, h.trees.size]) ?_
    (h.trees.addrs.sublist (hsublist.map _)) (h.trees.keys.sublist hsublist),
    h.events.purge h.trees hpurged, ?_, h.exclusive⟩, hforall, rc, freed, hpurged⟩
  · intro i left hi
    obtain ⟨partition, hpartition, hleft⟩ := forall₂_getElem? hforall hi
    obtain ⟨hplaced, hsorted, hcount⟩ := h.trees.partitionOk hpartition
    exact ⟨fun n hn => hplaced n (hleft.rbt.subset hn), hsorted.sublist hleft.rbt,
      hleft.count hcount⟩
  · intro g hg
    have hlatched := h.latches g hg
    refine ⟨hlatched.computed, hlatched.inRange, fun addr => ?_⟩
    rw [hlatched.locator addr]
    -- The partition of a held latch is not reached.
    have hkept : table[g.latch.index]? = σ.table[g.latch.index]? := by
      apply hlocked
      rw [Nat.zero_add, Bool.not_eq_true', canLock, List.all_eq_false]
      exact ⟨g, hg, by simp⟩
    obtain ⟨partition, hpartition⟩ := h.trees.partition hlatched.inRange
    constructor
    · rintro ⟨n, hn, hcompare, haddr⟩
      obtain ⟨hin, -⟩ := h.trees.mem_partition hlatched.computed hpartition hn hcompare
      exact ⟨n, mem_nodes.2 ⟨_, partition, hkept.trans hpartition, hin⟩, hcompare, haddr⟩
    · rintro ⟨n, hn, hcompare, haddr⟩
      exact ⟨n, hsublist.subset hn, hcompare, haddr⟩

/-- An entry that `free_func` refuses stands before the node at the address, as `hashtable_delall`
visits the nodes. -/
def refusedBefore (freeFunc : Key → Val → Bool) (all : List (Node Key Val)) (addr : Nat) : Bool :=
  all.tails.any fun
    | [] => false
    | m :: behind => !freeFunc m.key m.val && behind.any (·.addr == addr)

/-- The calls that free no cached node: all but `hashtable_delall`, and that one where a refused
entry stands before each cached node. -/
def SparesCached (σ : HtState Key Val) : HtCall Key Val → Prop
  | .delall freeFunc => ∀ partition ∈ σ.table, ∀ slots ∈ partition.cache, ∀ slot ∈ slots,
      ∀ addr ∈ slot, refusedBefore freeFunc (nodes σ.table) addr = true
  | _ => True

theorem refusedBefore_iff {all : List (Node Key Val)} {addr : Nat} :
    refusedBefore freeFunc all addr = true ↔
      ∃ before m behind, all = before ++ m :: behind ∧ freeFunc m.key m.val = false ∧
        ∃ n ∈ behind, n.addr = addr := by
  unfold refusedBefore
  rw [List.any_eq_true]
  constructor
  · rintro ⟨tail, htail, hrefused⟩
    obtain ⟨before, rfl⟩ := (mem_tails ..).1 htail
    cases tail with
    | nil => cases hrefused
    | cons m behind => exact ⟨before, m, behind, rfl, by simpa using hrefused⟩
  · rintro ⟨before, m, behind, rfl, hfree, hbehind⟩
    exact ⟨m :: behind, (mem_tails ..).2 ⟨before, rfl⟩, by simpa [hfree] using hbehind⟩

theorem HtInv.finiteMap (h : HtInv p σ) (hcache : CacheOk p σ.table) : FiniteMap p σ where
  lookup := by
    intro key index rbtHash hcompute hindex
    obtain ⟨got, latch, hgot, -, hlatched, -, -, hrc, hval⟩ :=
      getlatch_spec h.trees hcache hcompute hindex
    have hstored : got.val = lastStored p key σ.events := by
      apply Option.ext
      intro val
      rw [hval, h.events key val]
    refine ⟨got, hgot, hstored, ?_⟩
    rw [hrc]
    have hsome : latch.locator.isSome = got.val.isSome := by
      rw [Bool.eq_iff_iff, isSome_iff_exists, isSome_iff_exists]
      constructor
      · rintro ⟨addr, haddr⟩
        obtain ⟨n, hn, hcompare, -⟩ := (hlatched.locator addr).1 haddr
        exact ⟨n.val, (hval n.val).2 ⟨n, hn, hcompare, rfl⟩⟩
      · rintro ⟨val, hsome⟩
        obtain ⟨n, hn, hcompare, -⟩ := (hval val).1 hsome
        exact ⟨n.addr, (hlatched.locator n.addr).2 ⟨n, hn, hcompare, rfl⟩⟩
    rw [hsome]
  one_node := h.trees.keys
  count := h.trees.count
  cache := by
    intro partition hmem slots hslots addr haddr
    obtain ⟨k, hk⟩ := mem_iff_getElem?.1 haddr
    obtain ⟨n, hn, heq, -⟩ := hcache partition hmem slots hslots k addr hk
    exact ⟨n, hn, heq⟩

theorem HtInv.delall_cache (h : HtInv p σ) (hcache : CacheOk p σ.table)
    (hstep : htStep p σ (.delall freeFunc) = some τ) (hspares : SparesCached σ (.delall freeFunc)) :
    CacheOk p τ.table := by
  obtain ⟨hinv, hforall, rc, freed, hpurged⟩ := h.delall hstep
  intro left hmem slots hslots k addr hk
  obtain ⟨i, hi⟩ := mem_iff_getElem?.1 hmem
  obtain ⟨partition, hpartition, hleft⟩ := forall₂_getElem? hforall hi
  have hpmem := mem_of_getElem? hpartition
  rw [hleft.cache] at hslots
  obtain ⟨n, hn, rfl, hoffset⟩ := hcache partition hpmem slots hslots k addr hk
  obtain ⟨before, m, behind, hall, hrefused, n', hn', haddr⟩ := refusedBefore_iff.1
    (hspares partition hpmem slots hslots _ (mem_of_getElem? hk) n.addr rfl)
  -- The cached node is the one behind the refused entry, and it is still in its partition.
  have hnode := mem_nodes.2 ⟨i, partition, hpartition, hn⟩
  have hsame : n' = n := by
    refine eq_of_addr h.trees.addrs ?_ hnode haddr
    rw [hall]
    exact mem_append_right _ (.tail _ hn')
  subst hsame
  have hkept := hpurged.mem_left hall hrefused hn'
  obtain ⟨hin, -⟩ := hinv.trees.mem_partition (h.trees.placed i partition hpartition n' hn) hi hkept
    (p.compare_refl _)
  exact ⟨n', hin, rfl, hoffset⟩

theorem HtInv.delall_spares (h : HtInv p σ) (hstep : htStep p σ (.delall freeFunc) = some τ)
    (hmap : FiniteMap p τ) : SparesCached σ (.delall freeFunc) := by
  obtain ⟨-, hforall, rc, freed, hpurged⟩ := h.delall hstep
  intro partition hmem slots hslots slot hslot addr haddr
  obtain ⟨i, hi⟩ := mem_iff_getElem?.1 hmem
  obtain ⟨left, hleft, hpair⟩ := forall₂_getElem? hforall.flip hi
  obtain ⟨n, hn, heq⟩ := hmap.cache left (mem_of_getElem? hleft) slots
    (hpair.cache.trans hslots) addr (by rw [← mem_def.1 haddr]; exact hslot)
  have hleft_node := mem_nodes.2 ⟨i, left, hleft, hn⟩
  obtain ⟨hall, ⟨-, hnil, -⟩ | ⟨-, first, last, rfl, -, hrefused⟩⟩ := hpurged
  · rw [hnil] at hleft_node
    cases hleft_node
  · rw [append_assoc] at hall
    exact refusedBefore_iff.2 ⟨first, last, _, hall, hrefused, n, hleft_node, heq⟩

theorem htStep_inv {c : HtCall Key Val} (h : HtInv p σ) (hcache : CacheOk p σ.table)
    (hspares : SparesCached σ c) (hstep : htStep p σ c = some τ) : HtInv p τ ∧ CacheOk p τ.table := by
  cases c with
  | lookup key =>
    simp only [htStep, ite_none_right_eq_some] at hstep
    obtain ⟨got, hgot, hstep⟩ := bind_eq_some_iff.1 hstep.2
    obtain ⟨hsame, hcache', -⟩ := getlatch_some h.trees hcache hgot
    cases hstep
    exact ⟨h.sameTrees hsame, hcache'⟩
  | getlatch key mayWrite => exact h.getlatch hcache hstep
  | releaselatched i =>
    obtain ⟨latched, -, hstep⟩ := bind_eq_some_iff.1 hstep
    cases hstep
    exact ⟨⟨h.trees, h.events, fun g hg => h.latches g (mem_of_mem_eraseIdx hg),
      h.exclusive.eraseIdx i⟩, hcache⟩
  | setlatched i key val overwrite newAddr place => exact h.setlatched hcache hstep
  | deletelatched i => exact h.deletelatched hcache hstep
  | testAndSet key val how newAddr place => exact h.testAndSet hcache hstep
  | delall freeFunc => exact ⟨(h.delall hstep).1, h.delall_cache hcache hstep hspares⟩

theorem htInv_init (p : HashParam Key) :
    HtInv p (⟨hashtableInit p, [], []⟩ : HtState Key Val) ∧
      CacheOk p (hashtableInit p : Table Key Val) := by
  have hempty : nodes (hashtableInit p : Table Key Val) = [] := by
    simp [nodes, hashtableInit]
  have hpartition : ∀ partition ∈ (hashtableInit p : Table Key Val), partition =
      ⟨0, [], if p.flagCache then some (List.replicate (entryCount p) none) else none⟩ :=
    fun partition hmem => eq_of_mem_replicate hmem
  refine ⟨⟨treesOk_of_partitions length_replicate ?_ ?_ ?_, ?_, by simp, ?_⟩, ?_⟩
  · intro i partition hi
    rw [hpartition partition (mem_of_getElem? hi)]
    exact ⟨by simp, .nil, rfl⟩
  · rw [hempty]
    exact .nil
  · rw [hempty]
    exact .nil
  · intro key val
    rw [hempty]
    simp [lastStored]
  · intro i j h g hi
    simp at hi
  · intro partition hmem slots hslots k addr hk
    rw [hpartition partition hmem] at hslots
    split_ifs at hslots
    have hslot := mem_of_getElem? hk
    rw [← some.inj hslots] at hslot
    cases eq_of_mem_replicate hslot

/-- The table is a finite map after every sequence of calls that free no cached node, and a call
keeps it one exactly where it frees no cached node. -/
theorem hashtable_finite_map_iff (p : HashParam Key) {σ : HtState Key Val}
    (hσ : (htMachine p).ReachableBy SparesCached σ) :
    FiniteMap p σ ∧ ∀ c τ, htStep p σ c = some τ → (SparesCached σ c ↔ FiniteMap p τ) := by
  obtain ⟨hinv, hcache⟩ : HtInv p σ ∧ CacheOk p σ.table := by
    refine Machine.ReachableBy.invariant (P := fun s => HtInv p s ∧ CacheOk p s.table) ?_ ?_ hσ
    · rintro s rfl
      exact htInv_init p
    · rintro s c t ⟨hinv, hcache⟩ hspares hstep
      exact htStep_inv hinv hcache hspares hstep
  refine ⟨hinv.finiteMap hcache, fun c τ hstep => ⟨fun hspares => ?_, fun hmap => ?_⟩⟩
  · obtain ⟨hinv', hcache'⟩ := htStep_inv hinv hcache hspares hstep
    exact hinv'.finiteMap hcache'
  · cases c with
    | delall freeFunc => exact hinv.delall_spares hstep hmap
    | _ => trivial

/-- Two partitions with caches of two slots; every two keys of one parity share a partition, and
every fourth one a hash. -/
def numberParam : HashParam Nat where
  hashFuncKey key := key % 2
  hashFuncRbt key := key / 2 % 2
  hashFuncBoth := none
  flagCache := true
  cacheEntryCount := 2
  indexSize := 2
  compareKey a b := a == b
  compare_equivalence := by
    simp only [beq_iff_eq]
    exact eq_equivalence
  compute_congr a b h := by rw [eq_of_beq h]

instance (σ : HtState Key Val) : (c : HtCall Key Val) → Decidable (SparesCached σ c)
  | .delall freeFunc => inferInstanceAs (Decidable (∀ partition ∈ σ.table,
      ∀ slots ∈ partition.cache, ∀ slot ∈ slots, ∀ addr ∈ slot,
        refusedBefore freeFunc (nodes σ.table) addr = true))
  | .lookup _ | .getlatch _ _ | .releaselatched _ | .setlatched .. | .deletelatched _
  | .testAndSet .. => .isTrue trivial

def numberInit : HtState Nat Nat := ⟨hashtableInit numberParam, [], []⟩

/-- Three entries, the last one cached and replaced over one latch, and a `hashtable_delall` that
ends at the first entry. -/
def sparingCalls : List (HtCall Nat Nat) :=
  [.testAndSet 1 10 .setNoOverwrite 100 0, .testAndSet 3 30 .setNoOverwrite 101 0,
    .testAndSet 5 50 .setOverwrite 102 1, .getlatch 5 true, .deletelatched 0,
    .setlatched 0 5 55 false 102 1, .lookup 5, .delall fun key _ => key != 1]

theorem finite_map_after_refusal :
    ∃ σ : HtState Nat Nat, (htMachine numberParam).ReachableBy SparesCached σ ∧
      σ.table.map (fun partition => (partition.rbt.map Node.key, partition.cache)) =
        [([], some [none, none]), ([5, 3], some [some 102, none])] ∧
      FiniteMap numberParam σ := by
  have hrun : ((htMachine numberParam).runFromBy SparesCached numberInit sparingCalls).map
      (fun σ => σ.table.map fun partition => (partition.rbt.map Node.key, partition.cache)) =
        some [([], some [none, none]), ([5, 3], some [some 102, none])] := by
    decide +kernel
  obtain ⟨σ, hreach, htable⟩ := Machine.exists_reachableBy hrun (.init rfl)
  exact ⟨σ, hreach, htable, (hashtable_finite_map_iff numberParam hreach).1⟩

def clearingCalls : List (HtCall Nat Nat) :=
  [.testAndSet 1 10 .setNoOverwrite 100 0, .lookup 1, .delall fun _ _ => true]

/-- `hashtable_delall` succeeds, the slot of the cache keeps the address of the freed node, and
the next lookup of the key reads it. -/
theorem cached_node_freed :
    ∃ σ : HtState Nat Nat, (htMachine numberParam).Reachable σ ∧
      σ.events = [.cleared, .stored 1 10] ∧
      hashtableGetlatch numberParam σ.table 1 = none ∧ ¬ FiniteMap numberParam σ := by
  have hrun : ((htMachine numberParam).runFrom numberInit clearingCalls).map
      (fun σ => (σ.events, σ.table)) = some ([.cleared, .stored 1 10],
        [⟨0, [], some [none, none]⟩, ⟨0, [], some [some 100, none]⟩]) := by
    decide +kernel
  obtain ⟨σ, hreach, hstate⟩ := Machine.exists_reachable hrun (.init rfl)
  obtain ⟨hevents, htable⟩ := Prod.mk.inj hstate
  refine ⟨σ, hreach, hevents, ?_, fun hmap => ?_⟩
  · rw [htable]
    rfl
  · obtain ⟨n, hn, -⟩ := hmap.cache ⟨0, [], some [some 100, none]⟩ (by rw [htable]; simp) _ rfl 100
      (.head _)
    cases hn

end EdgeComputing.Hashtable
