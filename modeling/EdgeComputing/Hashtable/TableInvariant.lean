import EdgeComputing.Library.Table
import EdgeComputing.Hashtable.HashTable
import Mathlib.Data.List.Pairwise

/-!
What the functions of the hash table keep: a node stands in the partition and under the hash of its
key, no two share a key or an address, and a node is cached only in the slot of its hash. Effects
are stated on the list of all nodes.
-/

namespace EdgeComputing.Hashtable

open List Option Library

variable {Key Val : Type} {p : HashParam Key} {ht ht' : Table Key Val} {n : Node Key Val}
  {index rbtHash : Nat} {key : Key} {i : Nat}

theorem HashParam.compare_refl (p : HashParam Key) (a : Key) : p.compareKey a a = true :=
  p.compare_equivalence.refl a

theorem HashParam.compare_symm (p : HashParam Key) {a b : Key} (h : p.compareKey a b = true) :
    p.compareKey b a = true :=
  p.compare_equivalence.symm h

theorem HashParam.compare_trans (p : HashParam Key) {a b c : Key} (hab : p.compareKey a b = true)
    (hbc : p.compareKey b c = true) : p.compareKey a c = true :=
  p.compare_equivalence.trans hab hbc

theorem mem_nodes :
    n ∈ nodes ht ↔
      ∃ (i : Nat) (partition : Partition Key Val), ht[i]? = some partition ∧ n ∈ partition.rbt := by
  unfold nodes
  rw [mem_flatMap]
  constructor
  · rintro ⟨partition, hmem, hn⟩
    obtain ⟨i, hi⟩ := mem_iff_getElem?.1 hmem
    exact ⟨i, partition, hi, hn⟩
  · rintro ⟨i, partition, hi, hn⟩
    exact ⟨partition, mem_of_getElem? hi, hn⟩

theorem nodes_split {partition : Partition Key Val} (h : ht[i]? = some partition) :
    ∃ before after, nodes ht = before ++ (partition.rbt ++ after) ∧
      ∀ changed : Partition Key Val,
        nodes (ht.set i changed) = before ++ (changed.rbt ++ after) := by
  induction ht generalizing i with
  | nil => simp at h
  | cons first rest ih =>
    cases i with
    | zero =>
      simp only [getElem?_cons_zero, some.injEq] at h
      subst h
      exact ⟨[], nodes rest, by simp [nodes], fun changed => by simp [nodes]⟩
    | succ i =>
      obtain ⟨before, after, hnodes, hset⟩ := ih (by simpa using h)
      refine ⟨first.rbt ++ before, after, ?_, fun changed => ?_⟩
      · simp only [nodes, flatMap_cons] at hnodes ⊢
        rw [hnodes, append_assoc]
      · have hrest := hset changed
        simp only [nodes, set_cons_succ, flatMap_cons] at hrest ⊢
        rw [hrest, append_assoc]

theorem nodeAt_eq_none {addr : Nat} : nodeAt ht addr = none ↔ ∀ n ∈ nodes ht, n.addr ≠ addr := by
  simp [nodeAt, find?_eq_none]

theorem eq_of_addr (haddrs : ((nodes ht).map Node.addr).Nodup) {n m : Node Key Val}
    (hn : n ∈ nodes ht) (hm : m ∈ nodes ht) (h : n.addr = m.addr) : n = m :=
  inj_on_of_nodup_map haddrs hn hm h

theorem nodeAt_eq_some (haddrs : ((nodes ht).map Node.addr).Nodup) (hn : n ∈ nodes ht) :
    nodeAt ht n.addr = some n := by
  cases hfound : nodeAt ht n.addr with
  | none => exact absurd rfl (nodeAt_eq_none.1 hfound n hn)
  | some m =>
    have haddr : m.addr = n.addr := by simpa using find?_some hfound
    rw [eq_of_addr haddrs (mem_of_find?_eq_some hfound) hn haddr]

def DistinctKeys (p : HashParam Key) (n m : Node Key Val) : Prop :=
  ¬ p.compareKey n.key m.key = true

theorem DistinctKeys.symm {n m : Node Key Val} (h : DistinctKeys p n m) : DistinctKeys p m n :=
  fun hcompare => h (p.compare_symm hcompare)

instance : Std.Symm (@DistinctKeys Key Val p) :=
  ⟨fun _ _ h => h.symm⟩

structure TreesOk (p : HashParam Key) (ht : Table Key Val) : Prop where
  size : ht.length = p.indexSize
  placed : ∀ (i : Nat) (partition : Partition Key Val), ht[i]? = some partition →
    ∀ n ∈ partition.rbt, p.compute n.key = .ok (i, n.rbtValue)
  sorted : ∀ partition ∈ ht, partition.rbt.Pairwise fun n m => n.rbtValue ≤ m.rbtValue
  count : ∀ partition ∈ ht, partition.count = partition.rbt.length
  addrs : ((nodes ht).map Node.addr).Nodup
  keys : (nodes ht).Pairwise (DistinctKeys p)

structure PartitionOk (p : HashParam Key) (i : Nat) (partition : Partition Key Val) : Prop where
  placed : ∀ n ∈ partition.rbt, p.compute n.key = .ok (i, n.rbtValue)
  sorted : partition.rbt.Pairwise fun n m => n.rbtValue ≤ m.rbtValue
  count : partition.count = partition.rbt.length

theorem TreesOk.partitionOk (h : TreesOk p ht) {partition : Partition Key Val}
    (hi : ht[i]? = some partition) : PartitionOk p i partition :=
  ⟨h.placed i partition hi, h.sorted partition (mem_of_getElem? hi),
    h.count partition (mem_of_getElem? hi)⟩

theorem treesOk_of_partitions (hsize : ht.length = p.indexSize)
    (h : ∀ (i : Nat) (partition : Partition Key Val), ht[i]? = some partition →
      PartitionOk p i partition)
    (haddrs : ((nodes ht).map Node.addr).Nodup) (hkeys : (nodes ht).Pairwise (DistinctKeys p)) :
    TreesOk p ht := by
  have hmem : ∀ partition ∈ ht, ∃ i, PartitionOk p i partition := by
    intro partition hpartition
    obtain ⟨i, hi⟩ := mem_iff_getElem?.1 hpartition
    exact ⟨i, h i partition hi⟩
  exact ⟨hsize, fun i partition hi => (h i partition hi).placed,
    fun partition hp => (hmem partition hp).elim fun _ hi => hi.sorted,
    fun partition hp => (hmem partition hp).elim fun _ hi => hi.count, haddrs, hkeys⟩

def CacheOk (p : HashParam Key) (ht : Table Key Val) : Prop :=
  ∀ partition ∈ ht, ∀ slots, partition.cache = some slots →
    ∀ (k addr : Nat), slots[k]? = some (some addr) →
      ∃ n ∈ partition.rbt, n.addr = addr ∧ cacheOffsetof p n.rbtValue = k

structure Latched (p : HashParam Key) (ht : Table Key Val) (key : Key) (latch : HashLatch) :
    Prop where
  computed : p.compute key = .ok (latch.index, latch.rbtHash)
  inRange : latch.index < p.indexSize
  locator : ∀ addr, latch.locator = some addr ↔
    ∃ n ∈ nodes ht, p.compareKey key n.key = true ∧ n.addr = addr

theorem TreesOk.eq_of_key (h : TreesOk p ht) {n m : Node Key Val} (hn : n ∈ nodes ht)
    (hm : m ∈ nodes ht) (hcompare : p.compareKey n.key m.key = true) : n = m := by
  by_contra hne
  exact h.keys.forall hn hm hne hcompare

theorem TreesOk.partition (h : TreesOk p ht) {index : Nat} (hindex : index < p.indexSize) :
    ∃ partition, ht[index]? = some partition := by
  rw [← h.size] at hindex
  exact ⟨ht[index], getElem?_eq_getElem hindex⟩

theorem TreesOk.mem_partition (h : TreesOk p ht) (hcompute : p.compute key = .ok (index, rbtHash))
    {partition : Partition Key Val} (hpartition : ht[index]? = some partition) (hn : n ∈ nodes ht)
    (hcompare : p.compareKey key n.key = true) : n ∈ partition.rbt ∧ n.rbtValue = rbtHash := by
  obtain ⟨i, other, hi, hmem⟩ := mem_nodes.1 hn
  have hplaced := h.placed i other hi n hmem
  rw [← p.compute_congr _ _ hcompare, hcompute] at hplaced
  obtain ⟨rfl, rfl⟩ := Prod.mk.inj (Except.ok.inj hplaced)
  rw [hpartition] at hi
  exact ⟨some.inj hi ▸ hmem, rfl⟩

def SameTrees (ht ht' : Table Key Val) : Prop :=
  ht'.map (fun partition => (partition.count, partition.rbt)) =
    ht.map fun partition => (partition.count, partition.rbt)

theorem SameTrees.refl (ht : Table Key Val) : SameTrees ht ht :=
  rfl

theorem SameTrees.nodes_eq (h : SameTrees ht ht') : nodes ht' = nodes ht := by
  have hflat := congrArg (List.flatMap Prod.snd) h
  simpa only [flatMap_map, nodes] using hflat

theorem SameTrees.getElem? (h : SameTrees ht ht') {partition : Partition Key Val}
    (hi : ht'[i]? = some partition) :
    ∃ before, ht[i]? = some before ∧ partition.count = before.count ∧
      partition.rbt = before.rbt := by
  have hat := congrArg (fun l => l[i]?) h
  simp only [getElem?_map, hi, map_some] at hat
  obtain ⟨before, hbefore, heq⟩ := map_eq_some_iff.1 hat.symm
  exact ⟨before, hbefore, (congrArg Prod.fst heq).symm, (congrArg Prod.snd heq).symm⟩

theorem TreesOk.congr (h : TreesOk p ht) (hsame : SameTrees ht ht') : TreesOk p ht' := by
  refine treesOk_of_partitions ?_ (fun i partition hi => ?_) (hsame.nodes_eq ▸ h.addrs)
    (hsame.nodes_eq ▸ h.keys)
  · have hlength := congrArg List.length hsame
    simp only [length_map] at hlength
    rw [hlength, h.size]
  · obtain ⟨before, hbefore, hcount, hrbt⟩ := hsame.getElem? hi
    obtain ⟨hplaced, hsorted, hold⟩ := h.partitionOk hbefore
    rw [← hrbt] at hplaced hsorted hold
    exact ⟨hplaced, hsorted, hcount.trans hold⟩

section

variable {key : Key} {rbtHash : Nat} {rbt : List (Node Key Val)}
  (hsorted : rbt.Pairwise fun n m => n.rbtValue ≤ m.rbtValue)
  (hplaced : ∀ n ∈ rbt, p.compareKey key n.key = true → n.rbtValue = rbtHash)
include hsorted hplaced

theorem locateLoop_eq_find (hle : ∀ n ∈ rbt, rbtHash ≤ n.rbtValue) :
    locateLoop p key rbtHash rbt = rbt.find? fun n => p.compareKey key n.key := by
  induction rbt with
  | nil => rfl
  | cons n rest ih =>
    obtain ⟨hfirst, hrest⟩ := pairwise_cons.1 hsorted
    unfold locateLoop
    split_ifs with hvalue hcompare
    · simp [hcompare]
    · rw [find?_cons_of_neg (by simpa using hcompare)]
      exact ih hrest (fun m hm => hplaced m (.tail _ hm)) (fun m hm => hle m (.tail _ hm))
    · symm
      rw [find?_eq_none]
      intro m hm hcompare
      -- A node behind a larger hash has a larger hash itself.
      have hm_hash := hplaced m hm hcompare
      have hn_le := hle n (.head _)
      rcases mem_cons.1 hm with rfl | hm
      · exact hvalue hm_hash
      · have := hfirst m hm
        omega

theorem locate_eq_find :
    locateLoop p key rbtHash (rbtFindLeft rbtHash rbt) =
      rbt.find? fun n => p.compareKey key n.key := by
  induction rbt with
  | nil => rfl
  | cons n rest ih =>
    obtain ⟨hfirst, hrest⟩ := pairwise_cons.1 hsorted
    by_cases hvalue : n.rbtValue = rbtHash
    · have hleft : rbtFindLeft rbtHash (n :: rest) = n :: rest := by
        simp [rbtFindLeft, hvalue]
      rw [hleft]
      apply locateLoop_eq_find hsorted hplaced
      intro m hm
      rcases mem_cons.1 hm with rfl | hm
      · omega
      · have := hfirst m hm
        omega
    · have hleft : rbtFindLeft rbtHash (n :: rest) = rbtFindLeft rbtHash rest := by
        simp [rbtFindLeft, hvalue]
      have hcompare : ¬ p.compareKey key n.key = true :=
        fun hcompare => hvalue (hplaced n (.head _) hcompare)
      rw [hleft, find?_cons_of_neg (by simpa using hcompare)]
      exact ih hrest fun m hm => hplaced m (.tail _ hm)

end

theorem CacheOk.setCache (h : CacheOk p ht) {partition : Partition Key Val}
    (hi : ht[i]? = some partition) (hn : n ∈ partition.rbt) :
    CacheOk p (ht.set i (partition.setCache (cacheOffsetof p n.rbtValue) (some n.addr))) := by
  intro other hother slots hslots k addr hk
  rcases mem_or_eq_of_mem_set hother with hold | rfl
  · exact h other hold slots hslots k addr hk
  · obtain ⟨before, hbefore, rfl⟩ := map_eq_some_iff.1 hslots
    rcases getElem?_set_cases hk with ⟨rfl, haddr⟩ | ⟨-, hkept⟩
    · exact ⟨n, hn, (some.inj haddr).symm, rfl⟩
    · exact h partition (mem_of_getElem? hi) before hbefore k addr hkept

/-- `key_locate` finds the node of the key and no other, whether it comes from the cache or
from the tree. -/
theorem keyLocate_spec (htrees : TreesOk p ht) (hcache : CacheOk p ht)
    (hcompute : p.compute key = .ok (index, rbtHash)) (hindex : index < p.indexSize) :
    ∃ locator table, keyLocate p ht key index rbtHash =
        some (if locator.isSome then .success else .noSuchKey, locator, table) ∧
      Latched p ht key ⟨locator, rbtHash, index⟩ ∧ SameTrees ht table ∧ CacheOk p table := by
  obtain ⟨partition, hpartition⟩ := htrees.partition hindex
  have hmem := mem_of_getElem? hpartition
  have hplaced : ∀ n ∈ partition.rbt, p.compareKey key n.key = true → n.rbtValue = rbtHash :=
    fun n hn hcompare => (htrees.mem_partition hcompute hpartition
      (mem_nodes.2 ⟨index, partition, hpartition, hn⟩) hcompare).2
  have hlatched : ∀ {n : Node Key Val}, n ∈ partition.rbt → p.compareKey key n.key = true →
      Latched p ht key ⟨some n.addr, rbtHash, index⟩ := by
    intro n hn hcompare
    have hnodes := mem_nodes.2 ⟨index, partition, hpartition, hn⟩
    refine ⟨hcompute, hindex, fun addr => ⟨fun h => ?_, fun ⟨m, hm, hkey, haddr⟩ => ?_⟩⟩
    · exact ⟨n, hnodes, hcompare, some.inj h⟩
    · rw [htrees.eq_of_key hnodes hm (p.compare_trans (p.compare_symm hcompare) hkey), haddr]
  -- The search of the tree, after a miss in the cache.
  have htree : ∃ locator table, locateInTree p ht partition key index rbtHash =
        (if locator.isSome then .success else .noSuchKey, locator, table) ∧
      Latched p ht key ⟨locator, rbtHash, index⟩ ∧ SameTrees ht table ∧ CacheOk p table := by
    unfold locateInTree
    rw [locate_eq_find (htrees.sorted _ hmem) hplaced]
    cases hfind : partition.rbt.find? fun n => p.compareKey key n.key with
    | none =>
      refine ⟨none, ht, rfl, ⟨hcompute, hindex, fun addr => ?_⟩, .refl ht, hcache⟩
      simp only [reduceCtorEq, false_iff]
      rintro ⟨n, hn, hcompare, -⟩
      have hn := (htrees.mem_partition hcompute hpartition hn hcompare).1
      exact find?_eq_none.1 hfind n hn hcompare
    | some n =>
      have hn := mem_of_find?_eq_some hfind
      have hcompare := find?_some hfind
      refine ⟨some n.addr, _, rfl, hlatched hn hcompare, map_set_eq _ hpartition rfl, ?_⟩
      rw [← hplaced n hn hcompare]
      exact hcache.setCache hpartition hn
  unfold keyLocate
  rw [hpartition]
  simp only [bind_eq_bind, bind_some]
  cases hcached : partition.cached (cacheOffsetof p rbtHash) with
  | none =>
    obtain ⟨locator, table, heq, hrest⟩ := htree
    exact ⟨locator, table, congrArg some heq, hrest⟩
  | some addr =>
    obtain ⟨slots, hslots, hslot⟩ := bind_eq_some_iff.1 hcached
    obtain ⟨n, hn, rfl, -⟩ := hcache partition hmem slots hslots _ addr
      (join_eq_some_iff.1 hslot)
    have hat := nodeAt_eq_some htrees.addrs (mem_nodes.2 ⟨index, partition, hpartition, hn⟩)
    simp only [hat, bind_some]
    split_ifs with hcompare
    · exact ⟨some n.addr, ht, rfl, hlatched hn hcompare, .refl ht, hcache⟩
    · obtain ⟨locator, table, heq, hrest⟩ := htree
      exact ⟨locator, table, congrArg some heq, hrest⟩

theorem Latched.congr {latch : HashLatch} (h : Latched p ht key latch)
    (hnodes : nodes ht' = nodes ht) : Latched p ht' key latch :=
  ⟨h.computed, h.inRange, hnodes ▸ h.locator⟩

theorem getlatch_spec (htrees : TreesOk p ht) (hcache : CacheOk p ht)
    (hcompute : p.compute key = .ok (index, rbtHash)) (hindex : index < p.indexSize) :
    ∃ got latch, hashtableGetlatch p ht key = some got ∧ got.latch = some latch ∧
      Latched p ht key latch ∧ SameTrees ht got.table ∧ CacheOk p got.table ∧
      (got.rc = if latch.locator.isSome then .success else .noSuchKey) ∧
      ∀ val, got.val = some val ↔ ∃ n ∈ nodes ht, p.compareKey key n.key = true ∧ n.val = val := by
  obtain ⟨locator, table, hlocate, hlatched, hsame, hcache'⟩ :=
    keyLocate_spec htrees hcache hcompute hindex
  unfold hashtableGetlatch
  rw [hcompute]
  simp only [hindex, if_true, hlocate, bind_eq_bind, bind_some]
  cases locator with
  | none =>
    refine ⟨_, _, rfl, rfl, hlatched, hsame, hcache', rfl, fun val => ?_⟩
    simp only [reduceCtorEq, false_iff]
    rintro ⟨n, hn, hcompare, -⟩
    exact absurd ((hlatched.locator n.addr).2 ⟨n, hn, hcompare, rfl⟩) nofun
  | some addr =>
    obtain ⟨n, hn, hcompare, rfl⟩ := (hlatched.locator addr).1 rfl
    have hat : nodeAt table n.addr = some n :=
      nodeAt_eq_some (htrees.congr hsame).addrs (hsame.nodes_eq ▸ hn)
    simp only [hat, bind_some]
    refine ⟨_, _, rfl, rfl, hlatched, hsame, hcache', rfl, fun val => ?_⟩
    constructor
    · intro hval
      exact ⟨n, hn, hcompare, some.inj hval⟩
    · rintro ⟨m, hm, hkey, rfl⟩
      rw [htrees.eq_of_key hn hm (p.compare_trans (p.compare_symm hcompare) hkey)]

end EdgeComputing.Hashtable
