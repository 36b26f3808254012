import EdgeComputing.Hashtable.TableInvariant

/-!
What the functions that change the table do to its nodes: a set puts a node in the place of that of
its key, a deletion takes it away, and `hashtable_delall` takes nodes away up to the first that
`free_func` refuses.
-/

namespace EdgeComputing.Hashtable

open List Option Library

variable {Key Val : Type} {p : HashParam Key} {ht ht' : Table Key Val} {rbt : List (Node Key Val)}

def SameOthers (p : HashParam Key) (key : Key) (ht ht' : Table Key Val) : Prop :=
  ∀ n, ¬ p.compareKey key n.key = true → (n ∈ nodes ht' ↔ n ∈ nodes ht)

theorem rbtInsert_perm (place : Nat) (node : Node Key Val) (rbt : List (Node Key Val)) :
    (rbtInsert place node rbt).Perm (node :: rbt) := by
  induction rbt generalizing place with
  | nil => exact .refl _
  | cons m rest ih =>
    unfold rbtInsert
    split_ifs
    · exact ((ih place).cons m).trans (.swap node m rest)
    · exact ((ih (place - 1)).cons m).trans (.swap node m rest)
    · exact .refl _

theorem rbtInsert_sorted (place : Nat) (node : Node Key Val)
    (h : rbt.Pairwise fun n m => n.rbtValue ≤ m.rbtValue) :
    (rbtInsert place node rbt).Pairwise fun n m => n.rbtValue ≤ m.rbtValue := by
  induction rbt generalizing place with
  | nil => exact pairwise_singleton _ _
  | cons m rest ih =>
    obtain ⟨hfirst, hrest⟩ := pairwise_cons.1 h
    have hbehind : m.rbtValue ≤ node.rbtValue → ∀ place,
        (m :: rbtInsert place node rest).Pairwise fun n m => n.rbtValue ≤ m.rbtValue := by
      intro hle place
      refine pairwise_cons.2 ⟨fun n hn => ?_, ih place hrest⟩
      rcases mem_cons.1 ((rbtInsert_perm place node rest).mem_iff.1 hn) with rfl | hn
      · exact hle
      · exact hfirst n hn
    unfold rbtInsert
    split_ifs with hlt heq
    · exact hbehind (Nat.le_of_lt hlt) place
    · exact hbehind (Nat.le_of_eq heq.1) (place - 1)
    · refine pairwise_cons.2 ⟨fun n hn => ?_, h⟩
      rcases mem_cons.1 hn with rfl | hn
      · omega
      · have := hfirst n hn
        omega

section Insert

variable {partition : Partition Key Val} {index : Nat} (place : Nat) (node : Node Key Val)
  (hpartition : ht[index]? = some partition)

def Partition.inserted (partition : Partition Key Val) (place : Nat) (node : Node Key Val) :
    Partition Key Val :=
  { partition with count := partition.count + 1, rbt := rbtInsert place node partition.rbt }

include hpartition

theorem nodes_insert_perm :
    (nodes (ht.set index (partition.inserted place node))).Perm (node :: nodes ht) := by
  obtain ⟨before, after, hnodes, hset⟩ := nodes_split hpartition
  rw [hset, hnodes]
  have hmiddle := (rbtInsert_perm place node partition.rbt).append_right after
  exact (hmiddle.append_left before).trans perm_middle

theorem TreesOk.insert (h : TreesOk p ht) (hcompute : p.compute node.key = .ok (index, node.rbtValue))
    (hfresh : ∀ n ∈ nodes ht, n.addr ≠ node.addr)
    (hnew : ∀ n ∈ nodes ht, ¬ p.compareKey node.key n.key = true) :
    TreesOk p (ht.set index (partition.inserted place node)) := by
  obtain ⟨hplaced, hsorted, hcount⟩ := h.partitionOk hpartition
  have hperm := nodes_insert_perm place node hpartition
  refine treesOk_of_partitions (by rw [length_set, h.size]) (fun i other hi => ?_) ?_ ?_
  · rcases getElem?_set_cases hi with ⟨rfl, rfl⟩ | ⟨-, hold⟩
    · have hrbt := rbtInsert_perm place node partition.rbt
      refine ⟨fun n hn => ?_, rbtInsert_sorted place node hsorted, ?_⟩
      · rcases mem_cons.1 (hrbt.mem_iff.1 hn) with rfl | hn
        · exact hcompute
        · exact hplaced n hn
      · exact (congrArg (· + 1) hcount).trans hrbt.length_eq.symm
    · exact h.partitionOk hold
  · rw [(hperm.map Node.addr).nodup_iff, map_cons, nodup_cons]
    refine ⟨fun hmem => ?_, h.addrs⟩
    obtain ⟨n, hn, haddr⟩ := mem_map.1 hmem
    exact hfresh n hn haddr
  · rw [hperm.pairwise_iff DistinctKeys.symm]
    exact pairwise_cons.2 ⟨hnew, h.keys⟩

theorem CacheOk.insert (h : CacheOk p ht) :
    CacheOk p (ht.set index (partition.inserted place node)) := by
  intro other hother slots hslots k addr hk
  rcases mem_or_eq_of_mem_set hother with hold | rfl
  · exact h other hold slots hslots k addr hk
  · obtain ⟨n, hn, hrest⟩ := h partition (mem_of_getElem? hpartition) slots hslots k addr hk
    exact ⟨n, (rbtInsert_perm place node _).mem_iff.2 (.tail _ hn), hrest⟩

end Insert

def overwriteNode (addr : Nat) (key : Key) (val : Val) (n : Node Key Val) : Node Key Val :=
  if n.addr = addr then { n with key, val } else n

@[simp] theorem overwriteNode_addr (addr : Nat) (key : Key) (val : Val) (n : Node Key Val) :
    (overwriteNode addr key val n).addr = n.addr := by
  unfold overwriteNode
  split_ifs <;> rfl

@[simp] theorem overwriteNode_rbtValue (addr : Nat) (key : Key) (val : Val) (n : Node Key Val) :
    (overwriteNode addr key val n).rbtValue = n.rbtValue := by
  unfold overwriteNode
  split_ifs <;> rfl

theorem nodes_overwriteData (ht : Table Key Val) (addr : Nat) (key : Key) (val : Val) :
    nodes (overwriteData ht addr key val) = (nodes ht).map (overwriteNode addr key val) := by
  simp only [nodes, overwriteData, flatMap_map, map_flatMap]
  rfl

variable {n : Node Key Val}

section Overwrite

variable {addr : Nat} {key : Key} (val : Val)
  (haddr : ∀ n ∈ nodes ht, n.addr = addr → p.compareKey key n.key = true)

include haddr

theorem overwriteNode_compare (hn : n ∈ nodes ht) :
    p.compareKey (overwriteNode addr key val n).key n.key = true := by
  unfold overwriteNode
  split_ifs with h
  · exact haddr n hn h
  · exact p.compare_refl _

omit haddr in
theorem overwriteData_cases {partition : Partition Key Val} {i : Nat}
    (hi : (overwriteData ht addr key val)[i]? = some partition) :
    ∃ before, ht[i]? = some before ∧ partition.count = before.count ∧
      partition.cache = before.cache ∧ partition.rbt = before.rbt.map (overwriteNode addr key val) := by
  unfold overwriteData at hi
  rw [getElem?_map] at hi
  obtain ⟨before, hbefore, rfl⟩ := map_eq_some_iff.1 hi
  exact ⟨before, hbefore, rfl, rfl, rfl⟩

theorem TreesOk.overwrite (h : TreesOk p ht) : TreesOk p (overwriteData ht addr key val) := by
  refine treesOk_of_partitions (by rw [overwriteData, length_map, h.size])
    (fun i partition hi => ?_) ?_ ?_
  · obtain ⟨before, hbefore, hcount, -, hrbt⟩ := overwriteData_cases val hi
    obtain ⟨hplaced, hsorted, hold⟩ := h.partitionOk hbefore
    constructor
    · intro n hn
      rw [hrbt] at hn
      obtain ⟨m, hm, rfl⟩ := mem_map.1 hn
      have hcompare := overwriteNode_compare val haddr (mem_nodes.2 ⟨i, before, hbefore, hm⟩)
      rw [p.compute_congr _ _ hcompare, overwriteNode_rbtValue]
      exact hplaced m hm
    · rw [hrbt, pairwise_map]
      simpa only [overwriteNode_rbtValue] using hsorted
    · rw [hcount, hrbt, length_map, hold]
  · rw [nodes_overwriteData, List.map_map]
    simpa only [Function.comp_def, overwriteNode_addr] using h.addrs
  · rw [nodes_overwriteData, pairwise_map]
    refine h.keys.imp_of_mem fun hn hm hdistinct hcompare => hdistinct ?_
    have hn' := p.compare_symm (overwriteNode_compare val haddr hn)
    exact p.compare_trans (p.compare_trans hn' hcompare) (overwriteNode_compare val haddr hm)

omit haddr in
theorem CacheOk.overwrite (h : CacheOk p ht) : CacheOk p (overwriteData ht addr key val) := by
  intro partition hmem slots hslots k cached hk
  obtain ⟨i, hi⟩ := mem_iff_getElem?.1 hmem
  obtain ⟨before, hbefore, -, hcache, hrbt⟩ := overwriteData_cases val hi
  obtain ⟨n, hn, hcached, hoffset⟩ :=
    h before (mem_of_getElem? hbefore) slots (hcache ▸ hslots) k cached hk
  refine ⟨overwriteNode addr key val n, hrbt ▸ mem_map_of_mem hn, ?_, ?_⟩
  · rw [overwriteNode_addr, hcached]
  · rw [overwriteNode_rbtValue, hoffset]

theorem overwrite_others : SameOthers p key ht (overwriteData ht addr key val) := by
  intro n hcompare
  rw [nodes_overwriteData, List.mem_map]
  constructor
  · rintro ⟨m, hm, rfl⟩
    unfold overwriteNode at hcompare ⊢
    split_ifs at hcompare ⊢ with h
    · exact absurd (p.compare_refl key) hcompare
    · exact hm
  · intro hn
    refine ⟨n, hn, ?_⟩
    rw [overwriteNode, if_neg fun h => hcompare (haddr n hn h)]

end Overwrite

theorem setlatched_spec (htrees : TreesOk p ht) (hcache : CacheOk p ht) {latchKey key : Key}
    {latch : HashLatch} (hlatched : Latched p ht latchKey latch)
    (hkey : p.compareKey latchKey key = true) {newAddr : Nat} (hfresh : nodeAt ht newAddr = none)
    (val : Val) (overwrite : Bool) (place : Nat) :
    ∃ rc table, hashtableSetlatched ht key val latch overwrite newAddr place = some (rc, table) ∧
      TreesOk p table ∧ CacheOk p table ∧ SameOthers p key ht table ∧
      (rc = .keyAlreadyExists ∧ overwrite = false ∧ latch.locator.isSome ∧ table = ht ∨
        (rc = if latch.locator.isSome then .overwritten else .success) ∧
          ∃ n ∈ nodes table, p.compareKey key n.key = true ∧ n.val = val) := by
  unfold hashtableSetlatched
  cases hlocator : latch.locator with
  | none =>
    obtain ⟨partition, hpartition⟩ := htrees.partition hlatched.inRange
    have hcompute : p.compute key = .ok (latch.index, latch.rbtHash) := by
      rw [← p.compute_congr _ _ hkey, hlatched.computed]
    have hnew : ∀ n ∈ nodes ht, ¬ p.compareKey key n.key = true := by
      intro n hn hcompare
      have hsome := (hlatched.locator n.addr).2 ⟨n, hn, p.compare_trans hkey hcompare, rfl⟩
      rw [hlocator] at hsome
      cases hsome
    simp only [hpartition, bind_eq_bind, bind_some]
    let node : Node Key Val := ⟨newAddr, latch.rbtHash, key, val⟩
    have hmem : ∀ n, n ∈ nodes (ht.set latch.index (partition.inserted place node)) ↔
        n = node ∨ n ∈ nodes ht := by
      intro n
      rw [(nodes_insert_perm place node hpartition).mem_iff, mem_cons]
    refine ⟨.success, ht.set latch.index (partition.inserted place node), rfl,
      htrees.insert place node hpartition hcompute (nodeAt_eq_none.1 hfresh) hnew,
      hcache.insert place node hpartition, fun n hcompare => ?_,
      .inr ⟨rfl, node, (hmem node).2 (.inl rfl), p.compare_refl key, rfl⟩⟩
    rw [hmem]
    constructor
    · rintro (rfl | hn)
      · exact absurd (p.compare_refl key) hcompare
      · exact hn
    · exact .inr
  | some addr =>
    obtain ⟨n, hn, hcompare, rfl⟩ := (hlatched.locator addr).1 hlocator
    have hnkey : p.compareKey key n.key = true := p.compare_trans (p.compare_symm hkey) hcompare
    have haddr : ∀ m ∈ nodes ht, m.addr = n.addr → p.compareKey key m.key = true := by
      intro m hm hmn
      rw [eq_of_addr htrees.addrs hm hn hmn]
      exact hnkey
    cases overwrite with
    | false => exact ⟨_, _, rfl, htrees, hcache, fun _ _ => .rfl, .inl ⟨rfl, rfl, rfl, rfl⟩⟩
    | true =>
      simp only [if_true, nodeAt_eq_some htrees.addrs hn, bind_eq_bind, bind_some]
      refine ⟨_, _, rfl, htrees.overwrite val haddr, hcache.overwrite val,
        overwrite_others val haddr, .inr ⟨rfl, overwriteNode n.addr key val n, ?_, ?_, ?_⟩⟩
      · rw [nodes_overwriteData]
        exact mem_map_of_mem hn
      · rw [overwriteNode, if_pos rfl]
        exact p.compare_refl key
      · rw [overwriteNode, if_pos rfl]

theorem length_filter_addr (h : (rbt.map Node.addr).Nodup) (hn : n ∈ rbt) :
    (rbt.filter fun m => m.addr != n.addr).length = rbt.length - 1 := by
  induction rbt with
  | nil => cases hn
  | cons m rest ih =>
    obtain ⟨hfresh, hrest⟩ := nodup_cons.1 h
    rcases mem_cons.1 hn with rfl | hn
    · have hkept : rest.filter (fun m => m.addr != n.addr) = rest := by
        rw [filter_eq_self]
        intro m hm
        have hne : m.addr ≠ n.addr := fun heq => hfresh (heq ▸ mem_map_of_mem hm)
        simpa using hne
      simp [hkept]
    · have hne : m.addr ≠ n.addr := fun heq => hfresh (heq ▸ mem_map_of_mem hn)
      have hpos := length_pos_of_mem hn
      have hlength := ih hrest hn
      rw [filter_cons_of_pos (by simpa using hne), length_cons, hlength, length_cons]
      omega

section Delete

variable {partition : Partition Key Val} {index : Nat} {node : Node Key Val}

def Partition.deleted (p : HashParam Key) (partition : Partition Key Val) (rbtHash addr : Nat) :
    Partition Key Val :=
  { partition.setCache (cacheOffsetof p rbtHash) none with
    count := partition.count - 1, rbt := partition.rbt.filter fun n => n.addr != addr }

theorem nodes_delete_sublist (p : HashParam Key) (hpartition : ht[index]? = some partition)
    (rbtHash addr : Nat) :
    (nodes (ht.set index (partition.deleted p rbtHash addr))).Sublist (nodes ht) := by
  obtain ⟨before, after, hnodes, hset⟩ := nodes_split hpartition
  rw [hset, hnodes]
  have hfilter : (partition.deleted p rbtHash addr).rbt.Sublist partition.rbt :=
    filter_sublist
  exact (hfilter.append_right after).append_left before

variable (htrees : TreesOk p ht) (hpartition : ht[index]? = some partition)
  (hin : node ∈ partition.rbt)

include htrees hpartition hin

theorem mem_nodes_delete (rbtHash : Nat) (n : Node Key Val) :
    n ∈ nodes (ht.set index (partition.deleted p rbtHash node.addr)) ↔
      n ∈ nodes ht ∧ n.addr ≠ node.addr := by
  have hnode := mem_nodes.2 ⟨index, partition, hpartition, hin⟩
  rw [mem_nodes, mem_nodes]
  constructor
  · rintro ⟨i, other, hi, hn⟩
    rcases getElem?_set_cases hi with ⟨rfl, rfl⟩ | ⟨hne, hold⟩
    · obtain ⟨hn, haddr⟩ := mem_filter.1 hn
      exact ⟨⟨i, partition, hpartition, hn⟩, by simpa using haddr⟩
    · refine ⟨⟨i, other, hold, hn⟩, fun haddr => hne ?_⟩
      rw [eq_of_addr htrees.addrs (mem_nodes.2 ⟨i, other, hold, hn⟩) hnode haddr] at hn
      have hplaced := htrees.placed i other hold node hn
      rw [htrees.placed index partition hpartition node hin] at hplaced
      exact (congrArg Prod.fst (Except.ok.inj hplaced)).symm
  · rintro ⟨⟨i, other, hi, hn⟩, haddr⟩
    by_cases heq : i = index
    · subst heq
      rw [hpartition] at hi
      refine ⟨i, _, getElem?_set_of_some hpartition, mem_filter.2 ⟨?_, by simpa using haddr⟩⟩
      exact some.inj hi ▸ hn
    · refine ⟨i, other, ?_, hn⟩
      rw [getElem?_set_ne (Ne.symm heq), hi]

theorem TreesOk.delete (rbtHash : Nat) :
    TreesOk p (ht.set index (partition.deleted p rbtHash node.addr)) := by
  have hsublist := nodes_delete_sublist p hpartition rbtHash node.addr
  refine treesOk_of_partitions (by rw [length_set, htrees.size]) (fun i other hi => ?_)
    (htrees.addrs.sublist (hsublist.map _)) (htrees.keys.sublist hsublist)
  rcases getElem?_set_cases hi with ⟨rfl, rfl⟩ | ⟨-, hold⟩
  · obtain ⟨hplaced, hsorted, hcount⟩ := htrees.partitionOk hpartition
    refine ⟨fun n hn => hplaced n (mem_filter.1 hn).1, hsorted.sublist filter_sublist, ?_⟩
    have hnodup : (partition.rbt.map Node.addr).Nodup := by
      obtain ⟨before, after, hnodes, -⟩ := nodes_split hpartition
      have hall := htrees.addrs
      rw [hnodes] at hall
      refine hall.sublist (List.Sublist.map _ ?_)
      exact (sublist_append_left _ _).trans (sublist_append_right _ _)
    simp only [Partition.deleted]
    rw [length_filter_addr hnodup hin, hcount]
  · exact htrees.partitionOk hold

theorem CacheOk.delete (hcache : CacheOk p ht) :
    CacheOk p (ht.set index (partition.deleted p node.rbtValue node.addr)) := by
  have hmem := mem_of_getElem? hpartition
  intro other hother slots hslots k addr hk
  rcases mem_or_eq_of_mem_set hother with hold | rfl
  · exact hcache other hold slots hslots k addr hk
  · obtain ⟨old, hold, rfl⟩ := map_eq_some_iff.1 hslots
    rcases getElem?_set_cases hk with ⟨-, haddr⟩ | ⟨hne, hkept⟩
    · cases haddr
    · obtain ⟨n, hn, haddr, hoffset⟩ := hcache partition hmem old hold k addr hkept
      refine ⟨n, mem_filter.2 ⟨hn, ?_⟩, haddr, hoffset⟩
      have hdifferent : n.addr ≠ node.addr := by
        intro heq
        have hsame := eq_of_addr htrees.addrs (mem_nodes.2 ⟨index, partition, hpartition, hn⟩)
          (mem_nodes.2 ⟨index, partition, hpartition, hin⟩) heq
        exact hne (hsame ▸ hoffset.symm)
      simpa using hdifferent

end Delete

theorem deletelatched_spec (htrees : TreesOk p ht) (hcache : CacheOk p ht) {key : Key}
    {latch cleared : HashLatch} (hlatched : Latched p ht key latch)
    (hdelete : hashtableDeletelatched p ht latch = some (cleared, ht')) :
    TreesOk p ht' ∧ CacheOk p ht' ∧ SameOthers p key ht ht' ∧ Latched p ht' key cleared ∧
      cleared.index = latch.index ∧ ∀ n ∈ nodes ht', ¬ p.compareKey key n.key = true := by
  obtain ⟨partition, hpartition, hdelete⟩ := bind_eq_some_iff.1 hdelete
  obtain ⟨locator, hlocator, hdelete⟩ := bind_eq_some_iff.1 hdelete
  obtain ⟨-, -, hdelete⟩ := bind_eq_some_iff.1 hdelete
  obtain ⟨rfl, htable⟩ := Prod.mk.inj (some.inj hdelete)
  obtain ⟨node, hnode, hcompare, rfl⟩ := (hlatched.locator locator).1 hlocator
  obtain ⟨hin, hvalue⟩ := htrees.mem_partition hlatched.computed hpartition hnode hcompare
  change ht.set latch.index (partition.deleted p latch.rbtHash node.addr) = ht' at htable
  rw [← hvalue] at htable
  subst htable
  have hiff := mem_nodes_delete htrees hpartition hin node.rbtValue
  have hnone : ∀ n ∈ nodes (ht.set latch.index (partition.deleted p node.rbtValue node.addr)),
      ¬ p.compareKey key n.key = true := by
    intro n hn hkey
    obtain ⟨hold, haddr⟩ := (hiff n).1 hn
    exact haddr (congrArg Node.addr
      (htrees.eq_of_key hold hnode (p.compare_trans (p.compare_symm hkey) hcompare)))
  refine ⟨htrees.delete hpartition hin _, hcache.delete htrees hpartition hin, fun n hother => ?_,
    ⟨hlatched.computed, hlatched.inRange, fun addr => ?_⟩, rfl, hnone⟩
  · rw [hiff]
    refine ⟨And.left, fun hn => ⟨hn, fun haddr => hother ?_⟩⟩
    rw [eq_of_addr htrees.addrs hn hnode haddr]
    exact hcompare
  · simp only [reduceCtorEq, false_iff]
    rintro ⟨n, hn, hkey, -⟩
    exact hnone n hn hkey

/-- What the loops of `hashtable_delall` have done when they end: the freed nodes come first, up to
the first that is refused. -/
def Purged (freeFunc : Key → Val → Bool) (rc : HashError) (all freed left : List (Node Key Val)) :
    Prop :=
  all = freed ++ left ∧
    (rc = .success ∧ left = [] ∧ (∀ n ∈ freed, freeFunc n.key n.val = true) ∨
      rc = .delallFail ∧ ∃ first last, freed = first ++ [last] ∧
        (∀ n ∈ first, freeFunc n.key n.val = true) ∧ freeFunc last.key last.val = false)

variable {freeFunc : Key → Val → Bool} {freed : List (Node Key Val)} {rc : HashError}
  {all left : List (Node Key Val)}

theorem Purged.append (h : Purged freeFunc rc all freed left) {before : List (Node Key Val)}
    (hbefore : ∀ n ∈ before, freeFunc n.key n.val = true) :
    Purged freeFunc rc (before ++ all) (before ++ freed) left := by
  obtain ⟨rfl, hend⟩ := h
  refine ⟨(append_assoc ..).symm, ?_⟩
  rcases hend with ⟨hrc, hleft, hfreed⟩ | ⟨hrc, first, last, rfl, hfirst, hlast⟩
  · exact .inl ⟨hrc, hleft, forall_mem_append.2 ⟨hbefore, hfreed⟩⟩
  · exact .inr ⟨hrc, before ++ first, last, (append_assoc ..).symm,
      forall_mem_append.2 ⟨hbefore, hfirst⟩, hlast⟩

theorem Purged.mem_left (h : Purged freeFunc rc all freed left)
    {before behind : List (Node Key Val)} {m : Node Key Val} (hall : all = before ++ m :: behind)
    (hrefused : freeFunc m.key m.val = false) (hn : n ∈ behind) : n ∈ left := by
  obtain ⟨heq, ⟨-, rfl, hfreed⟩ | ⟨-, first, last, rfl, hfirst, -⟩⟩ := h
  · have hm : m ∈ freed := by
      rw [← append_nil freed, ← heq, hall]
      exact mem_append_right _ (.head _)
    rw [hfreed m hm] at hrefused
    cases hrefused
  · rw [heq, append_assoc] at hall
    rcases append_eq_append_iff.1 hall with ⟨more, -, hsplit⟩ | ⟨more, hsplit, hrest⟩
    · -- The refused node is the one the loop ends at, or comes later.
      cases more with
      | nil =>
        obtain ⟨-, rfl⟩ := List.cons.inj hsplit
        exact hn
      | cons _ more =>
        obtain ⟨-, rfl⟩ := List.cons.inj hsplit
        exact mem_append_right _ (.tail _ hn)
    · cases more with
      | nil =>
        obtain ⟨-, rfl⟩ := List.cons.inj hrest
        exact hn
      | cons k more =>
        obtain ⟨rfl, -⟩ := List.cons.inj hrest
        have hm : m ∈ first := by
          rw [hsplit]
          exact mem_append_right _ (.head _)
        rw [hfirst m hm] at hrefused
        cases hrefused

theorem delallTree_spec {rbt left : List (Node Key Val)} {rc : Bool}
    (h : delallTree freeFunc rbt = (freed, left, rc)) :
    Purged freeFunc (if rc then .success else .delallFail) rbt freed left := by
  induction rbt generalizing freed with
  | nil =>
    obtain ⟨rfl, rfl, rfl⟩ : [] = freed ∧ [] = left ∧ true = rc := by simpa [delallTree] using h
    exact ⟨rfl, .inl ⟨rfl, rfl, nofun⟩⟩
  | cons n rest ih =>
    unfold delallTree at h
    split_ifs at h with hfree
    · generalize hrest : delallTree freeFunc rest = result at h
      obtain ⟨freed', left', rc'⟩ := result
      cases h
      exact (ih hrest).append (forall_mem_singleton.2 hfree)
    · cases h
      exact ⟨rfl, .inr ⟨rfl, [], n, rfl, nofun, by simpa using hfree⟩⟩

structure PurgedPartition (partition left : Partition Key Val) : Prop where
  cache : left.cache = partition.cache
  rbt : left.rbt.Sublist partition.rbt
  count : partition.count = partition.rbt.length → left.count = left.rbt.length

theorem PurgedPartition.refl (partition : Partition Key Val) :
    PurgedPartition partition partition :=
  ⟨rfl, .refl _, id⟩

theorem delallLoop_spec {locked : Nat → Bool} {index : Nat}
    (h : delallLoop freeFunc locked index ht = some (rc, freed, ht')) :
    Purged freeFunc rc (nodes ht) freed (nodes ht') ∧ List.Forall₂ PurgedPartition ht ht' ∧
      ∀ i, locked (index + i) = true → ht'[i]? = ht[i]? := by
  induction ht generalizing index freed ht' with
  | nil =>
    obtain ⟨rfl, rfl, rfl⟩ : .success = rc ∧ [] = freed ∧ [] = ht' := by
      simpa [delallLoop] using h
    exact ⟨⟨rfl, .inl ⟨rfl, rfl, nofun⟩⟩, .nil, fun _ _ => rfl⟩
  | cons partition rest ih =>
    unfold delallLoop at h
    split_ifs at h with hlocked
    generalize htree : delallTree freeFunc partition.rbt = result at h
    obtain ⟨freed', left, ok⟩ := result
    have hspec := delallTree_spec htree
    have hpartition : PurgedPartition partition
        { partition with count := partition.count - freed'.length, rbt := left } := by
      refine ⟨rfl, hspec.1 ▸ sublist_append_right _ _, fun hcount => ?_⟩
      have hlength := congrArg List.length hspec.1
      rw [length_append] at hlength
      simp only
      omega
    have hkeep : ∀ (tail : Table Key Val),
        (∀ i, locked (index + 1 + i) = true → tail[i]? = rest[i]?) →
        ∀ i, locked (index + i) = true →
          (({ partition with count := partition.count - freed'.length, rbt := left } :
            Partition Key Val) :: tail)[i]? = (partition :: rest)[i]? := by
      intro tail htail i hi
      cases i with
      | zero => exact absurd hi hlocked
      | succ i => exact htail i (by rw [← hi]; congr 1; omega)
    cases ok with
    | true =>
      obtain ⟨⟨err, more, table⟩, hrest, heq⟩ := bind_eq_some_iff.1 h
      obtain ⟨hrc, hpair⟩ := Prod.mk.inj (some.inj heq)
      obtain ⟨rfl, rfl⟩ := Prod.mk.inj hpair
      subst hrc
      obtain ⟨hpurged, hforall, hsame⟩ := ih hrest
      obtain ⟨hall, ⟨-, rfl, hfreed⟩ | ⟨hrc, -⟩⟩ := hspec
      · refine ⟨?_, .cons hpartition hforall, hkeep table hsame⟩
        have happend := hpurged.append hfreed
        rw [append_nil] at hall
        simpa only [nodes, flatMap_cons, hall, nil_append] using happend
      · simp at hrc
    | false =>
      simp only [Bool.false_eq_true, if_false, some.injEq, Prod.mk.injEq] at h
      obtain ⟨rfl, rfl, rfl⟩ := h
      refine ⟨?_, .cons hpartition ?_, hkeep rest fun _ _ => rfl⟩
      · obtain ⟨hall, hend⟩ := hspec
        refine ⟨?_, ?_⟩
        · simp only [nodes, flatMap_cons, hall, append_assoc]
        · rcases hend with ⟨hrc, -⟩ | hend
          · simp at hrc
          · exact .inr ⟨rfl, hend.2⟩
      · exact forall₂_same.2 fun other _ => .refl other

end EdgeComputing.Hashtable
