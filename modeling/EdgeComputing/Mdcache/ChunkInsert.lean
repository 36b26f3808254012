import EdgeComputing.Mdcache.ChunkChain

/-!
Two ways to put an entry into well-formed chunks: in front of a chunk, and at the end of the cached
entries. Both leave well-formed chunks of the new directory.
-/

namespace EdgeComputing.Mdcache

open List Option Library DirChunk

variable {ν κ : Type} {sortKey : ν → Cookie → κ} {S : Set κ} {cookie : κ → Cookie} {d : Fsdir ν κ}
  {n : κ} {f : κ} {e : Dirent ν} {c c₀ : DirChunk ν} {addr : Nat} {leftAddr : Option Nat}
  {new : Dirent ν} {clear : Dirent ν → Dirent ν}

def prependChunk (addr : Nat) (new : Dirent ν) (leftAddr : Option Nat) (c : DirChunk ν) :
    DirChunk ν :=
  if c.addr = addr then
    { c with dirents := new :: c.dirents, numEntries := c.numEntries + 1 }
  else if some c.addr = leftAddr then { c with nextCk := new.ck } else c

theorem prependChunk_keys (c : DirChunk ν) :
    (prependChunk addr new leftAddr c).keys sortKey =
      if c.addr = addr then new.key sortKey :: c.keys sortKey else c.keys sortKey := by
  unfold prependChunk
  split_ifs <;> rfl

theorem prependChunk_addr (c : DirChunk ν) :
    (prependChunk addr new leftAddr c).addr = c.addr := by
  unfold prependChunk
  split_ifs <;> rfl

theorem prependChunk_reloadCk (c : DirChunk ν) :
    (prependChunk addr new leftAddr c).reloadCk = c.reloadCk := by
  unfold prependChunk
  split_ifs <;> rfl

theorem prependChunk_self (h : c.addr = addr) :
    prependChunk addr new leftAddr c =
      { c with dirents := new :: c.dirents, numEntries := c.numEntries + 1 } :=
  if_pos h

def appendChunk (addr : Nat) (new : Dirent ν) (clear : Dirent ν → Dirent ν) (c : DirChunk ν) :
    DirChunk ν :=
  if c.addr = addr then
    { c with dirents := c.dirents.map clear ++ [new], numEntries := c.numEntries + 1 }
  else { c with dirents := c.dirents.map clear }

def FlagsOnly (clear : Dirent ν → Dirent ν) : Prop :=
  ∀ e, (clear e).name = e.name ∧ (clear e).ck = e.ck ∧ (clear e).chunk = e.chunk

theorem FlagsOnly.key (h : FlagsOnly clear) (e : Dirent ν) :
    (clear e).key sortKey = e.key sortKey := by
  rw [Dirent.key, (h e).1, (h e).2.1]
  rfl

theorem appendChunk_keys (hflags : FlagsOnly clear) (c : DirChunk ν) :
    (appendChunk addr new clear c).keys sortKey =
      if c.addr = addr then c.keys sortKey ++ [new.key sortKey] else c.keys sortKey := by
  have hmap : (c.dirents.map clear).map (Dirent.key sortKey) = c.keys sortKey := by
    rw [List.map_map]
    exact map_congr_left fun e _ => hflags.key e
  unfold appendChunk
  split_ifs
  · rw [DirChunk.keys, map_append, hmap]
    rfl
  · exact hmap

theorem appendChunk_addr (c : DirChunk ν) : (appendChunk addr new clear c).addr = c.addr := by
  unfold appendChunk
  split_ifs <;> rfl

theorem appendChunk_nextCk (c : DirChunk ν) : (appendChunk addr new clear c).nextCk = c.nextCk := by
  unfold appendChunk
  split_ifs <;> rfl

theorem appendChunk_reloadCk (c : DirChunk ν) :
    (appendChunk addr new clear c).reloadCk = c.reloadCk := by
  unfold appendChunk
  split_ifs <;> rfl

variable [LinearOrder κ]

section Prepend

structure InFront (sortKey : ν → Cookie → κ) (S : Set κ) (d : Fsdir ν κ) (n : κ) (c₀ : DirChunk ν)
    (r : κ) : Prop where
  new : n ∉ S
  chunk : c₀ ∈ d.chunks
  head : (c₀.keys sortKey).head? = some r
  lt : n < r
  gap : ∀ s ∈ S, ¬ (n < s ∧ s < r)

namespace InFront

variable {r : κ} (hf : InFront sortKey S d n c₀ r)
  (hw : WellFormed sortKey S cookie d)

include hf hw

theorem right_mem : r ∈ S :=
  hw.key_mem hf.chunk (mem_of_mem_head? hf.head)

theorem follows_insert {a b : κ} (h : Follows S a b) (hb : b ≠ r) : Follows (insert n S) a b := by
  refine h.insert fun ⟨han, hnb⟩ => hb (le_antisymm ?_ ?_)
  · exact h.le_of_lt_left (hf.right_mem hw) (han.trans hf.lt)
  · exact not_lt.mp fun hbr => hf.gap b h.right_mem ⟨hnb, hbr⟩

theorem ne_of_ne {k : κ} (hc : c ∈ d.chunks) (hk : k ∈ c.keys sortKey) (hne : c ≠ c₀) : k ≠ r := by
  rintro rfl
  exact hne (hw.chunk_of_key hc hf.chunk hk (mem_of_mem_head? hf.head))

theorem isLeast_insert (h : IsLeast S f) (hne : f ≠ r) : IsLeast (insert n S) f := by
  refine isLeast_insert_of_gt h ?_
  by_contra hnf
  have hfr : f < r := lt_of_le_of_ne (h.2 (hf.right_mem hw)) hne
  have hnf' : n ≠ f := ne_of_mem_of_not_mem h.1 hf.new |>.symm
  exact hf.gap f h.1 ⟨lt_of_le_of_ne (not_lt.mp hnf) hnf', hfr⟩

end InFront

/-- What is left of the new key when it goes in front of the chunk `c₀`: nothing, or the chunk with
the entry before it. -/
def FrontLeft (sortKey : ν → Cookie → κ) (S : Set κ) (cookie : κ → Cookie) (d : Fsdir ν κ) (n r : κ)
    (c₀ : DirChunk ν) (leftAddr : Option Nat) (first : Cookie) : Prop :=
  (leftAddr = none ∧ IsLeast S r ∧ first = cookie n) ∨
    ∃ cl ∈ d.chunks, ∃ l, cl ≠ c₀ ∧ leftAddr = some cl.addr ∧
      (cl.keys sortKey).getLast? = some l ∧ Follows S l r ∧ l < n ∧ first = d.firstCk

section

variable {r : κ} {first : Cookie} (hw : WellFormed sortKey S cookie d)
  (hf : InFront sortKey S d n c₀ r)

include hw

theorem addr_ne {c c₀ : DirChunk ν} (hc : c ∈ d.chunks) (hc₀ : c₀ ∈ d.chunks) (h : c ≠ c₀) :
    c.addr ≠ c₀.addr :=
  fun haddr => h (hw.chunk_unique hc hc₀ haddr)

include hf

theorem prepend_head (hc : c ∈ d.chunks) (hhead : (c.keys sortKey).head? = some f) (hne : f ≠ r) :
    ((prependChunk c₀.addr new leftAddr c).keys sortKey).head? = some f := by
  have hcc : c ≠ c₀ := by
    rintro rfl
    exact hne (some.inj (hhead.symm.trans hf.head))
  rw [prependChunk_keys, if_neg (addr_ne hw hc hf.chunk hcc), hhead]

theorem prepend_leadsOn {l f : κ}
    (hlast : ((prependChunk c₀.addr new leftAddr c).keys sortKey).getLast? = some l)
    (hhead : ∃ c' ∈ d.chunks, (c'.keys sortKey).head? = some f) (hlf : Follows S l f) (hne : f ≠ r)
    (hnext : (prependChunk c₀.addr new leftAddr c).nextCk = cookie f) :
    LeadsOn sortKey (insert n S) cookie (d.chunks.map (prependChunk c₀.addr new leftAddr))
      (prependChunk c₀.addr new leftAddr c) := by
  obtain ⟨c', hc', hhead⟩ := hhead
  exact ⟨l, f, hlast, ⟨_, mem_map_of_mem hc', prepend_head hw hf hc' hhead hne⟩,
    hf.follows_insert hw hlf hne, hnext⟩

section

variable (hl : FrontLeft sortKey S cookie d n r c₀ leftAddr first) (hkey : new.key sortKey = n)
include hkey

theorem prepend_chain (hc : c ∈ d.chunks) :
    ((prependChunk c₀.addr new leftAddr c).keys sortKey).IsChain (Follows (insert n S)) := by
  have hchain : (c.keys sortKey).IsChain (Follows (insert n S)) := by
    refine (hw.chain c hc).imp_of_mem_imp fun a b ha hb hab => hf.follows_insert hw hab ?_
    rintro rfl
    by_cases hcc : c = c₀
    · subst hcc
      exact absurd hab.lt (not_lt.mpr (WellFormed.head_le (hw.keys_sorted hc) hf.head ha))
    · exact hf.ne_of_ne hw hc hb hcc rfl
  rw [prependChunk_keys]
  split_ifs with haddr
  · obtain rfl := hw.chunk_unique hc hf.chunk haddr
    refine hchain.cons fun k hk => ?_
    rw [hf.head, mem_some_iff] at hk
    rw [hkey, ← hk]
    exact .insert_right (hf.right_mem hw) hf.lt hf.gap
  · exact hchain

include hl

theorem prepend_next (hck : new.ck = cookie n) (hc : c ∈ d.chunks) :
    (prependChunk c₀.addr new leftAddr c).nextCk = 0 ∨
      LeadsOn sortKey (insert n S) cookie (d.chunks.map (prependChunk c₀.addr new leftAddr))
        (prependChunk c₀.addr new leftAddr c) := by
  by_cases hcc : c = c₀
  · subst hcc
    have hself : (prependChunk c.addr new leftAddr c).nextCk = c.nextCk := by
      rw [prependChunk_self rfl]
    obtain h0 | ⟨l, f, hlast, hhead, hlf, hnext⟩ := hw.next c hc
    · exact .inl (hself.trans h0)
    · refine .inr (prepend_leadsOn hw hf ?_ hhead hlf ?_ (hself.trans hnext))
      · rw [prependChunk_keys, if_pos rfl, getLast?_cons, hlast]
        rfl
      · have hle := WellFormed.head_le (hw.keys_sorted hc) hf.head (mem_of_getLast? hlast)
        exact (lt_of_le_of_lt hle hlf.lt).ne'
  have hkeys : (prependChunk c₀.addr new leftAddr c).keys sortKey = c.keys sortKey := by
    rw [prependChunk_keys, if_neg (addr_ne hw hc hf.chunk hcc)]
  by_cases hleft : some c.addr = leftAddr
  · -- the chunk with the entry before the new one
    have hnext : (prependChunk c₀.addr new leftAddr c).nextCk = cookie n := by
      unfold prependChunk
      rw [if_neg (addr_ne hw hc hf.chunk hcc), if_pos hleft]
      exact hck
    obtain ⟨hnone, -⟩ | ⟨cl, hcl, l, -, hladdr, hlast, hlr, hln, -⟩ := hl
    · rw [hnone] at hleft
      cases hleft
    obtain rfl : c = cl := hw.chunk_unique hc hcl (some.inj (hleft.trans hladdr))
    refine .inr ⟨l, n, by rw [hkeys, hlast], ⟨_, mem_map_of_mem hf.chunk, ?_⟩, ?_, hnext⟩
    · rw [prependChunk_keys, if_pos rfl, hkey]
      rfl
    · exact Follows.insert_left hlr.left_mem hln fun s hs ⟨hls, hsn⟩ =>
        hlr.2.2.2 s hs ⟨hls, hsn.trans hf.lt⟩
  · have hsame : prependChunk c₀.addr new leftAddr c = c := by
      unfold prependChunk
      rw [if_neg (addr_ne hw hc hf.chunk hcc), if_neg hleft]
    obtain h0 | ⟨l, f, hlast, hhead, hlf, hnext⟩ := hw.next c hc
    · exact .inl (by rw [hsame]; exact h0)
    · refine .inr (prepend_leadsOn hw hf (by rw [hkeys, hlast]) hhead hlf ?_ (by rw [hsame, hnext]))
      rintro rfl
      obtain ⟨-, hleast, -⟩ | ⟨cl, hcl, l', -, hladdr, hlast', hlr, -, -⟩ := hl
      · exact hlf.not_isLeast hleast
      · obtain rfl := hlf.left_unique hlr
        obtain rfl : c = cl := hw.chunk_of_key hc hcl (mem_of_getLast? hlast)
          (mem_of_getLast? hlast')
        exact hleft hladdr.symm

theorem prepend_reload (hc : c ∈ d.chunks)
    (hhead : ((prependChunk c₀.addr new leftAddr c).keys sortKey).head? = some f) :
    ReloadsAt (insert n S) cookie (prependChunk c₀.addr new leftAddr c).reloadCk f := by
  rw [prependChunk_reloadCk]
  rw [prependChunk_keys] at hhead
  by_cases hcc : c = c₀
  · subst hcc
    rw [if_pos rfl, head?_cons, hkey, some.injEq] at hhead
    subst hhead
    obtain ⟨-, hleast, -⟩ | ⟨-, -, l, -, -, -, hlr, hln, -⟩ := hl
    · obtain ⟨h0, -⟩ | ⟨p, hp, -⟩ := hw.reload c hc r hf.head
      · exact .inl ⟨h0, isLeast_insert_of_lt hleast hf.lt⟩
      · exact absurd hleast hp.not_isLeast
    · obtain ⟨-, hleast⟩ | ⟨p, hp, hreload⟩ := hw.reload c hc r hf.head
      · exact absurd hleast hlr.not_isLeast
      · obtain rfl := hp.left_unique hlr
        refine .inr ⟨p, ?_, hreload⟩
        exact Follows.insert_left hp.left_mem hln fun s hs ⟨hps, hsn⟩ =>
          hp.2.2.2 s hs ⟨hps, hsn.trans hf.lt⟩
  · rw [if_neg (addr_ne hw hc hf.chunk hcc)] at hhead
    have hne : f ≠ r := hf.ne_of_ne hw hc (mem_of_mem_head? hhead) hcc
    obtain ⟨h0, hleast⟩ | ⟨p, hp, hreload⟩ := hw.reload c hc f hhead
    · exact .inl ⟨h0, hf.isLeast_insert hw hleast hne⟩
    · exact .inr ⟨p, hf.follows_insert hw hp hne, hreload⟩

theorem prepend_first :
    first = 0 ∨ ∃ c ∈ d.chunks.map (prependChunk c₀.addr new leftAddr), ∃ f,
      (c.keys sortKey).head? = some f ∧ IsLeast (insert n S) f ∧ first = cookie f := by
  obtain ⟨-, hleast, rfl⟩ | ⟨-, -, l, -, -, -, hlr, -, rfl⟩ := hl
  · refine .inr ⟨_, mem_map_of_mem hf.chunk, n, ?_, isLeast_insert_of_lt hleast hf.lt, rfl⟩
    rw [prependChunk_keys, if_pos rfl, hkey]
    rfl
  · obtain h0 | ⟨c, hc, f, hhead, hleast, hfirst⟩ := hw.first
    · exact .inl h0
    · have hne : f ≠ r := by
        rintro rfl
        exact hlr.not_isLeast hleast
      exact .inr ⟨_, mem_map_of_mem hc, f, prepend_head hw hf hc hhead hne,
        hf.isLeast_insert hw hleast hne, hfirst⟩

end

end

end Prepend

structure Inserted (d d' : Fsdir ν κ) (n : κ) (ck : Cookie) : Prop where
  inOrder : d'.sorted.toList.Pairwise (· < ·)
  inTree : ∀ k, k ∈ d'.sorted.toList ↔ k = n ∨ k ∈ d.sorted.toList
  byCk : d'.ck = ck :: d.ck

variable {d' : Fsdir ν κ}

/-- The chunks after `g`: the new dirent is in the chunk `c₀`, and the others have at most changed
their flags. -/
structure Puts (new : Dirent ν) (clear : Dirent ν → Dirent ν) (c₀ : DirChunk ν)
    (g : DirChunk ν → DirChunk ν) : Prop where
  addr : ∀ c, (g c).addr = c.addr
  self : (g c₀).dirents.Perm (new :: c₀.dirents.map clear)
  other : ∀ c, c.addr ≠ c₀.addr → (g c).dirents = c.dirents.map clear
  entries : ∀ c, c.numEntries = c.dirents.length → (g c).numEntries = (g c).dirents.length

omit [LinearOrder κ] in
theorem puts_prepend : Puts new id c₀ (prependChunk c₀.addr new leftAddr) where
  addr := prependChunk_addr
  self := by rw [prependChunk_self rfl, List.map_id]
  other c h := by
    unfold prependChunk
    rw [if_neg h, List.map_id]
    split_ifs <;> rfl
  entries c h := by
    unfold prependChunk
    split_ifs <;> simp [h]

omit [LinearOrder κ] in
theorem puts_append : Puts new clear c₀ (appendChunk c₀.addr new clear) where
  addr := appendChunk_addr
  self := by
    rw [appendChunk, if_pos rfl]
    exact perm_append_singleton ..
  other c h := by rw [appendChunk, if_neg h]
  entries c h := by
    unfold appendChunk
    split_ifs <;> simp [h]

namespace Puts

variable {g : DirChunk ν → DirChunk ν} (hp : Puts new clear c₀ g)
  (hw : WellFormed sortKey S cookie d) (hc₀ : c₀ ∈ d.chunks)

include hp hw hc₀

theorem dirent (hflags : FlagsOnly clear) (hkey : new.key sortKey = n) (hck : new.ck = cookie n)
    (hchunk : new.chunk = some c₀.addr) (hc : c ∈ d.chunks) (he : e ∈ (g c).dirents) :
    e.key sortKey ∈ insert n S ∧ e.ck = cookie (e.key sortKey) ∧ e.chunk = some (g c).addr := by
  rw [hp.addr]
  have hold : ∀ e ∈ c.dirents.map clear, e.key sortKey ∈ insert n S ∧
      e.ck = cookie (e.key sortKey) ∧ e.chunk = some c.addr := fun e he => by
    obtain ⟨e0, he0, rfl⟩ := mem_map.mp he
    obtain ⟨hmem, hrest⟩ := hw.dirent c hc e0 he0
    rw [hflags.key, (hflags e0).2.1, (hflags e0).2.2]
    exact ⟨Set.mem_insert_of_mem n hmem, hrest⟩
  by_cases hcc : c = c₀
  · subst hcc
    obtain rfl | he := mem_cons.mp (hp.self.mem_iff.mp he)
    · exact ⟨hkey ▸ Set.mem_insert _ S, hkey ▸ hck, hchunk⟩
    · exact hold e he
  · rw [hp.other c (addr_ne hw hc hc₀ hcc)] at he
    exact hold e he

theorem perm {β : Type} (f : Dirent ν → β) (hf : ∀ e, f (clear e) = f e) :
    (((d.chunks.map g).flatMap dirents).map f).Perm (f new :: d.dirents.map f) := by
  rw [Fsdir.dirents, List.map_flatMap, List.map_flatMap]
  have hmap : ∀ c : DirChunk ν, (c.dirents.map clear).map f = c.dirents.map f := fun c => by
    rw [List.map_map]
    exact map_congr_left fun e _ => hf e
  refine flatMap_map_perm (List.Nodup.of_map _ hw.addrs) hc₀ (fun c hc hcc => ?_) ?_
  · rw [hp.other c (addr_ne hw hc hc₀ hcc), hmap]
  · simpa only [map_cons, hmap] using hp.self.map f

theorem wellFormed (hflags : FlagsOnly clear) (hn : n ∉ S) (hi : Inserted d d' n new.ck)
    (hkey : new.key sortKey = n) (hck : new.ck = cookie n) (hchunk : new.chunk = some c₀.addr)
    (hchunks : d'.chunks = d.chunks.map g)
    (chain : ∀ c ∈ d.chunks, ((g c).keys sortKey).IsChain (Follows (insert n S)))
    (next : ∀ c ∈ d.chunks, (g c).nextCk = 0 ∨
      LeadsOn sortKey (insert n S) cookie (d.chunks.map g) (g c))
    (reload : ∀ c ∈ d.chunks, ∀ f, ((g c).keys sortKey).head? = some f →
      ReloadsAt (insert n S) cookie (g c).reloadCk f)
    (first : d'.firstCk = 0 ∨ ∃ c ∈ d.chunks.map g, ∃ f, (c.keys sortKey).head? = some f ∧
      IsLeast (insert n S) f ∧ d'.firstCk = cookie f) :
    WellFormed sortKey (insert n S) cookie d' ∧ ∀ {β : Type} (f : Dirent ν → β),
      (∀ e, f (clear e) = f e) → (d'.dirents.map f).Perm (f new :: d.dirents.map f) := by
  have hperm : ∀ {β : Type} (f : Dirent ν → β), (∀ e, f (clear e) = f e) →
      (d'.dirents.map f).Perm (f new :: d.dirents.map f) := fun f hf => by
    rw [Fsdir.dirents, hchunks]
    exact hp.perm hw hc₀ f hf
  have hkeys := hkey ▸ hperm (Dirent.key sortKey) hflags.key
  have hcks := hperm Dirent.ck fun e => (hflags e).2.1
  refine ⟨{
    addrs := ?_, dirent := ?_, chain := ?_, entries := ?_, distinct := ?_, next := ?_, reload := ?_,
    first := hchunks ▸ first, inOrder := hi.inOrder, inTree := fun k => ?_,
    byCk := fun k => ?_ }, hperm⟩
  · rw [hchunks, List.map_map, show DirChunk.addr ∘ g = DirChunk.addr from funext hp.addr]
    exact hw.addrs
  · rw [hchunks, List.forall_mem_map]
    exact fun c hc e he => hp.dirent hw hc₀ hflags hkey hck hchunk hc he
  · rw [hchunks, List.forall_mem_map]
    exact chain
  · rw [hchunks, List.forall_mem_map]
    exact fun c hc => hp.entries c (hw.entries c hc)
  · rw [hkeys.nodup_iff, nodup_cons]
    refine ⟨fun hmem => ?_, hw.distinct⟩
    obtain ⟨e, he, rfl⟩ := mem_map.mp hmem
    obtain ⟨c, hc, hec⟩ := Fsdir.mem_dirents.mp he
    exact hn (hw.dirent c hc e hec).1
  · rw [hchunks, List.forall_mem_map]
    exact next
  · rw [hchunks, List.forall_mem_map]
    exact reload
  · rw [hi.inTree, hkeys.mem_iff, mem_cons, hw.inTree]
  · rw [hi.byCk, hcks.mem_iff, mem_cons, mem_cons, hw.byCk]

end Puts

theorem WellFormed.prepend {r : κ} (hw : WellFormed sortKey S cookie d)
    (hf : InFront sortKey S d n c₀ r) (hl : FrontLeft sortKey S cookie d n r c₀ leftAddr d'.firstCk)
    (hi : Inserted d d' n new.ck) (hkey : new.key sortKey = n) (hck : new.ck = cookie n)
    (hchunk : new.chunk = some c₀.addr)
    (hchunks : d'.chunks = d.chunks.map (prependChunk c₀.addr new leftAddr)) :
    WellFormed sortKey (insert n S) cookie d' ∧ d'.dirents.Perm (new :: d.dirents) := by
  obtain ⟨hwf, hperm⟩ := puts_prepend.wellFormed hw hf.chunk (fun _ => ⟨rfl, rfl, rfl⟩) hf.new hi
    hkey hck hchunk hchunks (fun c hc => prepend_chain hw hf hkey hc)
    (fun c hc => prepend_next hw hf hl hkey hck hc)
    (fun c hc f hhead => prepend_reload hw hf hl hkey hc hhead) (prepend_first hw hf hl hkey)
  exact ⟨hwf, by simpa using hperm id fun _ => rfl⟩

section Append

/-- The chunk `c₀` ends at `l`, the last of the cached entries, and no entry is between `l` and the
new key. -/
structure AtEnd (sortKey : ν → Cookie → κ) (S : Set κ) (d : Fsdir ν κ) (n : κ) (c₀ : DirChunk ν)
    (l : κ) : Prop where
  new : n ∉ S
  chunk : c₀ ∈ d.chunks
  last : (c₀.keys sortKey).getLast? = some l
  greatest : ∀ c ∈ d.chunks, ∀ k ∈ c.keys sortKey, k ≤ l
  lt : l < n
  gap : ∀ s ∈ S, ¬ (l < s ∧ s < n)

variable {l : κ} (ha : AtEnd sortKey S d n c₀ l) (hflags : FlagsOnly clear)
  (hw : WellFormed sortKey S cookie d)

include ha

theorem AtEnd.follows_insert {a b : κ} (hc : c ∈ d.chunks) (hb : b ∈ c.keys sortKey)
    (h : Follows S a b) : Follows (insert n S) a b :=
  h.insert fun ⟨_, hnb⟩ => absurd (ha.greatest c hc b hb) (not_le.mpr (ha.lt.trans hnb))

theorem AtEnd.isLeast_insert (hc : c ∈ d.chunks) (hf : f ∈ c.keys sortKey) (h : IsLeast S f) :
    IsLeast (insert n S) f :=
  isLeast_insert_of_gt h (lt_of_le_of_lt (ha.greatest c hc f hf) ha.lt)

include hflags hw

theorem append_head (hc : c ∈ d.chunks) :
    ((appendChunk c₀.addr new clear c).keys sortKey).head? = some f ↔
      (c.keys sortKey).head? = some f := by
  rw [appendChunk_keys hflags]
  split_ifs with haddr
  · obtain rfl := hw.chunk_unique hc ha.chunk haddr
    obtain ⟨init, hinit⟩ := getLast?_eq_some_iff.mp ha.last
    rw [head?_append_of_ne_nil _ (by simp [hinit])]
  · exact Iff.rfl

theorem append_next (hc : c ∈ d.chunks) :
    (appendChunk c₀.addr new clear c).nextCk = 0 ∨
      LeadsOn sortKey (insert n S) cookie (d.chunks.map (appendChunk c₀.addr new clear))
        (appendChunk c₀.addr new clear c) := by
  rw [appendChunk_nextCk]
  obtain h0 | ⟨l', f, hlast, ⟨c', hc', hhead⟩, hlf, hnext⟩ := hw.next c hc
  · exact .inl h0
  have hf : f ∈ c'.keys sortKey := mem_of_mem_head? hhead
  by_cases hcc : c = c₀
  · -- nothing comes after the last cached entry
    subst hcc
    obtain rfl := some.inj (hlast.symm.trans ha.last)
    exact absurd hlf.lt (not_lt.mpr (ha.greatest c' hc' f hf))
  · refine .inr ⟨l', f, ?_, ⟨_, mem_map_of_mem hc', ?_⟩, ha.follows_insert hc' hf hlf, ?_⟩
    · rw [appendChunk_keys hflags, if_neg (addr_ne hw hc ha.chunk hcc), hlast]
    · exact (append_head ha hflags hw hc').mpr hhead
    · rw [appendChunk_nextCk, hnext]

theorem append_reload (hc : c ∈ d.chunks)
    (hhead : ((appendChunk c₀.addr new clear c).keys sortKey).head? = some f) :
    ReloadsAt (insert n S) cookie (appendChunk c₀.addr new clear c).reloadCk f := by
  rw [appendChunk_reloadCk]
  rw [append_head ha hflags hw hc] at hhead
  have hf : f ∈ c.keys sortKey := mem_of_mem_head? hhead
  obtain ⟨h0, hleast⟩ | ⟨p, hp, hreload⟩ := hw.reload c hc f hhead
  · exact .inl ⟨h0, ha.isLeast_insert hc hf hleast⟩
  · exact .inr ⟨p, ha.follows_insert hc hf hp, hreload⟩

theorem append_first :
    d.firstCk = 0 ∨ ∃ c ∈ d.chunks.map (appendChunk c₀.addr new clear), ∃ f,
      (c.keys sortKey).head? = some f ∧ IsLeast (insert n S) f ∧ d.firstCk = cookie f := by
  obtain h0 | ⟨c, hc, f, hhead, hleast, hfirst⟩ := hw.first
  · exact .inl h0
  · have hf : f ∈ c.keys sortKey := mem_of_mem_head? hhead
    exact .inr ⟨_, mem_map_of_mem hc, f, (append_head ha hflags hw hc).mpr hhead,
      ha.isLeast_insert hc hf hleast, hfirst⟩

theorem append_chain (hkey : new.key sortKey = n) (hc : c ∈ d.chunks) :
    ((appendChunk c₀.addr new clear c).keys sortKey).IsChain (Follows (insert n S)) := by
  have hchain : (c.keys sortKey).IsChain (Follows (insert n S)) :=
    (hw.chain c hc).imp_of_mem_imp fun a b _ hb hab => ha.follows_insert hc hb hab
  rw [appendChunk_keys hflags]
  split_ifs with haddr
  · obtain rfl := hw.chunk_unique hc ha.chunk haddr
    refine isChain_append.mpr ⟨hchain, .singleton _, fun x hx y hy => ?_⟩
    rw [ha.last, mem_some_iff] at hx
    rw [head?_cons, mem_some_iff, hkey] at hy
    subst hx hy
    exact Follows.insert_left (hw.key_mem hc (mem_of_getLast? ha.last)) ha.lt ha.gap
  · exact hchain

end Append

theorem WellFormed.append {l : κ} (hw : WellFormed sortKey S cookie d)
    (ha : AtEnd sortKey S d n c₀ l) (hflags : FlagsOnly clear) (hi : Inserted d d' n new.ck)
    (hkey : new.key sortKey = n) (hck : new.ck = cookie n) (hchunk : new.chunk = some c₀.addr)
    (hfirst : d'.firstCk = d.firstCk)
    (hchunks : d'.chunks = d.chunks.map (appendChunk c₀.addr new clear)) :
    WellFormed sortKey (insert n S) cookie d' ∧
      (d'.dirents.map Dirent.name).Perm (new.name :: d.dirents.map Dirent.name) := by
  obtain ⟨hwf, hperm⟩ := puts_append.wellFormed hw ha.chunk hflags ha.new hi hkey hck hchunk hchunks
    (fun c hc => append_chain ha hflags hw hkey hc) (fun c hc => append_next ha hflags hw hc)
    (fun c hc f hhead => append_reload ha hflags hw hc hhead) (hfirst ▸ append_first ha hflags hw)
  exact ⟨hwf, hperm Dirent.name fun e => (hflags e).1⟩

end EdgeComputing.Mdcache
