import EdgeComputing.Mdcache.PlaceDirent

/-!
When `place_new_dirent` keeps the chunks well formed, read off the cached neighbours of the new
name.
-/

namespace EdgeComputing.Mdcache

open List Option Library Fsdir

variable {ν κ : Type} {env : PlaceEnv ν κ} {S : Set κ} {cookie : κ → Cookie} {d d₁ : Fsdir ν κ}
  {new : Dirent ν} {path : List (BinTree.Step κ)} {e : Dirent ν} {c : DirChunk ν} {addr : Nat}
  {name : ν}

def newKey (env : PlaceEnv ν κ) (name : ν) : κ :=
  env.sortKey name (env.computeReaddirCookie name)

/-- Neither `MDCACHE_DIR_POPULATED` nor `MDCACHE_TRUST_DIR_CHUNKS` is set. -/
def Untrusted (d : Fsdir ν κ) : Prop :=
  d.dirPopulated = false ∧ d.trustDirChunks = false

structure NewEntry (env : PlaceEnv ν κ) (S : Set κ) (cookie : κ → Cookie) (name : ν) : Prop where
  ck_ne_zero : env.computeReaddirCookie name ≠ 0
  notMem : newKey env name ∉ S
  ck : env.computeReaddirCookie name = cookie (newKey env name)
  cookies : Cookies (insert (newKey env name) S) cookie

structure IsNew (env : PlaceEnv ν κ) (new : Dirent ν) (name : ν) : Prop where
  named : new.name = name
  ck : new.ck = env.computeReaddirCookie name
  chunk : new.chunk = none

theorem IsNew.key (hnew : IsNew env new name) : new.key env.sortKey = newKey env name := by
  rw [Dirent.key, hnew.named, hnew.ck]
  rfl

theorem NewEntry.oldCookies (he : NewEntry env S cookie name) : Cookies S cookie :=
  ⟨fun _ ha _ hb => he.cookies.inj (Set.mem_insert_of_mem _ ha) (Set.mem_insert_of_mem _ hb),
    fun k hk => he.cookies.ne_zero k (Set.mem_insert_of_mem _ hk)⟩

theorem placeOut_dirents (b : Bool) : (placeOut env d new b).dirents = d.dirents := by
  cases b <;> cases hc : new.chunk <;> simp [placeOut, hc, addDetachedDirent, dirents]

theorem linked_key {sortKey : ν → Cookie → κ} : (linked new addr).key sortKey = new.key sortKey :=
  rfl

variable [LinearOrder κ]

/-- The new dirent is detached and the chunks are not trusted any more, or it is one of the dirents
of a well-formed directory. -/
def Placed (env : PlaceEnv ν κ) (S : Set κ) (cookie : κ → Cookie) (d : Fsdir ν κ) (name : ν)
    (d' : Fsdir ν κ) : Prop :=
  (Untrusted d' ∧ (∃ e ∈ d'.detached, e.name = name) ∧
      ∀ e ∈ d'.dirents, e.key env.sortKey ≠ newKey env name) ∨
    (WellFormed env.sortKey (insert (newKey env name) S) cookie d' ∧
      (d'.dirents.map Dirent.name).Perm (name :: d.dirents.map Dirent.name))

def InPlace (env : PlaceEnv ν κ) (S : Set κ) (cookie : κ → Cookie) (d : Fsdir ν κ) (name : ν)
    (d' : Fsdir ν κ) : Prop :=
  WellFormed env.sortKey (insert (newKey env name) S) cookie d' ∧
    (d'.dirents.map Dirent.name).Perm (name :: d.dirents.map Dirent.name)

variable (hw : WellFormed env.sortKey S cookie d) (he : NewEntry env S cookie name)
  (hnew : IsNew env new name)

section

include hw he

theorem key_ne_newKey (hmem : e ∈ d.dirents) : e.key env.sortKey ≠ newKey env name := by
  obtain ⟨c, hc, hec⟩ := mem_dirents.mp hmem
  exact ne_of_mem_of_not_mem (hw.dirent c hc e hec).1 he.notMem

include hnew in
theorem newCk_notMem : new.ck ∉ d.ck := by
  intro hmem
  obtain ⟨e, hmem, hck⟩ := mem_map.mp ((hw.byCk _).mp hmem)
  obtain ⟨c, hc, hec⟩ := mem_dirents.mp hmem
  obtain ⟨hS, heck, -⟩ := hw.dirent c hc e hec
  refine key_ne_newKey hw he hmem (he.cookies.inj (Set.mem_insert_of_mem _ hS)
    (Set.mem_insert _ S) ?_)
  rw [← heck, hck, hnew.ck, he.ck]

end

section Out

include hw he hnew

theorem placed_placeOut_iff (b : Bool) :
    Placed env S cookie d name (placeOut env d new b) ↔ Untrusted (placeOut env d new b) := by
  constructor
  · rintro (⟨hflags, -⟩ | ⟨-, hperm⟩)
    · exact hflags
    · have hlen := hperm.length_eq
      rw [placeOut_dirents] at hlen
      simp at hlen
  · intro hflags
    refine .inl ⟨hflags, ⟨new, by simp [placeOut, hnew.chunk, addDetachedDirent], hnew.named⟩,
    fun e hmem => ?_⟩
    rw [placeOut_dirents] at hmem
    exact key_ne_newKey hw he hmem

theorem placed_placeOut_true : Placed env S cookie d name (placeOut env d new true) := by
  rw [placed_placeOut_iff hw he hnew]
  simp [Untrusted, placeOut, hnew.chunk, addDetachedDirent]

theorem placed_placeOut_false :
    Placed env S cookie d name (placeOut env d new false) ↔ Untrusted d := by
  rw [placed_placeOut_iff hw he hnew]
  simp [Untrusted, placeOut, hnew.chunk, addDetachedDirent]

end Out

theorem split_placed_iff (he : NewEntry env S cookie name) (hc : d₁.chunk? addr = some c)
    (hmem : e ∈ c.dirents) (hkey : e.key env.sortKey = newKey env name) :
    (∃ d', splitChunk env d₁ addr = some d' ∧ Placed env S cookie d name d') ↔
      c.numEntries ≠ env.avlChunkSplit ∧ InPlace env S cookie d name d₁ := by
  constructor
  · rintro ⟨d', hsplit, hplaced⟩
    by_cases heq : c.numEntries = env.avlChunkSplit
    · obtain ⟨⟨c', hc', e', he', hreload⟩, hkept⟩ := splitChunk_spec hc heq hsplit
      obtain ⟨-, -, hnone⟩ | ⟨hw', -⟩ := hplaced
      · obtain ⟨e'', hmem'', hkey''⟩ := hkept e hmem
        exact absurd (hkey''.trans hkey) (hnone e'' hmem'')
      · exact absurd hreload (hw'.reloadCk_ne he.cookies hc' he')
    · rw [splitChunk_of_ne hc heq, some.injEq] at hsplit
      subst hsplit
      obtain ⟨-, -, hnone⟩ | hw' := hplaced
      · have hcm := mem_of_find?_eq_some hc
        exact absurd hkey (hnone e (mem_dirents.mpr ⟨c, hcm, hmem⟩))
      · exact ⟨heq, hw'⟩
  · rintro ⟨hne, hw'⟩
    exact ⟨d₁, splitChunk_of_ne hc hne, .inr hw'⟩

section Neighbours

variable {n : κ} (hn : n ∉ S) (hc : c ∈ d.chunks)

include hw

theorem key_mem_of_dirents (he : e ∈ d.dirents) : e.key env.sortKey ∈ S := by
  obtain ⟨c, hc, hec⟩ := mem_dirents.mp he
  exact (hw.dirent c hc e hec).1

include hn hc

theorem right_head {right : Dirent ν} (hr : right ∈ c.dirents)
    (hright : RightOf env.sortKey d n (some right)) :
    (c.keys env.sortKey).head? = some (right.key env.sortKey) ∨
      ∃ left ∈ c.dirents, LeftOf env.sortKey d n (some left) := by
  obtain hhead | ⟨k, hk, hfol⟩ := head?_or_exists_of_isChain (hw.chain c hc) (mem_map_of_mem hr)
  · exact .inl hhead
  obtain ⟨e, he, rfl⟩ := mem_map.mp hk
  have hmem : e ∈ d.dirents := mem_dirents.mpr ⟨c, hc, he⟩
  have hlt : e.key env.sortKey < n := by
    refine lt_of_le_of_ne (not_lt.mp fun hlt => ?_) (ne_of_mem_of_not_mem hfol.left_mem hn)
    exact absurd hfol.lt (not_lt.mpr (hright.2.2 e hmem hlt))
  refine .inr ⟨e, he, hmem, hlt, fun e' he' hlt' => ?_⟩
  exact hfol.le_of_lt_right (key_mem_of_dirents hw he') (hlt'.trans hright.2.1)

theorem left_last {left : Dirent ν} (hl : left ∈ c.dirents)
    (hleft : LeftOf env.sortKey d n (some left)) :
    (c.keys env.sortKey).getLast? = some (left.key env.sortKey) ∨
      ∃ right ∈ c.dirents, RightOf env.sortKey d n (some right) := by
  obtain hlast | ⟨k, hk, hfol⟩ :=
    getLast?_or_exists_of_isChain (hw.chain c hc) (mem_map_of_mem hl)
  · exact .inl hlast
  obtain ⟨e, he, rfl⟩ := mem_map.mp hk
  have hmem : e ∈ d.dirents := mem_dirents.mpr ⟨c, hc, he⟩
  have hlt : n < e.key env.sortKey := by
    refine lt_of_le_of_ne (not_lt.mp fun hlt => ?_) (ne_of_mem_of_not_mem hfol.right_mem hn).symm
    exact absurd hfol.lt (not_lt.mpr (hleft.2.2 e hmem hlt))
  refine .inr ⟨e, he, hmem, hlt, fun e' he' hlt' => ?_⟩
  exact hfol.le_of_lt_left (key_mem_of_dirents hw he') (hleft.2.1.trans hlt')

section

variable {left right : Dirent ν} (hleft : LeftOf env.sortKey d n (some left))
  (hright : RightOf env.sortKey d n (some right)) (hne : left.chunk ≠ right.chunk)

include hleft hright hne

theorem head_of_chunk_ne (hr : right ∈ c.dirents) :
    (c.keys env.sortKey).head? = some (right.key env.sortKey) := by
  obtain hhead | ⟨left', hl', hleft'⟩ := right_head hw hn hc hr hright
  · exact hhead
  · obtain rfl := some.inj (hleft.unique hw hleft')
    exact absurd ((hw.dirent c hc left hl').2.2.trans (hw.dirent c hc right hr).2.2.symm) hne

theorem last_of_chunk_ne (hl : left ∈ c.dirents) :
    (c.keys env.sortKey).getLast? = some (left.key env.sortKey) := by
  obtain hlast | ⟨right', hr', hright'⟩ := left_last hw hn hc hl hleft
  · exact hlast
  · obtain rfl := some.inj (hright.unique hw hright')
    exact absurd ((hw.dirent c hc left hl).2.2.trans (hw.dirent c hc right hr').2.2.symm) hne

end

end Neighbours

section Right

variable {left : Option (Dirent ν)} {right : Dirent ν} {c₀ : DirChunk ν} (hc₀ : c₀ ∈ d.chunks)
  (hr : right ∈ c₀.dirents)

theorem insertBefore_mem {l : List (Dirent ν)} (h : e ∈ l) :
    new ∈ insertBefore env (e.key env.sortKey) new l := by
  induction l with
  | nil => cases h
  | cons x xs ih =>
    rw [insertBefore]
    split_ifs with hx
    · exact mem_cons_self ..
    · obtain rfl | h := mem_cons.mp h
      · exact absurd rfl hx
      · exact mem_cons_of_mem _ (ih h)

include hw hc₀ in
theorem placedRight_chunk? {k : κ} {leftAddr : Option Nat}
    (hd₁ : d₁.chunks = d.chunks.map (rightChunk env c₀.addr k e leftAddr)) :
    d₁.chunk? c₀.addr = some (rightChunk env c₀.addr k e leftAddr c₀) := by
  have hnd : (d₁.chunks.map DirChunk.addr).Nodup := by
    rw [hd₁, List.map_map]
    exact hw.addrs
  exact find?_key_of_mem hnd (hd₁ ▸ mem_map_of_mem hc₀)

include hw he hnew hc₀ hr

theorem placeBetween_right_iff :
    (∃ d', placeBetween env d new path left (some right) = some d' ∧
      Placed env S cookie d name d') ↔
      c₀.numEntries + 1 ≠ env.avlChunkSplit ∧
        InPlace env S cookie d name (placedRight env d new path left right c₀.addr) := by
  rw [placeBetween_right (hw.dirent c₀ hc₀ right hr).2.2 (newCk_notMem hw he hnew)]
  rw [split_placed_iff he (placedRight_chunk? hw hc₀ rfl) (e := linked new c₀.addr) ?_ ?_]
  · simp [rightChunk]
  · simp only [rightChunk, if_true]
    exact insertBefore_mem hr
  · rw [linked_key, hnew.key]

omit hnew he in
theorem rightChunk_eq_prependChunk {leftAddr : Option Nat}
    (hhead : (c₀.keys env.sortKey).head? = some (right.key env.sortKey))
    (hne : leftAddr ≠ some c₀.addr) (hc : c ∈ d.chunks) :
    rightChunk env c₀.addr (right.key env.sortKey) e leftAddr c =
      prependChunk c₀.addr e leftAddr c := by
  unfold rightChunk prependChunk
  by_cases haddr : c.addr = c₀.addr
  · obtain rfl := hw.chunk_unique hc hc₀ haddr
    obtain ⟨x, hx, hxkey⟩ := map_eq_some_iff.mp (head?_map ▸ hhead)
    obtain ⟨rest, hrest⟩ := head?_eq_some_iff.mp hx
    simp [hne.symm, hrest, insertBefore, hxkey]
  · by_cases hleft : some c.addr = leftAddr <;> simp [haddr, hleft]

theorem placedRight_prepend (hh : HoleAt d.sorted (newKey env name) path)
    (hfront : InFront env.sortKey S d (newKey env name) c₀ (right.key env.sortKey))
    (hside : FrontLeft env.sortKey S cookie d (newKey env name) (right.key env.sortKey) c₀
      (left.bind Dirent.chunk) (placedRight env d new path left right c₀.addr).firstCk)
    (hne : left.bind Dirent.chunk ≠ some c₀.addr) :
    InPlace env S cookie d name (placedRight env d new path left right c₀.addr) := by
  have hchunks : (placedRight env d new path left right c₀.addr).chunks =
      d.chunks.map (prependChunk c₀.addr (linked new c₀.addr) (left.bind Dirent.chunk)) :=
    map_congr_left fun c hc => rightChunk_eq_prependChunk hw hc₀ hr hfront.head hne hc
  have hkey : (linked new c₀.addr).key env.sortKey = newKey env name := hnew.key
  have hinserted : Inserted d (placedRight env d new path left right c₀.addr) (newKey env name)
      (linked new c₀.addr).ck := hh.inserted hw (by rw [← hnew.key]; rfl) rfl
  obtain ⟨hw', hperm⟩ :=
    hw.prepend hfront hside hinserted hkey (hnew.ck.trans he.ck) rfl hchunks
  refine ⟨hw', ?_⟩
  have hnames := hperm.map Dirent.name
  rwa [map_cons, show (linked new c₀.addr).name = name from hnew.named] at hnames

theorem placedRight_first (hh : HoleAt d.sorted (newKey env name) path)
    (hright : RightOf env.sortKey d (newKey env name) (some right))
    (hleft : LeftOf env.sortKey d (newKey env name) none) (hfirst : d.firstCk = right.ck) :
    InPlace env S cookie d name (placedRight env d new path none right c₀.addr) := by
  obtain ⟨hrS, hrck, -⟩ := hw.dirent c₀ hc₀ right hr
  have hleast : IsLeast S (right.key env.sortKey) := by
    obtain h0 | ⟨c, hc, f, -, hf, hfck⟩ := hw.first
    · exact absurd (hrck.symm.trans (hfirst.symm.trans h0)) (he.oldCookies.ne_zero _ hrS)
    · have heq : cookie (right.key env.sortKey) = cookie f := by rw [← hrck, ← hfirst, hfck]
      rw [he.oldCookies.inj hrS hf.1 heq]
      exact hf
  have hhead : (c₀.keys env.sortKey).head? = some (right.key env.sortKey) := by
    obtain hhead | ⟨left, hl, hleft'⟩ := right_head hw he.notMem hc₀ hr hright
    · exact hhead
    · exact absurd hleft'.2.1 (hleft left hleft'.1)
  have hfront : InFront env.sortKey S d (newKey env name) c₀ (right.key env.sortKey) :=
    ⟨he.notMem, hc₀, hhead, hright.2.1, fun s hs ⟨_, hlt⟩ => absurd (hleast.2 hs) (not_le.mpr hlt)⟩
  refine placedRight_prepend hw he hnew hc₀ hr hh hfront ?_ nofun
  exact .inl ⟨rfl, hleast, hnew.ck.trans he.ck⟩

theorem placedRight_between (hh : HoleAt d.sorted (newKey env name) path) {left : Dirent ν}
    (hleft : LeftOf env.sortKey d (newKey env name) (some left))
    (hright : RightOf env.sortKey d (newKey env name) (some right)) (hne : left.chunk ≠ right.chunk)
    (hfol : Follows S (left.key env.sortKey) (right.key env.sortKey)) :
    InPlace env S cookie d name (placedRight env d new path (some left) right c₀.addr) := by
  obtain ⟨cl, hcl, hl⟩ := mem_dirents.mp hleft.1
  have hlchunk := (hw.dirent cl hcl left hl).2.2
  have hrchunk := (hw.dirent c₀ hc₀ right hr).2.2
  have hcc : cl ≠ c₀ := by
    rintro rfl
    exact hne (hlchunk.trans hrchunk.symm)
  have hhead := head_of_chunk_ne hw he.notMem hc₀ hleft hright hne hr
  have hlast := last_of_chunk_ne hw he.notMem hcl hleft hright hne hl
  have hfront : InFront env.sortKey S d (newKey env name) c₀ (right.key env.sortKey) :=
    ⟨he.notMem, hc₀, hhead, hright.2.1,
      fun s hs ⟨hlt, hlt'⟩ => hfol.2.2.2 s hs ⟨hleft.2.1.trans hlt, hlt'⟩⟩
  refine placedRight_prepend hw he hnew hc₀ hr hh hfront (.inr ?_) ?_
  · exact ⟨cl, hcl, _, hcc, hlchunk, hlast, hfol, hleft.2.1, rfl⟩
  · exact fun h => hne (h.trans hrchunk.symm)

theorem between_of_placedRight {left : Dirent ν}
    (hleft : LeftOf env.sortKey d (newKey env name) (some left))
    (hright : RightOf env.sortKey d (newKey env name) (some right))
    (hw' : WellFormed env.sortKey (insert (newKey env name) S) cookie
      (placedRight env d new path (some left) right c₀.addr)) :
    left.chunk ≠ right.chunk ∧ Follows S (left.key env.sortKey) (right.key env.sortKey) := by
  obtain ⟨cl, hcl, hl⟩ := mem_dirents.mp hleft.1
  have hlchunk := (hw.dirent cl hcl left hl).2.2
  have hrchunk := (hw.dirent c₀ hc₀ right hr).2.2
  have hck : new.ck = cookie (newKey env name) := hnew.ck.trans he.ck
  have hne : left.chunk ≠ right.chunk := by
    intro heq
    have hnext := hw'.nextCk_ne he.cookies (mem_map_of_mem hc₀) (e := linked new c₀.addr)
      (by simp only [rightChunk, if_true]; exact insertBefore_mem hr)
    simp [rightChunk, heq, hrchunk, linked] at hnext
  refine ⟨hne, ?_⟩
  have hhead := head_of_chunk_ne hw he.notMem hc₀ hleft hright hne hr
  have hlast := last_of_chunk_ne hw he.notMem hcl hleft hright hne hl
  have hchunk : ∀ c ∈ d.chunks, prependChunk c₀.addr (linked new c₀.addr) left.chunk c ∈
      (placedRight env d new path (some left) right c₀.addr).chunks := fun c hc => by
    rw [← rightChunk_eq_prependChunk hw hc₀ hr hhead (fun h => hne (h.trans hrchunk.symm)) hc]
    exact mem_map_of_mem hc
  -- the chunk on the left leads to the new entry, which must be the next one after it
  have hfolLeft : Follows (insert (newKey env name) S) (left.key env.sortKey) (newKey env name) := by
    have haddr : cl.addr ≠ c₀.addr := fun h => hne (by rw [hlchunk, hrchunk, h])
    have hnext : (prependChunk c₀.addr (linked new c₀.addr) left.chunk cl).nextCk = new.ck := by
      unfold prependChunk
      rw [if_neg haddr, if_pos hlchunk.symm]
      rfl
    obtain h0 | ⟨l, f, hl', -, hfol, hf⟩ := hw'.next _ (hchunk cl hcl)
    · exact absurd (hck.symm.trans (hnext.symm.trans h0))
        (he.cookies.ne_zero _ (Set.mem_insert _ S))
    · rw [prependChunk_keys, if_neg haddr, hlast, some.injEq] at hl'
      have heq : cookie (newKey env name) = cookie f := by rw [← hck, ← hnext, hf]
      have hfn : f = newKey env name :=
        (he.cookies.inj (Set.mem_insert _ S) hfol.right_mem heq).symm
      rw [hl']
      exact hfn ▸ hfol
  -- the chunk on the right keeps its `reload_ck`, which must be the cookie before the new entry
  have hreload : ReloadsAt (insert (newKey env name) S) cookie c₀.reloadCk (newKey env name) := by
    have h := hw'.reload _ (hchunk c₀ hc₀) (newKey env name) (by
      rw [prependChunk_keys, if_pos rfl, head?_cons, linked_key, hnew.key])
    rwa [prependChunk_reloadCk] at h
  obtain ⟨-, hleast⟩ | ⟨p, hp, hpck⟩ := hw.reload c₀ hc₀ _ hhead
  · exact absurd (hleast.2 (key_mem_of_dirents hw hleft.1))
      (not_le.mpr (hleft.2.1.trans hright.2.1))
  · obtain ⟨h0, -⟩ | ⟨q, hq, hqck⟩ := hreload
    · exact absurd (hpck.symm.trans h0) (he.oldCookies.ne_zero _ hp.left_mem)
    · have hpq : p = q := he.cookies.inj (Set.mem_insert_of_mem _ hp.left_mem) hq.left_mem
        (hpck.symm.trans hqck)
      rw [hfolLeft.left_unique (hpq ▸ hq)]
      exact hp

end Right

section Last

variable {left : Dirent ν} {c₀ : DirChunk ν} (hc₀ : c₀ ∈ d.chunks) (hl : left ∈ c₀.dirents)

theorem clearEod_flagsOnly {k : κ} : FlagsOnly (clearEod env k) := by
  intro e
  unfold clearEod
  split_ifs <;> exact ⟨rfl, rfl, rfl⟩

include hw he hnew hc₀ hl

theorem placeBetween_last_iff :
    (∃ d', placeBetween env d new path (some left) none = some d' ∧
      Placed env S cookie d name d') ↔
      c₀.numEntries + 1 ≠ env.avlChunkSplit ∧
        InPlace env S cookie d name (placedLast env d new path left c₀.addr) := by
  have hnd : ((placedLast env d new path left c₀.addr).chunks.map DirChunk.addr).Nodup := by
    simpa [placedLast, Function.comp_def, appendChunk_addr] using hw.addrs
  have hchunk := find?_key_of_mem hnd (mem_map_of_mem hc₀)
  rw [appendChunk_addr] at hchunk
  rw [placeBetween_last (hw.dirent c₀ hc₀ left hl).2.2 (newCk_notMem hw he hnew)]
  rw [split_placed_iff he hchunk (e := { linked new c₀.addr with eod := true }) ?_ ?_]
  · simp [appendChunk]
  · simp [appendChunk]
  · exact hnew.key

variable (hleft : LeftOf env.sortKey d (newKey env name) (some left))
  (hright : RightOf env.sortKey d (newKey env name) none)

include hleft hright

omit hnew in
theorem last_of_no_right : (c₀.keys env.sortKey).getLast? = some (left.key env.sortKey) := by
  obtain hlast | ⟨right, -, hright'⟩ := left_last hw he.notMem hc₀ hl hleft
  · exact hlast
  · exact absurd hright'.2.1 (hright right hright'.1)

theorem placedLast_iff (hh : HoleAt d.sorted (newKey env name) path) :
    InPlace env S cookie d name (placedLast env d new path left c₀.addr) ↔
      ∀ s ∈ S, ¬ (left.key env.sortKey < s ∧ s < newKey env name) := by
  have hlast := last_of_no_right hw he hc₀ hl hleft hright
  constructor
  · rintro ⟨hw', -⟩ s hs hbetween
    have hchain := hw'.chain _ (mem_map_of_mem hc₀)
    rw [appendChunk_keys clearEod_flagsOnly, if_pos rfl, isChain_append] at hchain
    have hfol := hchain.2.2 _ (mem_def.mpr hlast) _ rfl
    refine hfol.2.2.2 s (Set.mem_insert_of_mem _ hs) ⟨hbetween.1, ?_⟩
    have hkey : Dirent.key env.sortKey { linked new c₀.addr with eod := true } = newKey env name :=
      hnew.key
    rw [hkey]
    exact hbetween.2
  · intro hgap
    have hgreatest : ∀ c ∈ d.chunks, ∀ k ∈ c.keys env.sortKey, k ≤ left.key env.sortKey := by
      intro c hc k hk
      obtain ⟨e, hec, rfl⟩ := mem_map.mp hk
      have hmem : e ∈ d.dirents := mem_dirents.mpr ⟨c, hc, hec⟩
      refine hleft.2.2 e hmem (lt_of_le_of_ne (not_lt.mp (hright e hmem)) ?_)
      exact key_ne_newKey hw he hmem
    have hend : AtEnd env.sortKey S d (newKey env name) c₀ (left.key env.sortKey) :=
      ⟨he.notMem, hc₀, hlast, hgreatest, hleft.2.1, hgap⟩
    have hkey : Dirent.key env.sortKey { linked new c₀.addr with eod := true } = newKey env name :=
      hnew.key
    have hinserted : Inserted d (placedLast env d new path left c₀.addr) (newKey env name)
        (Dirent.ck { linked new c₀.addr with eod := true }) :=
      hh.inserted hw (by rw [← hnew.key]; rfl) rfl
    obtain ⟨hw', hperm⟩ := hw.append hend clearEod_flagsOnly hinserted hkey
      (hnew.ck.trans he.ck) rfl rfl rfl
    exact ⟨hw', hnew.named ▸ hperm⟩

end Last

def Room (env : PlaceEnv ν κ) (d : Fsdir ν κ) (e : Dirent ν) : Prop :=
  ∀ c ∈ d.chunks, e ∈ c.dirents → c.numEntries + 1 ≠ env.avlChunkSplit

/-- When the new dirent between two cached neighbours leaves the chunks right. -/
def SidesSafe (env : PlaceEnv ν κ) (S : Set κ) (d : Fsdir ν κ) (n : κ) :
    Option (Dirent ν) → Option (Dirent ν) → Prop
  | none, none => True
  | none, some right => if d.firstCk = right.ck then Room env d right else Untrusted d
  | some left, none =>
    if left.eod then
      (∀ s ∈ S, ¬ (left.key env.sortKey < s ∧ s < n)) ∧ Room env d left
    else Untrusted d
  | some left, some right =>
    left.chunk ≠ right.chunk ∧
      Follows S (left.key env.sortKey) (right.key env.sortKey) ∧ Room env d right

def PlaceSafe (env : PlaceEnv ν κ) (S : Set κ) (d : Fsdir ν κ) (n : κ) : Prop :=
  ∃ left right, LeftOf env.sortKey d n left ∧ RightOf env.sortKey d n right ∧
    SidesSafe env S d n left right

include hw in
theorem room_iff (hc : c ∈ d.chunks) (he : e ∈ c.dirents) :
    Room env d e ↔ c.numEntries + 1 ≠ env.avlChunkSplit := by
  refine ⟨fun h => h c hc he, fun h c' hc' he' => ?_⟩
  have hkey : e.key env.sortKey ∈ c'.keys env.sortKey := mem_map_of_mem he'
  rwa [hw.chunk_of_key hc' hc hkey (mem_map_of_mem he)]

include hw he hnew in
theorem placeSides_iff (hh : HoleAt d.sorted (newKey env name) path)
    {left right : Option (Dirent ν)} (hleft : LeftOf env.sortKey d (newKey env name) left)
    (hright : RightOf env.sortKey d (newKey env name) right) :
    (∃ d', placeSides env d new path left right = some d' ∧ Placed env S cookie d name d') ↔
      SidesSafe env S d (newKey env name) left right := by
  cases left with
  | none =>
    cases right with
    | none => simpa [placeSides, SidesSafe] using placed_placeOut_true hw he hnew
    | some right =>
      obtain ⟨c₀, hc₀, hr⟩ := mem_dirents.mp hright.1
      simp only [placeSides, SidesSafe]
      split_ifs with hfirst
      · rw [placeBetween_right_iff hw he hnew hc₀ hr, room_iff hw hc₀ hr]
        exact and_iff_left (placedRight_first hw he hnew hc₀ hr hh hright hleft hfirst)
      · simpa using placed_placeOut_false hw he hnew
  | some left =>
    cases right with
    | none =>
      obtain ⟨c₀, hc₀, hl⟩ := mem_dirents.mp hleft.1
      simp only [placeSides, SidesSafe]
      split_ifs with heod
      · rw [placeBetween_last_iff hw he hnew hc₀ hl, room_iff hw hc₀ hl,
          placedLast_iff hw he hnew hc₀ hl hleft hright hh, and_comm]
      · simpa using placed_placeOut_false hw he hnew
    | some right =>
      obtain ⟨c₀, hc₀, hr⟩ := mem_dirents.mp hright.1
      simp only [placeSides, SidesSafe]
      rw [placeBetween_right_iff hw he hnew hc₀ hr, room_iff hw hc₀ hr]
      constructor
      · rintro ⟨hroom, hw', -⟩
        obtain ⟨hne, hfol⟩ := between_of_placedRight hw he hnew hc₀ hr hleft hright hw'
        exact ⟨hne, hfol, hroom⟩
      · rintro ⟨hne, hfol, hroom⟩
        exact ⟨hroom, placedRight_between hw he hnew hc₀ hr hh hleft hright hne hfol⟩

/-- `place_new_dirent` leaves the dirent detached with the trust flags clear or a well-formed
directory with it exactly when the cached neighbours of the new name allow it. -/
theorem place_new_dirent_iff (env : PlaceEnv ν κ) (S : Set κ) (cookie : κ → Cookie)
    (d : Fsdir ν κ) (new : Dirent ν) (hw : WellFormed env.sortKey S cookie d)
    (he : NewEntry env S cookie new.name) (hchunk : new.chunk = none) :
    (∃ d', placeNewDirent env d new = some d' ∧ Placed env S cookie d new.name d') ↔
      PlaceSafe env S d (newKey env new.name) := by
  have hnew : IsNew env { new with ck := env.computeReaddirCookie new.name } new.name :=
    ⟨rfl, rfl, hchunk⟩
  obtain ⟨path, hlook, hh⟩ := lookup_hole hw he.notMem
  have hleft := leftOf_before hw hh
  have hright := rightOf_after hw hh
  have heq : placeNewDirent env d new =
      placeAt env d { new with ck := env.computeReaddirCookie new.name } path := by
    simp only [placeNewDirent, if_neg he.ck_ne_zero]
    rw [show Dirent.key env.sortKey { new with ck := env.computeReaddirCookie new.name } =
      newKey env new.name from rfl, hlook]
  rw [heq, placeAt_eq hw hh, placeSides_iff hw he hnew hh hleft hright]
  constructor
  · exact fun h => ⟨_, _, hleft, hright, h⟩
  · rintro ⟨left, right, hleft', hright', h⟩
    rw [hleft.unique hw hleft', hright.unique hw hright']
    exact h

def plainEnv : PlaceEnv Nat Nat where
  computeReaddirCookie := id
  sortKey name _ := name
  avlChunkSplit := 8
  avlDetachedMax := 4
  newChunk := 9

def oneChunk : Fsdir Nat Nat where
  chunks := [
    { addr := 1, reloadCk := 0, numEntries := 2,
      dirents := [{ name := 10, ck := 10, chunk := some 1 },
        { name := 30, ck := 30, chunk := some 1, eod := true }] }]
  sorted := .node .leaf 10 (.node .leaf 30 .leaf)
  ck := [10, 30]
  firstCk := 10
  dirPopulated := true
  trustDirChunks := true

def twoChunks : Fsdir Nat Nat :=
  { oneChunk with
    chunks := [
      { addr := 1, reloadCk := 0, nextCk := 30, numEntries := 1,
        dirents := [{ name := 10, ck := 10, chunk := some 1 }] },
      { addr := 2, reloadCk := 10, numEntries := 1,
        dirents := [{ name := 30, ck := 30, chunk := some 2, eod := true }] }] }

theorem follows_ten_thirty : Follows ({10, 30} : Set Nat) 10 30 := by
  refine ⟨by simp, by simp, by decide, ?_⟩
  rintro c (rfl | rfl) <;> omega

theorem isLeast_ten : IsLeast ({10, 30} : Set Nat) 10 := by
  refine ⟨by simp, ?_⟩
  rintro c (rfl | rfl) <;> omega

theorem reloadsAt_ten : ReloadsAt ({10, 30} : Set Nat) id 0 10 :=
  .inl ⟨rfl, isLeast_ten⟩

theorem oneChunk_wellFormed : WellFormed plainEnv.sortKey {10, 30} id oneChunk where
  addrs := by decide
  dirent := by simp [oneChunk, Dirent.key, plainEnv]
  chain := by simpa [oneChunk, DirChunk.keys, Dirent.key, plainEnv] using follows_ten_thirty
  entries := by decide
  distinct := by decide
  next := by simp [oneChunk]
  reload := by simpa [oneChunk, DirChunk.keys, Dirent.key, plainEnv] using reloadsAt_ten
  first := by simpa [oneChunk, DirChunk.keys, Dirent.key, plainEnv] using isLeast_ten
  inOrder := by decide
  inTree := by simp [oneChunk, BinTree.toList, dirents, Dirent.key, plainEnv]
  byCk := by simp [oneChunk, dirents]

theorem twoChunks_wellFormed : WellFormed plainEnv.sortKey {10, 30} id twoChunks where
  addrs := by decide
  dirent := by simp [twoChunks, Dirent.key, plainEnv]
  chain := by simp [twoChunks, DirChunk.keys]
  entries := by decide
  distinct := by decide
  next := by
    simpa [twoChunks, LeadsOn, DirChunk.keys, Dirent.key, plainEnv] using follows_ten_thirty
  reload := by
    have hthirty : ReloadsAt ({10, 30} : Set Nat) id 10 30 := .inr ⟨10, follows_ten_thirty, rfl⟩
    simpa [twoChunks, DirChunk.keys, Dirent.key, plainEnv] using And.intro reloadsAt_ten hthirty
  first := by simpa [twoChunks, oneChunk, DirChunk.keys, Dirent.key, plainEnv] using isLeast_ten
  inOrder := by decide
  inTree := by simp [twoChunks, oneChunk, BinTree.toList, dirents, Dirent.key, plainEnv]
  byCk := by simp [twoChunks, oneChunk, dirents]

theorem twenty_newEntry : NewEntry plainEnv {10, 30} id 20 where
  ck_ne_zero := by decide
  notMem := by simp [newKey, plainEnv]
  ck := rfl
  cookies := ⟨fun _ _ _ _ h => h, by simp [newKey, plainEnv]⟩

/-- Between two chunks with nothing in between, the new entry is placed. -/
theorem placed_between_chunks :
    ∃ d', placeNewDirent plainEnv twoChunks { name := 20 } = some d' ∧
      Placed plainEnv {10, 30} id twoChunks 20 d' := by
  refine (place_new_dirent_iff plainEnv {10, 30} id twoChunks { name := 20 } twoChunks_wellFormed
    twenty_newEntry rfl).mpr ?_
  refine ⟨some { name := 10, ck := 10, chunk := some 1 },
    some { name := 30, ck := 30, chunk := some 2, eod := true }, ?_, ?_, ?_⟩
  · simp [LeftOf, dirents, twoChunks, Dirent.key, plainEnv, newKey]
  · simp [RightOf, dirents, twoChunks, Dirent.key, plainEnv, newKey]
  · refine ⟨by decide, follows_ten_thirty, ?_⟩
    simp [Room, twoChunks, plainEnv]

/-- Between two entries of one chunk, `next_ck` of the chunk becomes the cookie of the new dirent in
that chunk, and the flags stay set. -/
theorem inside_chunk_not_placed :
    WellFormed plainEnv.sortKey {10, 30} id oneChunk ∧ NewEntry plainEnv {10, 30} id 20 ∧
      (∀ c ∈ oneChunk.chunks, c.numEntries < plainEnv.avlChunkSplit) ∧
      ∃ d', placeNewDirent plainEnv oneChunk { name := 20 } = some d' ∧
        d'.chunks.map DirChunk.nextCk = [20] ∧
        ¬ Placed plainEnv {10, 30} id oneChunk 20 d' := by
  refine ⟨oneChunk_wellFormed, twenty_newEntry, by decide, ?_⟩
  obtain ⟨d', hd'⟩ : ∃ d', placeNewDirent plainEnv oneChunk { name := 20 } = some d' :=
    isSome_iff_exists.mp (by decide)
  have hchunk : ∃ c ∈ d'.chunks, ∃ e ∈ c.dirents, c.nextCk = e.ck := by
    have h : (placeNewDirent plainEnv oneChunk { name := 20 }).all (fun d' =>
      d'.chunks.any fun c => c.dirents.any fun e => c.nextCk = e.ck) := by decide
    simpa [hd'] using h
  have htrust : d'.trustDirChunks = true := by
    have h : (placeNewDirent plainEnv oneChunk { name := 20 }).all trustDirChunks := by decide
    simpa [hd'] using h
  have hnext : d'.chunks.map DirChunk.nextCk = [20] := by
    have h : (placeNewDirent plainEnv oneChunk { name := 20 }).all (fun d' =>
      d'.chunks.map DirChunk.nextCk = [20]) := by decide
    simpa [hd'] using h
  refine ⟨d', hd', hnext, ?_⟩
  rintro (⟨⟨-, hflag⟩, -⟩ | ⟨hw, -⟩)
  · rw [htrust] at hflag
    cases hflag
  · obtain ⟨c, hc, e, he, heq⟩ := hchunk
    exact hw.nextCk_ne twenty_newEntry.cookies hc he heq

end EdgeComputing.Mdcache
