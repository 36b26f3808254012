import EdgeComputing.Library.Consecutive
import EdgeComputing.Library.Table
import EdgeComputing.Mdcache.DirChunks

/-!
When the chunks of a cached directory are well formed. The directory is a set of sort keys, each
with a cookie. A chunk holds consecutive entries, `next_ck` leads to the chunk with the entry after
its last one, and `reload_ck` is the cookie of the entry before its first.
-/

namespace EdgeComputing.Mdcache

open List Library

variable {ν κ : Type} [LinearOrder κ] {sortKey : ν → Cookie → κ} {S : Set κ} {cookie : κ → Cookie}
  {d : Fsdir ν κ} {e : Dirent ν}

structure Cookies (S : Set κ) (cookie : κ → Cookie) : Prop where
  inj : Set.InjOn cookie S
  ne_zero : ∀ k ∈ S, cookie k ≠ 0

def ReloadsAt (S : Set κ) (cookie : κ → Cookie) (ck : Cookie) (f : κ) : Prop :=
  (ck = 0 ∧ IsLeast S f) ∨ ∃ p, Follows S p f ∧ ck = cookie p

def LeadsOn (sortKey : ν → Cookie → κ) (S : Set κ) (cookie : κ → Cookie) (chunks : List (DirChunk ν))
    (c : DirChunk ν) : Prop :=
  ∃ l f, (c.keys sortKey).getLast? = some l ∧ (∃ c' ∈ chunks, (c'.keys sortKey).head? = some f) ∧
    Follows S l f ∧ c.nextCk = cookie f

structure WellFormed (sortKey : ν → Cookie → κ) (S : Set κ) (cookie : κ → Cookie)
    (d : Fsdir ν κ) : Prop where
  addrs : (d.chunks.map DirChunk.addr).Nodup
  dirent : ∀ c ∈ d.chunks, ∀ e ∈ c.dirents,
    e.key sortKey ∈ S ∧ e.ck = cookie (e.key sortKey) ∧ e.chunk = some c.addr
  chain : ∀ c ∈ d.chunks, (c.keys sortKey).IsChain (Follows S)
  entries : ∀ c ∈ d.chunks, c.numEntries = c.dirents.length
  distinct : (d.dirents.map (Dirent.key sortKey)).Nodup
  next : ∀ c ∈ d.chunks, c.nextCk = 0 ∨ LeadsOn sortKey S cookie d.chunks c
  reload : ∀ c ∈ d.chunks, ∀ f, (c.keys sortKey).head? = some f → ReloadsAt S cookie c.reloadCk f
  first : d.firstCk = 0 ∨
    ∃ c ∈ d.chunks, ∃ f, (c.keys sortKey).head? = some f ∧ IsLeast S f ∧ d.firstCk = cookie f
  inOrder : d.sorted.toList.Pairwise (· < ·)
  inTree : ∀ k, k ∈ d.sorted.toList ↔ k ∈ d.dirents.map (Dirent.key sortKey)
  byCk : ∀ k, k ∈ d.ck ↔ k ∈ d.dirents.map Dirent.ck

omit [LinearOrder κ] in
theorem Fsdir.mem_dirents : e ∈ d.dirents ↔ ∃ c ∈ d.chunks, e ∈ c.dirents := by
  simp [Fsdir.dirents]

namespace WellFormed

variable (hw : WellFormed sortKey S cookie d)

include hw

variable {c c' : DirChunk ν} {l : List κ}

theorem chunk_unique (hc : c ∈ d.chunks) (hc' : c' ∈ d.chunks) (h : c.addr = c'.addr) : c = c' :=
  inj_on_of_nodup_map hw.addrs hc hc' h

theorem dirent_unique {e e' : Dirent ν} (he : e ∈ d.dirents) (he' : e' ∈ d.dirents)
    (h : e.key sortKey = e'.key sortKey) : e = e' :=
  inj_on_of_nodup_map hw.distinct he he' h

theorem chunk_of_key {k : κ} (hc : c ∈ d.chunks) (hc' : c' ∈ d.chunks) (hk : k ∈ c.keys sortKey)
    (hk' : k ∈ c'.keys sortKey) : c = c' := by
  obtain ⟨e, he, rfl⟩ := mem_map.mp hk
  obtain ⟨e', he', heq⟩ := mem_map.mp hk'
  have hee : e' = e := hw.dirent_unique (Fsdir.mem_dirents.mpr ⟨c', hc', he'⟩)
    (Fsdir.mem_dirents.mpr ⟨c, hc, he⟩) heq
  have haddr : some c.addr = some c'.addr := by
    rw [← (hw.dirent c hc e he).2.2, ← (hw.dirent c' hc' e' he').2.2, hee]
  exact hw.chunk_unique hc hc' (Option.some.inj haddr)

theorem key_mem {c : DirChunk ν} {k : κ} (hc : c ∈ d.chunks) (hk : k ∈ c.keys sortKey) : k ∈ S := by
  obtain ⟨e, he, rfl⟩ := mem_map.mp hk
  exact (hw.dirent c hc e he).1

theorem keys_sorted {c : DirChunk ν} (hc : c ∈ d.chunks) :
    (c.keys sortKey).Pairwise (· < ·) :=
  ((hw.chain c hc).imp fun _ _ h => h.lt).pairwise

omit hw in
theorem le_getLast {k x : κ} (hl : l.Pairwise (· < ·)) (hx : l.getLast? = some x) (hk : k ∈ l) :
    k ≤ x := by
  obtain ⟨init, rfl⟩ := getLast?_eq_some_iff.mp hx
  rw [pairwise_append] at hl
  obtain hk | hk := mem_append.mp hk
  · exact (hl.2.2 k hk x (mem_singleton_self x)).le
  · exact (mem_singleton.mp hk).le

omit hw in
theorem head_le {k x : κ} (hl : l.Pairwise (· < ·)) (hx : l.head? = some x) (hk : k ∈ l) :
    x ≤ k := by
  obtain ⟨tail, rfl⟩ := head?_eq_some_iff.mp hx
  obtain rfl | hk := mem_cons.mp hk
  · exact le_refl k
  · exact ((pairwise_cons.mp hl).1 k hk).le

section

variable (hck : Cookies S cookie) {c : DirChunk ν} {e : Dirent ν} (hc : c ∈ d.chunks)
  (he : e ∈ c.dirents)
include hck hc he

theorem nextCk_ne : c.nextCk ≠ e.ck := by
  obtain ⟨hmem, heck, -⟩ := hw.dirent c hc e he
  rw [heck]
  obtain h0 | ⟨l, f, hl, -, hf, hnext⟩ := hw.next c hc
  · rw [h0]
    exact (hck.ne_zero _ hmem).symm
  · intro heq
    have hkey : f = e.key sortKey := hck.inj hf.right_mem hmem (hnext.symm.trans heq)
    have hle := le_getLast (hw.keys_sorted hc) hl (mem_map_of_mem he)
    exact absurd hf.lt (not_lt.mpr (hkey ▸ hle))

theorem reloadCk_ne : c.reloadCk ≠ e.ck := by
  obtain ⟨hmem, heck, -⟩ := hw.dirent c hc e he
  rw [heck]
  have hkeys : e.key sortKey ∈ c.keys sortKey := mem_map_of_mem he
  obtain ⟨f, hf⟩ : ∃ f, (c.keys sortKey).head? = some f :=
    ⟨_, head?_eq_some_head (ne_nil_of_mem hkeys)⟩
  obtain ⟨h0, -⟩ | ⟨p, hp, hreload⟩ := hw.reload c hc f hf
  · rw [h0]
    exact (hck.ne_zero _ hmem).symm
  · intro heq
    have hkey : p = e.key sortKey := hck.inj hp.left_mem hmem (hreload.symm.trans heq)
    have hle := head_le (hw.keys_sorted hc) hf hkeys
    exact absurd hp.lt (not_lt.mpr (hkey ▸ hle))

end

end WellFormed

def LeftOf (sortKey : ν → Cookie → κ) (d : Fsdir ν κ) (n : κ) : Option (Dirent ν) → Prop
  | none => ∀ e ∈ d.dirents, ¬ e.key sortKey < n
  | some l => l ∈ d.dirents ∧ l.key sortKey < n ∧
      ∀ e ∈ d.dirents, e.key sortKey < n → e.key sortKey ≤ l.key sortKey

def RightOf (sortKey : ν → Cookie → κ) (d : Fsdir ν κ) (n : κ) : Option (Dirent ν) → Prop
  | none => ∀ e ∈ d.dirents, ¬ n < e.key sortKey
  | some r => r ∈ d.dirents ∧ n < r.key sortKey ∧
      ∀ e ∈ d.dirents, n < e.key sortKey → r.key sortKey ≤ e.key sortKey

theorem LeftOf.unique (hw : WellFormed sortKey S cookie d) {n : κ} {l l' : Option (Dirent ν)}
    (h : LeftOf sortKey d n l) (h' : LeftOf sortKey d n l') : l = l' := by
  cases l with
  | none =>
    cases l' with
    | none => rfl
    | some e' => exact absurd h'.2.1 (h e' h'.1)
  | some e =>
    cases l' with
    | none => exact absurd h.2.1 (h' e h.1)
    | some e' =>
      have heq := le_antisymm (h'.2.2 e h.1 h.2.1) (h.2.2 e' h'.1 h'.2.1)
      rw [hw.dirent_unique h.1 h'.1 heq]

theorem RightOf.unique (hw : WellFormed sortKey S cookie d) {n : κ} {r r' : Option (Dirent ν)}
    (h : RightOf sortKey d n r) (h' : RightOf sortKey d n r') : r = r' := by
  cases r with
  | none =>
    cases r' with
    | none => rfl
    | some e' => exact absurd h'.2.1 (h e' h'.1)
  | some e =>
    cases r' with
    | none => exact absurd h.2.1 (h' e h.1)
    | some e' =>
      have heq := le_antisymm (h.2.2 e' h'.1 h'.2.1) (h'.2.2 e h.1 h.2.1)
      rw [hw.dirent_unique h.1 h'.1 heq]

end EdgeComputing.Mdcache
