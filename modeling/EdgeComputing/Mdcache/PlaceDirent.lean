import EdgeComputing.Mdcache.ChunkInsert

/-!
`place_new_dirent` on well-formed directories. The search of the sorted tree gives the cached
neighbours of the new name. Inside a chunk `next_ck` is set although the chunk after it has not
changed, a split gives both halves the wrong `reload_ck`, and a gap between two chunks is bridged.
-/

namespace EdgeComputing.Mdcache

open List Option Library Fsdir

variable {ν κ : Type} [LinearOrder κ] {env : PlaceEnv ν κ} {S : Set κ} {cookie : κ → Cookie}
  {d : Fsdir ν κ} {n : κ} {new : Dirent ν} {path : List (BinTree.Step κ)}

section Search

def placeSides (env : PlaceEnv ν κ) (d : Fsdir ν κ) (new : Dirent ν) (path : List (BinTree.Step κ)) :
    Option (Dirent ν) → Option (Dirent ν) → Option (Fsdir ν κ)
  | none, none => some (placeOut env d new true)
  | none, some right =>
    if d.firstCk = right.ck then placeBetween env d new path none (some right)
    else some (placeOut env d new false)
  | some left, none =>
    if left.eod then placeBetween env d new path (some left) none
    else some (placeOut env d new false)
  | some left, some right => placeBetween env d new path (some left) (some right)

structure HoleAt (sorted : BinTree κ) (n : κ) (path : List (BinTree.Step κ)) : Prop where
  plug : BinTree.plug .leaf path = sorted
  before : ∀ y ∈ BinTree.before path, y < n
  after : ∀ y ∈ BinTree.after path, n < y

variable (hw : WellFormed env.sortKey S cookie d) (hh : HoleAt d.sorted n path)

include hh in
theorem HoleAt.toList : d.sorted.toList = BinTree.before path ++ BinTree.after path := by
  rw [← hh.plug, BinTree.toList_plug]
  simp [BinTree.toList]

include hw in
theorem exists_dirent {x : κ} (hx : x ∈ d.sorted.toList) :
    ∃ e ∈ d.dirents, e.key env.sortKey = x ∧ d.dirent? env x = some e := by
  obtain ⟨e, he, rfl⟩ := mem_map.mp ((hw.inTree x).mp hx)
  exact ⟨e, he, rfl, find?_key_of_mem hw.distinct he⟩

include hw hh

theorem mem_sides {e : Dirent ν} (he : e ∈ d.dirents) :
    (e.key env.sortKey < n → e.key env.sortKey ∈ BinTree.before path) ∧
      (n < e.key env.sortKey → e.key env.sortKey ∈ BinTree.after path) := by
  have hmem := (hw.inTree _).mpr (mem_map_of_mem he)
  rw [hh.toList, mem_append] at hmem
  exact ⟨fun hlt => hmem.resolve_right fun h => lt_asymm hlt (hh.after _ h),
    fun hlt => hmem.resolve_left fun h => lt_asymm hlt (hh.before _ h)⟩

theorem leftOf_before :
    LeftOf env.sortKey d n ((BinTree.before path).getLast?.bind (d.dirent? env)) := by
  cases hlast : (BinTree.before path).getLast? with
  | none =>
    intro e he hlt
    have hmem := (mem_sides hw hh he).1 hlt
    rw [getLast?_eq_none_iff.mp hlast] at hmem
    cases hmem
  | some x =>
    have hx := mem_of_getLast? hlast
    obtain ⟨e, he, rfl, hfind⟩ := exists_dirent hw (x := x) (by simp [hh.toList, hx])
    rw [bind_some, hfind]
    refine ⟨he, hh.before _ hx, fun e' he' hlt => ?_⟩
    have hsorted := (pairwise_append.mp (hh.toList ▸ hw.inOrder)).1
    exact WellFormed.le_getLast hsorted hlast ((mem_sides hw hh he').1 hlt)

theorem rightOf_after :
    RightOf env.sortKey d n ((BinTree.after path).head?.bind (d.dirent? env)) := by
  cases hhead : (BinTree.after path).head? with
  | none =>
    intro e he hlt
    have hmem := (mem_sides hw hh he).2 hlt
    rw [head?_eq_none_iff.mp hhead] at hmem
    cases hmem
  | some x =>
    have hx := mem_of_mem_head? (mem_def.mpr hhead)
    obtain ⟨e, he, rfl, hfind⟩ := exists_dirent hw (x := x) (by simp [hh.toList, hx])
    rw [bind_some, hfind]
    refine ⟨he, hh.after _ hx, fun e' he' hlt => ?_⟩
    have hsorted := (pairwise_append.mp (hh.toList ▸ hw.inOrder)).2.1
    exact WellFormed.head_le hsorted hhead ((mem_sides hw hh he').2 hlt)

theorem placeAt_eq :
    placeAt env d new path =
      placeSides env d new path ((BinTree.before path).getLast?.bind (d.dirent? env))
        ((BinTree.after path).head?.bind (d.dirent? env)) := by
  have hnd : (BinTree.plug .leaf path).toList.Nodup := by
    rw [hh.plug]
    exact hw.inOrder.imp fun h => h.ne
  cases path with
  | nil => rfl
  | cons step rest =>
    cases step with
    | left x r =>
      obtain ⟨hprev, hhead⟩ := BinTree.neighbours_of_left hnd
      have hx := mem_of_mem_head? (mem_def.mpr hhead)
      obtain ⟨right, -, -, hfind⟩ := exists_dirent hw (x := x) (by simp [hh.toList, hx])
      rw [hh.plug] at hprev
      rw [hhead, bind_some, hfind, ← hprev]
      simp only [placeAt, hfind, bind_eq_bind, bind_some]
      cases (d.sorted.prev x).bind (d.dirent? env) <;> rfl
    | right l x =>
      obtain ⟨hlast, hnext⟩ := BinTree.neighbours_of_right hnd
      have hx := mem_of_getLast? hlast
      obtain ⟨left, -, -, hfind⟩ := exists_dirent hw (x := x) (by simp [hh.toList, hx])
      rw [hh.plug] at hnext
      rw [hlast, bind_some, hfind, ← hnext]
      simp only [placeAt, hfind, bind_eq_bind, bind_some]
      cases (d.sorted.next x).bind (d.dirent? env) <;> rfl

end Search

theorem lookup_hole (hw : WellFormed env.sortKey S cookie d) (hn : n ∉ S) :
    ∃ path, d.sorted.lookup n [] = (.leaf, path) ∧ HoleAt d.sorted n path := by
  cases hlook : d.sorted.lookup n [] with
  | mk t path =>
    have hplug : BinTree.plug t path = d.sorted := by
      have := BinTree.plug_lookup n d.sorted []
      rwa [hlook] at this
    have hsides : (∀ y ∈ BinTree.before (d.sorted.lookup n []).2, y < n) ∧
        (∀ y ∈ BinTree.after (d.sorted.lookup n []).2, n < y) :=
      BinTree.lookup_sides hw.inOrder (fun y hy => nomatch hy) (fun y hy => nomatch hy)
    rw [hlook] at hsides
    cases t with
    | leaf => exact ⟨path, rfl, hplug, hsides.1, hsides.2⟩
    | node l x r =>
      have hroot : (d.sorted.lookup n []).1 = .node l x r := by rw [hlook]
      obtain rfl : x = n := BinTree.lookup_root hroot
      have hx : x ∈ d.sorted.toList := by
        rw [← hplug, BinTree.toList_plug]
        simp [BinTree.toList]
      obtain ⟨e, he, rfl, -⟩ := exists_dirent hw hx
      obtain ⟨c, hc, hec⟩ := mem_dirents.mp he
      exact absurd (hw.dirent c hc e hec).1 hn

theorem HoleAt.inserted {d' : Fsdir ν κ} {ck : Cookie} (hh : HoleAt d.sorted n path)
    (hw : WellFormed env.sortKey S cookie d)
    (hsorted : d'.sorted = BinTree.plug (.node .leaf n .leaf) path) (hck : d'.ck = ck :: d.ck) :
    Inserted d d' n ck := by
  have hlist : d'.sorted.toList = BinTree.before path ++ n :: BinTree.after path := by
    rw [hsorted, BinTree.toList_plug]
    simp [BinTree.toList]
  have hold := hh.toList
  refine ⟨?_, fun k => ?_, hck⟩
  · obtain ⟨hb, ha, hba⟩ := pairwise_append.mp (hold ▸ hw.inOrder)
    rw [hlist, pairwise_append, pairwise_cons]
    refine ⟨hb, ⟨hh.after, ha⟩, fun x hx y hy => ?_⟩
    obtain rfl | hy := mem_cons.mp hy
    · exact hh.before x hx
    · exact hba x hx y hy
  · rw [hlist, hold]
    simp only [mem_append, mem_cons]
    tauto

section Split

variable {addr : Nat} {c : DirChunk ν} {d' : Fsdir ν κ}

theorem splitChunk_of_ne (hc : d.chunk? addr = some c) (hne : c.numEntries ≠ env.avlChunkSplit) :
    splitChunk env d addr = some d := by
  simp [splitChunk, hc, hne]

theorem getChunk_spec {split : DirChunk ν} (h : getChunk env d c = some (d', split)) :
    ∃ last, c.dirents.getLast? = some last ∧ split.reloadCk = last.ck ∧
      (c ∈ d.chunks → c ∈ d'.chunks) := by
  simp only [getChunk, bind_eq_bind] at h
  obtain ⟨last, hlast, h⟩ := bind_eq_some_iff.mp h
  refine ⟨last, hlast, ?_⟩
  cases hreap : (env.reap.bind d.chunk?).filter (·.addr ≠ c.addr) with
  | none =>
    rw [hreap] at h
    obtain ⟨rfl, rfl⟩ := Prod.mk.inj (some.inj h)
    exact ⟨rfl, id⟩
  | some c' =>
    rw [hreap] at h
    obtain ⟨rfl, rfl⟩ := Prod.mk.inj (some.inj h)
    refine ⟨rfl, fun hmem => mem_filter.mpr ⟨hmem, ?_⟩⟩
    have hne : c'.addr ≠ c.addr := by simpa using (filter_eq_some_iff.mp hreap).2
    simpa using hne.symm

/-- After a split the second half is to be reloaded from after its own last dirent. All dirents of
the chunk are still there. -/
theorem splitChunk_spec (hc : d.chunk? addr = some c) (heq : c.numEntries = env.avlChunkSplit)
    (h : splitChunk env d addr = some d') :
    (∃ c' ∈ d'.chunks, ∃ e ∈ c'.dirents, c'.reloadCk = e.ck) ∧
      ∀ e ∈ c.dirents, ∃ e' ∈ d'.dirents, e'.key env.sortKey = e.key env.sortKey := by
  have hcm : c ∈ d.chunks := mem_of_find?_eq_some hc
  have hca : c.addr = addr := by simpa using find?_some hc
  simp only [splitChunk, hc, heq, if_true, bind_eq_bind, bind_some] at h
  obtain ⟨⟨d1, split⟩, hget, h⟩ := bind_eq_some_iff.mp h
  obtain ⟨here, hhere, h⟩ := bind_eq_some_iff.mp h
  obtain ⟨stay, hstay, h⟩ := bind_eq_some_iff.mp h
  obtain ⟨last, hlast, hreload, hkept⟩ := getChunk_spec hget
  subst hca
  set half := env.avlChunkSplit / 2
  have hlen : half < c.dirents.length := (List.getElem?_eq_some_iff.mp hhere).1
  set moved := (c.dirents.drop half).map fun e => { e with chunk := some split.addr }
  rw [← some.inj h]
  constructor
  · refine ⟨_, mem_append_right _ (mem_singleton_self _), { last with
      chunk := some split.addr }, ?_, hreload⟩
    refine mem_map_of_mem (f := fun e : Dirent ν => { e with chunk := some split.addr }) ?_
    have hdrop : (c.dirents.drop half).getLast? = some last := by
      rw [getLast?_drop, if_neg (by omega), hlast]
    exact mem_of_getLast? hdrop
  · intro e he
    rw [← take_append_drop half c.dirents] at he
    obtain he | he := mem_append.mp he
    · refine ⟨e, mem_dirents.mpr ⟨_, mem_append_left _
        (mem_map_of_mem (hkept hcm)), ?_⟩, rfl⟩
      rw [if_pos rfl]
      exact he
    · refine ⟨{ e with chunk := some split.addr }, mem_dirents.mpr ⟨_, mem_append_right _
        (mem_singleton_self _), ?_⟩, rfl⟩
      exact mem_map_of_mem (f := fun e : Dirent ν => { e with chunk := some split.addr }) he

end Split

section Between

def rightChunk (env : PlaceEnv ν κ) (addr : Nat) (k : κ) (new : Dirent ν) (leftAddr : Option Nat)
    (c : DirChunk ν) : DirChunk ν :=
  { c with
    dirents := if c.addr = addr then insertBefore env k new c.dirents else c.dirents
    nextCk := if some c.addr = leftAddr then new.ck else c.nextCk
    numEntries := if c.addr = addr then c.numEntries + 1 else c.numEntries }

def linked (new : Dirent ν) (addr : Nat) : Dirent ν :=
  { new with chunk := some addr, sorted := true }

def placedRight (env : PlaceEnv ν κ) (d : Fsdir ν κ) (new : Dirent ν) (path : List (BinTree.Step κ))
    (left : Option (Dirent ν)) (right : Dirent ν) (addr : Nat) : Fsdir ν κ :=
  { d with
    chunks := d.chunks.map
      (rightChunk env addr (right.key env.sortKey) (linked new addr) (left.bind Dirent.chunk))
    sorted := BinTree.plug (.node .leaf (new.key env.sortKey) .leaf) path
    ck := new.ck :: d.ck
    firstCk := if left.isNone then new.ck else d.firstCk }

theorem placeBetween_right {left : Option (Dirent ν)} {right : Dirent ν} {addr : Nat}
    (hright : right.chunk = some addr) (hck : new.ck ∉ d.ck) :
    placeBetween env d new path left (some right) =
      splitChunk env (placedRight env d new path left right addr) addr := by
  cases left with
  | none =>
    simp only [placeBetween, some_or, bind_eq_bind, bind_some, hright, hck,
      if_false, linkDirent, onChunk, List.map_map, placedRight]
    congr 2
    refine List.map_congr_left fun c _ => ?_
    by_cases h : c.addr = addr <;> simp [rightChunk, h, linked]
  | some left =>
    simp only [placeBetween, some_or, bind_eq_bind, bind_some, hright, hck,
      if_false, linkDirent, onChunk, List.map_map, placedRight]
    congr 2
    refine List.map_congr_left fun c _ => ?_
    by_cases hleft : some c.addr = left.chunk
    · by_cases h : c.addr = addr
      · subst h
        simp [rightChunk, hleft, linked]
      · simp [rightChunk, h, hleft, linked]
    · by_cases h : c.addr = addr
      · subst h
        simp [rightChunk, hleft, linked]
      · simp [rightChunk, h, hleft]

def clearEod (env : PlaceEnv ν κ) (k : κ) (e : Dirent ν) : Dirent ν :=
  if e.key env.sortKey = k then { e with eod := false } else e

def placedLast (env : PlaceEnv ν κ) (d : Fsdir ν κ) (new : Dirent ν) (path : List (BinTree.Step κ))
    (left : Dirent ν) (addr : Nat) : Fsdir ν κ :=
  { d with
    chunks := d.chunks.map
      (appendChunk addr { linked new addr with eod := true }
        (clearEod env (left.key env.sortKey)))
    sorted := BinTree.plug (.node .leaf (new.key env.sortKey) .leaf) path
    ck := new.ck :: d.ck }

theorem placeBetween_last {left : Dirent ν} {addr : Nat} (hleft : left.chunk = some addr)
    (hck : new.ck ∉ d.ck) :
    placeBetween env d new path (some left) none =
      splitChunk env (placedLast env d new path left addr) addr := by
  simp only [placeBetween, none_or, bind_eq_bind, bind_some, hleft, hck,
    if_false, linkDirent, onChunk, onDirent, List.map_map, placedLast]
  congr 2
  refine List.map_congr_left fun c _ => ?_
  by_cases h : c.addr = addr <;> simp [appendChunk, h, linked, clearEod]

end Between

end EdgeComputing.Mdcache
