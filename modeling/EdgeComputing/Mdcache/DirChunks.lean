import EdgeComputing.Library.SearchTree

/-!
The cached part of a directory: chunks of dirents, a tree of the dirents in the order of the FSAL
and one of their cookies. `place_new_dirent` puts the dirent of a created file into its chunk, from
the hole at which the search of the sorted tree ends, and splits a full chunk.
-/

namespace EdgeComputing.Mdcache

open Library

abbrev Cookie := Nat

def firstCookie : Cookie := 3

/-- `mdcache_dir_entry_t`. The chunk it belongs to is given by its address. -/
structure Dirent (ν : Type) where
  name : ν
  ck : Cookie := 0
  eod : Bool := false
  chunk : Option Nat := none
  deleted : Bool := false
  sorted : Bool := false
  deriving DecidableEq

structure DirChunk (ν : Type) where
  addr : Nat
  dirents : List (Dirent ν) := []
  reloadCk : Cookie
  nextCk : Cookie := 0
  numEntries : Nat := 0
  deriving DecidableEq

/-- The directory part of a cache entry. `sorted` and `ck` are the trees by order and by cookie. -/
structure Fsdir (ν κ : Type) where
  chunks : List (DirChunk ν)
  sorted : BinTree κ
  ck : List Cookie
  firstCk : Cookie
  detached : List (Dirent ν) := []
  dirPopulated : Bool
  trustDirChunks : Bool
  deriving DecidableEq

/-- What `place_new_dirent` takes from outside: the FSAL's `compute_readdir_cookie` and the key its
`dirent_cmp` compares, the two limits, the address of an allocated chunk and the chunk of this
directory that the LRU gives up instead, if any. -/
structure PlaceEnv (ν κ : Type) where
  computeReaddirCookie : ν → Cookie
  sortKey : ν → Cookie → κ
  avlChunkSplit : Nat
  avlDetachedMax : Nat
  newChunk : Nat
  reap : Option Nat := none

section

variable {ν κ : Type}

def Dirent.key (sortKey : ν → Cookie → κ) (e : Dirent ν) : κ :=
  sortKey e.name e.ck

def DirChunk.keys (sortKey : ν → Cookie → κ) (c : DirChunk ν) : List κ :=
  c.dirents.map (Dirent.key sortKey)

def Fsdir.dirents (d : Fsdir ν κ) : List (Dirent ν) :=
  d.chunks.flatMap DirChunk.dirents

variable (env : PlaceEnv ν κ) (d : Fsdir ν κ)

def Fsdir.chunk? (addr : Nat) : Option (DirChunk ν) :=
  d.chunks.find? (·.addr = addr)

def Fsdir.onChunk (addr : Nat) (f : DirChunk ν → DirChunk ν) : Fsdir ν κ :=
  { d with chunks := d.chunks.map fun c => if c.addr = addr then f c else c }

/-- A full list loses its oldest dirent. -/
def addDetachedDirent (e : Dirent ν) : Fsdir ν κ :=
  { d with
    detached := e :: if d.detached.length = env.avlDetachedMax then d.detached.dropLast
      else d.detached }

def placeOut (new : Dirent ν) (invalidateChunks : Bool) : Fsdir ν κ :=
  let d := if invalidateChunks then { d with dirPopulated := false, trustDirChunks := false } else d
  if new.chunk.isNone then addDetachedDirent env d new else d

variable [LinearOrder κ]

def Fsdir.dirent? (k : κ) : Option (Dirent ν) :=
  d.dirents.find? (·.key env.sortKey = k)

def Fsdir.onDirent (k : κ) (f : Dirent ν → Dirent ν) : Fsdir ν κ :=
  { d with
    chunks := d.chunks.map fun c =>
      { c with dirents := c.dirents.map fun e => if e.key env.sortKey = k then f e else e } }

/-- `glist_add_tail` on the list node of a dirent puts the new one before it. -/
def insertBefore (env : PlaceEnv ν κ) (k : κ) (new : Dirent ν) : List (Dirent ν) → List (Dirent ν)
  | [] => []
  | e :: es => if e.key env.sortKey = k then new :: e :: es else e :: insertBefore env k new es

def cleanDirentChunk (c : DirChunk ν) : Fsdir ν κ :=
  { d with
    chunks := d.chunks.filter (·.addr ≠ c.addr)
    sorted := d.sorted.filter (· ∉ c.keys env.sortKey)
    ck := d.ck.filter (· ∉ c.dirents.map Dirent.ck)
    firstCk := if d.firstCk ∈ c.dirents.map Dirent.ck then 0 else d.firstCk
    dirPopulated := false }

/-- `mdcache_get_chunk` after a chunk: the directory, and the new chunk at the end of its list. A
reaped chunk is never the previous one, which is referenced. -/
def getChunk (prev : DirChunk ν) : Option (Fsdir ν κ × DirChunk ν) := do
  let last ← prev.dirents.getLast?
  match (env.reap.bind d.chunk?).filter (·.addr ≠ prev.addr) with
  | some c => return (cleanDirentChunk env d c, { addr := c.addr, reloadCk := last.ck })
  | none => return (d, { addr := env.newChunk, reloadCk := last.ck })

/-- The end of `place_new_dirent`: a chunk whose number of entries is the limit gives its second
half to a new chunk. -/
def splitChunk (addr : Nat) : Option (Fsdir ν κ) := do
  let chunk ← d.chunk? addr
  if chunk.numEntries = env.avlChunkSplit then
    let splitCount := env.avlChunkSplit / 2
    let (d, split) ← getChunk env d chunk
    let here ← chunk.dirents[splitCount]?
    let last ← (chunk.dirents.take splitCount).getLast?
    let split := { split with
      nextCk := chunk.nextCk
      dirents := (chunk.dirents.drop splitCount).map fun e => { e with chunk := some split.addr }
      numEntries := splitCount }
    let d := d.onChunk addr fun c =>
      { c with
        dirents := chunk.dirents.take splitCount
        numEntries := splitCount
        reloadCk := last.ck
        nextCk := here.ck }
    return { d with chunks := d.chunks ++ [split] }
  else
    return d

/-- The new dirent goes before `right`, or after `left` when there is none on the right. -/
def linkDirent (new : Dirent ν) (addr : Nat) (left right : Option (Dirent ν)) : Fsdir ν κ :=
  let new := { new with chunk := some addr, sorted := true }
  match left, right with
  | some left, none =>
    (d.onDirent env (left.key env.sortKey) ({ · with eod := false })).onChunk addr fun c =>
      { c with dirents := c.dirents ++ [{ new with eod := true }] }
  | left, some right =>
    let d := d.onChunk addr fun c =>
      { c with dirents := insertBefore env (right.key env.sortKey) new c.dirents }
    match left with
    | some left =>
      { d with chunks := d.chunks.map fun c =>
          if some c.addr = left.chunk then { c with nextCk := new.ck } else c }
    | none => { d with firstCk := new.ck }
  | none, none => d

/-- From `mdcache_avl_insert_ck` on. A dirent of the sorted tree without a chunk would be a null
pointer. -/
def placeBetween (new : Dirent ν) (path : List (BinTree.Step κ)) (left right : Option (Dirent ν)) :
    Option (Fsdir ν κ) := do
  let addr ← (right.or left).bind Dirent.chunk
  let new := { new with chunk := some addr }
  if new.ck ∈ d.ck then
    return placeOut env d new true
  else
    let d := { d with
      ck := new.ck :: d.ck
      sorted := BinTree.plug (.node .leaf (new.key env.sortKey) .leaf) path }
    let d := linkDirent env d new addr left right
    splitChunk env (d.onChunk addr fun c => { c with numEntries := c.numEntries + 1 }) addr

def placeAt (new : Dirent ν) (path : List (BinTree.Step κ)) : Option (Fsdir ν κ) :=
  match path with
  | [] => some (placeOut env d new true)
  | .left x _ :: _ => do
    let right ← d.dirent? env x
    match (d.sorted.prev x).bind (d.dirent? env) with
    | some left => placeBetween env d new path (some left) (some right)
    | none =>
      if d.firstCk = right.ck then placeBetween env d new path none (some right)
      else return placeOut env d new false
  | .right _ x :: _ => do
    let left ← d.dirent? env x
    match (d.sorted.next x).bind (d.dirent? env) with
    | some right => placeBetween env d new path (some left) (some right)
    | none =>
      if left.eod then placeBetween env d new path (some left) none
      else return placeOut env d new false

/-- It gives `none` where it would follow a null pointer. -/
def placeNewDirent (new : Dirent ν) : Option (Fsdir ν κ) :=
  let ck := env.computeReaddirCookie new.name
  if ck = 0 then some (placeOut env d new true)
  else
    let new := { new with ck := ck }
    match d.sorted.lookup (new.key env.sortKey) [] with
    | (.leaf, path) => placeAt env d new path
    | (.node l x r, path) => do
      let right ← d.dirent? env x
      if ck = firstCookie ∧ right.ck = firstCookie then
        let nck := env.computeReaddirCookie right.name
        if nck = 0 then return placeOut env d new true
        else
          -- only the cookie of the old first entry changes, in its place in both trees
          let d := d.onDirent env x ({ · with ck := nck })
          placeAt env
            { d with
              ck := d.ck.map fun k => if k = right.ck then nck else k
              sorted := BinTree.plug (.node l (env.sortKey right.name nck) r) path }
            new path
      else return placeOut env d new true

end

end EdgeComputing.Mdcache
