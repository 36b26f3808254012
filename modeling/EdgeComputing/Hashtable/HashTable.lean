import EdgeComputing.Library.Machine

/-!
The partitioned hash table with the cache of each partition. A red-black tree is the list of its
nodes in order of their hash; the label of a step says where a new node goes among those of its
hash. A node is known by its address. A function returns `none` where the process stops (an index
off the end of the array) or reads a freed node.
-/

namespace EdgeComputing.Hashtable

open Library

inductive HashError
  | success | unknownHashType | noSuchKey | keyAlreadyExists | invalidArgument | delallFail
  | notDeleted | overwritten
deriving DecidableEq

inductive SetHow
  | testOnly | setOverwrite | setNoOverwrite
deriving DecidableEq

structure HashFuncs (Key : Type) where
  hashFuncKey : Key → Nat
  hashFuncRbt : Key → Nat
  hashFuncBoth : Option (Key → Option (Nat × Nat))

def HashFuncs.compute {Key : Type} (funcs : HashFuncs Key) (key : Key) :
    Except HashError (Nat × Nat) :=
  match funcs.hashFuncBoth with
  | some both =>
    match both key with
    | none => .error .invalidArgument
    | some found => .ok found
  | none => .ok (funcs.hashFuncKey key, funcs.hashFuncRbt key)

/-- `struct hash_param`, where `compareKey` is true for the keys that `compare_key` finds
equal. -/
structure HashParam (Key : Type) extends HashFuncs Key where
  flagCache : Bool
  cacheEntryCount : Nat
  indexSize : Nat
  compareKey : Key → Key → Bool
  compare_equivalence : Equivalence fun a b => compareKey a b = true
  compute_congr : ∀ a b, compareKey a b = true → toHashFuncs.compute a = toHashFuncs.compute b

structure Node (Key Val : Type) where
  addr : Nat
  rbtValue : Nat
  key : Key
  val : Val
deriving DecidableEq

structure Partition (Key Val : Type) where
  count : Nat
  rbt : List (Node Key Val)
  cache : Option (List (Option Nat))
deriving DecidableEq

abbrev Table (Key Val : Type) := List (Partition Key Val)

structure HashLatch where
  locator : Option Nat
  rbtHash : Nat
  index : Nat
deriving DecidableEq

variable {Key Val : Type}

def nodes (ht : Table Key Val) : List (Node Key Val) :=
  ht.flatMap Partition.rbt

/-- The node at an address; an address no node has belongs to freed memory. -/
def nodeAt (ht : Table Key Val) (addr : Nat) : Option (Node Key Val) :=
  (nodes ht).find? (·.addr == addr)

variable (p : HashParam Key)

def entryCount : Nat :=
  if p.cacheEntryCount = 0 then 32767 else p.cacheEntryCount

def cacheOffsetof (rbtHash : Nat) : Nat :=
  rbtHash % entryCount p

def hashtableInit : Table Key Val :=
  List.replicate p.indexSize
    ⟨0, [], if p.flagCache then some (List.replicate (entryCount p) none) else none⟩

def Partition.cached (partition : Partition Key Val) (offset : Nat) : Option Nat :=
  partition.cache.bind fun slots => (slots[offset]?).join

def Partition.setCache (partition : Partition Key Val) (offset : Nat) (addr : Option Nat) :
    Partition Key Val :=
  { partition with cache := partition.cache.map fun slots => slots.set offset addr }

def rbtFindLeft (rbtHash : Nat) (rbt : List (Node Key Val)) : List (Node Key Val) :=
  rbt.dropWhile (·.rbtValue != rbtHash)

def locateLoop (p : HashParam Key) (key : Key) (rbtHash : Nat) :
    List (Node Key Val) → Option (Node Key Val)
  | [] => none
  | cursor :: rest =>
    if cursor.rbtValue = rbtHash then
      if p.compareKey key cursor.key then some cursor else locateLoop p key rbtHash rest
    else none

def locateInTree (ht : Table Key Val) (partition : Partition Key Val) (key : Key)
    (index rbtHash : Nat) : HashError × Option Nat × Table Key Val :=
  match locateLoop p key rbtHash (rbtFindLeft rbtHash partition.rbt) with
  | none => (.noSuchKey, none, ht)
  | some cursor =>
    (.success, some cursor.addr,
      ht.set index (partition.setCache (cacheOffsetof p rbtHash) (some cursor.addr)))

def keyLocate (ht : Table Key Val) (key : Key) (index rbtHash : Nat) :
    Option (HashError × Option Nat × Table Key Val) := do
  let partition ← ht[index]?
  match partition.cached (cacheOffsetof p rbtHash) with
  | none => some (locateInTree p ht partition key index rbtHash)
  | some cursor =>
    let data ← nodeAt ht cursor
    if p.compareKey key data.key then some (.success, some cursor, ht)
    else some (locateInTree p ht partition key index rbtHash)

/-- What `hashtable_getlatch` gives back; there is no latch where it has failed. -/
structure GetResult (Key Val : Type) where
  rc : HashError
  val : Option Val
  latch : Option HashLatch
  table : Table Key Val

def hashtableGetlatch (ht : Table Key Val) (key : Key) : Option (GetResult Key Val) :=
  match p.compute key with
  | .error rc => some ⟨rc, none, none, ht⟩
  | .ok (index, rbtHash) =>
    if index < p.indexSize then do
      let (rc, locator, table) ← keyLocate p ht key index rbtHash
      match locator with
      | none => some ⟨rc, none, some ⟨none, rbtHash, index⟩, table⟩
      | some addr =>
        let data ← nodeAt table addr
        some ⟨rc, some data.val, some ⟨some addr, rbtHash, index⟩, table⟩
    else none

def rbtInsert (place : Nat) (node : Node Key Val) : List (Node Key Val) → List (Node Key Val)
  | [] => [node]
  | m :: rest =>
    if m.rbtValue < node.rbtValue then m :: rbtInsert place node rest
    else if m.rbtValue = node.rbtValue ∧ 0 < place then m :: rbtInsert (place - 1) node rest
    else node :: m :: rest

def overwriteData (ht : Table Key Val) (addr : Nat) (key : Key) (val : Val) : Table Key Val :=
  ht.map fun partition =>
    { partition with
      rbt := partition.rbt.map fun n => if n.addr = addr then { n with key, val } else n }

/-- `newAddr` and `place` are the address of a new node and its place among those of the same
hash. -/
def hashtableSetlatched (ht : Table Key Val) (key : Key) (val : Val) (latch : HashLatch)
    (overwrite : Bool) (newAddr place : Nat) : Option (HashError × Table Key Val) :=
  match latch.locator with
  | some addr =>
    if overwrite then do
      let _ ← nodeAt ht addr
      some (.overwritten, overwriteData ht addr key val)
    else some (.keyAlreadyExists, ht)
  | none => do
    let partition ← ht[latch.index]?
    let node : Node Key Val := ⟨newAddr, latch.rbtHash, key, val⟩
    some (.success, ht.set latch.index
      { partition with count := partition.count + 1, rbt := rbtInsert place node partition.rbt })

/-- The lock stays held and the latch no longer points to the node. -/
def hashtableDeletelatched (ht : Table Key Val) (latch : HashLatch) :
    Option (HashLatch × Table Key Val) := do
  let partition ← ht[latch.index]?
  let locator ← latch.locator
  let _ ← nodeAt ht locator
  let cleared := partition.setCache (cacheOffsetof p latch.rbtHash) none
  some ({ latch with locator := none }, ht.set latch.index
    { cleared with
      count := partition.count - 1, rbt := partition.rbt.filter fun n => n.addr != locator })

def hashtableTestAndSet (ht : Table Key Val) (key : Key) (val : Val) (how : SetHow)
    (newAddr place : Nat) : Option (HashError × Table Key Val) := do
  let got ← hashtableGetlatch p ht key
  match got.latch with
  | none => some (got.rc, got.table)
  | some latch =>
    match how with
    | .testOnly => some (got.rc, got.table)
    | .setNoOverwrite =>
      if got.rc = .success then some (.keyAlreadyExists, got.table)
      else hashtableSetlatched got.table key val latch false newAddr place
    | .setOverwrite => do
      let (rc, table) ← hashtableSetlatched got.table key val latch true newAddr place
      some (if rc = .overwritten then .success else rc, table)

/-- The loop of `hashtable_delall` over one tree: the nodes passed to `free_func`, the nodes
left, and whether every call succeeded. -/
def delallTree (freeFunc : Key → Val → Bool) :
    List (Node Key Val) → List (Node Key Val) × List (Node Key Val) × Bool
  | [] => ([], [], true)
  | cursor :: rest =>
    if freeFunc cursor.key cursor.val then
      let (freed, left, rc) := delallTree freeFunc rest
      (cursor :: freed, left, rc)
    else ([cursor], rest, false)

/-- The loop over the partitions from `index` on; it waits for ever at a partition whose lock
is taken. -/
def delallLoop (freeFunc : Key → Val → Bool) (locked : Nat → Bool) :
    Nat → Table Key Val → Option (HashError × List (Node Key Val) × Table Key Val)
  | _, [] => some (.success, [], [])
  | index, partition :: rest =>
    if locked index then none else
      let (freed, left, rc) := delallTree freeFunc partition.rbt
      let emptied := { partition with count := partition.count - freed.length, rbt := left }
      if rc then do
        let (err, more, table) ← delallLoop freeFunc locked (index + 1) rest
        some (err, freed ++ more, emptied :: table)
      else some (.delallFail, freed, emptied :: rest)

def hashtableDelall (freeFunc : Key → Val → Bool) (locked : Nat → Bool) (ht : Table Key Val) :
    Option (HashError × List (Node Key Val) × Table Key Val) :=
  delallLoop freeFunc locked 0 ht

structure Held (Key : Type) where
  latch : HashLatch
  key : Key
  mayWrite : Bool
deriving DecidableEq

inductive Event (Key Val : Type)
  | stored (key : Key) (val : Val)
  | deleted (key : Key)
  | cleared
deriving DecidableEq

structure HtState (Key Val : Type) where
  table : Table Key Val
  held : List (Held Key)
  events : List (Event Key Val)
deriving DecidableEq

/-- `lookup` is `hashtable_getlatch` without a latch, or `hashtable_getref`. A latch is named by
its position among those that are held. -/
inductive HtCall (Key Val : Type)
  | lookup (key : Key)
  | getlatch (key : Key) (mayWrite : Bool)
  | releaselatched (i : Nat)
  | setlatched (i : Nat) (key : Key) (val : Val) (overwrite : Bool) (newAddr place : Nat)
  | deletelatched (i : Nat)
  | testAndSet (key : Key) (val : Val) (how : SetHow) (newAddr place : Nat)
  | delall (freeFunc : Key → Val → Bool)

def canLock (held : List (Held Key)) (index : Nat) (mayWrite : Bool) : Bool :=
  held.all fun h => h.latch.index != index || !(mayWrite || h.mayWrite)

def canLockFor (held : List (Held Key)) (key : Key) (mayWrite : Bool) : Bool :=
  match p.compute key with
  | .error _ => true
  | .ok (index, _) => canLock held index mayWrite

def storedIf (rc : HashError) (key : Key) (val : Val) : List (Event Key Val) :=
  if rc = .success ∨ rc = .overwritten then [.stored key val] else []

/-- The event of `hashtable_delall`: all entries go where it succeeds, otherwise those that
were passed to `free_func`. -/
def delallEvents (rc : HashError) (freed : List (Node Key Val)) : List (Event Key Val) :=
  if rc = .success then [.cleared] else freed.map fun n => .deleted n.key

/-- A latch is used with the key it was obtained for, and to set or delete it was obtained with
`may_write`. -/
def htStep (σ : HtState Key Val) : HtCall Key Val → Option (HtState Key Val)
  | .lookup key => do
    if canLockFor p σ.held key false then
      let got ← hashtableGetlatch p σ.table key
      some { σ with table := got.table }
    else none
  | .getlatch key mayWrite => do
    if canLockFor p σ.held key mayWrite then
      let got ← hashtableGetlatch p σ.table key
      match got.latch with
      | none => some { σ with table := got.table }
      | some latch => some { σ with table := got.table, held := σ.held ++ [⟨latch, key, mayWrite⟩] }
    else none
  | .releaselatched i => do
    let _ ← σ.held[i]?
    some { σ with held := σ.held.eraseIdx i }
  | .setlatched i key val overwrite newAddr place => do
    let h ← σ.held[i]?
    if h.mayWrite ∧ p.compareKey h.key key ∧ nodeAt σ.table newAddr = none then
      let (rc, table) ← hashtableSetlatched σ.table key val h.latch overwrite newAddr place
      some ⟨table, σ.held.eraseIdx i, storedIf rc key val ++ σ.events⟩
    else none
  | .deletelatched i => do
    let h ← σ.held[i]?
    if h.mayWrite then
      let (latch, table) ← hashtableDeletelatched p σ.table h.latch
      some ⟨table, σ.held.set i { h with latch }, .deleted h.key :: σ.events⟩
    else none
  | .testAndSet key val how newAddr place => do
    if canLockFor p σ.held key (how != .testOnly) ∧ nodeAt σ.table newAddr = none then
      let (rc, table) ← hashtableTestAndSet p σ.table key val how newAddr place
      let events := if how = .testOnly then [] else storedIf rc key val
      some { σ with table, events := events ++ σ.events }
    else none
  | .delall freeFunc => do
    let (rc, freed, table) ← hashtableDelall freeFunc
      (fun index => !canLock σ.held index true) σ.table
    some { σ with table, events := delallEvents rc freed ++ σ.events }

def htMachine : Machine (HtState Key Val) (HtCall Key Val) where
  init σ := σ = ⟨hashtableInit p, [], []⟩
  step := htStep p

end EdgeComputing.Hashtable
