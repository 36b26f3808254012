import EdgeComputing.Sal.LockEntry
import Mathlib.Data.List.Basic

/-!
The three loops over a file's lock list: the search for a conflict, the merge of a granted entry,
and the subtraction of an unlocked range. The merge loop follows `glist_for_each_safe`: a piece
appended while the last entry is processed is not visited.
-/

namespace EdgeComputing.Sal

variable {Owner : Type*} [DecidableEq Owner]

def getOverlappingEntry (lockList : List (LockEntry Owner)) (owner : Owner)
    (lock : LockParam) : Option (LockEntry Owner) :=
  lockList.find? fun found =>
    !(found.sleBlocked = .nlmBlocking || found.sleBlocked = .nfsv4Blocking
        || found.sleBlocked = .canceled)
      && found.sleLock.overlaps lock
      && (found.sleLock.lockType = .lockW || lock.lockType = .lockW)
      && found.sleOwner ≠ owner

def LockEntry.dup (orig : LockEntry Owner) (id : Nat) (lock : LockParam) : LockEntry Owner :=
  { orig with sleId := id, sleBlockData := none, sleLock := lock }

/-- What the merge loop does with one entry of the list: leave it, give it a new
range, split it in two, or let the entry being merged take over its range. -/
inductive MergeVisit where
  | skip
  | shrink (check : LockParam)
  | split (left right : LockParam)
  | absorb (lock : LockParam)
  deriving DecidableEq

def shrinkRight (check lock : LockParam) : LockParam :=
  { check with
    lockStart := addU64 (lockEnd lock) 1
    lockLength := subU64 (lockEnd check) (lockEnd lock) }

def shrinkLeft (check lock : LockParam) : LockParam :=
  { check with lockLength := subU64 lock.lockStart check.lockStart }

@[simp] theorem shrinkLeft_lockType (check lock : LockParam) :
    (shrinkLeft check lock).lockType = check.lockType := rfl

def expandLock (check lock : LockParam) : LockParam :=
  let last := if lockEnd lock < lockEnd check then lockEnd check else lockEnd lock
  let first := if check.lockStart < lock.lockStart then check.lockStart else lock.lockStart
  { lock with lockStart := first, lockLength := addU64 (subU64 last first) 1 }

/-- The body of the loop of `merge_lock_entry` for an entry that the owner of the
merged entry holds: both comparisons add one to a 64-bit end. -/
def mergeRanges (lock check : LockParam) : MergeVisit :=
  if addU64 (lockEnd check) 1 < lock.lockStart then .skip
  else if addU64 (lockEnd lock) 1 < check.lockStart then .skip
  else if check.lockType ≠ lock.lockType
      ∧ (lockEnd lock < lockEnd check ∨ check.lockStart < lock.lockStart) then
    if lockEnd lock < lockEnd check ∧ check.lockStart < lock.lockStart then
      .split (shrinkLeft check lock) (shrinkRight check lock)
    else if lockEnd lock < lockEnd check then .shrink (shrinkRight check lock)
    else .shrink (shrinkLeft check lock)
  else .absorb (expandLock check lock)

/-- The entries the loop looks at: fully granted ones of the same owner, other than
the merged entry itself. -/
def mergeCandidate (owner : Owner) (lockId : Nat) (check : LockEntry Owner) : Bool :=
  check.sleId ≠ lockId && check.sleOwner = owner && check.sleBlocked = .nonBlocking

def mergeVisit (owner : Owner) (lockId : Nat) (lock : LockParam)
    (check : LockEntry Owner) : MergeVisit :=
  if mergeCandidate owner lockId check then mergeRanges lock check.sleLock else .skip

/-- The state of the merge loop: the part of the list already visited, the range
the merged entry has grown to, and the next free entry address. -/
structure Merge (Owner : Type*) where
  list : List (LockEntry Owner)
  lock : LockParam
  nextId : Nat

/-- The loop of `merge_lock_entry`. An entry is split at most once and the piece never again, so two
visits for each entry are enough. -/
def mergeLoop (owner : Owner) (lockId : Nat) :
    Nat → Merge Owner → List (LockEntry Owner) → Merge Owner
  | 0, m, todo => { m with list := m.list ++ todo }
  | _ + 1, m, [] => m
  | fuel + 1, m, check :: todo =>
    match mergeVisit owner lockId m.lock check with
    | .skip => mergeLoop owner lockId fuel { m with list := m.list ++ [check] } todo
    | .shrink lock =>
      mergeLoop owner lockId fuel
        { m with list := m.list ++ [{ check with sleLock := lock }] } todo
    | .split left right =>
      let leftEntry := { check with sleLock := left }
      let rightEntry := check.dup m.nextId right
      if todo.isEmpty then
        { m with list := m.list ++ [leftEntry, rightEntry], nextId := m.nextId + 1 }
      else
        mergeLoop owner lockId fuel
          { m with list := m.list ++ [leftEntry], nextId := m.nextId + 1 }
          (todo ++ [rightEntry])
    | .absorb lock => mergeLoop owner lockId fuel { m with lock := lock } todo

/-- The merged entry may itself be on the list; its range in the list is then the expanded one. -/
def mergeLockEntry (lockList : List (LockEntry Owner)) (nextId : Nat)
    (entry : LockEntry Owner) : Merge Owner :=
  let m := mergeLoop entry.sleOwner entry.sleId (2 * lockList.length)
    ⟨[], entry.sleLock, nextId⟩ lockList
  { m with list := m.list.map fun e =>
      if e.sleId = entry.sleId then { e with sleLock := m.lock } else e }

/-- The piece of `found` after the range, which runs to the end of the file if
`found` does. -/
def splitRight (found lock : LockParam) : LockParam :=
  { found with
    lockStart := addU64 (lockEnd lock) 1
    lockLength := if lockEnd found = uint64Max then 0
      else subU64 (lockEnd found) (lockEnd lock) }

@[simp] theorem splitRight_lockType (found lock : LockParam) :
    (splitRight found lock).lockType = found.lockType := rfl

/-- `subtract_lock_from_entry`: `none` if the range does not meet the entry,
otherwise the ranges of the entries that replace it. -/
def subtractLockFromEntry (found lock : LockParam) : Option (List LockParam) :=
  if lockEnd lock < found.lockStart then none
  else if lockEnd found < lock.lockStart then none
  else if lock.lockStart ≤ found.lockStart ∧ lockEnd lock ≥ lockEnd found then some []
  else
    some ((if lock.lockStart > found.lockStart then [shrinkLeft found lock] else [])
      ++ (if lockEnd lock < lockEnd found then [splitRight found lock] else []))

/-- The filters of `subtract_lock_from_list`; a `NULL` owner matches every owner. -/
def subtractCandidate (owner : Option Owner) (stateApplies : Bool) (state : Int)
    (found : LockEntry Owner) : Bool :=
  (owner.isNone || owner = some found.sleOwner) && found.sleBlocked = .nonBlocking
    && !(stateApplies && found.sleStateSeqid = state)

/-- The state of the subtraction loop: what stays on the list, the pieces split
off, the next free entry address, and whether an entry was removed. -/
structure Subtract (Owner : Type*) where
  kept : List (LockEntry Owner)
  split : List (LockEntry Owner)
  nextId : Nat
  removed : Bool

def LockEntry.pieces (found : LockEntry Owner) (nextId : Nat) (ranges : List LockParam) :
    List (LockEntry Owner) :=
  (ranges.zipIdx nextId).map fun p => found.dup p.2 p.1

def subtractLoop (owner : Option Owner) (stateApplies : Bool) (state : Int)
    (lock : LockParam) : Subtract Owner → List (LockEntry Owner) → Subtract Owner
  | acc, [] => acc
  | acc, found :: rest =>
    let ranges :=
      if subtractCandidate owner stateApplies state found then
        subtractLockFromEntry found.sleLock lock
      else none
    match ranges with
    | none =>
      subtractLoop owner stateApplies state lock { acc with kept := acc.kept ++ [found] } rest
    | some ranges =>
      subtractLoop owner stateApplies state lock
        { acc with
          split := acc.split ++ found.pieces acc.nextId ranges
          nextId := acc.nextId + ranges.length
          removed := true } rest

def subtractLockFromList (owner : Option Owner) (stateApplies : Bool) (state : Int)
    (lock : LockParam) (nextId : Nat) (lockList : List (LockEntry Owner)) :
    Subtract Owner :=
  let acc := subtractLoop owner stateApplies state lock ⟨[], [], nextId, false⟩ lockList
  { acc with kept := acc.kept ++ acc.split, split := [] }

end EdgeComputing.Sal
