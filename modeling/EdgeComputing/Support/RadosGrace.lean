import EdgeComputing.Library.Optimistic
import Mathlib.Data.List.AList

/-!
The grace database of a cluster (rados_grace.c): one RADOS object with the current epoch, the epoch
from which clients may reclaim, and an omap with one byte of flags per node. Every operation asserts
in its write the version it has read; a stale write changes nothing, and the operation starts again.
The arrays it allocates before its loop (`flags`, `match`) outlive an iteration.
-/

namespace EdgeComputing.Support

open Library

def maxItems : Nat := 1024

def needGraceFlag : BitVec 8 := 0x1

def enforcingFlag : BitVec 8 := 0x2

def needGrace (val : BitVec 8) : Bool := val &&& needGraceFlag != 0

def enforcing (val : BitVec 8) : Bool := val &&& enforcingFlag != 0

abbrev Omap (ν : Type*) := AList fun _ : ν => BitVec 8

section Omap

variable {ν : Type*} [DecidableEq ν]

def Omap.set (omap : Omap ν) (kvs : List (ν × BitVec 8)) : Omap ν :=
  kvs.foldl (fun m kv => m.insert kv.1 kv.2) omap

def Omap.rmKeys (omap : Omap ν) (keys : List ν) : Omap ν :=
  keys.foldl (fun m key => m.erase key) omap

/-- The listing of an omap is cut off, and `more` set, after `MAX_ITEMS` keys. -/
def Omap.more (omap : Omap ν) : Bool := decide (maxItems < omap.entries.length)

end Omap

/-- `starts` counts the grace periods started so far; it is no part of the stored object. -/
structure GraceObject (ν : Type*) where
  curEpoch : Nat
  recEpoch : Nat
  omap : Omap ν
  starts : Nat

inductive GraceErr
  | enokey
  | enotrecoverable
  | eexist
  | other (errno : Nat)
  deriving DecidableEq

def radosGraceCreate {ν : Type*} : Option (GraceObject ν) → Except GraceErr (GraceObject ν)
  | none => .ok ⟨1, 0, ∅, 0⟩
  | some _ => .error .eexist

inductive OmapChange (ν : Type*)
  | set (kvs : List (ν × BitVec 8))
  | rmKeys (keys : List ν)

structure GraceUpdate (ν : Type*) where
  epochs : Option (Nat × Nat)
  change : OmapChange ν

structure NodeSlot (ν : Type*) where
  nodeid : ν
  flags : BitVec 8
  matched : Bool
  deriving DecidableEq

inductive GraceOp
  | add
  | joinBulk (start : Bool)
  | liftBulk (remove : Bool)
  | enforcingToggle (enable : Bool)
  deriving DecidableEq

structure GraceLoop (ν : Type*) where
  op : GraceOp
  slots : List (NodeSlot ν)

variable {ν : Type*} [DecidableEq ν]

def GraceLoop.nodeids (k : GraceLoop ν) : List ν := k.slots.map NodeSlot.nodeid

def GraceUpdate.apply (u : GraceUpdate ν) (obj : GraceObject ν) : GraceObject ν :=
  let omap := match u.change with
    | .set kvs => obj.omap.set kvs
    | .rmKeys keys => obj.omap.rmKeys keys
  match u.epochs with
  | none => { obj with omap }
  | some (cur, recov) => ⟨cur, recov, omap, if recov = 0 then obj.starts else obj.starts + 1⟩

/-- The inner loop over the arrays: the first place whose node is `key` is changed. -/
def visit (key : ν) (f : NodeSlot ν → NodeSlot ν) : List (NodeSlot ν) → List (NodeSlot ν)
  | [] => []
  | s :: slots => if key = s.nodeid then f s :: slots else s :: visit key f slots

def walk (f : BitVec 8 → NodeSlot ν → NodeSlot ν) (entries : List (Σ _ : ν, BitVec 8))
    (slots : List (NodeSlot ν)) : List (NodeSlot ν) :=
  entries.foldl (fun slots kv => visit kv.1 (f kv.2) slots) slots

def kvPairs (slots : List (NodeSlot ν)) : List (ν × BitVec 8) :=
  slots.map fun s => (s.nodeid, s.flags)

/-- An operation ends, or prepares a write. The result of a success is the epochs, where the
operation returns them. -/
abbrev GraceAttempt (ν : Type*) :=
  Attempt (GraceLoop ν) (GraceUpdate ν) GraceErr (Option (Nat × Nat))

def radosGraceAdd (slots : List (NodeSlot ν)) (obj : GraceObject ν) : GraceAttempt ν :=
  if obj.omap.more then .done (.error .enotrecoverable)
  -- a node that exists already ends the operation as a success
  else if obj.omap.entries.any fun kv => slots.any fun s => s.nodeid = kv.1 then .done (.ok none)
  else .write ⟨.add, slots⟩
    ⟨none, .set (slots.map fun s => (s.nodeid, enforcingFlag))⟩ none

def joinSlot (val : BitVec 8) (s : NodeSlot ν) : NodeSlot ν :=
  { s with flags := s.flags ||| val, matched := true }

/-- The arrays after an iteration of a join, which resets all flags before the walk. -/
def joinSlots (slots : List (NodeSlot ν)) (omap : Omap ν) : List (NodeSlot ν) :=
  walk joinSlot omap.entries
    (slots.map fun s => { s with flags := needGraceFlag ||| enforcingFlag })

def radosGraceJoinBulk (start : Bool) (slots : List (NodeSlot ν)) (obj : GraceObject ν) :
    GraceAttempt ν :=
  if obj.omap.more then .done (.error .enotrecoverable)
  else
    let slots := joinSlots slots obj.omap
    if slots.any fun s => !s.matched then .done (.error .enokey)
    else if obj.recEpoch = 0 ∧ start = false then .done (.ok (some (obj.curEpoch, obj.recEpoch)))
    else if obj.recEpoch = 0 then
      let epochs := ((obj.curEpoch + 1) % 2 ^ 64, obj.curEpoch)
      .write ⟨.joinBulk start, slots⟩ ⟨some epochs, .set (kvPairs slots)⟩ (some epochs)
    else
      .write ⟨.joinBulk start, slots⟩ ⟨none, .set (kvPairs slots)⟩
        (some (obj.curEpoch, obj.recEpoch))

def toggleSlot (enable : Bool) (val : BitVec 8) (s : NodeSlot ν) : NodeSlot ν :=
  { s with flags := if enable then val ||| enforcingFlag else val &&& ~~~enforcingFlag,
           matched := true }

def radosGraceEnforcingToggle (enable : Bool) (slots : List (NodeSlot ν)) (obj : GraceObject ν) :
    GraceAttempt ν :=
  if obj.omap.more then .done (.error .enotrecoverable)
  else
    let slots := walk (toggleSlot enable) obj.omap.entries slots
    if slots.any fun s => !s.matched then .done (.error .enokey)
    else .write ⟨.enforcingToggle enable, slots⟩ ⟨none, .set (kvPairs slots)⟩
      (some (obj.curEpoch, obj.recEpoch))

/-- The locals of an iteration of `rados_grace_lift_bulk`; `k` is the length of `keys`, which
holds each key with its flags without NEED_GRACE. -/
structure LiftScan (ν : Type*) where
  need : Nat
  enforcing : Bool
  keys : List (ν × BitVec 8)
  slots : List (NodeSlot ν)

def markMatched (s : NodeSlot ν) : NodeSlot ν := { s with matched := true }

def liftVisit (remove : Bool) (acc : LiftScan ν) (kv : Σ _ : ν, BitVec 8) : LiftScan ν where
  need := if needGrace kv.2 then acc.need + 1 else acc.need
  enforcing := acc.enforcing && enforcing kv.2
  keys :=
    if acc.slots.any (fun s => s.nodeid = kv.1) && (remove || needGrace kv.2) then
      acc.keys ++ [(kv.1, kv.2 &&& ~~~needGraceFlag)]
    else acc.keys
  slots := visit kv.1 markMatched acc.slots

def liftScan (remove : Bool) (slots : List (NodeSlot ν)) (omap : Omap ν) : LiftScan ν :=
  omap.entries.foldl (liftVisit remove) ⟨0, true, [], slots⟩

def liftChange (remove : Bool) (keys : List (ν × BitVec 8)) : OmapChange ν :=
  if remove then .rmKeys (keys.map Prod.fst) else .set keys

def radosGraceLiftBulk (remove : Bool) (slots : List (NodeSlot ν)) (obj : GraceObject ν) :
    GraceAttempt ν :=
  if obj.omap.more then .done (.error .enotrecoverable)
  else
    let scan := liftScan remove slots obj.omap
    -- we can't lift if we're in a grace period and not everybody is enforcing
    if obj.recEpoch ≠ 0 ∧ scan.enforcing = false then
      .done (.ok (some (obj.curEpoch, obj.recEpoch)))
    else if scan.slots.any fun s => !s.matched then .done (.error .enokey)
    else if scan.keys = [] then .done (.ok (some (obj.curEpoch, obj.recEpoch)))
    else if scan.need = scan.keys.length then
      .write ⟨.liftBulk remove, scan.slots⟩
        ⟨some (obj.curEpoch, 0), liftChange remove scan.keys⟩ (some (obj.curEpoch, 0))
    else
      .write ⟨.liftBulk remove, scan.slots⟩
        ⟨none, liftChange remove scan.keys⟩ (some (obj.curEpoch, obj.recEpoch))

def graceAttempt (k : GraceLoop ν) (obj : GraceObject ν) : GraceAttempt ν :=
  match k.op with
  | .add => radosGraceAdd k.slots obj
  | .joinBulk start => radosGraceJoinBulk start k.slots obj
  | .liftBulk remove => radosGraceLiftBulk remove k.slots obj
  | .enforcingToggle enable => radosGraceEnforcingToggle enable k.slots obj

def graceStart (call : GraceOp × List ν) : GraceLoop ν :=
  ⟨call.1, call.2.map fun nodeid => ⟨nodeid, 0, false⟩⟩

def grace (ν : Type*) [DecidableEq ν] :
    Optimistic (GraceOp × List ν) (GraceObject ν) (GraceLoop ν) (GraceUpdate ν) GraceErr
      (Option (Nat × Nat)) where
  start := graceStart
  attempt := graceAttempt
  apply := GraceUpdate.apply

abbrev GraceState (ν : Type*) :=
  Shared (GraceObject ν) (GraceLoop ν) (GraceUpdate ν) GraceErr (Option (Nat × Nat))

abbrev GraceEvent (ν : Type*) := Access (GraceOp × List ν) GraceErr

/-- Any number of operations of any nodes, interleaved, on an object that has just been created. -/
def graceMachine (ν : Type*) [DecidableEq ν] : Machine (GraceState ν) (GraceEvent ν) :=
  (grace ν).machine fun obj => radosGraceCreate none = .ok obj

theorem graceMachine_moves {σ τ : GraceState ν} {x : GraceEvent ν}
    (h : (graceMachine ν).step σ x = some τ) : Optimistic.Moves (grace ν) σ x τ :=
  Optimistic.moves_of_step h

def graceCreated (ν : Type*) : GraceState ν := ⟨⟨1, 0, ∅, 0⟩, 0, []⟩

theorem reachable_graceCreated {guard : GraceState ν → GraceEvent ν → Prop} :
    (graceMachine ν).ReachableBy guard (graceCreated ν) :=
  .init ⟨rfl, rfl⟩

end EdgeComputing.Support
