import EdgeComputing.Library.Machine
import Mathlib.Algebra.Order.Ring.Int

/-!
One duplicate request cache and the requests that go through it, one step for each section under
`drc->mtx` or the lock of an entry. A partition lock is held across several such sections; the
phases tell by whom. The partitioned tree is a dictionary. Requests that are not cached and replies
are left out. The entry a request allocates is named by its number.
-/

namespace EdgeComputing.Rpcal

open Library

inductive DrcType
  | tcpV4 | tcpV3 | udpV234
deriving DecidableEq

structure DrcParam where
  type : DrcType
  npart : Nat
  maxsize : Nat
  hiwat : Nat
deriving DecidableEq

structure DupreqKey where
  addr : Nat
  rqXid : Nat
  hk : Nat
deriving DecidableEq

inductive DupreqState
  | start | complete
deriving DecidableEq

structure DupreqEntry where
  key : DupreqKey
  state : DupreqState
  refcnt : Nat
deriving DecidableEq

/-- Where a request stands.

`inserted` and `found` are inside `nfs_dupreq_start`, under the partition lock;
`running`, `hit` and `beingProcessed` are its three results. `completed`, `retire`,
`retiring` and `retired` are inside `nfs_dupreq_finish`, where `retire` has dropped
`drc->mtx` to take the partition lock and `retiring` holds the partition lock after
the entry has left the queue. `deleting` is inside `nfs_dupreq_delete`, after the
entry has left the queue. -/
inductive Phase
  | inserted
  | found (dv : Nat)
  | running
  | hit (dv : Nat)
  | beingProcessed
  | completed
  | retire (cnt ovHk : Nat)
  | retiring (cnt ov : Nat)
  | retired (cnt : Nat)
  | deleting
  | done
  | released
deriving DecidableEq

structure Request where
  entry : DupreqEntry
  phase : Phase
deriving DecidableEq

/-- The cache: the entries of the dictionary, the queue with its counter, and the
window in which nothing is retired. -/
structure Drc where
  requests : List Request
  xt : List Nat
  dupreqQ : List Nat
  size : Nat
  retwnd : Nat
deriving DecidableEq

def retwndStartBias : Nat := 16

def dupreqMaxRetries : Nat := 5

/-- `dupreq_shared_cmpf` or `dupreq_tcp_cmpf` finds the keys equal. -/
def sameKey (type : DrcType) (lk rk : DupreqKey) : Bool :=
  match type with
  | .udpV234 => lk.addr = rk.addr && lk.rqXid = rk.rqXid && lk.hk = rk.hk
  | .tcpV4 | .tcpV3 => lk.rqXid = rk.rqXid && lk.hk = rk.hk

variable (param : DrcParam)

def drcIncRetwnd (retwnd : Nat) : Nat :=
  if retwnd = 0 then retwndStartBias
  else if retwnd < param.maxsize then (retwnd + 2) % 2 ^ 32
  else retwnd

def drcDecRetwnd (retwnd : Nat) : Nat :=
  if retwnd > 0 then retwnd - 1 else retwnd

def drcShouldRetire (s : Drc) : Bool :=
  if s.size > param.maxsize then true
  else if s.retwnd > 0 then false
  else s.size > param.hiwat

def partitionOf (hk : Nat) : Nat := hk % param.npart

def Drc.hkOf (s : Drc) (e : Nat) : Option Nat := s.requests[e]?.map (·.entry.key.hk)

def Drc.holds (s : Drc) (r : Request) : Option Nat :=
  match r.phase with
  | .inserted | .found _ => some (partitionOf param r.entry.key.hk)
  | .retiring _ ov => (s.hkOf ov).map (partitionOf param)
  | _ => none

def Drc.partitionFree (s : Drc) (p : Nat) : Bool :=
  s.requests.all fun r => s.holds param r ≠ some p

def Drc.lookup (s : Drc) (key : DupreqKey) : Option Nat :=
  s.xt.find? fun e => s.requests[e]?.any fun r => sameKey param.type r.entry.key key

def Drc.setPhase (s : Drc) (i : Nat) (phase : Phase) : Drc :=
  { s with requests := s.requests.modify i fun r => { r with phase := phase } }

def Drc.setState (s : Drc) (i : Nat) (state : DupreqState) : Drc :=
  { s with requests := s.requests.modify i fun r => { r with entry.state := state } }

def Drc.get (s : Drc) (dv : Nat) : Drc :=
  { s with requests := s.requests.modify dv fun r =>
    { r with entry.refcnt := r.entry.refcnt + 1 } }

/-- `dupreq_entry_put`; an entry without references is freed. -/
def Drc.put (s : Drc) (dv : Nat) : Drc :=
  { s with requests := s.requests.modify dv fun r =>
    { r with entry.refcnt := r.entry.refcnt - 1 } }

def Drc.enqueue (s : Drc) (i : Nat) : Drc :=
  { s with dupreqQ := s.dupreqQ ++ [i], size := (s.size + 1) % 2 ^ 32 }

def Drc.dequeue (s : Drc) (i : Nat) : Drc :=
  { s with dupreqQ := s.dupreqQ.filter (· ≠ i), size := (s.size + (2 ^ 32 - 1)) % 2 ^ 32 }

def Drc.remove (s : Drc) (i : Nat) : Drc := { s with xt := s.xt.filter (· ≠ i) }

/-- `nfs_dupreq_start` up to the first section under `drc->mtx`, with the lock of the
partition of the key taken. -/
def nfsDupreqStart (key : DupreqKey) (s : Drc) : Drc :=
  match s.lookup param key with
  | some dv =>
    if s.requests[dv]?.any fun r => r.entry.state = .complete then
      { s.get dv with requests := (s.get dv).requests ++ [⟨⟨key, .start, 0⟩, .found dv⟩] }
    else { s with requests := s.requests ++ [⟨⟨key, .start, 0⟩, .beingProcessed⟩] }
  | none =>
    { s with
      requests := s.requests ++ [⟨⟨key, .start, 2⟩, .inserted⟩]
      xt := s.requests.length :: s.xt }

def dqAgain (i cnt : Nat) (s : Drc) : Drc :=
  if drcShouldRetire param s then
    match s.dupreqQ.head?.bind s.hkOf with
    | some ovHk => s.setPhase i (.retire cnt ovHk)
    | none => s.setPhase i .done
  else s.setPhase i .done

def takeOldest (i cnt ovHk : Nat) (s : Drc) : Drc :=
  match s.dupreqQ.head? with
  | none => s.setPhase i .done
  | some ov =>
    if s.hkOf ov ≠ some ovHk then s.setPhase i .done
    else (s.dequeue ov).setPhase i (.retiring cnt ov)

def retireEntry (i cnt ov : Nat) (s : Drc) : Drc :=
  ((s.remove ov).put ov).setPhase i
    (if cnt < dupreqMaxRetries then .retired (cnt + 1) else .done)

def nfsDupreqDelete (i : Nat) (s : Drc) : Drc :=
  if i ∈ s.dupreqQ then (s.dequeue i).setPhase i .deleting else s.setPhase i .done

inductive DrcAction
  | start (key : DupreqKey)
  | finish (i : Nat)
  | delete (i : Nat)
  | next (i : Nat)

def nextSection (s : Drc) (i : Nat) (r : Request) : Option Drc :=
  match r.phase with
  | .inserted => some ((s.enqueue i).setPhase i .running)
  | .found dv => some ({ s with retwnd := drcIncRetwnd param s.retwnd }.setPhase i (.hit dv))
  | .completed => some (dqAgain param i 0 { s with retwnd := drcDecRetwnd s.retwnd })
  | .retire cnt ovHk =>
    if s.partitionFree param (partitionOf param ovHk) then some (takeOldest i cnt ovHk s)
    else none
  | .retiring cnt ov => some (retireEntry i cnt ov s)
  | .retired cnt => some (dqAgain param i cnt s)
  | .deleting =>
    if s.partitionFree param (partitionOf param r.entry.key.hk) then
      some (((s.remove i).put i).setPhase i .done)
    else none
  | .done => some ((s.put i).setPhase i .released)
  | .hit dv => some ((s.put dv).setPhase i .released)
  | .beingProcessed => some (s.setPhase i .released)
  | .running | .released => none

def drcMachine : Machine Drc DrcAction where
  init s := ∃ retwnd, s = ⟨[], [], [], 0, retwnd⟩
  step s
    | .start key =>
      if s.partitionFree param (partitionOf param key.hk) then some (nfsDupreqStart param key s)
      else none
    | .finish i =>
      s.requests[i]?.bind fun r =>
        if r.phase = .running then some ((s.setState i .complete).setPhase i .completed) else none
    | .delete i =>
      s.requests[i]?.bind fun r =>
        if r.phase = .running then some (nfsDupreqDelete i s) else none
    | .next i => s.requests[i]?.bind (nextSection param s i)

end EdgeComputing.Rpcal
