import EdgeComputing.Rpcal.Dupreq

/-!
The caches of all TCP connections: the callers that take and drop references, one step for each
section under `drc_st->mtx` or the `mtx` of a cache. Inside one cache a request takes the steps of
`drcMachine`. A connection is torn down only when all its requests are gone. Freed caches keep their
number.
-/

namespace EdgeComputing.Rpcal

open Library

structure TcpDrc where
  addr : Nat
  param : DrcParam
  cache : Drc
  refcnt : Nat
  flagRecycle : Bool
  recycleTime : Int
deriving DecidableEq

/-- `queueing` is inside `nfs_dupreq_put_drc`, after the count has dropped to zero. -/
inductive XprtPhase
  | up
  | queueing (drc : Nat)
  | closed
deriving DecidableEq

structure SvcXprt where
  addr : Nat
  xpU2 : Option Nat
  phase : XprtPhase
deriving DecidableEq

/-- Where a request stands between its arrival and its release.

`gotten` is inside `nfs_dupreq_start` after `nfs_dupreq_get_drc` has taken the reference, with
`drc_free_expired` still to be called if the flag says so. `cached` is request `i` of the cache.
`putting` and `queueing` are inside `nfs_dupreq_rele`, before and after the decrement. -/
inductive SvcPhase
  | arrived
  | noCache
  | gotten (drc : Nat) (checkExpired : Bool)
  | cached (drc i : Nat)
  | putting (drc : Nat)
  | queueing (drc : Nat)
  | released
deriving DecidableEq

structure SvcReq where
  xprt : Nat
  phase : SvcPhase
deriving DecidableEq

structure DrcSt where
  drcs : List (Option TcpDrc)
  recycleT : List Nat
  recycleQ : List Nat
  recycleQlen : Int
  lastExpireCheck : Int
  xprts : List SvcXprt
  requests : List SvcReq
deriving DecidableEq

structure DrcConfig where
  npart : Nat
  maxsize : Nat
  hiwat : Nat
  expireDelta : Nat
deriving DecidableEq

def DrcSt.drc? (σ : DrcSt) (d : Nat) : Option TcpDrc := (σ.drcs[d]?).join

def DrcSt.setDrc (σ : DrcSt) (d : Nat) (drc : TcpDrc) : DrcSt :=
  { σ with drcs := σ.drcs.set d (some drc) }

def DrcSt.setXprt (σ : DrcSt) (c : Nat) (xprt : SvcXprt) : DrcSt :=
  { σ with xprts := σ.xprts.set c xprt }

def DrcSt.setPhase (σ : DrcSt) (r : Nat) (req : SvcReq) (phase : SvcPhase) : DrcSt :=
  { σ with requests := σ.requests.set r { req with phase } }

def DrcSt.lookupAddr (σ : DrcSt) (addr : Nat) : Option Nat :=
  σ.recycleT.find? fun d => (σ.drc? d).any fun drc => drc.addr = addr

def allocTcpDrc (config : DrcConfig) (type : DrcType) (addr : Nat) : TcpDrc where
  addr := addr
  param := ⟨type, config.npart, config.maxsize, config.hiwat⟩
  cache := ⟨[], [], [], 0, 0⟩
  refcnt := 0
  flagRecycle := false
  recycleTime := 0

def nfsDupreqRefDrc (drc : TcpDrc) : TcpDrc := { drc with refcnt := drc.refcnt + 1 }

def nfsDupreqUnrefDrc (drc : TcpDrc) : TcpDrc := { drc with refcnt := drc.refcnt - 1 }

/-- The end of the section under `drc_st->mtx`: the connection and the call path each get a
reference. -/
def attachDrc (σ : DrcSt) (c : Nat) (xprt : SvcXprt) (d : Nat) (drc : TcpDrc) : DrcSt :=
  (σ.setXprt c { xprt with xpU2 := some d }).setDrc d
    (nfsDupreqRefDrc { nfsDupreqRefDrc drc with recycleTime := 0 })

/-- The cache, the flag `drc_check_expired` and the state; `none` while another thread still has
to put the cache on the queue. -/
def nfsDupreqGetDrc (config : DrcConfig) (σ : DrcSt) (c : Nat) (xprt : SvcXprt) (type : DrcType) :
    Option (Nat × Bool × DrcSt) :=
  match xprt.xpU2 with
  | some d => do
    let drc ← σ.drc? d
    some (d, false, σ.setDrc d (nfsDupreqRefDrc drc))
  | none =>
    match σ.lookupAddr xprt.addr with
    | some d => do
      let tdrc ← σ.drc? d
      if tdrc.refcnt = 0 then
        if tdrc.flagRecycle then
          let dequeued := { σ with
            recycleQ := σ.recycleQ.erase d
            recycleQlen := σ.recycleQlen - 1 }
          some (d, true, attachDrc dequeued c xprt d { tdrc with flagRecycle := false })
        else none
      else some (d, true, attachDrc σ c xprt d tdrc)
    | none =>
      let d := σ.drcs.length
      let drc := allocTcpDrc config type xprt.addr
      let inserted := { σ with drcs := σ.drcs ++ [some drc], recycleT := d :: σ.recycleT }
      some (d, true, attachDrc inserted c xprt d drc)

/-- The loop of `drc_free_expired` over the queue. The assertion of the source that a cache on
the queue has no references is not part of it. -/
def freeExpiredLoop (config : DrcConfig) (now : Int) : List Nat → DrcSt → DrcSt
  | [], σ => { σ with lastExpireCheck := now }
  | d :: rest, σ =>
    match σ.drc? d with
    | none => σ
    | some drc =>
      if 0 < drc.recycleTime ∧ (config.expireDelta : Int) < now - drc.recycleTime then
        let unlinked :=
          if (σ.lookupAddr drc.addr).isSome then σ.recycleT.filter (· ≠ d) else σ.recycleT
        freeExpiredLoop config now rest
          { σ with
            drcs := σ.drcs.set d none
            recycleT := unlinked
            recycleQ := rest
            recycleQlen := σ.recycleQlen - 1 }
      else { σ with lastExpireCheck := now }

def drcFreeExpired (config : DrcConfig) (now : Int) (σ : DrcSt) : DrcSt :=
  if σ.recycleQlen < 1 ∨ now - σ.lastExpireCheck < 600 then σ
  else freeExpiredLoop config now σ.recycleQ σ

/-- The first section of `nfs_dupreq_put_drc`: the state, and whether the count is now zero. -/
def nfsDupreqPutDrc (σ : DrcSt) (d : Nat) : Option (DrcSt × Bool) := do
  let drc ← σ.drc? d
  let dropped := nfsDupreqUnrefDrc drc
  some (σ.setDrc d dropped, dropped.refcnt = 0)

def enqueueDrc (now : Int) (σ : DrcSt) (d : Nat) : Option DrcSt := do
  let drc ← σ.drc? d
  if drc.refcnt = 0 ∧ drc.flagRecycle = false then
    let queued := { σ with
      recycleQ := σ.recycleQ ++ [d]
      recycleQlen := σ.recycleQlen + 1 }
    some (queued.setDrc d { drc with recycleTime := now, flagRecycle := true })
  else some σ

def cacheStep (σ : DrcSt) (d : Nat) (a : DrcAction) : Option DrcSt := do
  let drc ← σ.drc? d
  let cache ← (drcMachine drc.param).step drc.cache a
  some (σ.setDrc d { drc with cache })

def DrcSt.cachePhase (σ : DrcSt) (d i : Nat) : Option Phase := do
  let drc ← σ.drc? d
  let req ← drc.cache.requests[i]?
  some req.phase

def Phase.finished : Phase → Bool
  | .done | .hit _ | .beingProcessed => true
  | _ => false

/-- `nfs_dupreq_rele` of a cached request: the entry is put back, and the cache as well unless
the request was found to be processed already. -/
def releCached (σ : DrcSt) (r : Nat) (req : SvcReq) (i : Nat) (xprt : SvcXprt) : Option DrcSt := do
  let d ← xprt.xpU2
  let phase ← σ.cachePhase d i
  if phase.finished then
    let after ← cacheStep σ d (.next i)
    some (after.setPhase r req (if phase = .beingProcessed then .released else .putting d))
  else none

/-- `arrive` is a request given to `nfs_dupreq_start`, which the cache may not be meant for.
`lookup` is the rest of `nfs_dupreq_start` under the lock of the partition, `advance` a section
inside a function of the cache, and `close` the destructor of a connection. -/
inductive DrcStAction
  | connect (addr : Nat)
  | arrive (c : Nat) (cacheable : Bool)
  | getDrc (r : Nat) (type : DrcType)
  | freeExpired (r : Nat) (now : Int)
  | lookup (r : Nat) (key : DupreqKey)
  | finish (r : Nat)
  | delete (r : Nat)
  | advance (r : Nat)
  | rele (r : Nat)
  | putDrc (r : Nat)
  | enqueue (r : Nat) (now : Int)
  | close (c : Nat)
  | closeEnqueue (c : Nat) (now : Int)
deriving DecidableEq

def requestStep (config : DrcConfig) (σ : DrcSt) (r : Nat) (req : SvcReq) (xprt : SvcXprt) :
    DrcStAction → Option DrcSt
  | .getDrc _ type =>
    match req.phase with
    | .arrived => do
      let (d, check, after) ← nfsDupreqGetDrc config σ req.xprt xprt type
      some (after.setPhase r req (.gotten d check))
    | _ => none
  | .freeExpired _ now =>
    match req.phase with
    | .gotten d true => some ((drcFreeExpired config now σ).setPhase r req (.gotten d false))
    | _ => none
  | .lookup _ key =>
    match req.phase with
    | .gotten d false => do
      let drc ← σ.drc? d
      let after ← cacheStep σ d (.start key)
      some (after.setPhase r req (.cached d drc.cache.requests.length))
    | _ => none
  | .finish _ =>
    match req.phase with
    | .cached _ i => do cacheStep σ (← xprt.xpU2) (.finish i)
    | _ => none
  | .delete _ =>
    match req.phase with
    | .cached _ i => do cacheStep σ (← xprt.xpU2) (.delete i)
    | _ => none
  | .advance _ =>
    match req.phase with
    | .cached _ i => do
      let d ← xprt.xpU2
      let phase ← σ.cachePhase d i
      if phase.finished then none else cacheStep σ d (.next i)
    | _ => none
  | .rele _ =>
    match req.phase with
    | .noCache => some (σ.setPhase r req .released)
    | .cached _ i => releCached σ r req i xprt
    | _ => none
  | .putDrc _ =>
    match req.phase with
    | .putting d => do
      let (after, zero) ← nfsDupreqPutDrc σ d
      some (after.setPhase r req (if zero then .queueing d else .released))
    | _ => none
  | .enqueue _ now =>
    match req.phase with
    | .queueing d => do
      let after ← enqueueDrc now σ d
      some (after.setPhase r req .released)
    | _ => none
  | _ => none

def DrcSt.idle (σ : DrcSt) (c : Nat) : Bool :=
  σ.requests.all fun req => req.xprt ≠ c || req.phase = .released

def drcStStep (config : DrcConfig) (σ : DrcSt) : DrcStAction → Option DrcSt
  | .connect addr => some { σ with xprts := σ.xprts ++ [⟨addr, none, .up⟩] }
  | .arrive c cacheable => do
    let xprt ← σ.xprts[c]?
    if xprt.phase = .up then
      some { σ with requests := σ.requests ++ [⟨c, if cacheable then .arrived else .noCache⟩] }
    else none
  | .close c => do
    let xprt ← σ.xprts[c]?
    if xprt.phase = .up ∧ σ.idle c then
      match xprt.xpU2 with
      | none => some (σ.setXprt c { xprt with phase := .closed })
      | some d => do
        let (after, zero) ← nfsDupreqPutDrc σ d
        some (after.setXprt c
          (if zero then { xprt with phase := .queueing d }
            else { xprt with phase := .closed, xpU2 := none }))
    else none
  | .closeEnqueue c now => do
    let xprt ← σ.xprts[c]?
    match xprt.phase with
    | .queueing d => do
      let after ← enqueueDrc now σ d
      some (after.setXprt c { xprt with phase := .closed, xpU2 := none })
    | _ => none
  | .getDrc r type => request r (.getDrc r type)
  | .freeExpired r now => request r (.freeExpired r now)
  | .lookup r key => request r (.lookup r key)
  | .finish r => request r (.finish r)
  | .delete r => request r (.delete r)
  | .advance r => request r (.advance r)
  | .rele r => request r (.rele r)
  | .putDrc r => request r (.putDrc r)
  | .enqueue r now => request r (.enqueue r now)
where
  request (r : Nat) (a : DrcStAction) : Option DrcSt := do
    let req ← σ.requests[r]?
    let xprt ← σ.xprts[req.xprt]?
    requestStep config σ r req xprt a

def drcStMachine (config : DrcConfig) : Machine DrcSt DrcStAction where
  init σ := ∃ start, σ = ⟨[], [], [], 0, start, [], []⟩
  step := drcStStep config

end EdgeComputing.Rpcal
