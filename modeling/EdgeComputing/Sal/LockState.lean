import EdgeComputing.Sal.LockList

/-!
The byte-range lock operations on one file: the immediate grant, the grant of blocked entries, grant
cookies, cancellation and unlock. Each runs under the file's state lock; `state_find_grant` is a
step of its own, because a thread may hold a cookie while others change the list. The answers of the
file system, the cookie table and the thread pool are arbitrary.
-/

namespace EdgeComputing.Sal

inductive StateStatus where
  | success | mallocError | poolMutexInitError | getNewLruEntry | initEntryFailed | fsalError
  | lruError | hashSetError | notADirectory | inconsistentEntry | badType | entryExists
  | dirNotEmpty | notFound | invalidArgument | insertError | hashTableError | fsalEaccess
  | isADirectory | fsalEperm | noSpaceLeft | readOnlyFs | ioError | estale | fsalErrSec | locked
  | quotaExceeded | asyncPostError | notSupported | stateError | fsalDelay | nameTooLong
  | lockConflict | lockBlocked | lockDeadlock | badCookie | fileBig | gracePeriod | cacheInodeErr
  | signalError | fileOpen | mlink | serverfault | toosmall | xdev | shareDenied | inGrace
  | badhandle | badRange
  deriving DecidableEq

inductive LockOp where
  | lockt
  | lock
  | lockb
  | unlock
  | cancel
  deriving DecidableEq

/-- What the world outside the lock list answers during one operation. Answers
about an entry are indexed by its address. -/
structure LockEnv where
  fsalLockSupport : Bool
  fsalAsyncBlock : Bool
  lockOp2 : LockOp → Nat → StateStatus
  conflictingLock : LockParam
  exportReady : Nat → Bool
  cookieInsert : Nat → Bool
  asyncSchedule : Nat → Bool

def doLockOp (env : LockEnv) (lockOp : LockOp) (entry : Nat) : StateStatus :=
  if !env.fsalLockSupport || (!env.fsalAsyncBlock && lockOp = .cancel) then .success
  else
    let fsalLockOp := if lockOp = .lockb && !env.fsalAsyncBlock then .lock else lockOp
    let status := env.lockOp2 fsalLockOp entry
    if status = .lockBlocked && fsalLockOp ≠ .lockb then .fsalError
    else if status = .lockConflict && lockOp = .lockb then .lockBlocked
    else status

/-- `state_cookie_entry_t`: the key of a grant and the entry being granted. -/
structure Cookie where
  key : Nat
  lockEntry : Nat
  deriving DecidableEq

/-- The lock state of one file. `unlinked` holds entries that left the list while
a cookie may still refer to them, `cookies` is the cookie table, and `taken` are
the cookies a thread has taken out of it and is working on. -/
structure LockState (Owner : Type*) where
  lockList : List (LockEntry Owner)
  unlinked : List (LockEntry Owner)
  cookies : List Cookie
  taken : List Cookie
  nextId : Nat
  nextCookie : Nat
  deriving DecidableEq

variable {Owner : Type*} [DecidableEq Owner]

namespace LockState

def empty : LockState Owner := ⟨[], [], [], [], 0, 0⟩

def find (s : LockState Owner) (id : Nat) : Option (LockEntry Owner) :=
  s.lockList.find? (·.sleId = id)

variable (env : LockEnv) (s : LockState Owner)

def update (id : Nat) (f : LockEntry Owner → LockEntry Owner) : LockState Owner :=
  { s with
    lockList := s.lockList.map fun e => if e.sleId = id then f e else e
    unlinked := s.unlinked.map fun e => if e.sleId = id then f e else e }

def removeFromLocklist (id : Nat) : LockState Owner :=
  { s with
    lockList := s.lockList.filter (·.sleId ≠ id)
    unlinked := s.unlinked ++ s.lockList.filter (·.sleId = id) }

def setBlocked (id : Nat) (blocked : Blocking) : LockState Owner :=
  s.update id fun e => { e with sleBlocked := blocked }

def setBlockData (id : Nat) (f : BlockData → BlockData) : LockState Owner :=
  s.update id fun e => { e with sleBlockData := e.sleBlockData.map f }

def freeCookie (cookie : Cookie) : LockState Owner :=
  { s.setBlockData cookie.lockEntry fun b => { b with sbdBlockedCookie := none } with
    cookies := s.cookies.filter (· ≠ cookie)
    taken := s.taken.filter (· ≠ cookie) }

def stateFindGrant (key : Nat) : Option (Cookie × LockState Owner) :=
  (s.cookies.find? (·.key = key)).map fun cookie =>
    (cookie, { s with cookies := s.cookies.filter (·.key ≠ key), taken := cookie :: s.taken })

end LockState

open LockState

variable (env : LockEnv) (s : LockState Owner) {lockList : List (LockEntry Owner)}

def grantLockOp (grantType : GrantType) (entry : Nat) : StateStatus :=
  match grantType with
  | .none => .inconsistentEntry
  | .poll | .fsalAvailable => doLockOp env .lockb entry
  | .internal => doLockOp env .lock entry
  | .fsal => .success

def stateAddGrantCookie (entry : LockEntry Owner) : StateStatus × LockState Owner :=
  let key := s.nextCookie
  let s := { s with nextCookie := key + 1 }
  match entry.sleBlockData with
  | none => (.inconsistentEntry, s)
  | some blockData =>
    if !env.cookieInsert entry.sleId then (.hashTableError, s)
    else
      let status := grantLockOp env blockData.sbdGrantType entry.sleId
      if status = .success then
        (.success,
          { s.setBlockData entry.sleId fun b => { b with sbdBlockedCookie := some key } with
            cookies := ⟨key, entry.sleId⟩ :: s.cookies })
      else (status, s)

/-- Where the message cannot be scheduled `state_cancel_grant` frees the cookie. The source leaves
it in the table, where using it has no defined meaning; here it leaves the table as well. -/
def nlmGrantedCallback (entry : LockEntry Owner) : StateStatus × LockState Owner :=
  let (status, s') := stateAddGrantCookie env s entry
  if status ≠ .success then (status, s')
  else if env.asyncSchedule entry.sleId then (.success, s')
  else (.signalError, s'.freeCookie ⟨s.nextCookie, entry.sleId⟩)

def grantingEntry (entry : LockEntry Owner) (blockData : BlockData) : LockEntry Owner :=
  let grantType :=
    if blockData.sbdGrantType = .none then .internal else blockData.sbdGrantType
  { entry with
    sleBlocked := .granting
    sleBlockData := some { blockData with sbdGrantType := grantType } }

/-- What `try_to_grant_lock` does with the answer of the callback: a lock that is
still blocked gets its status back, one that could not be granted is removed. -/
def settleGrant (entry : LockEntry Owner) : StateStatus × LockState Owner → LockState Owner
  | (.lockBlocked, s) =>
    (s.setBlocked entry.sleId entry.sleBlocked).setBlockData entry.sleId
      fun b => { b with sbdGrantType := .none }
  | (.success, s) => s
  | (_, s) => s.removeFromLocklist entry.sleId

/-- An entry that was canceled, has no block data or whose export is gone is removed. -/
def tryToGrantLock (entry : LockEntry Owner) : LockState Owner :=
  match entry.sleBlockData with
  | none => s.removeFromLocklist entry.sleId
  | some blockData =>
    if entry.sleBlocked = .canceled ∨ env.exportReady entry.sleExport = false then
      s.removeFromLocklist entry.sleId
    else
      let granting := grantingEntry entry blockData
      settleGrant entry
        (nlmGrantedCallback env (s.update entry.sleId fun _ => granting) granting)

def grantBlockedLock (id : Nat) : LockState Owner :=
  match s.find id with
  | none => s
  | some found =>
    if found.sleBlocked ≠ .nlmBlocking ∧ found.sleBlocked ≠ .nfsv4Blocking then s
    else match getOverlappingEntry s.lockList found.sleOwner found.sleLock with
      | some _ => s
      | none => tryToGrantLock env s found

def grantBlockedLocks : LockState Owner :=
  if env.fsalAsyncBlock then s
  else (s.lockList.map (·.sleId)).foldl (grantBlockedLock env) s

def grantAndMerge (entry : LockEntry Owner) : LockState Owner :=
  let granted := { entry with sleBlocked := .nonBlocking }
  let s := s.update entry.sleId fun e => { e with sleBlocked := .nonBlocking }
  let m := mergeLockEntry s.lockList s.nextId granted
  grantBlockedLocks env { s with lockList := m.list, nextId := m.nextId }

def grantBlockedLockImmediate (entry : LockEntry Owner) : LockState Owner :=
  match entry.sleBlockData with
  | none => grantAndMerge env s entry
  | some blockData =>
    match blockData.sbdBlockedCookie with
    | none =>
      grantAndMerge env (s.update entry.sleId fun e => { e with sleBlockData := none })
        { entry with sleBlockData := none }
    | some key =>
      match s.stateFindGrant key with
      | none => s
      | some (cookie, s') => grantAndMerge env (s'.freeCookie cookie) entry

def stateCompleteGrant (cookie : Cookie) : LockState Owner :=
  match (s.lockList ++ s.unlinked).find? (·.sleId = cookie.lockEntry) with
  | none => s.freeCookie cookie
  | some entry =>
    if entry.sleBlocked = .granting then (grantAndMerge env s entry).freeCookie cookie
    else s.freeCookie cookie

def stateReleaseGrant (cookie : Cookie) : StateStatus × LockState Owner :=
  match (s.lockList ++ s.unlinked).find? (·.sleId = cookie.lockEntry) with
  | none => (.success, grantBlockedLocks env (s.freeCookie cookie))
  | some entry =>
    if entry.sleBlocked = .granting then
      let s := s.setBlocked entry.sleId .canceled
      let status := doLockOp env .unlock entry.sleId
      let s := if status = .success then s.removeFromLocklist entry.sleId else s
      (status, grantBlockedLocks env (s.freeCookie cookie))
    else (.success, grantBlockedLocks env (s.freeCookie cookie))

def cancelBlockedLock (entry : LockEntry Owner) : LockState Owner :=
  let s := s.setBlocked entry.sleId .canceled
  match entry.sleBlockData.bind (·.sbdBlockedCookie) with
  | some key =>
    match s.stateFindGrant key with
    | some (cookie, s') => (s'.freeCookie cookie).removeFromLocklist entry.sleId
    | none => s.removeFromLocklist entry.sleId
  | none =>
    if doLockOp env .cancel entry.sleId = .success then s.removeFromLocklist entry.sleId
    else s

def cancelsInRange (owner : Option Owner) (stateApplies : Bool) (state : Int)
    (lock : LockParam) (found : LockEntry Owner) : Bool :=
  (owner.isNone || owner = some found.sleOwner)
    && !(stateApplies && found.sleStateSeqid = state)
    && found.sleBlocked ≠ .nonBlocking && found.sleLock.overlaps lock

def cancelBlockedLocksRange (owner : Option Owner) (stateApplies : Bool) (state : Int)
    (lock : LockParam) (s : LockState Owner) : LockState Owner :=
  (s.lockList.map (·.sleId)).foldl (fun s id =>
    match s.find id with
    | none => s
    | some found =>
      if cancelsInRange owner stateApplies state lock found then cancelBlockedLock env s found
      else s) s

structure LockRequest (Owner : Type*) where
  ctxExport : Nat
  owner : Owner
  stateSeqid : Int
  blocking : Blocking
  lock : LockParam
  deriving DecidableEq

/-- What `state_lock` returns: the status and, where it reports one, the holder of
a conflicting lock (`none` for the unknown owner) with its description. -/
structure LockReply (Owner : Type*) where
  status : StateStatus
  conflict : Option (Option Owner × LockParam)
  deriving DecidableEq

def findBlockedRequest (req : LockRequest Owner) : List (LockEntry Owner) → Option StateStatus
  | [] => none
  | found :: rest =>
    if found.sleOwner ≠ req.owner then findBlockedRequest req rest
    else if found.sleExport ≠ req.ctxExport then some .invalidArgument
    else if found.sleBlocked ≠ req.blocking then findBlockedRequest req rest
    else if differentLock found.sleLock req.lock then findBlockedRequest req rest
    else some .lockBlocked

inductive LockScan (Owner : Type*) where
  | exportConflict
  | conflict (found : LockEntry Owner)
  | existing (found : LockEntry Owner)
  | clear

/-- An entry that stands in the way of the request. Blocked entries count, for
fairness. -/
def conflictsWith (req : LockRequest Owner) (found : LockEntry Owner) : Bool :=
  !req.lock.lockReclaim && found.sleLock.overlaps req.lock
    && (found.sleLock.lockType = .lockW || req.lock.lockType = .lockW)
    && found.sleOwner ≠ req.owner

def answersRequest (req : LockRequest Owner) (found : LockEntry Owner) : Bool :=
  lockEnd found.sleLock ≥ lockEnd req.lock
    && found.sleLock.lockStart ≤ req.lock.lockStart
    && found.sleLock.lockType = req.lock.lockType
    && (found.sleBlocked = .nonBlocking || found.sleBlocked = .granting)
    && found.sleOwner = req.owner

def lockScan (req : LockRequest Owner) : List (LockEntry Owner) → LockScan Owner
  | [] => .clear
  | found :: rest =>
    if found.sleExport ≠ req.ctxExport ∧ found.sleOwner = req.owner then .exportConflict
    else if conflictsWith req found then .conflict found
    else if answersRequest req found then .existing found
    else lockScan req rest

theorem lockScan_existing_mem {req : LockRequest Owner} {found : LockEntry Owner}
    (h : lockScan req lockList = .existing found) :
    found ∈ lockList ∧ answersRequest req found = true := by
  induction lockList with
  | nil => cases h
  | cons e rest ih =>
    simp only [lockScan] at h
    split_ifs at h with hexport hconflict hanswers
    · cases h
      exact ⟨by simp, hanswers⟩
    · obtain ⟨hmem, hfound⟩ := ih h
      exact ⟨by simp [hmem], hfound⟩

theorem lockScan_clear {req : LockRequest Owner} (h : lockScan req lockList = .clear) :
    ∀ e ∈ lockList, conflictsWith req e = false := by
  induction lockList with
  | nil => simp
  | cons e rest ih =>
    simp only [lockScan] at h
    split_ifs at h with hexport hconflict hanswers
    intro x hx
    rcases List.mem_cons.1 hx with rfl | hx
    · exact Bool.eq_false_iff.2 hconflict
    · exact ih h x hx

def newEntry (req : LockRequest Owner) : LockEntry Owner :=
  { sleId := s.nextId
    sleOwner := req.owner
    sleExport := req.ctxExport
    sleStateSeqid := req.stateSeqid
    sleBlocked := .nonBlocking
    sleBlockData := none
    sleLock := req.lock }

def insertGranted (entry : LockEntry Owner) : LockState Owner :=
  let m := mergeLockEntry s.lockList s.nextId entry
  grantBlockedLocks env
    { s with lockList := m.list ++ [{ entry with sleLock := m.lock }], nextId := m.nextId }

def copyConflict (req : LockRequest Owner) (found : Option (LockEntry Owner)) :
    Option (Option Owner × LockParam) :=
  if req.blocking = .nlmBlocking then none
  else found.map fun e => (some e.sleOwner, e.sleLock)

/-- The file-system call of `state_lock`. A conflict in the list makes the call
pointless where the file system cannot wait for the lock itself. -/
def acquireStatus (req : LockRequest Owner) (found : Option (LockEntry Owner)) (entry : Nat) :
    StateStatus :=
  if found.isNone || env.fsalAsyncBlock then
    doLockOp env (if req.blocking = .nlmBlocking then .lockb else .lock) entry
  else .lockBlocked

def blockedEntry (req : LockRequest Owner) (found : Option (LockEntry Owner))
    (entry : LockEntry Owner) : LockEntry Owner :=
  let blockType := if env.fsalAsyncBlock then .async
    else if found.isNone then .poll else BlockType.internal
  { entry with
    sleBlocked := req.blocking
    sleBlockData := some ⟨.none, blockType, none⟩ }

def placeEntry (req : LockRequest Owner) (found : Option (LockEntry Owner))
    (entry : LockEntry Owner) : StateStatus → LockReply Owner × LockState Owner
  | .success => (⟨.success, none⟩, insertGranted env s entry)
  | .lockConflict =>
    (⟨.lockConflict, if found.isNone then some (none, env.conflictingLock)
      else copyConflict req found⟩, s)
  | .lockBlocked =>
    (⟨.lockBlocked, none⟩,
      { s with lockList := s.lockList ++ [blockedEntry env req found entry] })
  | status => (⟨status, none⟩, s)

/-- The part of `state_lock` after the scan. `found` is the conflicting entry of
the scan, if any. -/
def placeLock (req : LockRequest Owner) (found : Option (LockEntry Owner)) :
    LockReply Owner × LockState Owner :=
  if found.isSome ∧ req.blocking ≠ .nlmBlocking then
    (⟨.lockConflict, copyConflict req found⟩, s)
  else
    placeEntry env { s with nextId := s.nextId + 1 } req found (newEntry s req)
      (acquireStatus env req found s.nextId)

def stateLock (req : LockRequest Owner) (s : LockState Owner) : LockReply Owner × LockState Owner :=
  let blocked := if req.blocking = .nonBlocking then none else findBlockedRequest req s.lockList
  match blocked with
  | some status => (⟨status, none⟩, s)
  | none =>
    match lockScan req s.lockList with
    | .exportConflict => (⟨.invalidArgument, none⟩, s)
    | .existing found =>
      (⟨.success, none⟩,
        if found.sleBlocked = .granting then grantBlockedLockImmediate env s found else s)
    | .conflict found => placeLock env s req (some found)
    | .clear => placeLock env s req none

def stateUnlock (owner : Option Owner) (stateApplies : Bool) (nsmState : Int) (lock : LockParam)
    (s : LockState Owner) : StateStatus × LockState Owner :=
  if s.lockList.isEmpty then (.success, s)
  else
    let s := cancelBlockedLocksRange env owner stateApplies nsmState lock s
    let sub := subtractLockFromList owner stateApplies nsmState lock s.nextId s.lockList
    let s := { s with lockList := sub.kept, nextId := sub.nextId }
    (doLockOp env .unlock s.nextId, grantBlockedLocks env s)

def stateCancel (owner : Owner) (lock : LockParam) (s : LockState Owner) : LockState Owner :=
  match s.lockList.find? fun found =>
      found.sleOwner = owner && found.sleBlocked ≠ .nonBlocking
        && !differentLock found.sleLock lock with
  | none => s
  | some found => grantBlockedLocks env (cancelBlockedLock env s found)

def grantingEnv : LockEnv where
  fsalLockSupport := true
  fsalAsyncBlock := false
  lockOp2 := fun _ _ => .success
  conflictingLock := ⟨.noLock, 0, 0, false⟩
  exportReady := fun _ => true
  cookieInsert := fun _ => true
  asyncSchedule := fun _ => true

def lockRequest (owner : Nat) (blocking : Blocking) (type : LockType) (start length : Nat) :
    LockRequest Nat :=
  ⟨1, owner, 0, blocking, ⟨type, start, length, false⟩⟩

end EdgeComputing.Sal
