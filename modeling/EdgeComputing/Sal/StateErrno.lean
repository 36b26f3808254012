import EdgeComputing.Fsal.FsalErr
import EdgeComputing.Nfs4.Nfsstat4
import EdgeComputing.Sal.LockState

/-!
How an error of the file system below becomes a status of the state layer and that one a status of
the protocol.
-/

namespace EdgeComputing.Sal

open Fsal Nfs4

def stateErrorConvert : FsalErr → StateStatus
  | .noError => .success
  | .noent => .notFound
  | .delay | .access => .lockConflict
  | .perm => .fsalEperm
  | .nospc => .noSpaceLeft
  | .rofs => .readOnlyFs
  | .io | .nxio => .ioError
  | .stale | .fhexpired => .estale
  | .inval | .overflow => .invalidArgument
  | .sec => .fsalErrSec
  | .notsupp | .attrnotsupp | .unionNotsupp => .notSupported
  | .nomem => .mallocError
  | .deadlock => .lockDeadlock
  | .badcookie => .badCookie
  | .notOpened => .fsalError
  | .symlink | .badtype => .badType
  | .isdir => .isADirectory
  | .fbig => .fileBig
  | .fileOpen => .fileOpen
  | .shareDenied => .shareDenied
  | .blocked => .lockBlocked
  | .inGrace => .inGrace
  | .badhandle => .badhandle
  | .badRange => .badRange
  | .locked => .locked
  | .toosmall => .toosmall
  | .dquot | .nametoolong | .stillInUse | .exist | .notempty | .notdir | .interrupt | .fault
  | .notInit | .alreadyInit | .badInit | .noQuota | .xdev | .mlink | .timeout | .serverfault
  | .noData | .noAce | .crossJunction | .badname => .fsalError

def nfs4ErrnoState : StateStatus → Nfsstat4
  | .success => .ok
  | .mallocError => .resource
  | .poolMutexInitError | .getNewLruEntry | .initEntryFailed => .serverfault
  | .badType => .inval
  | .notADirectory => .notdir
  | .entryExists => .exist
  | .dirNotEmpty => .notempty
  | .notFound => .noent
  | .fsalError | .insertError | .lruError | .hashSetError => .io
  | .fsalEaccess => .access
  | .fsalEperm | .fsalErrSec => .perm
  | .noSpaceLeft => .nospc
  | .isADirectory => .isdir
  | .readOnlyFs => .rofs
  | .ioError => .io
  | .fileOpen => .fileOpen
  | .nameTooLong => .nametoolong
  | .estale => .stale
  | .shareDenied => .shareDenied
  | .locked => .locked
  | .quotaExceeded => .dquot
  | .notSupported => .notsupp
  | .fsalDelay => .delay
  | .fileBig => .fbig
  | .lockDeadlock => .deadlock
  | .lockBlocked | .lockConflict => .denied
  | .stateError => .badStateid
  | .badCookie => .badCookie
  | .gracePeriod => .grace
  | .serverfault => .serverfault
  | .mlink => .mlink
  | .toosmall => .toosmall
  | .inGrace => .grace
  | .xdev => .xdev
  | .badhandle => .badhandle
  | .badRange => .badRange
  | .invalidArgument | .cacheInodeErr | .inconsistentEntry | .hashTableError | .asyncPostError
  | .signalError => .inval

theorem nfs4ErrnoState_eq_badStateid_iff (status : StateStatus) :
    nfs4ErrnoState status = .badStateid ↔ status = .stateError := by
  cases status <;> simp [nfs4ErrnoState]

theorem stateErrorConvert_ne_stateError (err : FsalErr) : stateErrorConvert err ≠ .stateError := by
  cases err <;> simp [stateErrorConvert]

theorem doLockOp_ne_stateError {env : LockEnv}
    (henv : ∀ op entry, env.lockOp2 op entry ≠ .stateError) (op : LockOp) (entry : Nat) :
    doLockOp env op entry ≠ .stateError := by
  unfold doLockOp
  generalize (if (op = .lockb && !env.fsalAsyncBlock) then LockOp.lock else op) = fsalLockOp
  split
  · simp
  · dsimp only
    split
    · simp
    · split
      · simp
      · exact henv _ _

variable {Owner : Type*} [DecidableEq Owner]

end EdgeComputing.Sal
