import EdgeComputing.Nfs4.FsalAttrlist
import EdgeComputing.Nfs4.StateOps

/-!
`open4_ex`: the part of OPEN that finds or creates the file, opens it, registers the open state and
builds the file handle. Every `goto out` leads to one exit, which learns only from the local
variables what to undo; so they are all kept, with the references taken and dropped. The answers of
the layers below are arbitrary. The delegation at the end is left out: it does not change the
status.
-/

namespace EdgeComputing.Nfs4

open Fsal Sal StateOps

inductive FsalCreateMode
  | noCreate | unchecked | guarded | exclusive | exclusive41 | exclusive9p
deriving DecidableEq

def FsalCreateMode.isExclusive : FsalCreateMode → Bool
  | .exclusive | .exclusive41 | .exclusive9p => true
  | _ => false

inductive Createmode4
  | unchecked4 | guarded4 | exclusive4 | exclusive41
deriving DecidableEq

def nfs4CreatemodeToFsal : Createmode4 → FsalCreateMode
  | .unchecked4 => .unchecked
  | .guarded4 => .guarded
  | .exclusive4 => .exclusive
  | .exclusive41 => .exclusive41

/-- `open_claim_type4`, without the claim that no OPEN gets past `open4_validate_claim` with. -/
inductive OpenClaimType4
  | null | previous | delegateCur | delegatePrev | fh | delegCurFh
deriving DecidableEq

structure Open4Args where
  claim : OpenClaimType4
  openhow : Option Createmode4
  shareAccess : BitVec 32
  shareDeny : BitVec 32
deriving DecidableEq

def nfs4ErrnoVerbose : FsalErr → Nfsstat4
  | .noError => .ok
  | .nomem => .serverfault
  | .symlink => .symlink
  | .badtype | .inval | .overflow => .inval
  | .notdir => .notdir
  | .exist => .exist
  | .notempty => .notempty
  | .noent => .noent
  | .notOpened | .blocked | .interrupt | .notInit | .alreadyInit | .badInit | .timeout | .io => .io
  | .nxio => .nxio
  | .access => .access
  | .perm | .sec => .perm
  | .nospc => .nospc
  | .isdir => .isdir
  | .rofs => .rofs
  | .nametoolong => .nametoolong
  | .stale | .fhexpired => .stale
  | .dquot | .noQuota => .dquot
  | .notsupp => .notsupp
  | .attrnotsupp => .attrnotsupp
  | .unionNotsupp => .unionNotsupp
  | .delay => .delay
  | .fbig => .fbig
  | .fileOpen => .fileOpen
  | .badcookie => .badCookie
  | .toosmall => .toosmall
  | .noData | .fault | .serverfault => .serverfault
  | .deadlock => .deadlock
  | .xdev => .xdev
  | .badhandle => .badhandle
  | .mlink => .mlink
  | .shareDenied => .shareDenied
  | .locked => .locked
  | .inGrace => .grace
  | .badRange => .badRange
  | .badname => .badname
  | .crossJunction | .noAce | .stillInUse => .inval

theorem nfs4ErrnoVerbose_ok_iff (err : FsalErr) : nfs4ErrnoVerbose err = .ok ↔ err = .noError := by
  cases err <;> simp [nfs4ErrnoVerbose]

theorem nfs4ErrnoState_ok_iff (status : StateStatus) :
    nfs4ErrnoState status = .ok ↔ status = .success := by
  cases status <;> simp [nfs4ErrnoState]

/-- What the layers below answer. `currentType` is the type of the current object: the directory for
CLAIM_NULL, otherwise the file. -/
structure Open4Env where
  currentType : ObjectFileType
  utf8Scan : Nfsstat4
  createArgs : Nfsstat4
  lookup : FsalErr
  lookupType : ObjectFileType
  delegReclaim : Bool
  claimDeleg : Nfsstat4
  delegConflict : Bool
  sameExport : Bool
  open2 : FsalErr
  verify2 : FsalErr
  reopen2 : FsalErr
  exportReady : Bool
  stateSet : Bool
  fhandle : Bool
  reopenBack : FsalErr

def modeFlags (shareAccess shareDeny : BitVec 32) : StateOps.OpenFlags where
  read := shareAccess &&& 1 ≠ 0
  write := shareAccess &&& 2 ≠ 0
  denyRead := shareDeny &&& 1 ≠ 0
  denyWriteMand := shareDeny &&& 2 ≠ 0

def closedFlags : StateOps.OpenFlags := ⟨false, false, false, false⟩

def StateOps.OpenFlags.union (f g : StateOps.OpenFlags) : StateOps.OpenFlags where
  read := f.read || g.read
  write := f.write || g.write
  denyRead := f.denyRead || g.denyRead
  denyWriteMand := f.denyWriteMand || g.denyWriteMand

/-- An open state of the owner on the file: the modes it records, and the flags its descriptor was
last opened with. -/
structure OpenState where
  share : StateShare
  descriptor : StateOps.OpenFlags
deriving DecidableEq

inductive StatePtr
  | existing
  | fresh
deriving DecidableEq

/-- The local variables of `open4_ex`, and what it has done so far. `existing` is the state of the
owner on the file from before, `fresh` the one this call allocates. -/
structure Open4 where
  fileObj : Option ObjectFileType
  lookedUpFileObj : Bool
  outObj : Option ObjectFileType
  byName : Bool
  openflags : StateOps.OpenFlags
  oldOpenflags : StateOps.OpenFlags
  createmode : FsalCreateMode
  fileState : Option StatePtr
  newState : Bool
  stLockHeld : Bool
  status : Nfsstat4
  stLock : Bool
  existing : Option OpenState
  fresh : Option OpenState
  registered : Bool
  objTaken : Nat
  objDropped : Nat
  stateTaken : Nat
  stateDropped : Nat
deriving DecidableEq

inductive Jump
  | out (v : Open4)
  | nullPointer

abbrev Flow := Except Jump Open4

namespace Open4

def init (existing : Option OpenState) : Open4 where
  fileObj := none
  lookedUpFileObj := false
  outObj := none
  byName := false
  openflags := closedFlags
  oldOpenflags := closedFlags
  createmode := .noCreate
  fileState := none
  newState := false
  stLockHeld := false
  status := .ok
  stLock := false
  existing := existing
  fresh := none
  registered := false
  objTaken := 0
  objDropped := 0
  stateTaken := 0
  stateDropped := 0

variable (env : Open4Env) (v : Open4)

def fail (status : Nfsstat4) : Flow := .error (.out { v with status := status })

def getRef : Open4 := { v with objTaken := v.objTaken + 1 }

def putRef : Open4 := { v with objDropped := v.objDropped + 1 }

def lockState : Open4 := { v with stLock := true, stLockHeld := true }

def deref : Option OpenState :=
  match v.fileState with
  | none => none
  | some .existing => v.existing
  | some .fresh => v.fresh

/-- CLAIM_NULL: the name is looked up in the current directory. A file that is found is opened by
its handle, with `filename` set to null. -/
def lookupName (arg : Open4Args) (v : Open4) : Flow :=
  if env.currentType = .symbolicLink then v.fail .symlink
  else if env.currentType ≠ .directory then v.fail .notdir
  else if env.utf8Scan ≠ .ok then v.fail env.utf8Scan
  else if arg.openhow ≠ none ∧ env.createArgs ≠ .ok then v.fail env.createArgs
  else
    let createmode := (arg.openhow.map nfs4CreatemodeToFsal).getD .noCreate
    let v := { v with createmode := createmode }
    if env.lookup = .noError then
      let v := { v.getRef with fileObj := some env.lookupType, lookedUpFileObj := true }
      if createmode = .guarded then v.fail .exist else .ok v
    else if env.lookup ≠ .noent ∨ arg.openhow = none then v.fail (nfs4ErrnoVerbose env.lookup)
    else .ok { v with byName := true }

def processClaim (arg : Open4Args) (v : Open4) : Flow :=
  match arg.claim with
  | .null => v.lookupName env arg
  | .previous =>
    if env.delegReclaim then .ok { v with fileObj := some env.currentType } else v.fail .reclaimBad
  | .fh => .ok { v with fileObj := some env.currentType }
  | .delegatePrev => v.fail .notsupp
  | .delegateCur | .delegCurFh =>
    if env.claimDeleg ≠ .ok then v.fail env.claimDeleg
    else .ok { v with fileObj := some env.currentType }

def setOpenflags (arg : Open4Args) (v : Open4) : Open4 :=
  { v with openflags := modeFlags arg.shareAccess arg.shareDeny }

def checkFileType : Flow :=
  match v.fileObj with
  | none => .ok v
  | some .regularFile => .ok v
  | some .directory => v.fail .isdir
  | some _ => v.fail .symlink

def ofDelegation (arg : Open4Args) : Bool := arg.claim = .delegateCur || arg.claim = .delegCurFh

def findState (arg : Open4Args) (v : Open4) : Flow :=
  match v.fileObj with
  | none => .ok v
  | some _ =>
    let v := v.lockState
    if !ofDelegation arg && env.delegConflict then v.fail .delay
    else match v.existing with
      | none => .ok v
      | some _ =>
        let v := { v with fileState := some .existing, stateTaken := v.stateTaken + 1 }
        if env.sameExport then .ok v else v.fail .inval

/-- The open of a new state. A success comes with a reference on the file. -/
def openNew : Flow :=
  let v := { v with
    fileState := some .fresh
    newState := true
    fresh := some ⟨⟨[], 0, 0, 0, 0⟩, closedFlags⟩ }
  if env.open2 ≠ .noError then v.fail (nfs4ErrnoVerbose env.open2)
  else .ok { v.getRef with
    outObj := if v.byName then some .regularFile else v.fileObj
    fresh := some ⟨⟨[], 0, 0, 0, 0⟩, v.openflags⟩ }

def upgrade : Flow :=
  match v.fileObj, v.existing with
  | some _, some st =>
    let v := { v with oldOpenflags := st.descriptor }
    if env.reopen2 ≠ .noError then v.fail (nfs4ErrnoVerbose env.reopen2)
    else .ok { v.getRef with
      existing := some { st with descriptor := v.openflags.union v.oldOpenflags } }
  | _, _ => .error .nullPointer

def verify : Flow :=
  match v.fileObj with
  | none => .error .nullPointer
  | some _ =>
    if env.verify2 ≠ .noError then v.fail (nfs4ErrnoVerbose env.verify2) else .ok v.getRef

def openFile : Flow :=
  match v.fileState with
  | none => v.openNew env
  | some _ => if v.createmode.isExclusive then v.verify env else v.upgrade env

def lockOpened : Flow :=
  match v.fileObj with
  | some _ => .ok v
  | none =>
    match v.outObj with
    | none => .error .nullPointer
    | some type => .ok { v.lockState with fileObj := some type }

def candidateData (arg : Open4Args) : StateShare where
  shareLockstates := []
  shareAccess := arg.shareAccess &&& 3
  shareDeny := arg.shareDeny
  shareAccessPrev := bitOf (arg.shareAccess &&& 3)
  shareDenyPrev := bitOf arg.shareDeny

/-- `_state_add_impl` for the allocated state. A registered state has a reference on the file, and
the caller one on the state; on failure the state is closed and freed. -/
def stateAddImpl (share : StateShare) (v : Open4) : StateStatus × Open4 :=
  let status : StateStatus :=
    if !env.exportReady then .estale
    else if v.existing.isSome || !env.stateSet then .entryExists
    else .success
  if status = .success then
    (status, { v.getRef with
      fresh := v.fresh.map fun st => { st with share := share }
      registered := true
      stateTaken := v.stateTaken + 1 })
  else (status, { v with fresh := none, fileState := none })

def registerState (arg : Open4Args) (v : Open4) : Flow :=
  if v.newState then
    match v.stateAddImpl env (candidateData arg) with
    | (.success, v) => .ok v
    | (status, v) =>
      match v.fileObj with
      | none => .error .nullPointer
      | some _ => { v.putRef with newState := false }.fail (nfs4ErrnoState status)
  else .ok v

/-- `open4_create_fh` drops the reference on the file in either case. -/
def open4CreateFh : Open4 :=
  { v.putRef with status := if env.fhandle then .ok else .serverfault }

/-- The state and its reference on the file are gone, and so is the reference it has from being
registered. -/
def stateDelLocked : Open4 := { v.putRef with registered := false }

/-- The file handle. Where it cannot be built, a new state is deleted and the call goes on; an
existing one is reopened with its old flags, as far as they were read. -/
def createFh : Flow :=
  let v := v.open4CreateFh env
  if v.status = .ok then .ok v
  else if v.newState then .ok { v.stateDelLocked with fileState := none, newState := false }
  else
    let existing := if env.reopenBack = .noError then
        v.existing.map fun st => { st with descriptor := v.oldOpenflags }
      else v.existing
    .error (.out { v.putRef with existing := existing, stLock := false, stLockHeld := false })

def recordModes (arg : Open4Args) (v : Open4) : Flow :=
  if v.newState then .ok v
  else
    match v.deref with
    | none => .error .nullPointer
    | some st =>
      .ok { v with existing := some { st with share := { st.share with
        shareAccess := st.share.shareAccess ||| (arg.shareAccess &&& 3)
        shareDeny := st.share.shareDeny ||| arg.shareDeny
        shareAccessPrev := st.share.shareAccessPrev ||| bitOf (arg.shareAccess &&& 3)
        shareDenyPrev := st.share.shareDenyPrev ||| bitOf arg.shareDeny } } }

/-- The exit: unlock; on an error free a new state, or drop the reference on an existing one; drop
the reference of the lookup. -/
def out : Option Open4 :=
  if (v.stLockHeld || v.lookedUpFileObj) && v.fileObj.isNone then none
  else if v.status ≠ .ok ∧ v.newState ∧ v.fileState = none then none
  else some { v with
    stLock := if v.stLockHeld then false else v.stLock
    fresh := if v.status ≠ .ok ∧ v.newState then none else v.fresh
    stateDropped :=
      if v.status ≠ .ok ∧ ¬ v.newState ∧ v.fileState ≠ none then v.stateDropped + 1
      else v.stateDropped
    fileState := if v.status ≠ .ok then none else v.fileState
    objDropped := if v.lookedUpFileObj then v.objDropped + 1 else v.objDropped }

/-- All ways lead to `out`, but for a null pointer. -/
def exit : Flow → Option Open4
  | .ok v => v.out
  | .error (.out v) => v.out
  | .error .nullPointer => none

end Open4

/-- `open4_ex`, without a result if it follows a null pointer. -/
def open4Ex (env : Open4Env) (arg : Open4Args) (existing : Option OpenState) : Option Open4 :=
  Open4.exit do
    let v ← (Open4.init existing).processClaim env arg
    let v ← (v.setOpenflags arg).checkFileType
    let v ← v.findState env arg
    let v ← v.openFile env
    let v ← v.lockOpened
    let v ← v.registerState env arg
    let v ← v.createFh env
    v.recordModes arg

end EdgeComputing.Nfs4
