import EdgeComputing.Library.KeyedTree
import EdgeComputing.Library.LittleEndian
import EdgeComputing.Library.Machine

/-!
The index of the mounted file systems by fsid. The nodes of the search tree are the file systems
themselves; rotations are a parameter, anything that keeps the order of the nodes.
-/

namespace EdgeComputing.Fsal

open Function Library

structure Fsid where
  major : BitVec 64
  minor : BitVec 64
  deriving DecidableEq

inductive FsidType where
  | noType
  | oneUint64
  | major64
  | twoUint64
  | twoUint32
  | device
  deriving DecidableEq

def FsidType.toNat : FsidType → Nat
  | noType => 0
  | oneUint64 => 1
  | major64 => 2
  | twoUint64 => 3
  | twoUint32 => 4
  | device => 5

/-- `struct fsal_filesystem`, as far as the index is concerned; `allocated` is false for memory that
is free. -/
structure PosixFs where
  allocated : Bool
  device : List Char
  type : List Char
  dev : Fsid
  fsid : Fsid
  fsidType : FsidType
  inFsidAvl : Bool
  inDevAvl : Bool
  deriving DecidableEq

def PosixFs.free : PosixFs := ⟨false, [], [], ⟨0, 0⟩, ⟨0, 0⟩, .noType, false, false⟩

def PosixFs.setFsid (fs : PosixFs) (fsidType : FsidType) (fsid : Fsid) : PosixFs :=
  { fs with fsid := fsid, fsidType := fsidType }

def fsalFsCmpfFsid (ltype : FsidType) (lk : Fsid) (rtype : FsidType) (rk : Fsid) : Ordering :=
  if ltype.toNat < rtype.toNat then .lt
  else if ltype.toNat > rtype.toNat then .gt
  else if lk.major < rk.major then .lt
  else if lk.major > rk.major then .gt
  else if ltype = .major64 then .eq
  else if lk.minor < rk.minor then .lt
  else if lk.minor > rk.minor then .gt
  else .eq

def fsalFsCmpfDev (lk rk : Fsid) : Ordering :=
  if lk.major < rk.major then .lt
  else if lk.major > rk.major then .gt
  else if lk.minor < rk.minor then .lt
  else if lk.minor > rk.minor then .gt
  else .eq

structure Rotations where
  afterInsert : BinTree Nat → BinTree Nat
  remove : Nat → BinTree Nat → BinTree Nat
  toList_afterInsert : ∀ t, (afterInsert t).toList = t.toList
  toList_remove : ∀ id t, (remove id t).toList = t.toList.filter (· ≠ id)

structure FileSystems where
  mem : Nat → PosixFs
  avlFsid : BinTree Nat
  avlDev : BinTree Nat

def cmpFsid (mem : Nat → PosixFs) (lhs rhs : Nat) : Ordering :=
  fsalFsCmpfFsid (mem lhs).fsidType (mem lhs).fsid (mem rhs).fsidType (mem rhs).fsid

def cmpDev (mem : Nat → PosixFs) (lhs rhs : Nat) : Ordering :=
  fsalFsCmpfDev (mem lhs).dev (mem rhs).dev

def lookupFsidLocked (s : FileSystems) (fsid : Fsid) (fsidType : FsidType) : Option Nat :=
  s.avlFsid.search fun id => fsalFsCmpfFsid fsidType fsid (s.mem id).fsidType (s.mem id).fsid

section Functions

variable (rot : Rotations)

def avltreeInsert (cmp : Nat → Nat → Ordering) (id : Nat) (t : BinTree Nat) : Option Nat × BinTree Nat :=
  match t.search (cmp id) with
  | some found => (some found, t)
  | none => (none, rot.afterInsert (t.insertBy (cmp id) id))

def negEinval : Int := -22

def negEexist : Int := -17

/-- `re_index_fs_fsid`; `none` is the `LogFatal`. -/
def reIndexFsFsid (s : FileSystems) (id : Nat) (fsidType : FsidType) (fsid : Fsid) :
    Option (Int × FileSystems) :=
  let fs := s.mem id
  if fsidType = .noType then some (negEinval, s)
  else
    let removed := if fs.inFsidAvl then rot.remove id s.avlFsid else s.avlFsid
    let mem := update s.mem id (fs.setFsid fsidType fsid)
    match avltreeInsert rot (cmpFsid mem) id removed with
    | (none, avlFsid) =>
      let fs := { fs.setFsid fsidType fsid with inFsidAvl := true }
      some (0, { s with mem := update s.mem id fs, avlFsid := avlFsid })
    | (some _, removed) =>
      if fs.inFsidAvl then
        match avltreeInsert rot (cmpFsid s.mem) id removed with
        | (none, avlFsid) => some (negEexist, { s with avlFsid := avlFsid })
        | (some _, _) => none
      else some (negEexist, s)

def squashFsid (fsid : Fsid) : BitVec 64 :=
  fsid.major ^^^ (fsid.minor <<< 32 ||| fsid.minor >>> 32)

def mask32 : BitVec 64 := 0xFFFFFFFF#64

def shrinkHalves (fsid : Fsid) : Fsid :=
  ⟨(fsid.major &&& mask32) ^^^ (fsid.major >>> 32), (fsid.minor &&& mask32) ^^^ (fsid.minor >>> 32)⟩

def splitMajor (fsid : Fsid) : Fsid := ⟨fsid.major >>> 32, fsid.major &&& mask32⟩

/-- The assignments under `FSID_TWO_UINT32` in `change_fsid_type`, into which `FSID_DEVICE` falls
through with the fsid it has set. -/
def twoUint32Fsid (fs : PosixFs) (fsid : Option Fsid) : Option Fsid :=
  if fs.fsidType = .twoUint64 then some (shrinkHalves fs.fsid)
  else if fs.fsidType = .oneUint64 then some (splitMajor fs.fsid)
  else fsid

/-- `change_fsid_type`; `none` is the `LogFatal` of the index. -/
def changeFsidType (s : FileSystems) (id : Nat) (fsidType : FsidType) :
    Option (Int × FileSystems) :=
  let fs := s.mem id
  let reIndex := fun fsid : Option Fsid =>
    match fsid with
    | none => some (negEinval, s)
    | some fsid => reIndexFsFsid rot s id fsidType fsid
  if fs.fsidType = fsidType then some (0, s)
  else
    match fsidType with
    | .oneUint64 =>
      reIndex (if fs.fsidType = .twoUint64 then some ⟨squashFsid fs.fsid, 0⟩
        else if fs.fsidType = .twoUint32 then some ⟨fs.fsid.major <<< 32 ||| fs.fsid.minor, 0⟩
        else none)
    | .major64 => reIndex (some fs.fsid)
    | .twoUint64 =>
      if fs.fsidType = .major64 then reIndex (some fs.fsid)
      else some (0, { s with mem := update s.mem id (fs.setFsid .twoUint64 fs.fsid) })
    | .device => reIndex (twoUint32Fsid fs (some fs.dev))
    | .twoUint32 => reIndex (twoUint32Fsid fs none)
    | .noType => reIndex none

/-- What `posix_create_file_system` learns of a mount: its entry, its device, the UUID `libblkid`
reports and the id `statfs` reports. -/
structure MountInfo where
  device : List Char
  type : List Char
  dev : Fsid
  fsidDevice : Bool
  uuid : Option Fsid
  statfs : Fsid
  deriving DecidableEq

def posixGetFsid (info : MountInfo) : FsidType × Fsid :=
  if info.fsidDevice then (.device, info.dev)
  else
    match info.uuid with
    | some uuid => (.twoUint64, uuid)
    | none =>
      (.twoUint32, if info.statfs.major = 0 ∧ info.statfs.minor = 0 then info.dev else info.statfs)

def switchDevice (mem : Nat → PosixFs) (found : Nat) (fs : PosixFs) : Nat → PosixFs :=
  if (mem found).device.head? ≠ some '/' ∧ fs.device.head? = some '/' then
    update mem found { mem found with device := fs.device, type := fs.type }
  else mem

def posixCreateFileSystem (s : FileSystems) (id : Nat) (info : MountInfo) : FileSystems :=
  let (fsidType, fsid) := posixGetFsid info
  let fs : PosixFs := ⟨true, info.device, info.type, info.dev, fsid, fsidType, false, false⟩
  let mem := update s.mem id fs
  match avltreeInsert rot (cmpFsid mem) id s.avlFsid with
  | (some found, _) => { s with mem := switchDevice s.mem found fs }
  | (none, avlFsid) =>
    match avltreeInsert rot (cmpDev mem) id s.avlDev with
    | (some found, _) =>
      { s with mem := switchDevice s.mem found fs, avlFsid := rot.remove id avlFsid }
    | (none, avlDev) =>
      { mem := update s.mem id { fs with inFsidAvl := true, inDevAvl := true }
        avlFsid := avlFsid
        avlDev := avlDev }

def removeFs (s : FileSystems) (id : Nat) : FileSystems where
  mem := update s.mem id PosixFs.free
  avlFsid := if (s.mem id).inFsidAvl then rot.remove id s.avlFsid else s.avlFsid
  avlDev := if (s.mem id).inDevAvl then rot.remove id s.avlDev else s.avlDev

end Functions

def sizeofFsid : FsidType → Nat
  | .noType => 0
  | .oneUint64 => 8
  | .major64 => 8
  | .twoUint64 => 16
  | .twoUint32 => 8
  | .device => 8

def encodeFsid (max : Nat) (fsid : Fsid) (fsidType : FsidType) : Option (List Nat) :=
  if max < sizeofFsid fsidType then none
  else
    match fsidType with
    | .noType => some []
    | .oneUint64 => some (leBytes 8 fsid.major.toNat)
    | .major64 => some (leBytes 8 fsid.major.toNat)
    | .twoUint64 => some (leBytes 8 fsid.major.toNat ++ leBytes 8 fsid.minor.toNat)
    | .twoUint32 => some (leBytes 4 fsid.major.toNat ++ leBytes 4 fsid.minor.toNat)
    | .device => some (leBytes 4 fsid.major.toNat ++ leBytes 4 fsid.minor.toNat)

def readWord (n : Nat) (buf : List Nat) : BitVec 64 := .ofNat 64 (ofLeBytes (buf.take n))

def decodeFsid (max : Nat) (buf : List Nat) (fsidType : FsidType) : Option Fsid :=
  if max < sizeofFsid fsidType then none
  else
    match fsidType with
    | .noType => some ⟨0, 0⟩
    | .oneUint64 => some ⟨readWord 8 buf, 0⟩
    | .major64 => some ⟨readWord 8 buf, 0⟩
    | .twoUint64 => some ⟨readWord 8 buf, readWord 8 (buf.drop 8)⟩
    | .twoUint32 => some ⟨readWord 4 buf, readWord 4 (buf.drop 4)⟩
    | .device => some ⟨readWord 4 buf, readWord 4 (buf.drop 4)⟩

inductive FsOp where
  | create (id : Nat) (info : MountInfo)
  | reIndex (id : Nat) (fsidType : FsidType) (fsid : Fsid)
  | changeType (id : Nat) (fsidType : FsidType)
  | remove (id : Nat)
  deriving DecidableEq

def Fsid.fits32 (fsid : Fsid) : Bool := fsid.major.toNat < 2 ^ 32 && fsid.minor.toNat < 2 ^ 32

def FsidType.is32 (fsidType : FsidType) : Bool := fsidType = .twoUint32 || fsidType = .device

/-- The operation is on a file system there is, or creates one at a free address, and its values of
32-bit types fit 32 bits. -/
def FsOp.allowed (s : FileSystems) : FsOp → Bool
  | .create id info => !(s.mem id).allocated && info.dev.fits32 && info.statfs.fits32
  | .reIndex id fsidType fsid => (s.mem id).allocated && (!fsidType.is32 || fsid.fits32)
  | .changeType id _ => (s.mem id).allocated
  | .remove id => (s.mem id).allocated

/-- The status and the file systems after an operation; `none` is a `LogFatal`. -/
def applyFsOp (rot : Rotations) (s : FileSystems) : FsOp → Option (Int × FileSystems)
  | .create id info => some (0, posixCreateFileSystem rot s id info)
  | .reIndex id fsidType fsid => reIndexFsFsid rot s id fsidType fsid
  | .changeType id fsidType => changeFsidType rot s id fsidType
  | .remove id => some (0, removeFs rot s id)

inductive FsState where
  | running (fileSystems : FileSystems)
  | fatal

def fsMachine (rot : Rotations) : Machine FsState FsOp where
  init := fun σ => σ = .running ⟨fun _ => PosixFs.free, .leaf, .leaf⟩
  step := fun σ op =>
    match σ with
    | .fatal => none
    | .running s =>
      if op.allowed s then
        match applyFsOp rot s op with
        | none => some .fatal
        | some (_, s) => some (.running s)
      else none

end EdgeComputing.Fsal
