import EdgeComputing.Library.XdrStream
import EdgeComputing.Fsal.AccessCheck

/-!
`struct fsal_attrlist`, the attributes of an object as the file system layer has them, and the masks
that name them.
-/

namespace EdgeComputing.Nfs4

open Library

inductive ObjectFileType
  | noFileType | regularFile | characterFile | blockFile | symbolicLink | socketFile | fifoFile
  | directory | extendedAttr
deriving DecidableEq

structure MajorMinor where
  major : BitVec 64
  minor : BitVec 64
deriving DecidableEq

structure Timespec where
  tvSec : BitVec 64
  tvNsec : BitVec 64
deriving DecidableEq

structure SecLabel4 where
  lfs : BitVec 32
  pi : BitVec 32
  data : List Byte
deriving DecidableEq

structure FsalAttrlist where
  validMask : BitVec 64
  supported : BitVec 64
  type : ObjectFileType
  filesize : BitVec 64
  fsid : MajorMinor
  acl : Option (List Fsal.FsalAce)
  fileid : BitVec 64
  mode : BitVec 32
  numlinks : BitVec 32
  owner : BitVec 64
  group : BitVec 64
  rawdev : MajorMinor
  atime : Timespec
  creation : Timespec
  ctime : Timespec
  mtime : Timespec
  spaceused : BitVec 64
  change : BitVec 64
  secLabel : SecLabel4
deriving DecidableEq

def FsalAttrlist.zero : FsalAttrlist where
  validMask := 0
  supported := 0
  type := .noFileType
  filesize := 0
  fsid := ⟨0, 0⟩
  acl := none
  fileid := 0
  mode := 0
  numlinks := 0
  owner := 0
  group := 0
  rawdev := ⟨0, 0⟩
  atime := ⟨0, 0⟩
  creation := ⟨0, 0⟩
  ctime := ⟨0, 0⟩
  mtime := ⟨0, 0⟩
  spaceused := 0
  change := 0
  secLabel := ⟨0, 0, []⟩

def attrType : BitVec 64 := 0x2
def attrSize : BitVec 64 := 0x4
def attrFsid : BitVec 64 := 0x8
def attrAcl : BitVec 64 := 0x20
def attrFileid : BitVec 64 := 0x40
def attrMode : BitVec 64 := 0x80
def attrNumlinks : BitVec 64 := 0x100
def attrOwner : BitVec 64 := 0x200
def attrGroup : BitVec 64 := 0x400
def attrRawdev : BitVec 64 := 0x800
def attrAtime : BitVec 64 := 0x1000
def attrCtime : BitVec 64 := 0x4000
def attrMtime : BitVec 64 := 0x8000
def attrSpaceused : BitVec 64 := 0x10000
def attrChange : BitVec 64 := 0x100000
def attrAtimeServer : BitVec 64 := 0x200000
def attrMtimeServer : BitVec 64 := 0x400000
def attrFsLocations : BitVec 64 := 0x800000
def attrXattr : BitVec 64 := 0x1000000
def attrSecLabel : BitVec 64 := 0x2000000

end EdgeComputing.Nfs4
