import EdgeComputing.Nfs4.Bitmap4
import EdgeComputing.Nfs4.FsalAttrlist
import EdgeComputing.Nfs4.Nfsstat4

/-!
`fattr4`, the attribute lists of NFSv4, and the table `fattr4tab`. The numbers 77, 78, 79 and 81
have no initialiser: null pointers for the functions. Encoders, decoders and sizes are with the
functions that use them.
-/

namespace EdgeComputing.Nfs4

open Library

/-- The value is sent after its own length in a request whose positions have 32 bits. -/
structure Fattr4 where
  attrmask : Bitmap4
  attrVals : List Byte
  length_lt : attrVals.length + 4 < 2 ^ 32

/-- What a program must not do: index the attribute table beyond its end, read outside a value
buffer, follow a null pointer. -/
inductive Fault
  | beyondTable | outsideBuffer | nullPointer
deriving DecidableEq

namespace Attr

@[match_pattern] abbrev supportedAttrs : Nat := 0
@[match_pattern] abbrev type : Nat := 1
@[match_pattern] abbrev change : Nat := 3
@[match_pattern] abbrev size : Nat := 4
@[match_pattern] abbrev fsid : Nat := 8
@[match_pattern] abbrev rdattrError : Nat := 11
@[match_pattern] abbrev acl : Nat := 12
@[match_pattern] abbrev filehandle : Nat := 19
@[match_pattern] abbrev fileid : Nat := 20
@[match_pattern] abbrev filesAvail : Nat := 21
@[match_pattern] abbrev filesFree : Nat := 22
@[match_pattern] abbrev filesTotal : Nat := 23
@[match_pattern] abbrev maxread : Nat := 30
@[match_pattern] abbrev maxwrite : Nat := 31
@[match_pattern] abbrev mode : Nat := 33
@[match_pattern] abbrev numlinks : Nat := 35
@[match_pattern] abbrev owner : Nat := 36
@[match_pattern] abbrev ownerGroup : Nat := 37
@[match_pattern] abbrev rawdev : Nat := 41
@[match_pattern] abbrev spaceAvail : Nat := 42
@[match_pattern] abbrev spaceFree : Nat := 43
@[match_pattern] abbrev spaceTotal : Nat := 44
@[match_pattern] abbrev spaceUsed : Nat := 45
@[match_pattern] abbrev timeAccess : Nat := 47
@[match_pattern] abbrev timeAccessSet : Nat := 48
@[match_pattern] abbrev timeCreate : Nat := 50
@[match_pattern] abbrev timeMetadata : Nat := 52
@[match_pattern] abbrev timeModify : Nat := 53
@[match_pattern] abbrev timeModifySet : Nat := 54
@[match_pattern] abbrev mountedOnFileid : Nat := 55
@[match_pattern] abbrev fsLayoutTypes : Nat := 62
@[match_pattern] abbrev layoutBlksize : Nat := 65
@[match_pattern] abbrev fsCharsetCap : Nat := 76
@[match_pattern] abbrev secLabel : Nat := 80
@[match_pattern] abbrev xattrSupport : Nat := 82

end Attr

def attrRead : BitVec 32 := 0x1
def attrWrite : BitVec 32 := 0x10
def attrReadWrite : BitVec 32 := 0x11

structure Fattr4Dent where
  supported : Bool
  encoded : Bool
  access : BitVec 32
  attrmask : BitVec 64
  expAttrmask : BitVec 64
deriving DecidableEq

def fattr4tab : List Fattr4Dent :=
  [
    ⟨true, true, attrRead, 0, 0⟩,  -- 0 SUPPORTED_ATTRS
    ⟨true, true, attrRead, attrType, 0⟩,  -- 1 TYPE
    ⟨true, true, attrRead, 0, 0⟩,  -- 2 FH_EXPIRE_TYPE
    ⟨true, true, attrRead, attrChange, 0⟩,  -- 3 CHANGE
    ⟨true, true, attrReadWrite, attrSize, 0⟩,  -- 4 SIZE
    ⟨true, true, attrRead, 0, 0⟩,  -- 5 LINK_SUPPORT
    ⟨true, true, attrRead, 0, 0⟩,  -- 6 SYMLINK_SUPPORT
    ⟨true, true, attrRead, 0, 0⟩,  -- 7 NAMED_ATTR
    ⟨true, true, attrRead, attrFsid, 0⟩,  -- 8 FSID
    ⟨true, true, attrRead, 0, 0⟩,  -- 9 UNIQUE_HANDLES
    ⟨true, true, attrRead, 0, 0⟩,  -- 10 LEASE_TIME
    ⟨true, true, attrRead, 0, 0⟩,  -- 11 RDATTR_ERROR
    ⟨true, true, attrReadWrite, attrAcl, 0⟩,  -- 12 ACL
    ⟨true, true, attrRead, 0, 0⟩,  -- 13 ACLSUPPORT
    ⟨false, true, attrReadWrite, 0, 0⟩,  -- 14 ARCHIVE
    ⟨true, true, attrRead, 0, 0⟩,  -- 15 CANSETTIME
    ⟨true, true, attrRead, 0, 0⟩,  -- 16 CASE_INSENSITIVE
    ⟨true, true, attrRead, 0, 0⟩,  -- 17 CASE_PRESERVING
    ⟨true, true, attrRead, 0, 0⟩,  -- 18 CHOWN_RESTRICTED
    ⟨true, true, attrRead, 0, 0⟩,  -- 19 FILEHANDLE
    ⟨true, true, attrRead, attrFileid, 0⟩,  -- 20 FILEID
    ⟨true, true, attrRead, 0, 0⟩,  -- 21 FILES_AVAIL
    ⟨true, true, attrRead, 0, 0⟩,  -- 22 FILES_FREE
    ⟨true, true, attrRead, 0, 0⟩,  -- 23 FILES_TOTAL
    ⟨true, true, attrRead, attrFsLocations, 0⟩,  -- 24 FS_LOCATIONS
    ⟨false, true, attrReadWrite, 0, 0⟩,  -- 25 HIDDEN
    ⟨true, true, attrRead, 0, 0⟩,  -- 26 HOMOGENEOUS
    ⟨true, true, attrRead, 0, 0⟩,  -- 27 MAXFILESIZE
    ⟨true, true, attrRead, 0, 0⟩,  -- 28 MAXLINK
    ⟨true, true, attrRead, 0, 0⟩,  -- 29 MAXNAME
    ⟨true, true, attrRead, 0, 0⟩,  -- 30 MAXREAD
    ⟨true, true, attrRead, 0, 0⟩,  -- 31 MAXWRITE
    ⟨false, true, attrReadWrite, 0, 0⟩,  -- 32 MIMETYPE
    ⟨true, true, attrReadWrite, attrMode, 0⟩,  -- 33 MODE
    ⟨true, true, attrRead, 0, 0⟩,  -- 34 NO_TRUNC
    ⟨true, true, attrRead, attrNumlinks, 0⟩,  -- 35 NUMLINKS
    ⟨true, true, attrReadWrite, attrOwner, 0⟩,  -- 36 OWNER
    ⟨true, true, attrReadWrite, attrGroup, 0⟩,  -- 37 OWNER_GROUP
    ⟨false, true, attrRead, 0, 0⟩,  -- 38 QUOTA_AVAIL_HARD
    ⟨false, true, attrRead, 0, 0⟩,  -- 39 QUOTA_AVAIL_SOFT
    ⟨false, true, attrRead, 0, 0⟩,  -- 40 QUOTA_USED
    ⟨true, true, attrRead, attrRawdev, 0⟩,  -- 41 RAWDEV
    ⟨true, true, attrRead, 0, 0⟩,  -- 42 SPACE_AVAIL
    ⟨true, true, attrRead, 0, 0⟩,  -- 43 SPACE_FREE
    ⟨true, true, attrRead, 0, 0⟩,  -- 44 SPACE_TOTAL
    ⟨true, true, attrRead, attrSpaceused, 0⟩,  -- 45 SPACE_USED
    ⟨false, true, attrReadWrite, 0, 0⟩,  -- 46 SYSTEM
    ⟨true, true, attrRead, attrAtime, 0⟩,  -- 47 TIME_ACCESS
    ⟨true, true, attrWrite, attrAtime, attrAtimeServer⟩,  -- 48 TIME_ACCESS_SET
    ⟨false, true, attrReadWrite, 0, 0⟩,  -- 49 TIME_BACKUP
    ⟨false, true, attrReadWrite, 0, 0⟩,  -- 50 TIME_CREATE
    ⟨true, true, attrRead, 0, 0⟩,  -- 51 TIME_DELTA
    ⟨true, true, attrRead, attrCtime, 0⟩,  -- 52 TIME_METADATA
    ⟨true, true, attrRead, attrMtime, 0⟩,  -- 53 TIME_MODIFY
    ⟨true, true, attrWrite, attrMtime, attrMtimeServer⟩,  -- 54 TIME_MODIFY_SET
    ⟨true, true, attrRead, 0, 0⟩,  -- 55 MOUNTED_ON_FILEID
    ⟨false, false, attrRead, 0, 0⟩,  -- 56 DIR_NOTIF_DELAY
    ⟨false, false, attrRead, 0, 0⟩,  -- 57 DIRENT_NOTIF_DELAY
    ⟨false, false, attrReadWrite, 0, 0⟩,  -- 58 DACL
    ⟨false, false, attrReadWrite, 0, 0⟩,  -- 59 SACL
    ⟨false, false, attrRead, 0, 0⟩,  -- 60 CHANGE_POLICY
    ⟨false, false, attrRead, 0, 0⟩,  -- 61 FS_STATUS
    ⟨true, true, attrRead, 0, 0⟩,  -- 62 FS_LAYOUT_TYPES
    ⟨false, false, attrWrite, 0, 0⟩,  -- 63 LAYOUT_HINT
    ⟨false, false, attrRead, 0, 0⟩,  -- 64 LAYOUT_TYPES
    ⟨true, true, attrRead, 0, 0⟩,  -- 65 LAYOUT_BLKSIZE
    ⟨false, false, attrRead, 0, 0⟩,  -- 66 LAYOUT_ALIGNMENT
    ⟨false, false, attrRead, 0, 0⟩,  -- 67 FS_LOCATIONS_INFO
    ⟨false, false, attrRead, 0, 0⟩,  -- 68 MDSTHRESHOLD
    ⟨false, false, attrRead, 0, 0⟩,  -- 69 RETENTION_GET
    ⟨false, false, attrWrite, 0, 0⟩,  -- 70 RETENTION_SET
    ⟨false, false, attrRead, 0, 0⟩,  -- 71 RETENTEVT_GET
    ⟨false, false, attrWrite, 0, 0⟩,  -- 72 RETENTEVT_SET
    ⟨false, false, attrReadWrite, 0, 0⟩,  -- 73 RETENTION_HOLD
    ⟨false, false, attrWrite, 0, 0⟩,  -- 74 MODE_SET_MASKED
    ⟨true, true, attrRead, 0, 0⟩,  -- 75 SUPPATTR_EXCLCREAT
    ⟨false, false, attrRead, 0, 0⟩,  -- 76 FS_CHARSET_CAP
    ⟨false, false, 0, 0, 0⟩,  -- 77 has no entry
    ⟨false, false, 0, 0, 0⟩,  -- 78 has no entry
    ⟨false, false, 0, 0, 0⟩,  -- 79 has no entry
    ⟨true, true, attrReadWrite, attrSecLabel, 0⟩,  -- 80 SEC_LABEL
    ⟨false, false, 0, 0, 0⟩,  -- 81 has no entry
    ⟨false, false, attrRead, attrXattr, 0⟩  -- 82 XATTR_SUPPORT
  ]

theorem length_fattr4tab : fattr4tab.length = 83 := by decide

def fattr4Entry (attr : Nat) : Except Fault Fattr4Dent :=
  match fattr4tab[attr]? with
  | none => .error .beyondTable
  | some dent => .ok dent

inductive MinorVers
  | v0 | v1 | v2
deriving DecidableEq

def nfs4MaxAttrIndex : Option MinorVers → Nat
  | some .v0 => Attr.mountedOnFileid
  | some .v1 => Attr.fsCharsetCap
  | some .v2 | none => Attr.xattrSupport

end EdgeComputing.Nfs4
