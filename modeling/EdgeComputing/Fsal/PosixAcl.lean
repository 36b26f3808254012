import EdgeComputing.Fsal.AccessCheck

/-!
POSIX ACLs and `posix_acl_2_fsal_acl`, which turns each entry into an ALLOW ace, preceded by a DENY
ace if the entry lacks a permission that a later entry has.
-/

namespace EdgeComputing.Fsal

inductive AclPerm
  | read | write | execute
deriving DecidableEq

structure PermSet where
  read : Bool
  write : Bool
  execute : Bool
deriving DecidableEq

def PermSet.has (perms : PermSet) : AclPerm → Bool
  | .read => perms.read
  | .write => perms.write
  | .execute => perms.execute

inductive AclTag
  | userObj
  | user (uid : BitVec 32)
  | groupObj
  | group (gid : BitVec 32)
  | mask
  | other
deriving DecidableEq

structure AclEntry where
  tag : AclTag
  perms : PermSet
deriving DecidableEq

def findEntry (acl : List AclEntry) (tag : AclTag) : Option AclEntry :=
  acl.find? fun entry => entry.tag = tag

def permSetDefault : BitVec 32 := permReadAcl ||| permReadAttr ||| permSynchronize
def permSetDefaultWrite : BitVec 32 := permWriteData ||| permAppendData
def permSetOwnerWrite : BitVec 32 := permWriteAcl ||| permWriteAttr

def flagInherit : BitVec 32 := 0xb
def flagMaskReadDeny : BitVec 32 := 0x100
def flagMaskWriteDeny : BitVec 32 := 0x200
def flagMaskExecuteDeny : BitVec 32 := 0x400

def bitsIf (cond : Bool) (bits : BitVec 32) : BitVec 32 := if cond then bits else 0

def AclTag.unmasked : AclTag → Bool
  | .userObj | .other => true
  | _ => false

def AclTag.isUserObj : AclTag → Bool
  | .userObj => true
  | _ => false

def AclTag.inGroupClass : AclTag → Bool
  | .user _ | .group _ | .groupObj => true
  | _ => false

def AclTag.who : AclTag → BitVec 32
  | .userObj => specialOwner
  | .user uid => uid
  | .groupObj => specialGroup
  | .group gid => gid
  | .mask => specialMask
  | .other => specialEveryone

def AclTag.special : AclTag → Bool
  | .user _ | .group _ => false
  | _ => true

def AclTag.isGroup : AclTag → Bool
  | .group _ => true
  | _ => false

def allowPerm (unmasked isUserObj isDir : Bool) (mask perms : PermSet) : BitVec 32 :=
  permSetDefault
    ||| bitsIf (perms.read && (unmasked || mask.read)) permReadData
    ||| bitsIf (perms.write && (unmasked || mask.write)) permSetDefaultWrite
    ||| bitsIf (perms.write && isUserObj) permSetOwnerWrite
    ||| bitsIf (perms.write && isDir) permDeleteChild
    ||| bitsIf (perms.execute && (unmasked || mask.execute)) permExecute

def allowIflag (tag : AclTag) (mask perms : PermSet) : BitVec 32 :=
  bitsIf tag.special iflagSpecialId
    ||| bitsIf (perms.read && tag.inGroupClass && !mask.read) flagMaskReadDeny
    ||| bitsIf (perms.write && tag.inGroupClass && !mask.write) flagMaskWriteDeny
    ||| bitsIf (perms.execute && tag.inGroupClass && !mask.execute) flagMaskExecuteDeny

def denyPerm (isUserObj isDir : Bool) (perms later : PermSet) : BitVec 32 :=
  bitsIf (!perms.read && later.read) permReadData
    ||| bitsIf (!perms.write && later.write) permSetDefaultWrite
    ||| bitsIf (!perms.write && later.write && isUserObj) permSetOwnerWrite
    ||| bitsIf (!perms.write && later.write && isDir) permDeleteChild
    ||| bitsIf (!perms.execute && later.execute) permExecute

def aceFlag (isInherit : Bool) (tag : AclTag) : BitVec 32 :=
  bitsIf isInherit flagInherit ||| bitsIf tag.isGroup flagGroupId

inductive LaterEntries
  /-- There is no entry after ACL_USER_OBJ, and the conversion stops. -/
  | last
  /-- There is no ACL_GROUP_OBJ to start from, and the loop does not end. -/
  | endless
  | entries (perms : List PermSet)
deriving DecidableEq

/-- The entries looked at for a DENY ace: for the owner all later ones, for a named user those from
ACL_GROUP_OBJ on, for the groups ACL_OTHER; the mask never. -/
def laterEntries (acl : List AclEntry) (other : PermSet) (tag : AclTag) : LaterEntries :=
  let dupAcl := acl.eraseP fun entry => entry.tag = .mask
  match tag with
  | .userObj =>
    match (dupAcl.dropWhile fun entry => entry.tag ≠ .userObj).tail with
    | [] => .last
    | later => .entries (later.map AclEntry.perms)
  | .user _ =>
    match dupAcl.dropWhile fun entry => entry.tag ≠ .groupObj with
    | [] => .endless
    | later => .entries (later.map AclEntry.perms)
  | .groupObj | .group _ => .entries [other]
  | .mask | .other => .entries []

def denyAce (isDir isInherit : Bool) (later : List PermSet) (entry : AclEntry) : FsalAce where
  type := .deny
  perm :=
    later.foldl (fun perm d => perm ||| denyPerm entry.tag.isUserObj isDir entry.perms d) 0
  flag := aceFlag isInherit entry.tag
  iflag := bitsIf entry.tag.special iflagSpecialId
  who := entry.tag.who

def allowAce (isDir isInherit : Bool) (mask : PermSet) (entry : AclEntry) : FsalAce where
  type := .allow
  perm := allowPerm entry.tag.unmasked entry.tag.isUserObj isDir mask entry.perms
  flag := aceFlag isInherit entry.tag
  iflag := allowIflag entry.tag mask entry.perms
  who := entry.tag.who

def entryAces (isDir isInherit : Bool) (mask : PermSet) (later : List PermSet)
    (entry : AclEntry) : List FsalAce :=
  let deny := denyAce isDir isInherit later entry
  let allow := allowAce isDir isInherit mask entry
  if deny.perm = 0 then [allow] else [deny, allow]

def convertEntries (acl : List AclEntry) (isDir isInherit : Bool) (mask other : PermSet) :
    List AclEntry → Option (List FsalAce)
  | [] => some []
  | entry :: rest =>
    match laterEntries acl other entry.tag with
    | .last => some []
    | .endless => none
    | .entries later =>
      (convertEntries acl isDir isInherit mask other rest).map fun aces =>
        entryAces isDir isInherit mask later entry ++ aces

/-- `posix_acl_2_fsal_acl`, with the aces it fills in; `none` if it does not end. Without a
mask nothing is masked, and without ACL_OTHER others have nothing. -/
def posixAcl2FsalAcl (acl : List AclEntry) (isDir isInherit : Bool) : Option (List FsalAce) :=
  let mask := ((findEntry acl .mask).map AclEntry.perms).getD ⟨true, true, true⟩
  let other := ((findEntry acl .other).map AclEntry.perms).getD ⟨false, false, false⟩
  convertEntries acl isDir isInherit mask other acl

end EdgeComputing.Fsal
