import EdgeComputing.Fsal.PosixAcl

/-!
`fsal_acl_2_posix_acl`. The permissions of EVERYONE@ are collected first; then each ace adds to the
entry of its tag what it or EVERYONE@ allows and no DENY ace for the tag has taken away. An ace with
another special ID than the four belongs to the tag of the ace before it.
-/

namespace EdgeComputing.Fsal

inductive AclType
  | access | default
deriving DecidableEq

def PermSet.empty : PermSet := ⟨false, false, false⟩

def PermSet.union (a b : PermSet) : PermSet :=
  ⟨a.read || b.read, a.write || b.write, a.execute || b.execute⟩

def PermSet.diff (a b : PermSet) : PermSet :=
  ⟨a.read && !b.read, a.write && !b.write, a.execute && !b.execute⟩

def isAceBit (word bit : BitVec 32) : Bool := word &&& bit ≠ 0

def flagFileInherit : BitVec 32 := 0x1
def flagDirInherit : BitVec 32 := 0x2
def flagNoPropagate : BitVec 32 := 0x4

namespace FsalAce

def hasInheritanceFlags (ace : FsalAce) : Bool :=
  isAceBit ace.flag flagFileInherit || isAceBit ace.flag flagDirInherit
    || isAceBit ace.flag flagNoPropagate || isAceBit ace.flag flagInheritOnly

def applicableOnlyForInheritedAcl (ace : FsalAce) : Bool :=
  (isAceBit ace.flag flagFileInherit || isAceBit ace.flag flagDirInherit)
    && isAceBit ace.flag flagInheritOnly

def applicableForBothAcl (ace : FsalAce) : Bool :=
  (isAceBit ace.flag flagFileInherit || isAceBit ace.flag flagDirInherit)
    && !ace.applicableOnlyForInheritedAcl

/-- `is_ace_valid_for_effective_acl_entry` or `is_ace_valid_for_inherited_acl_entry`. -/
def validFor (ace : FsalAce) : AclType → Bool
  | .access => if ace.hasInheritanceFlags then ace.applicableForBothAcl else true
  | .default => ace.applicableForBothAcl || ace.applicableOnlyForInheritedAcl

def isSpecialId (ace : FsalAce) : Bool := isAceBit ace.iflag iflagSpecialId

/-- `IS_FSAL_ACE_READ_DATA`, `IS_FSAL_ACE_WRITE_DATA` and `IS_FSAL_ACE_EXECUTE`. -/
def perms (ace : FsalAce) : PermSet :=
  ⟨isAceBit ace.perm permReadData, isAceBit ace.perm permWriteData, isAceBit ace.perm permExecute⟩

def maskDenied (ace : FsalAce) : PermSet :=
  ⟨isAceBit ace.iflag flagMaskReadDeny, isAceBit ace.iflag flagMaskWriteDeny,
    isAceBit ace.iflag flagMaskExecuteDeny⟩

/-- The tag of the entry an ace belongs to; `previous` is the tag of the ace before it. -/
def tag (ace : FsalAce) (previous : Option AclTag) : Option AclTag :=
  if ace.isSpecialId then
    if ace.who = specialOwner then some .userObj
    else if ace.who = specialGroup then some .groupObj
    else if ace.who = specialMask then some .mask
    else previous
  else if isAceBit ace.flag flagGroupId then some (.group ace.who)
  else some (.user ace.who)

end FsalAce

/-- The permissions denied to EVERYONE@ so far, and those of the entry ACL_OTHER. -/
structure Everyone where
  denied : PermSet
  allowed : PermSet
deriving DecidableEq

/-- One ace of the first loop. Whether it is for EVERYONE@ is read off its ID alone. -/
def everyoneStep (type : AclType) (everyone : Everyone) (ace : FsalAce) : Everyone :=
  if ace.who = specialEveryone ∧ ace.validFor type then
    match ace.type with
    | .deny => { everyone with denied := everyone.denied.union ace.perms }
    | .allow =>
      { everyone with allowed := everyone.allowed.union (ace.perms.diff everyone.denied) }
    | .audit | .alarm => everyone
  else everyone

def addPerms (tag : AclTag) (perms : PermSet) : List AclEntry → List AclEntry
  | [] => [⟨tag, perms⟩]
  | entry :: rest =>
    if entry.tag = tag then ⟨tag, entry.perms.union perms⟩ :: rest
    else entry :: addPerms tag perms rest

def permsOf (acl : List AclEntry) (tag : AclTag) : PermSet :=
  ((findEntry acl tag).map AclEntry.perms).getD .empty

/-- The variables of the second loop. `everyoneDenied` are the permissions of ACL_OTHER in the
shadow ACL of denials. -/
structure AclDecode where
  allow : List AclEntry
  deny : List AclEntry
  everyoneDenied : PermSet
  tag : Option AclTag
  mask : Bool
  maskSet : Bool
deriving DecidableEq

def decodeStep (type : AclType) (everyone : Everyone) (st : AclDecode) (ace : FsalAce) :
    AclDecode :=
  if ace.validFor type then
    let st := { st with tag := ace.tag st.tag, mask := st.mask || !ace.isSpecialId }
    if ace.who = specialEveryone then
      if ace.type = .deny then
        { st with everyoneDenied := st.everyoneDenied.union everyone.denied }
      else st
    else
      match st.tag with
      | none => st
      | some tag =>
        let deny := addPerms tag (if ace.type = .deny then ace.perms else .empty) st.deny
        let denied := (permsOf deny tag).union st.everyoneDenied
        if ace.who = specialMask then
          { st with
            allow := addPerms tag (if ace.type = .allow then ace.perms else .empty) st.allow
            deny := deny
            maskSet := true }
        else
          { st with
            allow := addPerms tag
              (((everyone.allowed.union ace.perms).diff denied).union ace.maskDenied) st.allow
            deny := deny }
  else st

def aclCalcMask (acl : List AclEntry) : List AclEntry :=
  acl.filter (fun entry => entry.tag ≠ .mask) ++
    [⟨.mask, (acl.filter fun entry => entry.tag.inGroupClass).foldl
      (fun perms entry => perms.union entry.perms) .empty⟩]

/-- `fsal_acl_2_posix_acl`; `none` for the NULL it returns if no ace is to be inherited. -/
def fsalAcl2PosixAcl (aces : List FsalAce) (type : AclType) : Option (List AclEntry) :=
  if type = .default ∧ aces.all (fun ace => !ace.validFor .default) then none
  else
    let everyone := aces.foldl (everyoneStep type) ⟨.empty, .empty⟩
    let start : List AclEntry :=
      [⟨.other, everyone.allowed⟩, ⟨.userObj, .empty⟩, ⟨.groupObj, .empty⟩]
    let st := aces.foldl (decodeStep type everyone) ⟨start, [], .empty, none, false, false⟩
    some (if !st.maskSet && st.mask then aclCalcMask st.allow else st.allow)

end EdgeComputing.Fsal
