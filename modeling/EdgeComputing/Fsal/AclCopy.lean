import EdgeComputing.Fsal.PosixAclDecode
import Mathlib.Algebra.Order.Ring.Int

/-!
New ACLs made of old ones: by `fsal_mode_to_acl` when a mode is set, by `fsal_inherit_acls` for a
new object. Both count the aces in a first loop, allocate that many and fill them in a second.
-/

namespace EdgeComputing.Fsal

open List Option

def iflagModeGen : BitVec 32 := 0x10000000

namespace FsalAce

def hasFlag (ace : FsalAce) (bit : BitVec 32) : Bool := isAceBit ace.flag bit

def isPerm (ace : FsalAce) : Bool := ace.type = .allow ∨ ace.type = .deny

def isModeGen (ace : FsalAce) : Bool := isAceBit ace.iflag iflagModeGen

def isSpecial (ace : FsalAce) : Bool :=
  ace.who = specialOwner ∨ ace.who = specialGroup ∨ ace.who = specialEveryone

end FsalAce

/-- The aces up to the cursor, in an allocation of `naces` zeroed ones, once `aces` are written
there; `none` if they are not all inside. -/
def writeAces (naces : Nat) (done aces : List FsalAce) : Option (List FsalAce) :=
  if done.length + aces.length ≤ naces then some (done ++ aces) else none

def fsalModeSetAce (who flag mode : BitVec 32) : List FsalAce :=
  let perm (given : Bool) : BitVec 32 :=
    (if decide (mode &&& 0o400 ≠ 0) = given then permReadData else 0) |||
    (if decide (mode &&& 0o200 ≠ 0) = given then permWriteData ||| permAppendData else 0) |||
    (if decide (mode &&& 0o100 ≠ 0) = given then permExecute else 0)
  [⟨.deny, perm false, flag, iflagModeGen ||| iflagSpecialId, who⟩,
    ⟨.allow, perm true, flag, iflagModeGen ||| iflagSpecialId, who⟩]

def fsalModeGenSet (mode : BitVec 32) : List FsalAce :=
  fsalModeSetAce specialOwner 0 (mode &&& 0o700) ++
    fsalModeSetAce specialGroup flagGroupId ((mode &&& 0o070) <<< 3) ++
    fsalModeSetAce specialEveryone 0 ((mode &&& 0o007) <<< 6)

def chmodCount (sace : FsalAce) : Nat :=
  if sace.isModeGen then 0
  else if sace.hasFlag flagInheritOnly then 1
  else if !sace.isPerm then 1
  else if sace.hasFlag flagInherit then 2 else 1

def stripSpecial (ace : FsalAce) : FsalAce :=
  if ace.isSpecial then
    { ace with
      perm := ace.perm &&& ~~~(permReadData ||| permWriteData ||| permAppendData ||| permExecute) }
  else ace

/-- The copies that the second loop makes of an ace: of an inheritable effective one an inherit-only
and an effective one. -/
def chmodAces (sace : FsalAce) : List FsalAce :=
  if sace.hasFlag flagInheritOnly || !sace.isPerm then [sace]
  else if sace.hasFlag flagInherit then
    [{ sace with flag := sace.flag ||| flagInheritOnly },
      stripSpecial { sace with flag := sace.flag &&& ~~~flagInherit }]
  else [stripSpecial sace]

def chmodLoop (naces : Nat) : List FsalAce → List FsalAce → Nat → Option (List FsalAce × Nat)
  | [], done, copied => some (done, copied)
  | sace :: rest, done, copied =>
    if sace.isModeGen then chmodLoop naces rest (done ++ [⟨.allow, 0, 0, 0, 0⟩]) copied
    else (writeAces naces done (chmodAces sace)).bind fun done =>
      chmodLoop naces rest done (copied + (chmodAces sace).length)

/-- `fsal_mode_to_acl` where the mode is set: the error and the aces of the new ACL; `none` if an
ace is written outside the allocation. -/
def fsalModeToAcl (mode : BitVec 32) (sacl : Option (List FsalAce)) :
    Option (FsalErr × List FsalAce) :=
  let saces := sacl.getD []
  let naces := (saces.map chmodCount).sum
  if naces = 0 then some (.noError, fsalModeGenSet mode)
  else (chmodLoop (naces + 6) saces [] 0).bind fun (done, copied) =>
    if naces + 6 - copied ≠ 6 then some (.serverfault, done)
    else (writeAces (naces + 6) done (fsalModeGenSet mode)).map fun aces => (.noError, aces)

def chmodCopies (sacl : List FsalAce) : List FsalAce :=
  (sacl.filter (!·.isModeGen)).flatMap chmodAces

variable {sace : FsalAce} {sacl done : List FsalAce} {naces copied : Nat} {mode : BitVec 32}

theorem chmodCopies_cons : chmodCopies (sace :: sacl) =
    if sace.isModeGen then chmodCopies sacl else chmodAces sace ++ chmodCopies sacl := by
  cases h : sace.isModeGen <;> simp [chmodCopies, h]

theorem chmodCount_eq (sace : FsalAce) :
    chmodCount sace = if sace.isModeGen then 0 else (chmodAces sace).length := by
  unfold chmodCount chmodAces
  cases sace.hasFlag flagInheritOnly <;> cases sace.isPerm <;> simp
  split_ifs <;> rfl

theorem sum_chmodCount (sacl : List FsalAce) :
    (sacl.map chmodCount).sum = (chmodCopies sacl).length := by
  induction sacl with
  | nil => rfl
  | cons sace rest ih =>
    rw [map_cons, sum_cons, ih, chmodCount_eq, chmodCopies_cons]
    split_ifs
    · exact Nat.zero_add _
    · exact length_append.symm

theorem chmodLoop_eq (hnone : ∀ ace ∈ sacl, ace.isModeGen = false)
    (hroom : done.length + (chmodCopies sacl).length ≤ naces) :
    chmodLoop naces sacl done copied =
      some (done ++ chmodCopies sacl, copied + (chmodCopies sacl).length) := by
  induction sacl generalizing done copied with
  | nil => simp [chmodLoop, chmodCopies]
  | cons sace rest ih =>
    obtain ⟨hsace, hrest⟩ := forall_mem_cons.1 hnone
    rw [chmodCopies_cons, hsace, if_neg (by simp), length_append] at hroom ⊢
    rw [chmodLoop, hsace, if_neg (by simp), writeAces, if_pos (by omega), bind_some,
      ih hrest (by rw [length_append]; omega), append_assoc, Nat.add_assoc]

theorem chmodLoop_cursor {res : List FsalAce × Nat}
    (h : chmodLoop naces sacl done copied = some res) :
    res.2 = copied + (chmodCopies sacl).length ∧
      res.1.length = done.length + (chmodCopies sacl).length + sacl.countP (·.isModeGen) := by
  induction sacl generalizing done copied with
  | nil =>
    cases h
    exact ⟨rfl, rfl⟩
  | cons sace rest ih =>
    rw [chmodCopies_cons, countP_cons]
    rw [chmodLoop] at h
    split_ifs at h ⊢ with hgen
    · obtain ⟨hcopied, hlength⟩ := ih h
      rw [length_append, length_singleton] at hlength
      exact ⟨hcopied, by omega⟩
    · obtain ⟨next, hnext, h⟩ := bind_eq_some_iff.1 h
      obtain ⟨-, hnext⟩ := ite_none_right_eq_some.1 hnext
      cases hnext
      obtain ⟨hcopied, hlength⟩ := ih h
      rw [length_append] at hlength ⊢
      exact ⟨by omega, by omega⟩

def inheritFlag (isDir : Bool) : BitVec 32 := if isDir then flagDirInherit else flagFileInherit

def isDupAce (ace : FsalAce) (isDir : Bool) : Bool :=
  ace.hasFlag flagInherit && isDir && !ace.hasFlag flagNoPropagate &&
    !(ace.hasFlag flagFileInherit && !ace.hasFlag flagDirInherit) && ace.isPerm

def inheritCount (isDir : Bool) (sace : FsalAce) : Nat :=
  (if sace.hasFlag (inheritFlag isDir) then 1 else 0) + if isDupAce sace isDir then 1 else 0

def inheritAces (isDir : Bool) (sace : FsalAce) : List FsalAce :=
  let cleared := { sace with flag := sace.flag &&& ~~~(flagInherit ||| flagNoPropagate) }
  if !sace.hasFlag (inheritFlag isDir) then []
  else if sace.hasFlag flagNoPropagate then [cleared]
  else if isDir && sace.hasFlag flagFileInherit && !sace.hasFlag flagDirInherit then
    [{ sace with flag := sace.flag ||| flagNoPropagate }]
  else if isDupAce sace isDir then [{ sace with flag := sace.flag ||| flagInheritOnly }, cleared]
  else [sace]

def inheritLoop (naces : Nat) (isDir : Bool) :
    List FsalAce → List FsalAce → Option (List FsalAce)
  | [], done => some done
  | sace :: rest, done =>
    (writeAces naces done (inheritAces isDir sace)).bind (inheritLoop naces isDir rest)

def fsalInheritAcls (acl sacl : Option (List FsalAce)) (isDir : Bool) :
    Option (FsalErr × Option (Nat × List FsalAce)) :=
  let saces := sacl.getD []
  if saces = [] then some (.noError, none)
  else if acl.getD [] ≠ [] then some (.exist, none)
  else
    let naces := (saces.map (inheritCount isDir)).sum
    if naces = 0 then some (.noError, none)
    else (inheritLoop naces isDir saces []).map fun aces => (.noError, some (naces, aces))

/-- What an ace should contribute: an effective ace, after an inherit-only copy if the new object is
a directory from which it propagates. -/
def Contributes (isDir : Bool) (sace : FsalAce) (aces : List FsalAce) : Prop :=
  ∃ flag : BitVec 32, flag &&& flagInheritOnly = 0 ∧
    aces = if isDir ∧ sace.hasFlag flagNoPropagate = false then
        [{ sace with flag := sace.flag ||| flagInheritOnly }, { sace with flag := flag }]
      else [{ sace with flag := flag }]

structure InheritedAcl (isDir : Bool) (sacl : List FsalAce) (naces : Nat) (aces : List FsalAce) :
    Prop where
  naces : naces = aces.length
  aces : aces = sacl.flatMap (inheritAces isDir)
  contributes : ∀ sace ∈ sacl, if sace.hasFlag (inheritFlag isDir)
    then Contributes isDir sace (inheritAces isDir sace) else inheritAces isDir sace = []

def InheritsWell (isDir : Bool) (sace : FsalAce) : Prop :=
  sace.hasFlag flagNoPropagate = true ∨
    if isDir then
      if sace.hasFlag flagDirInherit then sace.isPerm = true
      else sace.isPerm = true → sace.hasFlag flagFileInherit = true ∨
        sace.hasFlag flagInheritOnly = false
    else sace.hasFlag flagFileInherit = true → sace.hasFlag flagInheritOnly = false

variable {isDir : Bool}

theorem hasFlag_inherit (ace : FsalAce) : ace.hasFlag flagInherit =
    (ace.hasFlag flagFileInherit || ace.hasFlag flagDirInherit || ace.hasFlag flagInheritOnly) := by
  rw [show flagInherit = flagFileInherit ||| flagDirInherit ||| flagInheritOnly from rfl]
  simp [FsalAce.hasFlag, isAceBit, BitVec.and_or_distrib_left, Bool.or_assoc]

theorem inheritsWell_iff : InheritsWell isDir sace ↔
    inheritCount isDir sace = (inheritAces isDir sace).length ∧
      if sace.hasFlag (inheritFlag isDir) then Contributes isDir sace (inheritAces isDir sace)
      else inheritAces isDir sace = [] := by
  have hcleared : sace.flag &&& ~~~(flagInherit ||| flagNoPropagate) &&& flagInheritOnly = 0 := by
    rw [BitVec.and_assoc,
      show ~~~(flagInherit ||| flagNoPropagate) &&& flagInheritOnly = 0 by decide]
    exact BitVec.and_zero
  have honly : sace.hasFlag flagInheritOnly = false ↔ sace.flag &&& flagInheritOnly = 0 := by
    simp [FsalAce.hasFlag, isAceBit]
  unfold InheritsWell inheritCount Contributes inheritAces isDupAce inheritFlag
  rw [hasFlag_inherit]
  cases isDir with
  | false =>
    cases sace.hasFlag flagNoPropagate <;> cases hfile : sace.hasFlag flagFileInherit <;>
      simp [hfile, honly]
    · constructor
      · exact fun h => ⟨_, h, rfl⟩
      · rintro ⟨flag, hflag, heq⟩
        rw [congrArg FsalAce.flag heq]
        exact hflag
    · exact hcleared
  | true =>
    cases sace.hasFlag flagNoPropagate <;> cases sace.hasFlag flagFileInherit <;>
      cases hdir : sace.hasFlag flagDirInherit <;> cases sace.isPerm <;> simp [hdir, honly]
    all_goals exact hcleared

theorem length_inheritAces_le (isDir : Bool) (sace : FsalAce) :
    (inheritAces isDir sace).length ≤ inheritCount isDir sace := by
  unfold inheritAces inheritCount
  split_ifs <;> simp_all

theorem inheritLoop_eq (hroom : done.length + (sacl.map (inheritCount isDir)).sum ≤ naces) :
    inheritLoop naces isDir sacl done = some (done ++ sacl.flatMap (inheritAces isDir)) := by
  induction sacl generalizing done with
  | nil => simp [inheritLoop]
  | cons sace rest ih =>
    have hle := length_inheritAces_le isDir sace
    rw [map_cons, sum_cons] at hroom
    rw [inheritLoop, writeAces, if_pos (by omega), bind_some, ih (by rw [length_append]; omega),
      flatMap_cons, append_assoc]

theorem sum_inheritCount (isDir : Bool) (sacl : List FsalAce) :
    (sacl.flatMap (inheritAces isDir)).length ≤ (sacl.map (inheritCount isDir)).sum ∧
      ((sacl.map (inheritCount isDir)).sum = (sacl.flatMap (inheritAces isDir)).length ↔
        ∀ sace ∈ sacl, inheritCount isDir sace = (inheritAces isDir sace).length) := by
  induction sacl with
  | nil => simp
  | cons sace rest ih =>
    have hsace := length_inheritAces_le isDir sace
    rw [forall_mem_cons, map_cons, sum_cons, flatMap_cons, length_append, ← ih.2]
    exact ⟨by omega, by omega⟩

/-- `fsal_inherit_acls` writes inside its allocation; and the ACL it makes is right exactly if the
parent has none of the aces for which the count or the copies are wrong. -/
theorem inherited_acl_iff (acl : Option (List FsalAce)) (sacl : List FsalAce) (isDir : Bool) :
    ∃ res, fsalInheritAcls acl (some sacl) isDir = some res ∧
      ∀ naces aces, res = (.noError, some (naces, aces)) →
        (InheritedAcl isDir sacl naces aces ↔ ∀ sace ∈ sacl, InheritsWell isDir sace) := by
  simp only [fsalInheritAcls, getD_some]
  split_ifs
  · exact ⟨_, rfl, nofun⟩
  · exact ⟨_, rfl, nofun⟩
  · exact ⟨_, rfl, nofun⟩
  rw [inheritLoop_eq (by simp)]
  refine ⟨_, rfl, ?_⟩
  rintro _ _ heq
  cases heq
  simp only [inheritsWell_iff, forall_and, ← (sum_inheritCount isDir sacl).2]
  exact ⟨fun h => ⟨h.naces, h.contributes⟩, fun h => ⟨h.1, rfl, h.2⟩⟩

/-- An inherit-only ace that is not inherited is counted, and the ACL has an ace that nobody
wrote. -/
theorem inherit_only_counted : ∃ aces, fsalInheritAcls none (some [
      ⟨.allow, permReadData, flagDirInherit, 0, 1000⟩,
      ⟨.allow, permReadData, flagInheritOnly, 0, 1000⟩]) true = some (.noError, some (3, aces)) ∧
    aces.length = 2 :=
  ⟨_, rfl, by decide +kernel⟩

end EdgeComputing.Fsal
