import EdgeComputing.Fsal.PosixAclDecode

/-!
Whether the conversion of a POSIX ACL preserves access decisions; `posixGrants` is the access check
of POSIX.1e with the mask applied. What the mask takes away is neither allowed nor denied, and a
group entry without the permission denies it.
-/

namespace EdgeComputing.Fsal

open List Option PermSet AclPerm AclTag

structure PosixAcl where
  userObj : PermSet
  users : List (BitVec 32 × PermSet)
  groupObj : PermSet
  groups : List (BitVec 32 × PermSet)
  mask : Option PermSet
  other : PermSet
  users_distinct : (users.map Prod.fst).Nodup
  groups_distinct : (groups.map Prod.fst).Nodup
  mask_present : users ≠ [] ∨ groups ≠ [] → mask.isSome

namespace PosixAcl

def entries (acl : PosixAcl) : List AclEntry :=
  ⟨.userObj, acl.userObj⟩ :: acl.users.map (fun u => ⟨.user u.1, u.2⟩)
    ++ ⟨.groupObj, acl.groupObj⟩ :: acl.groups.map (fun g => ⟨.group g.1, g.2⟩)
    ++ (acl.mask.map fun perms => (⟨.mask, perms⟩ : AclEntry)).toList ++ [⟨.other, acl.other⟩]

def maskPerms (acl : PosixAcl) : PermSet := acl.mask.getD ⟨true, true, true⟩

def matchingGroups (acl : PosixAcl) (creds : UserCred) (group : BitVec 32) : List PermSet :=
  (if fsalCheckAceGroup group creds then [acl.groupObj] else [])
    ++ (acl.groups.filter fun g => fsalCheckAceGroup g.1 creds).map Prod.snd

def namedUser (acl : PosixAcl) (creds : UserCred) : Option PermSet :=
  (acl.users.find? fun u => u.1 = creds.callerUid).map Prod.snd

end PosixAcl

/-- The access check of POSIX.1e: the entry of the owner, that of the named caller, those of the
caller's groups, or that of the others. -/
def posixGrants (acl : PosixAcl) (creds : UserCred) (owner group : BitVec 32) (p : AclPerm) :
    Bool :=
  if creds.callerUid = owner then acl.userObj.has p
  else
    match acl.namedUser creds with
    | some perms => perms.has p && acl.maskPerms.has p
    | none =>
      let matching := acl.matchingGroups creds group
      if matching = [] then acl.other.has p
      else matching.any (has · p) && acl.maskPerms.has p

def AclPerm.bits : AclPerm → BitVec 32
  | .read => permReadData
  | .write => permSetDefaultWrite
  | .execute => permExecute

def AclPerm.masks : AclPerm → List (BitVec 32)
  | .read => [permReadData]
  | .write => [permWriteData, permAppendData, permSetDefaultWrite]
  | .execute => [permExecute]

def AclPerm.Requested (p : AclPerm) (v4mask : BitVec 32) : Prop :=
  ∃ bits ∈ p.masks, v4mask = bits ∨ v4mask = bits ||| permContinue

variable {c : Bool}

section Bits

theorem allowPerm_and_bits (unmasked isUserObj isDir : Bool) (mask perms : PermSet) (p : AclPerm) :
    allowPerm unmasked isUserObj isDir mask perms &&& p.bits =
      bitsIf (perms.has p && (unmasked || mask.has p)) p.bits := by
  obtain ⟨r, w, x⟩ := perms
  obtain ⟨mr, mw, mx⟩ := mask
  cases p <;> revert unmasked isUserObj isDir r w x mr mw mx <;> decide +kernel

theorem denyPerm_and_bits (isUserObj isDir : Bool) (perms later : PermSet) (p : AclPerm) :
    denyPerm isUserObj isDir perms later &&& p.bits =
      bitsIf (!perms.has p && later.has p) p.bits := by
  obtain ⟨r, w, x⟩ := perms
  obtain ⟨lr, lw, lx⟩ := later
  cases p <;> revert isUserObj isDir r w x lr lw lx <;> decide +kernel

theorem bitsIf_or (a b : Bool) (bits : BitVec 32) :
    bitsIf a bits ||| bitsIf b bits = bitsIf (a || b) bits := by
  cases a <;> cases b <;> simp [bitsIf]

theorem foldl_or_and_bits {α : Type*} (f : α → BitVec 32) (g : α → Bool) (bits : BitVec 32)
    (h : ∀ a, f a &&& bits = bitsIf (g a) bits) (l : List α) (acc : BitVec 32) (c : Bool)
    (hacc : acc &&& bits = bitsIf c bits) :
    l.foldl (fun perm a => perm ||| f a) acc &&& bits = bitsIf (c || l.any g) bits := by
  induction l generalizing acc c with
  | nil => simpa using hacc
  | cons a rest ih =>
    have hstep : (acc ||| f a) &&& bits = bitsIf (c || g a) bits := by
      rw [BitVec.and_comm, BitVec.and_or_distrib_left, BitVec.and_comm bits acc,
        BitVec.and_comm bits (f a), hacc, h, bitsIf_or]
    rw [foldl_cons, ih _ _ hstep, any_cons, Bool.or_assoc]

theorem masks_spec (p : AclPerm) : ∀ bits ∈ p.masks,
    bits ≠ 0 ∧ bits &&& ownerBits = 0 ∧ p.bits &&& bits = bits ∧
      bits &&& ~~~permContinue = bits ∧ (bits ||| permContinue) &&& ~~~permContinue = bits := by
  cases p <;> simp only [masks, forall_mem_cons] <;> simp <;> decide

theorem and_of_masks {p : AclPerm} {bits perm : BitVec 32} (hbits : bits ∈ p.masks)
    (h : perm &&& p.bits = bitsIf c p.bits) : perm &&& bits = bitsIf c bits := by
  obtain ⟨_, _, hsub, _⟩ := masks_spec p bits hbits
  calc perm &&& bits = perm &&& p.bits &&& bits := by rw [BitVec.and_assoc, hsub]
    _ = bitsIf c bits := by
      rw [h]
      cases c
      · exact BitVec.zero_and
      · exact hsub

end Bits

def AclTag.appliesTo (creds : UserCred) (isOwner isGroup : Bool) : AclTag → Bool
  | .userObj => isOwner
  | .user uid => fsalCheckAceOwner uid creds
  | .groupObj => isGroup
  | .group gid => fsalCheckAceGroup gid creds
  | .mask => false
  | .other => true

/-- The verdict of an entry: the permission if it has it unmasked, a denial if it lacks what a later
entry has, otherwise nothing. -/
def verdict (p : AclPerm) (unmasked later : Bool) (perms : PermSet) : Option Bool :=
  if perms.has p then (if unmasked then some true else none)
  else if later then some false else none

variable {ace : FsalAce}

theorem together_of_bits {bits : BitVec 32} (h : ace.perm &&& bits = bitsIf c bits) :
    Together bits ace := by
  cases c with
  | false => exact .inr h
  | true => exact .inl h

theorem aceDecision_of_bits (applicable : FsalAce → Bool) {bits : BitVec 32} (hzero : bits ≠ 0)
    (h : ace.perm &&& bits = bitsIf c bits) :
    aceDecision applicable bits ace = if applicable ace && c then ace.type.decision else none := by
  have hhas : ace.perm &&& bits = bits ↔ c = true := by
    rw [h]
    cases c with
    | false => simpa [bitsIf] using hzero.symm
    | true => simp [bitsIf]
  simp [aceDecision, hhas]

section Entry

variable (creds : UserCred) (isDir isOwner isGroup : Bool)

theorem applicable_of_tag {tag : AclTag} (hflag : ace.flag = aceFlag false tag)
    (hwho : ace.who = tag.who)
    (hspecial : ace.iflag &&& iflagSpecialId = bitsIf tag.special iflagSpecialId)
    (hfiles : ace.iflag &&& iflagExcludeFiles = 0) (hdirs : ace.iflag &&& iflagExcludeDirs = 0) :
    fsalCheckAceApplicable ace creds isDir isOwner isGroup false =
      tag.appliesTo creds isOwner isGroup := by
  have hinherit : aceFlag false tag &&& flagInheritOnly = 0 := by
    unfold aceFlag
    generalize tag.isGroup = isGroup
    revert isGroup
    decide
  simp only [fsalCheckAceApplicable, hflag, hwho, hinherit, hfiles, hdirs, ne_eq,
    not_true_eq_false, if_false, decide_false, Bool.and_false, Bool.false_eq_true, Bool.false_or,
    fsalCheckAceMatches, hspecial]
  cases tag with
  | user uid => simp [AclTag.special, AclTag.isGroup, AclTag.appliesTo, AclTag.who, aceFlag, bitsIf]
  | group gid =>
    simp [AclTag.special, AclTag.isGroup, AclTag.appliesTo, AclTag.who, aceFlag, bitsIf,
      flagGroupId]
  | userObj => rfl
  | groupObj => rfl
  | mask => rfl
  | other => rfl

theorem iflag_bits : ∀ special inGroupClass r w x mr mw mx : Bool,
    let iflag := bitsIf special iflagSpecialId
      ||| bitsIf (r && inGroupClass && !mr) flagMaskReadDeny
      ||| bitsIf (w && inGroupClass && !mw) flagMaskWriteDeny
      ||| bitsIf (x && inGroupClass && !mx) flagMaskExecuteDeny
    (iflag &&& iflagSpecialId = bitsIf special iflagSpecialId ∧
      iflag &&& iflagExcludeFiles = 0 ∧ iflag &&& iflagExcludeDirs = 0) ∧
      isAceBit iflag flagMaskReadDeny = (r && inGroupClass && !mr) ∧
      isAceBit iflag flagMaskWriteDeny = (w && inGroupClass && !mw) ∧
      isAceBit iflag flagMaskExecuteDeny = (x && inGroupClass && !mx) := by
  decide +kernel

theorem applicable_allowAce (mask : PermSet) (entry : AclEntry) :
    fsalCheckAceApplicable (allowAce isDir false mask entry) creds isDir isOwner isGroup false =
      entry.tag.appliesTo creds isOwner isGroup := by
  obtain ⟨⟨hspecial, hfiles, hdirs⟩, -⟩ := iflag_bits entry.tag.special entry.tag.inGroupClass
    entry.perms.read entry.perms.write entry.perms.execute mask.read mask.write mask.execute
  exact applicable_of_tag creds isDir isOwner isGroup rfl rfl hspecial hfiles hdirs

theorem applicable_denyAce (later : List PermSet) (entry : AclEntry) :
    fsalCheckAceApplicable (denyAce isDir false later entry) creds isDir isOwner isGroup false =
      entry.tag.appliesTo creds isOwner isGroup := by
  have hiflag : ∀ special : Bool,
      bitsIf special iflagSpecialId &&& iflagSpecialId = bitsIf special iflagSpecialId ∧
        bitsIf special iflagSpecialId &&& iflagExcludeFiles = 0 ∧
        bitsIf special iflagSpecialId &&& iflagExcludeDirs = 0 := by
    decide
  obtain ⟨hspecial, hfiles, hdirs⟩ := hiflag entry.tag.special
  exact applicable_of_tag creds isDir isOwner isGroup rfl rfl hspecial hfiles hdirs

variable {p : AclPerm} {bits : BitVec 32}

theorem allowAce_bits (hbits : bits ∈ p.masks) (mask : PermSet) (entry : AclEntry) :
    (allowAce isDir false mask entry).perm &&& bits =
      bitsIf (entry.perms.has p && (entry.tag.unmasked || mask.has p)) bits :=
  and_of_masks hbits (allowPerm_and_bits _ _ _ _ _ p)

theorem denyAce_bits (hbits : bits ∈ p.masks) (later : List PermSet) (entry : AclEntry) :
    (denyAce isDir false later entry).perm &&& bits =
      bitsIf (!entry.perms.has p && later.any (has · p)) bits := by
  have hfold := and_of_masks hbits
    (foldl_or_and_bits _ _ p.bits
      (fun d => denyPerm_and_bits entry.tag.isUserObj isDir entry.perms d p) later 0 false
      BitVec.zero_and)
  refine hfold.trans ?_
  cases entry.perms.has p with
  | false => simp
  | true =>
    have hnone : (later.any fun _ => false) = false := List.any_eq_false.2 (by simp)
    simp [hnone]

/-- The bits of a permission go together in the aces of an entry, which decide about them as the
entry does. -/
theorem entryAces_decision (hbits : bits ∈ p.masks) (mask : PermSet) (later : List PermSet)
    (entry : AclEntry) :
    (∀ ace ∈ entryAces isDir false mask later entry, Together bits ace) ∧
      (entryAces isDir false mask later entry).findSome?
        (aceDecision (fun ace => fsalCheckAceApplicable ace creds isDir isOwner isGroup false)
          bits) =
        if entry.tag.appliesTo creds isOwner isGroup then
          verdict p (entry.tag.unmasked || mask.has p) (later.any (has · p)) entry.perms
        else none := by
  obtain ⟨hzero, _⟩ := masks_spec p bits hbits
  have hallow := allowAce_bits isDir hbits mask entry
  have hdeny := denyAce_bits isDir hbits later entry
  have hdec := aceDecision_of_bits
    (fun ace => fsalCheckAceApplicable ace creds isDir isOwner isGroup false) hzero hallow
  have hdec' := aceDecision_of_bits
    (fun ace => fsalCheckAceApplicable ace creds isDir isOwner isGroup false) hzero hdeny
  rw [applicable_allowAce] at hdec
  rw [applicable_denyAce] at hdec'
  unfold entryAces verdict
  dsimp only
  split
  case isTrue hempty =>
    refine ⟨by simpa using together_of_bits hallow, ?_⟩
    -- a DENY ace without permissions denies nothing
    have hnothing : (!entry.perms.has p && later.any (has · p)) = false := by
      have hzero_and : (0 : BitVec 32) &&& bits = 0 := BitVec.zero_and
      rw [hempty, hzero_and] at hdeny
      revert hdeny
      cases (!entry.perms.has p && later.any (has · p)) with
      | false => simp
      | true => exact fun h => absurd h.symm hzero
    rw [findSome?_singleton, hdec]
    cases hhas : entry.perms.has p with
    | true => cases entry.tag.appliesTo creds isOwner isGroup <;> simp [allowAce, AceType.decision]
    | false =>
      have hlater : later.any (has · p) = false := by simpa [hhas] using hnothing
      simp [hlater]
  case isFalse hne =>
    refine ⟨?_, ?_⟩
    · intro ace hace
      rcases mem_cons.1 hace with rfl | hace
      · exact together_of_bits hdeny
      · obtain rfl := mem_singleton.1 hace
        exact together_of_bits hallow
    · rw [findSome?_cons, findSome?_singleton, hdec, hdec']
      cases entry.tag.appliesTo creds isOwner isGroup <;> cases entry.perms.has p <;>
        cases later.any (has · p) <;> simp [allowAce, denyAce, AceType.decision]

end Entry

theorem convertEntries_eq {acl : List AclEntry} {other : PermSet} {later : AclTag → List PermSet}
    (isDir isInherit : Bool) (mask : PermSet) (es : List AclEntry)
    (h : ∀ tag, laterEntries acl other tag = .entries (later tag)) :
    convertEntries acl isDir isInherit mask other es =
      some (es.flatMap fun e => entryAces isDir isInherit mask (later e.tag) e) := by
  induction es with
  | nil => rfl
  | cons e rest ih => simp [convertEntries, h, ih]

namespace PosixAcl

variable (acl : PosixAcl)

def classEntries : List AclEntry :=
  ⟨.userObj, acl.userObj⟩ :: acl.users.map (fun u => ⟨.user u.1, u.2⟩)
    ++ ⟨.groupObj, acl.groupObj⟩ :: acl.groups.map (fun g => ⟨.group g.1, g.2⟩)

theorem entries_eq : acl.entries = acl.classEntries
    ++ ((acl.mask.map fun perms => (⟨.mask, perms⟩ : AclEntry)).toList ++ [⟨.other, acl.other⟩]) := by
  simp [entries, classEntries]

theorem classEntries_tag : ∀ e ∈ acl.classEntries, e.tag ≠ .mask ∧ e.tag ≠ .other := by
  intro e he
  simp only [classEntries, cons_append, mem_cons, mem_append, List.mem_map] at he
  rcases he with rfl | ⟨u, _, rfl⟩ | rfl | ⟨g, _, rfl⟩ <;> simp

def laterPerms : AclTag → List PermSet
  | .userObj => acl.users.map Prod.snd ++ (acl.groupObj :: acl.groups.map Prod.snd ++ [acl.other])
  | .user _ => acl.groupObj :: acl.groups.map Prod.snd ++ [acl.other]
  | .groupObj | .group _ => [acl.other]
  | .mask | .other => []

theorem eraseP_mask : (acl.entries.eraseP fun e => e.tag = .mask) =
    acl.classEntries ++ [⟨.other, acl.other⟩] := by
  have hclass : ∀ e ∈ acl.classEntries, ¬ decide (e.tag = .mask) = true :=
    fun e he => by simpa using (acl.classEntries_tag e he).1
  rw [entries_eq, eraseP_append_right _ hclass]
  cases acl.mask with
  | none => simp
  | some perms => simp

theorem laterEntries_eq (tag : AclTag) :
    laterEntries acl.entries acl.other tag = .entries (acl.laterPerms tag) := by
  unfold laterEntries
  rw [eraseP_mask]
  cases tag with
  | userObj => simp [classEntries, laterPerms, Function.comp_def]
  | user uid =>
    have hdrop : (acl.classEntries ++ [(⟨.other, acl.other⟩ : AclEntry)]).dropWhile
        (fun entry => entry.tag ≠ .groupObj) =
        ⟨.groupObj, acl.groupObj⟩ :: (acl.groups.map (fun g => ⟨.group g.1, g.2⟩)
          ++ [⟨.other, acl.other⟩]) := by
      have husers : ∀ e ∈ (⟨.userObj, acl.userObj⟩ : AclEntry) ::
          acl.users.map (fun u => ⟨.user u.1, u.2⟩), decide (e.tag ≠ .groupObj) = true := by
        intro e he
        rcases mem_cons.1 he with rfl | he
        · rfl
        · obtain ⟨u, _, rfl⟩ := mem_map.1 he
          simp
      rw [classEntries, append_assoc, dropWhile_append_of_pos husers]
      simp
    dsimp only
    rw [hdrop]
    simp [laterPerms, Function.comp_def]
  | groupObj => rfl
  | group gid => rfl
  | mask => rfl
  | other => rfl

theorem findEntry_mask : ((findEntry acl.entries .mask).map AclEntry.perms).getD
    ⟨true, true, true⟩ = acl.maskPerms := by
  have hclass : acl.classEntries.find? (fun e => e.tag = .mask) = none :=
    find?_eq_none.2 fun e he => by simpa using (acl.classEntries_tag e he).1
  unfold findEntry maskPerms
  rw [entries_eq, find?_append, hclass]
  cases acl.mask with
  | none => simp
  | some perms => simp

theorem findEntry_other : ((findEntry acl.entries .other).map AclEntry.perms).getD
    ⟨false, false, false⟩ = acl.other := by
  have hclass : acl.classEntries.find? (fun e => e.tag = .other) = none :=
    find?_eq_none.2 fun e he => by simpa using (acl.classEntries_tag e he).2
  unfold findEntry
  rw [entries_eq, find?_append, hclass]
  cases acl.mask with
  | none => simp
  | some perms => simp

theorem posixAcl2FsalAcl_eq (isDir isInherit : Bool) :
    posixAcl2FsalAcl acl.entries isDir isInherit =
      some (acl.entries.flatMap fun e =>
        entryAces isDir isInherit acl.maskPerms (acl.laterPerms e.tag) e) := by
  unfold posixAcl2FsalAcl
  rw [findEntry_mask, findEntry_other]
  exact convertEntries_eq isDir isInherit _ _ acl.laterEntries_eq

end PosixAcl

/-- The decision of the converted ACL: `fsal_check_access_acl` on the aces of
`posix_acl_2_fsal_acl`, for a caller who is not the superuser. -/
def convertedGrants (acl : PosixAcl) (creds : UserCred) (owner group : BitVec 32) (isDir : Bool)
    (v4mask : BitVec 32) (wantDenied : Bool) : Bool :=
  match posixAcl2FsalAcl acl.entries isDir false with
  | none => false
  | some aces =>
    fsalCheckAccessAcl false creds v4mask wantDenied ⟨owner, group, isDir, some aces⟩ = .noError

section Decision

variable (acl : PosixAcl) (creds : UserCred) (owner group : BitVec 32) (p : AclPerm)

def entryVerdict (e : AclEntry) : Option Bool :=
  if e.tag.appliesTo creds (fsalCheckAceOwner owner creds) (fsalCheckAceGroup group creds) then
    verdict p (e.tag.unmasked || acl.maskPerms.has p)
      ((acl.laterPerms e.tag).any (has · p)) e.perms
  else none

theorem findSome?_flatMap_eq {α β γ : Type*} (f : α → List β) (g : β → Option γ) (l : List α) :
    (l.flatMap f).findSome? g = l.findSome? fun a => (f a).findSome? g := by
  induction l with
  | nil => rfl
  | cons a rest ih =>
    rw [flatMap_cons, findSome?_append, ih, findSome?_cons]
    cases (f a).findSome? g <;> rfl

theorem convertedGrants_iff {v4mask : BitVec 32} (hreq : p.Requested v4mask)
    (isDir wantDenied : Bool) :
    convertedGrants acl creds owner group isDir v4mask wantDenied = true ↔
      acl.entries.findSome? (entryVerdict acl creds owner group p) = some true := by
  obtain ⟨bits, hbits, hv4mask⟩ := hreq
  obtain ⟨hzero, howner, _, hplain, hcontinue⟩ := masks_spec p bits hbits
  have hrequested : v4mask &&& ~~~permContinue = bits := by
    rcases hv4mask with rfl | rfl
    · exact hplain
    · exact hcontinue
  have hentry := fun e => entryAces_decision creds isDir (fsalCheckAceOwner owner creds)
    (fsalCheckAceGroup group creds) hbits acl.maskPerms (acl.laterPerms e.tag) e
  unfold convertedGrants
  rw [acl.posixAcl2FsalAcl_eq]
  dsimp only
  rw [decide_eq_true_eq, fsalCheckAccessAcl_eq_noError_iff rfl hrequested hzero howner,
    findSome?_flatMap_eq]
  · dsimp only
    have hverdict : (fun e =>
        (entryAces isDir false acl.maskPerms (acl.laterPerms e.tag) e).findSome? (aceDecision
          (fun ace => fsalCheckAceApplicable ace creds isDir (fsalCheckAceOwner owner creds)
            (fsalCheckAceGroup group creds) false) bits)) =
        entryVerdict acl creds owner group p :=
      funext fun e => (hentry e).2
    rw [hverdict]
  · intro ace hace
    obtain ⟨e, _, hace⟩ := mem_flatMap.1 hace
    exact (hentry e).1 ace hace

theorem users_verdict (f : PermSet → Option Bool) :
    (acl.users.findSome? fun u => if creds.callerUid = u.1 then f u.2 else none) =
      (acl.namedUser creds).bind f := by
  unfold PosixAcl.namedUser
  have hdistinct := acl.users_distinct
  generalize acl.users = users at hdistinct
  induction users with
  | nil => rfl
  | cons u rest ih =>
    obtain ⟨hnot, hrest⟩ := nodup_cons.1 hdistinct
    rw [findSome?_cons, find?_cons]
    by_cases hu : creds.callerUid = u.1
    · have hnone : (rest.findSome? fun u => if creds.callerUid = u.1 then f u.2 else none) =
          none := by
        refine findSome?_eq_none_iff.2 fun v hv => if_neg fun hv' => ?_
        exact hnot (hu ▸ hv' ▸ mem_map_of_mem hv)
      simp only [hu, if_true, decide_true, map_some, bind_some]
      cases hf : f u.2 with
      | some b => rfl
      | none => rw [← hu]; exact hnone
    · simp only [hu, if_false, ih hrest]
      simp [Ne.symm hu]

theorem groups_verdict (f : PermSet → Option Bool) :
    ((if fsalCheckAceGroup group creds then f acl.groupObj else none).or
        (acl.groups.findSome? fun g => if fsalCheckAceGroup g.1 creds then f g.2 else none)) =
      (acl.matchingGroups creds group).findSome? f := by
  have hgroups : ∀ groups : List (BitVec 32 × PermSet),
      (groups.findSome? fun g => if fsalCheckAceGroup g.1 creds then f g.2 else none) =
        ((groups.filter fun g => fsalCheckAceGroup g.1 creds).map Prod.snd).findSome? f := by
    intro groups
    induction groups with
    | nil => rfl
    | cons g rest ih =>
      cases hg : fsalCheckAceGroup g.1 creds with
      | true => simp [findSome?_cons, hg, ih]
      | false => simp [hg, ih]
  unfold PosixAcl.matchingGroups
  rw [findSome?_append, ← hgroups]
  cases fsalCheckAceGroup group creds with
  | true => cases hf : f acl.groupObj <;> simp [hf]
  | false => rfl

def PosixAcl.laterThanUsers (acl : PosixAcl) (p : AclPerm) : Bool :=
  (acl.groupObj :: acl.groups.map Prod.snd ++ [acl.other]).any (has · p)

def otherVerdict : Option Bool :=
  ((acl.namedUser creds).bind (verdict p (acl.maskPerms.has p) (acl.laterThanUsers p))).or
    (((acl.matchingGroups creds group).findSome?
      (verdict p (acl.maskPerms.has p) (acl.other.has p))).or (verdict p true false acl.other))

theorem entries_verdict :
    acl.entries.findSome? (entryVerdict acl creds owner group p) =
      (entryVerdict acl creds owner group p ⟨.userObj, acl.userObj⟩).or
        (otherVerdict acl creds group p) := by
  have husers : (acl.users.map fun u => (⟨.user u.1, u.2⟩ : AclEntry)).findSome?
      (entryVerdict acl creds owner group p) =
      (acl.namedUser creds).bind (verdict p (acl.maskPerms.has p) (acl.laterThanUsers p)) := by
    rw [findSome?_map, ← users_verdict]
    congr 1
    funext u
    simp [entryVerdict, appliesTo, unmasked, fsalCheckAceOwner,
      PosixAcl.laterPerms, PosixAcl.laterThanUsers]
  have hgroups : (entryVerdict acl creds owner group p ⟨.groupObj, acl.groupObj⟩).or
      ((acl.groups.map fun g => (⟨.group g.1, g.2⟩ : AclEntry)).findSome?
        (entryVerdict acl creds owner group p)) =
      (acl.matchingGroups creds group).findSome?
        (verdict p (acl.maskPerms.has p) (acl.other.has p)) := by
    rw [findSome?_map, ← groups_verdict]
    congr 1
    · simp [entryVerdict, appliesTo, unmasked, PosixAcl.laterPerms]
    · congr 1
      funext g
      simp [entryVerdict, appliesTo, unmasked, PosixAcl.laterPerms]
  have hmask : (acl.mask.map fun perms => (⟨.mask, perms⟩ : AclEntry)).toList.findSome?
      (entryVerdict acl creds owner group p) = none := by
    cases acl.mask with
    | none => rfl
    | some perms => simp [entryVerdict, appliesTo]
  have hother : entryVerdict acl creds owner group p ⟨.other, acl.other⟩ =
      verdict p true false acl.other := by
    simp [entryVerdict, appliesTo, unmasked, PosixAcl.laterPerms]
  have hcons : ∀ (e : AclEntry) (es : List AclEntry),
      (e :: es).findSome? (entryVerdict acl creds owner group p) =
        (entryVerdict acl creds owner group p e).or
          (es.findSome? (entryVerdict acl creds owner group p)) := by
    intro e es
    rw [findSome?_cons]
    cases entryVerdict acl creds owner group p e <;> rfl
  simp only [PosixAcl.entries, cons_append, append_assoc, findSome?_append, hcons,
    findSome?_nil, or_none, husers, hmask, hother, none_or]
  rw [otherVerdict, ← hgroups, Option.or_assoc]

theorem findSome?_verdict_of_other_lacks (m : Bool) (matching : List PermSet) :
    matching.findSome? (verdict p m false) = some true ↔
      (matching.any (has · p) && m) = true := by
  induction matching with
  | nil => simp
  | cons g rest ih =>
    rw [findSome?_cons, any_cons]
    cases hg : g.has p <;> cases m <;> simp_all [verdict]

theorem findSome?_verdict_masked (matching : List PermSet) :
    matching.findSome? (verdict p false true) =
      if ∀ g ∈ matching, g.has p = true then none else some false := by
  induction matching with
  | nil => rfl
  | cons g rest ih =>
    rw [findSome?_cons]
    cases hg : g.has p <;> simp_all [verdict]

theorem findSome?_verdict_first (matching : List PermSet) :
    matching.findSome? (verdict p true true) = matching.head?.map (has · p) := by
  cases matching with
  | nil => rfl
  | cons g rest =>
    rw [findSome?_cons]
    cases hg : g.has p <;> simp [verdict, hg]

/-- Where the converted ACL decides differently: through ACL_OTHER it grants to a caller other than
the owner what the mask takes away from their entries, and it denies what their first group lacks
and another has. -/
def Diverges : Prop :=
  acl.other.has p = true ∧ creds.callerUid ≠ owner ∧
    match acl.namedUser creds with
    | some perms => perms.has p = true ∧ acl.maskPerms.has p = false ∧
        ∀ g ∈ acl.matchingGroups creds group, g.has p = true
    | none => acl.matchingGroups creds group ≠ [] ∧
        (acl.maskPerms.has p = false ∧ (∀ g ∈ acl.matchingGroups creds group, g.has p = true) ∨
          acl.maskPerms.has p = true ∧ (∃ g ∈ acl.matchingGroups creds group, g.has p = true) ∧
            (acl.matchingGroups creds group).head?.map (has · p) = some false)

variable {acl creds owner group p} {perms : PermSet}

theorem PosixAcl.matchingGroups_mem {g : PermSet} (h : g ∈ acl.matchingGroups creds group) :
    g ∈ acl.groupObj :: acl.groups.map Prod.snd := by
  rcases mem_append.1 h with h | h
  · split at h
    · exact mem_cons.2 (.inl (mem_singleton.1 h))
    · cases h
  · obtain ⟨g, hg, rfl⟩ := mem_map.1 h
    exact mem_cons_of_mem _ (mem_map_of_mem (mem_filter.1 hg).1)

theorem groups_verdict_of_lacking (h : acl.laterThanUsers p = false) (m : Bool) :
    ((acl.matchingGroups creds group).findSome? (verdict p m (acl.other.has p))).or
      (verdict p true false acl.other) = none := by
  have hlacks : ∀ g ∈ acl.groupObj :: acl.groups.map Prod.snd ++ [acl.other],
      g.has p = false :=
    fun g hg => by simpa using List.any_eq_false.1 h g hg
  have hother : acl.other.has p = false := hlacks _ (by simp)
  have hgroups : (acl.matchingGroups creds group).findSome? (verdict p m false) = none := by
    refine findSome?_eq_none_iff.2 fun g hg => ?_
    have hg' : g.has p = false :=
      hlacks g (mem_append_left _ (PosixAcl.matchingGroups_mem hg))
    simp [verdict, hg']
  simp [hother, hgroups, verdict]

theorem entries_verdict_owner (howner : creds.callerUid = owner) :
    acl.entries.findSome? (entryVerdict acl creds owner group p) = some true ↔
      acl.userObj.has p = true := by
  have hself : entryVerdict acl creds owner group p ⟨.userObj, acl.userObj⟩ =
      verdict p true ((acl.laterPerms .userObj).any (has · p)) acl.userObj := by
    simp [entryVerdict, appliesTo, unmasked, fsalCheckAceOwner, howner]
  rw [entries_verdict, hself]
  cases hhas : acl.userObj.has p with
  | true => simp [verdict, hhas]
  | false =>
    cases hlater : (acl.laterPerms .userObj).any (has · p) with
    | true => simp [verdict, hhas]
    | false =>
      have hlacks : ∀ perms ∈ acl.laterPerms .userObj, perms.has p = false := by
        simpa using hlater
      have hlast : acl.laterThanUsers p = false := by
        rw [PosixAcl.laterThanUsers, List.any_eq_false]
        intro perms hperms
        simp [hlacks perms (mem_append_right _ hperms)]
      have husers : (acl.namedUser creds).bind
          (verdict p (acl.maskPerms.has p) (acl.laterThanUsers p)) = none := by
        cases hnamed : acl.namedUser creds with
        | none => rfl
        | some perms =>
          obtain ⟨u, hu, rfl⟩ := map_eq_some_iff.1 hnamed
          have hperms : u.2.has p = false :=
            hlacks u.2 (mem_append_left _ (mem_map_of_mem (mem_of_find?_eq_some hu)))
          simp [verdict, hperms, hlast]
      have hnone : verdict p true false acl.userObj = none := by simp [verdict, hhas]
      rw [hnone, otherVerdict, husers, groups_verdict_of_lacking hlast]
      simp

theorem otherVerdict_named (hnamed : acl.namedUser creds = some perms) :
    otherVerdict acl creds group p = some true ↔
      perms.has p = true ∧ (acl.maskPerms.has p = true ∨ acl.other.has p = true ∧
        ∀ g ∈ acl.matchingGroups creds group, g.has p = true) := by
  unfold otherVerdict
  rw [hnamed, bind_some]
  cases hperms : perms.has p with
  | false =>
    cases hlater : acl.laterThanUsers p with
    | true => simp [verdict, hperms]
    | false =>
      rw [groups_verdict_of_lacking hlater]
      simp [verdict, hperms]
  | true =>
    cases hmask : acl.maskPerms.has p with
    | true => simp [verdict, hperms]
    | false =>
      cases hother : acl.other.has p with
      | true =>
        rw [findSome?_verdict_masked]
        by_cases hall : ∀ g ∈ acl.matchingGroups creds group, g.has p = true
        · rw [if_pos hall]
          simpa [verdict, hperms, hother] using hall
        · rw [if_neg hall]
          simpa [verdict, hperms, hother] using hall
      | false =>
        have hgroups := findSome?_verdict_of_other_lacks p false
          (acl.matchingGroups creds group)
        simp only [Bool.and_false, Bool.false_eq_true, iff_false] at hgroups
        simp [verdict, hperms, hother, hgroups]

theorem otherVerdict_unnamed (hnamed : acl.namedUser creds = none) :
    otherVerdict acl creds group p = some true ↔
      if acl.other.has p then
        if acl.maskPerms.has p then
          (acl.matchingGroups creds group).head?.map (has · p) ≠ some false
        else ∀ g ∈ acl.matchingGroups creds group, g.has p = true
      else
        ((acl.matchingGroups creds group).any (has · p) && acl.maskPerms.has p) = true := by
  unfold otherVerdict
  rw [hnamed, bind_none, none_or]
  cases hother : acl.other.has p with
  | false =>
    have hgroups := findSome?_verdict_of_other_lacks p (acl.maskPerms.has p)
      (acl.matchingGroups creds group)
    rw [if_neg (by simp), ← hgroups]
    simp [verdict, hother]
  | true =>
    rw [if_pos rfl]
    cases hmask : acl.maskPerms.has p with
    | true =>
      rw [if_pos rfl, findSome?_verdict_first]
      cases hhead : (acl.matchingGroups creds group).head?.map (has · p) with
      | none => simp [verdict, hother]
      | some b => cases b <;> simp
    | false =>
      rw [if_neg (by simp), findSome?_verdict_masked]
      by_cases hall : ∀ g ∈ acl.matchingGroups creds group, g.has p = true
      · rw [if_pos hall]
        simpa [verdict, hother] using hall
      · rw [if_neg hall]
        simpa using hall

/-- The converted ACL decides on each permission, for every caller who is not the superuser,
as POSIX.1e does, exactly where it does not diverge. -/
theorem posix_conversion_preserves_iff (acl : PosixAcl) (creds : UserCred)
    (owner group : BitVec 32) (isDir wantDenied : Bool) (p : AclPerm) (v4mask : BitVec 32)
    (hreq : p.Requested v4mask) :
    convertedGrants acl creds owner group isDir v4mask wantDenied =
        posixGrants acl creds owner group p ↔
      ¬ Diverges acl creds owner group p := by
  rw [Bool.eq_iff_iff, convertedGrants_iff acl creds owner group p hreq]
  by_cases howner : creds.callerUid = owner
  · rw [entries_verdict_owner howner]
    simp [posixGrants, Diverges, howner]
  · have hself : entryVerdict acl creds owner group p ⟨.userObj, acl.userObj⟩ = none := by
      simp [entryVerdict, appliesTo, fsalCheckAceOwner, howner]
    rw [entries_verdict, hself, none_or]
    simp only [posixGrants, Diverges, howner, if_false, ne_eq, not_false_eq_true, true_and]
    cases hnamed : acl.namedUser creds with
    | some perms =>
      rw [otherVerdict_named hnamed]
      cases hperms : perms.has p <;> cases acl.maskPerms.has p <;> simp [hperms]
    | none =>
      rw [otherVerdict_unnamed hnamed]
      cases hgroups : acl.matchingGroups creds group with
      | nil => cases acl.other.has p <;> cases acl.maskPerms.has p <;> simp
      | cons g rest =>
        cases hg : g.has p <;> cases acl.other.has p <;> cases acl.maskPerms.has p <;>
          simp [hg]

end Decision

def maskedGroupAcl : PosixAcl where
  userObj := ⟨true, true, false⟩
  users := []
  groupObj := ⟨true, false, false⟩
  groups := []
  mask := some ⟨false, false, false⟩
  other := ⟨true, false, false⟩
  users_distinct := .nil
  groups_distinct := .nil
  mask_present := fun _ => rfl

/-- A member of the owning group reads although the mask forbids it to the group. -/
theorem masked_group_reads :
    convertedGrants maskedGroupAcl ⟨1000, 100, []⟩ 1 100 false permReadData false = true ∧
      posixGrants maskedGroupAcl ⟨1000, 100, []⟩ 1 100 .read = false := by
  decide +kernel

/-- Nobody but the owner gets write access from that ACL, as POSIX.1e has it. -/
theorem posix_conversion_preserves_masked_write :
    write.Requested permWriteData ∧
      convertedGrants maskedGroupAcl ⟨1000, 100, []⟩ 1 100 false permWriteData false =
        posixGrants maskedGroupAcl ⟨1000, 100, []⟩ 1 100 .write := by
  have hreq : write.Requested permWriteData :=
    ⟨permWriteData, mem_cons_self, .inl rfl⟩
  refine ⟨hreq, (posix_conversion_preserves_iff maskedGroupAcl ⟨1000, 100, []⟩ 1 100 false false
    .write permWriteData hreq).2 ?_⟩
  rintro ⟨hother, _⟩
  exact absurd hother (by decide)

end EdgeComputing.Fsal
