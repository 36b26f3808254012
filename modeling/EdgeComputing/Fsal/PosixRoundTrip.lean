import EdgeComputing.Fsal.PosixAccess
import EdgeComputing.Library.Table

/-!
A POSIX ACL turned into aces and back. What an entry has is allowed or remembered as masked, and
what it lacks and ACL_OTHER has is denied. The decoder knows EVERYONE@ and the mask by the ID of the
ace alone, so the users or groups 3 and 4 are taken for them.
-/

namespace EdgeComputing.Fsal

open PermSet AclTag List

theorem PermSet.eq_of_has {a b : PermSet} (h : ∀ p, a.has p = b.has p) : a = b := by
  obtain ⟨ar, aw, ax⟩ := a
  obtain ⟨br, bw, bx⟩ := b
  obtain ⟨rfl, rfl, rfl⟩ : ar = br ∧ aw = bw ∧ ax = bx := ⟨h .read, h .write, h .execute⟩
  rfl

@[simp] theorem PermSet.has_empty (p : AclPerm) : empty.has p = false := by
  cases p <;> rfl

@[simp] theorem PermSet.has_union (a b : PermSet) (p : AclPerm) :
    (a.union b).has p = (a.has p || b.has p) := by
  cases p <;> rfl

@[simp] theorem PermSet.has_diff (a b : PermSet) (p : AclPerm) :
    (a.diff b).has p = (a.has p && !b.has p) := by
  cases p <;> rfl

theorem PermSet.union_assoc (a b c : PermSet) : (a.union b).union c = a.union (b.union c) :=
  eq_of_has fun p => by simp [Bool.or_assoc]

theorem PermSet.empty_union (a : PermSet) : empty.union a = a :=
  eq_of_has fun p => by simp

theorem findEntry_cons (entry : AclEntry) (acl : List AclEntry) (tag : AclTag) :
    findEntry (entry :: acl) tag = if entry.tag = tag then some entry else findEntry acl tag := by
  unfold findEntry
  rw [find?_cons]
  by_cases h : entry.tag = tag <;> simp [h]

theorem findEntry_addPerms (tag : AclTag) (perms : PermSet) (acl : List AclEntry) (t : AclTag) :
    findEntry (addPerms tag perms acl) t =
      if t = tag then some ⟨tag, (permsOf acl tag).union perms⟩ else findEntry acl t := by
  induction acl with
  | nil =>
    unfold addPerms
    rw [findEntry_cons]
    by_cases h : tag = t
    · simp [h, permsOf, findEntry, empty_union]
    · simp [h, Ne.symm h]
  | cons entry rest ih =>
    unfold addPerms
    by_cases htag : entry.tag = tag
    · rw [if_pos htag, findEntry_cons, findEntry_cons, permsOf, findEntry_cons, if_pos htag]
      by_cases h : tag = t
      · simp [h]
      · simp [h, Ne.symm h, htag]
    · rw [if_neg htag, findEntry_cons, findEntry_cons, ih, permsOf, permsOf, findEntry_cons,
        if_neg htag]
      by_cases h : entry.tag = t
      · subst h
        simp [htag]
      · simp [h]

theorem permsOf_addPerms_self (tag : AclTag) (perms : PermSet) (acl : List AclEntry) :
    permsOf (addPerms tag perms acl) tag = (permsOf acl tag).union perms := by
  rw [permsOf, findEntry_addPerms, if_pos rfl]
  rfl

variable {tag : AclTag} {acl : List AclEntry} {t : AclTag} {perms : PermSet}

theorem permsOf_addPerms_ne (h : t ≠ tag) (perms : PermSet) (acl : List AclEntry) :
    permsOf (addPerms tag perms acl) t = permsOf acl t := by
  rw [permsOf, findEntry_addPerms, if_neg h, permsOf]

theorem addPerms_addPerms (tag : AclTag) (a b : PermSet) (acl : List AclEntry) :
    addPerms tag b (addPerms tag a acl) = addPerms tag (a.union b) acl := by
  induction acl with
  | nil => simp [addPerms]
  | cons entry rest ih =>
    by_cases h : entry.tag = tag
    · simp [addPerms, h, union_assoc]
    · simp [addPerms, h, ih]

theorem mem_tags_addPerms :
    t ∈ (addPerms tag perms acl).map AclEntry.tag ↔ t = tag ∨ t ∈ acl.map AclEntry.tag := by
  induction acl with
  | nil => simp [addPerms]
  | cons entry rest ih =>
    by_cases h : entry.tag = tag
    · simp [addPerms, h]
    · simp only [addPerms, h, if_false, map_cons, mem_cons, ih]
      exact or_left_comm

theorem nodup_addPerms (h : (acl.map AclEntry.tag).Nodup) :
    ((addPerms tag perms acl).map AclEntry.tag).Nodup := by
  induction acl with
  | nil => simp [addPerms]
  | cons entry rest ih =>
    rw [map_cons, nodup_cons] at h
    by_cases htag : entry.tag = tag
    · simp only [addPerms, htag, if_true, map_cons, nodup_cons]
      exact ⟨htag ▸ h.1, h.2⟩
    · simp only [addPerms, htag, if_false, map_cons, nodup_cons]
      refine ⟨fun hmem => ?_, ih h.2⟩
      rcases mem_tags_addPerms.1 hmem with heq | hmem
      · exact htag heq
      · exact h.1 hmem

theorem findEntry_of_mem (h : (acl.map AclEntry.tag).Nodup) {entry : AclEntry}
    (hmem : entry ∈ acl) : findEntry acl entry.tag = some entry :=
  Library.find?_key_of_mem h hmem

theorem mem_iff_findEntry (h : (acl.map AclEntry.tag).Nodup) (entry : AclEntry) :
    entry ∈ acl ↔ findEntry acl entry.tag = some entry :=
  ⟨findEntry_of_mem h, mem_of_find?_eq_some⟩

theorem perm_of_findEntry {a b : List AclEntry} (ha : (a.map AclEntry.tag).Nodup)
    (hb : (b.map AclEntry.tag).Nodup) (h : ∀ tag, findEntry a tag = findEntry b tag) :
    a.Perm b := by
  rw [perm_ext_iff_of_nodup (Nodup.of_map _ ha) (Nodup.of_map _ hb)]
  intro entry
  rw [mem_iff_findEntry ha, mem_iff_findEntry hb, h]

theorem findEntry_map_perms (f : AclEntry → PermSet) (acl : List AclEntry) (t : AclTag) :
    findEntry (acl.map fun e => ⟨e.tag, f e⟩) t = (findEntry acl t).map fun e => ⟨t, f e⟩ := by
  induction acl with
  | nil => rfl
  | cons e rest ih =>
    rw [map_cons, findEntry_cons, findEntry_cons, ih]
    by_cases h : e.tag = t
    · simp [h]
    · simp [h]

theorem findEntry_append (a b : List AclEntry) (t : AclTag) :
    findEntry (a ++ b) t = (findEntry a t).or (findEntry b t) :=
  find?_append

def aclTypeOf (isInherit : Bool) : AclType := if isInherit then .default else .access

structure MadeFrom (isInherit : Bool) (tag : AclTag) (ace : FsalAce) : Prop where
  valid : ace.validFor (aclTypeOf isInherit) = true
  who : ace.who = tag.who
  special : ace.isSpecialId = tag.special
  tag : ∀ previous, ace.tag previous = if tag = .other then previous else some tag

variable {ace : FsalAce} {es : List AclEntry} {isInherit : Bool} {f : AclEntry → PermSet}
  {everyone : Everyone} {st : AclDecode}

theorem madeFrom_of_fields (hflag : ace.flag = aceFlag isInherit tag) (hwho : ace.who = tag.who)
    (hspecial : ace.iflag &&& iflagSpecialId = bitsIf tag.special iflagSpecialId) :
    MadeFrom isInherit tag ace := by
  have hvalid : ∀ isInherit isGroup : Bool,
      FsalAce.validFor ⟨.allow, 0, bitsIf isInherit flagInherit ||| bitsIf isGroup flagGroupId, 0, 0⟩
        (aclTypeOf isInherit) = true := by
    decide
  have hid : ace.isSpecialId = tag.special := by
    unfold FsalAce.isSpecialId isAceBit
    rw [hspecial]
    cases tag.special <;> rfl
  have hgroup : isAceBit ace.flag flagGroupId = tag.isGroup := by
    unfold isAceBit
    rw [hflag, aceFlag]
    cases isInherit <;> cases tag.isGroup <;> rfl
  refine ⟨?_, hwho, hid, fun previous => ?_⟩
  · -- Only the flags matter.
    have hflags : ∀ type, ace.validFor type = FsalAce.validFor ⟨.allow, 0, ace.flag, 0, 0⟩ type :=
      fun _ => rfl
    rw [hflags, hflag]
    exact hvalid isInherit tag.isGroup
  · unfold FsalAce.tag
    rw [hid, hgroup, hwho]
    cases tag <;> simp [special, isGroup, who, specialOwner, specialGroup,
      specialMask, specialEveryone]

section Aces

variable (isDir isInherit : Bool) (mask : PermSet) (later : List PermSet) (entry : AclEntry)

theorem madeFrom_allowAce : MadeFrom isInherit entry.tag (allowAce isDir isInherit mask entry) :=
  madeFrom_of_fields rfl rfl (iflag_bits entry.tag.special entry.tag.inGroupClass
    entry.perms.read entry.perms.write entry.perms.execute mask.read mask.write mask.execute).1.1

theorem madeFrom_denyAce : MadeFrom isInherit entry.tag (denyAce isDir isInherit later entry) := by
  refine madeFrom_of_fields rfl rfl ?_
  change bitsIf entry.tag.special iflagSpecialId &&& iflagSpecialId = _
  cases entry.tag.special <;> rfl

theorem maskDenied_allowAce (p : AclPerm) : (allowAce isDir isInherit mask entry).maskDenied.has p =
    (entry.perms.has p && entry.tag.inGroupClass && !mask.has p) := by
  obtain ⟨-, hread, hwrite, hexecute⟩ := iflag_bits entry.tag.special entry.tag.inGroupClass
    entry.perms.read entry.perms.write entry.perms.execute mask.read mask.write mask.execute
  cases p with
  | read => exact hread
  | write => exact hwrite
  | execute => exact hexecute

theorem maskDenied_denyAce : (denyAce isDir isInherit later entry).maskDenied = .empty := by
  have hnone : ∀ special : Bool, isAceBit (bitsIf special iflagSpecialId) flagMaskReadDeny = false ∧
      isAceBit (bitsIf special iflagSpecialId) flagMaskWriteDeny = false ∧
      isAceBit (bitsIf special iflagSpecialId) flagMaskExecuteDeny = false := by
    decide
  obtain ⟨hread, hwrite, hexecute⟩ := hnone entry.tag.special
  simp [FsalAce.maskDenied, denyAce, empty, hread, hwrite, hexecute]

def AclPerm.dataBit : AclPerm → BitVec 32
  | .read => permReadData
  | .write => permWriteData
  | .execute => permExecute

theorem AclPerm.dataBit_mem (p : AclPerm) : p.dataBit ∈ p.masks := by
  cases p <;> simp [AclPerm.dataBit, AclPerm.masks]

theorem perms_has_of_bits {p : AclPerm} {c : Bool}
    (h : ace.perm &&& p.dataBit = bitsIf c p.dataBit) :
    ace.perms.has p = c := by
  have hhas : ace.perms.has p = isAceBit ace.perm p.dataBit := by
    cases p <;> rfl
  rw [hhas, isAceBit, h]
  cases p <;> cases c <;> rfl

theorem perms_allowAce (p : AclPerm) : (allowAce isDir isInherit mask entry).perms.has p =
    (entry.perms.has p && (entry.tag.unmasked || mask.has p)) :=
  perms_has_of_bits (allowAce_bits isDir p.dataBit_mem mask entry)

theorem perms_denyAce (p : AclPerm) : (denyAce isDir isInherit later entry).perms.has p =
    (!entry.perms.has p && later.any (has · p)) :=
  perms_has_of_bits (denyAce_bits isDir p.dataBit_mem later entry)

theorem perms_of_no_perm (h : ace.perm = 0) : ace.perms = .empty := by
  simp [FsalAce.perms, h, isAceBit, empty]

end Aces

def addedPerms (everyone : Everyone) (denied : PermSet) (ace : FsalAce) : PermSet :=
  if ace.who = specialMask then if ace.type = .allow then ace.perms else .empty
  else ((everyone.allowed.union ace.perms).diff denied).union ace.maskDenied

theorem decodeStep_madeFrom (everyone : Everyone) (hmade : MadeFrom isInherit tag ace)
    (hother : tag ≠ .other) (hwho : tag.who ≠ specialEveryone) (st : AclDecode) :
    decodeStep (aclTypeOf isInherit) everyone st ace =
      { allow := addPerms tag (addedPerms everyone
          (((permsOf st.deny tag).union (if ace.type = .deny then ace.perms else .empty)).union
            st.everyoneDenied) ace) st.allow
        deny := addPerms tag (if ace.type = .deny then ace.perms else .empty) st.deny
        everyoneDenied := st.everyoneDenied
        tag := some tag
        mask := st.mask || !tag.special
        maskSet := st.maskSet || tag.who = specialMask } := by
  obtain ⟨hvalid, hwho', hspecial, htag⟩ := hmade
  have htag : ace.tag st.tag = some tag := by rw [htag, if_neg hother]
  unfold decodeStep addedPerms
  rw [if_pos hvalid]
  simp only [htag, hspecial, hwho', hwho, if_false, permsOf_addPerms_self]
  by_cases hmask : tag.who = specialMask
  · simp [hmask]
  · simp [hmask]

theorem decodeStep_everyone (everyone : Everyone) (hmade : MadeFrom isInherit tag ace)
    (hwho : tag.who = specialEveryone) (st : AclDecode) :
    (decodeStep (aclTypeOf isInherit) everyone st ace).allow = st.allow ∧
      (decodeStep (aclTypeOf isInherit) everyone st ace).mask = (st.mask || !tag.special) ∧
      (decodeStep (aclTypeOf isInherit) everyone st ace).maskSet = st.maskSet := by
  unfold decodeStep
  rw [if_pos hmade.valid, if_pos (hmade.who.trans hwho), hmade.special]
  by_cases hdeny : ace.type = .deny
  · rw [if_pos hdeny]
    exact ⟨rfl, rfl, rfl⟩
  · rw [if_neg hdeny]
    exact ⟨rfl, rfl, rfl⟩

def returnedPerms (mask : PermSet) (entry : AclEntry) : PermSet :=
  if entry.tag.who = specialMask then
    ⟨entry.perms.read && (entry.tag.unmasked || mask.read),
      entry.perms.write && (entry.tag.unmasked || mask.write),
      entry.perms.execute && (entry.tag.unmasked || mask.execute)⟩
  else entry.perms

theorem has_returnedPerms (mask : PermSet) (entry : AclEntry) (p : AclPerm) :
    (returnedPerms mask entry).has p =
      if entry.tag.who = specialMask then
        entry.perms.has p && (entry.tag.unmasked || mask.has p)
      else entry.perms.has p := by
  unfold returnedPerms
  split_ifs
  · cases p <;> rfl
  · rfl

theorem inGroupClass_eq (h : tag.who ≠ specialMask) : tag.inGroupClass = !tag.unmasked := by
  cases tag <;> first | rfl | exact absurd rfl h

section DecodeEntry

variable (isDir isInherit : Bool) {mask : PermSet} {later : List PermSet} {entry : AclEntry}
  {everyone : Everyone}
  (hlater : ∀ p, everyone.allowed.has p = true → entry.tag.who ≠ specialMask →
    later.any (has · p) = true)
include hlater

/-- Together the aces of an entry add the permissions with which it comes back, if every
permission of EVERYONE@ is one of a later entry. -/
theorem addedPerms_union :
    (addedPerms everyone (denyAce isDir isInherit later entry).perms
        (denyAce isDir isInherit later entry)).union
      (addedPerms everyone (denyAce isDir isInherit later entry).perms
        (allowAce isDir isInherit mask entry)) = returnedPerms mask entry := by
  apply eq_of_has
  intro p
  have hwho : (denyAce isDir isInherit later entry).who = entry.tag.who := rfl
  have hwho' : (allowAce isDir isInherit mask entry).who = entry.tag.who := rfl
  rw [has_returnedPerms, has_union]
  unfold addedPerms
  rw [hwho, hwho', maskDenied_denyAce]
  by_cases hmask : entry.tag.who = specialMask
  · simp only [hmask, if_true]
    rw [if_neg (show (denyAce isDir isInherit later entry).type ≠ .allow by nofun),
      if_pos (show (allowAce isDir isInherit mask entry).type = .allow from rfl), perms_allowAce]
    simp
  · simp only [hmask, if_false, has_union, has_diff, has_empty,
      perms_allowAce, perms_denyAce, maskDenied_allowAce, inGroupClass_eq hmask]
    have hany : everyone.allowed.has p = true → later.any (has · p) = true :=
      fun hallowed => hlater p hallowed hmask
    generalize later.any (has · p) = has at hany ⊢
    revert hany
    cases everyone.allowed.has p <;> cases has <;> cases entry.perms.has p <;>
      cases entry.tag.unmasked <;> cases mask.has p <;> decide

theorem addedPerms_allow (hno : (denyAce isDir isInherit later entry).perm = 0) :
    addedPerms everyone .empty (allowAce isDir isInherit mask entry) =
      returnedPerms mask entry := by
  have hempty := perms_of_no_perm hno
  rw [← addedPerms_union isDir isInherit hlater, hempty]
  apply eq_of_has
  intro p
  rw [has_union]
  -- What the missing DENY ace would add is what EVERYONE@ is allowed, and the ALLOW ace adds it.
  unfold addedPerms
  rw [show (denyAce isDir isInherit later entry).who = entry.tag.who from rfl,
    show (allowAce isDir isInherit mask entry).who = entry.tag.who from rfl, hempty,
    maskDenied_denyAce]
  by_cases hmask : entry.tag.who = specialMask
  · simp [hmask]
  · simp only [hmask, if_false, has_union, has_diff, has_empty]
    cases everyone.allowed.has p <;> simp

structure EntryDecoded (mask : PermSet) (entry : AclEntry) (st st' : AclDecode) : Prop where
  allow : st'.allow = addPerms entry.tag (returnedPerms mask entry) st.allow
  deny : ∀ t, t ≠ entry.tag → permsOf st'.deny t = permsOf st.deny t
  everyoneDenied : st'.everyoneDenied = .empty
  mask : st'.mask = (st.mask || !entry.tag.special)
  maskSet : st'.maskSet = (st.maskSet || decide (entry.tag.who = specialMask))

theorem foldl_entryAces (hother : entry.tag ≠ .other) (hwho : entry.tag.who ≠ specialEveryone)
    (hdeny : permsOf st.deny entry.tag = .empty) (heveryone : st.everyoneDenied = .empty) :
    EntryDecoded mask entry st ((entryAces isDir isInherit mask later entry).foldl
      (decodeStep (aclTypeOf isInherit) everyone) st) := by
  have hallow := decodeStep_madeFrom everyone (madeFrom_allowAce isDir isInherit mask entry)
    hother hwho
  have hdenied := decodeStep_madeFrom everyone (madeFrom_denyAce isDir isInherit later entry)
    hother hwho
  have htype : (allowAce isDir isInherit mask entry).type ≠ .deny := nofun
  have htype' : (denyAce isDir isInherit later entry).type = .deny := rfl
  have hunion : ∀ a : PermSet, a.union .empty = a :=
    fun a => eq_of_has fun p => by simp
  simp only [htype, htype', if_false, if_true, hunion] at hallow hdenied
  unfold entryAces
  dsimp only
  split_ifs with hno
  · rw [foldl_cons, foldl_nil, hallow, hdeny, heveryone, hunion,
      addedPerms_allow isDir isInherit hlater hno]
    exact ⟨rfl, fun t ht => permsOf_addPerms_ne ht _ _, rfl, rfl, rfl⟩
  · rw [foldl_cons, foldl_cons, foldl_nil, hallow, hdenied, hdeny, heveryone]
    simp only [permsOf_addPerms_self, hdeny, empty_union, hunion, addPerms_addPerms,
      addedPerms_union isDir isInherit hlater]
    refine ⟨rfl, fun t ht => permsOf_addPerms_ne ht _ _, rfl, ?_, ?_⟩
    · simp
    · simp

end DecodeEntry

structure EntriesDecoded (mask : PermSet) (es : List AclEntry) (st st' : AclDecode) : Prop where
  allow : st'.allow = es.foldl (fun acl e => addPerms e.tag (returnedPerms mask e) acl) st.allow
  everyoneDenied : st'.everyoneDenied = .empty
  mask : st'.mask = (st.mask || es.any fun e => !e.tag.special)
  maskSet : st'.maskSet = (st.maskSet || es.any fun e => e.tag.who = specialMask)

theorem foldl_entries (isDir isInherit : Bool) (mask : PermSet) {later : AclTag → List PermSet}
    (hnodup : (es.map AclEntry.tag).Nodup)
    (hes : ∀ e ∈ es, e.tag ≠ .other ∧ e.tag.who ≠ specialEveryone)
    (hlater : ∀ e ∈ es, ∀ p, everyone.allowed.has p = true → e.tag.who ≠ specialMask →
      (later e.tag).any (has · p) = true)
    (hdeny : ∀ e ∈ es, permsOf st.deny e.tag = .empty) (heveryone : st.everyoneDenied = .empty) :
    EntriesDecoded mask es st
      ((es.flatMap fun e => entryAces isDir isInherit mask (later e.tag) e).foldl
        (decodeStep (aclTypeOf isInherit) everyone) st) := by
  induction es generalizing st with
  | nil => exact ⟨rfl, heveryone, by simp, by simp⟩
  | cons e rest ih =>
    rw [map_cons, nodup_cons] at hnodup
    rw [flatMap_cons, foldl_append]
    obtain ⟨hother, hwho⟩ := hes e (.head _)
    have hentry : EntryDecoded mask e st _ := foldl_entryAces isDir isInherit
      (hlater e (.head _)) hother hwho (hdeny e (.head _)) heveryone
    generalize (entryAces isDir isInherit mask (later e.tag) e).foldl
      (decodeStep (aclTypeOf isInherit) everyone) st = next at hentry
    obtain ⟨hallow, hothers, hnext, hmask, hmaskSet⟩ := hentry
    have hdeny' : ∀ f ∈ rest, permsOf next.deny f.tag = .empty := by
      intro f hf
      rw [hothers f.tag fun heq => hnodup.1 (heq ▸ mem_map_of_mem hf)]
      exact hdeny f (.tail _ hf)
    obtain ⟨hallow', hnext', hmask', hmaskSet'⟩ := ih hnodup.2 (fun e he => hes e (.tail _ he))
      (fun e he => hlater e (.tail _ he)) hdeny' hnext
    refine ⟨?_, hnext', ?_, ?_⟩
    · rw [hallow', hallow, foldl_cons]
    · rw [hmask', hmask, any_cons, Bool.or_assoc]
    · rw [hmaskSet', hmaskSet, any_cons, Bool.or_assoc]

theorem findEntry_foldl_addPerms (hnodup : (es.map AclEntry.tag).Nodup) (acl : List AclEntry)
    (t : AclTag) :
    findEntry (es.foldl (fun acl e => addPerms e.tag (f e) acl) acl) t =
      match findEntry es t with
      | some e => some ⟨t, (permsOf acl t).union (f e)⟩
      | none => findEntry acl t := by
  induction es generalizing acl with
  | nil => rfl
  | cons e rest ih =>
    rw [map_cons, nodup_cons] at hnodup
    rw [foldl_cons, ih hnodup.2, findEntry_cons]
    by_cases h : e.tag = t
    · have hnone : findEntry rest t = none :=
        find?_eq_none.2 fun b hb heq =>
          hnodup.1 (h.trans (of_decide_eq_true heq).symm ▸ mem_map_of_mem hb)
      rw [hnone, if_pos h]
      dsimp only
      rw [findEntry_addPerms, if_pos h.symm, h]
    · rw [if_neg h]
      cases findEntry rest t with
      | none => exact (findEntry_addPerms ..).trans (if_neg (Ne.symm h))
      | some e' => simp only [permsOf_addPerms_ne (Ne.symm h)]

theorem nodup_foldl_addPerms (es : List AclEntry) (h : (acl.map AclEntry.tag).Nodup) :
    ((es.foldl (fun acl e => addPerms e.tag (f e) acl) acl).map AclEntry.tag).Nodup := by
  induction es generalizing acl with
  | nil => exact h
  | cons e rest ih => exact ih (nodup_addPerms h)

namespace PosixAcl

variable (acl : PosixAcl) {e : AclEntry}

def bodyEntries : List AclEntry :=
  acl.classEntries ++ (acl.mask.map fun perms => (⟨.mask, perms⟩ : AclEntry)).toList

theorem entries_eq_body : acl.entries = acl.bodyEntries ++ [⟨.other, acl.other⟩] := by
  rw [entries_eq, bodyEntries, append_assoc]

theorem mem_bodyEntries : e ∈ acl.bodyEntries ↔
    e = ⟨.userObj, acl.userObj⟩ ∨ (∃ u ∈ acl.users, e = ⟨.user u.1, u.2⟩) ∨
      e = ⟨.groupObj, acl.groupObj⟩ ∨ (∃ g ∈ acl.groups, e = ⟨.group g.1, g.2⟩) ∨
      ∃ perms, acl.mask = some perms ∧ e = ⟨.mask, perms⟩ := by
  simp only [bodyEntries, classEntries, cons_append, mem_cons, mem_append,
    List.mem_map, Option.mem_toList, Option.map_eq_some_iff, or_assoc, eq_comm (b := e)]

theorem bodyEntries_ne_other : ∀ e ∈ acl.bodyEntries, e.tag ≠ .other := by
  intro e he
  rcases acl.mem_bodyEntries.1 he with rfl | ⟨u, _, rfl⟩ | rfl | ⟨g, _, rfl⟩ | ⟨m, _, rfl⟩ <;> simp

theorem nodup_entries : (acl.entries.map AclEntry.tag).Nodup := by
  have husers : ((acl.users.map Prod.fst).map user).Nodup :=
    acl.users_distinct.map fun _ _ => user.inj
  have hgroups : ((acl.groups.map Prod.fst).map group).Nodup :=
    acl.groups_distinct.map fun _ _ => group.inj
  rw [List.map_map] at husers hgroups
  unfold entries
  cases acl.mask with
  | none =>
    simp [nodup_append, Function.comp_def] at husers hgroups ⊢
    refine ⟨husers, ⟨hgroups, ?_⟩, ?_⟩
    · rintro _ x _ - rfl
      nofun
    · rintro _ x _ - rfl
      refine ⟨nofun, ?_⟩
      rintro _ (⟨_, _, rfl⟩ | rfl) <;> nofun
  | some m =>
    simp [nodup_append, Function.comp_def] at husers hgroups ⊢
    refine ⟨husers, ⟨hgroups, ?_⟩, ?_⟩
    · rintro _ x _ - rfl
      exact ⟨nofun, nofun⟩
    · rintro _ x _ - rfl
      refine ⟨nofun, ?_⟩
      rintro _ (⟨_, _, rfl⟩ | rfl | rfl) <;> nofun

theorem nodup_bodyEntries : (acl.bodyEntries.map AclEntry.tag).Nodup := by
  have hnodup := acl.nodup_entries
  rw [entries_eq_body, map_append] at hnodup
  exact hnodup.of_append_left

theorem other_mem_laterPerms (hother : tag ≠ .other) (hmask : tag.who ≠ specialMask) :
    acl.other ∈ acl.laterPerms tag := by
  cases tag with
  | userObj | user uid | groupObj | group gid => simp [laterPerms]
  | mask => exact absurd rfl hmask
  | other => exact absurd rfl hother

theorem mask_of_named (h : (acl.bodyEntries.any fun e => !e.tag.special) = true) :
    (acl.bodyEntries.any fun e => e.tag.who = specialMask) = true := by
  obtain ⟨e, he, hspecial⟩ := List.any_eq_true.1 h
  have hnamed : acl.users ≠ [] ∨ acl.groups ≠ [] := by
    rcases acl.mem_bodyEntries.1 he with rfl | ⟨u, hu, rfl⟩ | rfl | ⟨g, hg, rfl⟩ | ⟨m, _, rfl⟩
    · cases hspecial
    · exact .inl (ne_nil_of_mem hu)
    · cases hspecial
    · exact .inr (ne_nil_of_mem hg)
    · cases hspecial
  obtain ⟨m, hm⟩ := Option.isSome_iff_exists.1 (acl.mask_present hnamed)
  refine List.any_eq_true.2 ⟨⟨.mask, m⟩, acl.mem_bodyEntries.2 ?_, decide_eq_true rfl⟩
  exact .inr (.inr (.inr (.inr ⟨m, hm, rfl⟩)))

section Decode

variable (isDir isInherit : Bool)

def acesOf (es : List AclEntry) : List FsalAce :=
  es.flatMap fun e => entryAces isDir isInherit acl.maskPerms (acl.laterPerms e.tag) e

theorem madeFrom_of_mem (h : ace ∈ acl.acesOf isDir isInherit es) :
    ∃ e ∈ es, MadeFrom isInherit e.tag ace := by
  obtain ⟨e, he, hace⟩ := mem_flatMap.1 h
  refine ⟨e, he, ?_⟩
  unfold entryAces at hace
  dsimp only at hace
  split_ifs at hace
  · rw [mem_singleton.1 hace]
    exact madeFrom_allowAce ..
  · rcases mem_pair.1 hace with rfl | rfl
    · exact madeFrom_denyAce ..
    · exact madeFrom_allowAce ..

def otherAce : FsalAce := allowAce isDir isInherit acl.maskPerms ⟨.other, acl.other⟩

theorem acesOf_entries : acl.acesOf isDir isInherit acl.entries =
    acl.acesOf isDir isInherit acl.bodyEntries ++ [acl.otherAce isDir isInherit] := by
  rw [entries_eq_body, acesOf, flatMap_append]
  rfl

theorem everyone_of_aces (h : ∀ e ∈ acl.bodyEntries, e.tag.who ≠ specialEveryone) :
    (acl.acesOf isDir isInherit acl.entries).foldl (everyoneStep (aclTypeOf isInherit))
      ⟨.empty, .empty⟩ = ⟨.empty, acl.other⟩ := by
  have hbody : ∀ (aces : List FsalAce) (everyone : Everyone),
      (∀ ace ∈ aces, ace.who ≠ specialEveryone) →
      aces.foldl (everyoneStep (aclTypeOf isInherit)) everyone = everyone := by
    intro aces everyone haces
    induction aces with
    | nil => rfl
    | cons ace rest ih =>
      rw [foldl_cons, everyoneStep, if_neg fun hand => haces ace (.head _) hand.1]
      exact ih fun ace hace => haces ace (.tail _ hace)
  have hvalid := (madeFrom_allowAce isDir isInherit acl.maskPerms ⟨.other, acl.other⟩).valid
  rw [acesOf_entries, foldl_append, hbody (acl.acesOf isDir isInherit acl.bodyEntries)]
  · rw [foldl_cons, foldl_nil, everyoneStep, if_pos ⟨rfl, hvalid⟩]
    have hperms : (acl.otherAce isDir isInherit).perms = acl.other :=
      eq_of_has fun p => by simp [otherAce, perms_allowAce, unmasked]
    change Everyone.mk .empty (empty.union (diff _ .empty)) = _
    rw [hperms, empty_union]
    congr 1
    exact eq_of_has fun p => by simp
  · intro ace hace
    obtain ⟨e, he, hmade⟩ := acl.madeFrom_of_mem isDir isInherit hace
    exact hmade.who ▸ h e he

def startEntries (allowed : PermSet) : List AclEntry :=
  [⟨.other, allowed⟩, ⟨.userObj, .empty⟩, ⟨.groupObj, .empty⟩]

def decoded (everyone : Everyone) : AclDecode :=
  (acl.acesOf isDir isInherit acl.entries).foldl (decodeStep (aclTypeOf isInherit) everyone)
    ⟨startEntries everyone.allowed, [], .empty, none, false, false⟩

theorem fsalAcl2PosixAcl_aces : ∃ everyone,
    everyone = (acl.acesOf isDir isInherit acl.entries).foldl (everyoneStep (aclTypeOf isInherit))
      ⟨.empty, .empty⟩ ∧
    fsalAcl2PosixAcl (acl.acesOf isDir isInherit acl.entries) (aclTypeOf isInherit) =
      some (if !(acl.decoded isDir isInherit everyone).maskSet &&
          (acl.decoded isDir isInherit everyone).mask then
        aclCalcMask (acl.decoded isDir isInherit everyone).allow
      else (acl.decoded isDir isInherit everyone).allow) := by
  refine ⟨_, rfl, ?_⟩
  unfold fsalAcl2PosixAcl
  rw [if_neg]
  · rfl
  · -- The ace of ACL_OTHER is to be inherited if the others are.
    rintro ⟨htype, hall⟩
    have hvalid := (madeFrom_allowAce isDir isInherit acl.maskPerms ⟨.other, acl.other⟩).valid
    have hmem : acl.otherAce isDir isInherit ∈ acl.acesOf isDir isInherit acl.entries := by
      simp [acesOf_entries]
    have hnot := List.all_eq_true.1 hall _ hmem
    rw [htype] at hvalid
    rw [otherAce, hvalid] at hnot
    cases hnot

theorem findEntry_startEntries (h : findEntry acl.bodyEntries t = none) :
    findEntry (startEntries acl.other) t =
      (findEntry [⟨.other, acl.other⟩] t).map fun e =>
        ⟨t, returnedPerms acl.maskPerms e⟩ := by
  have hnone := find?_eq_none.1 h
  cases t with
  | userObj => exact absurd (decide_eq_true rfl) (hnone _ (acl.mem_bodyEntries.2 (.inl rfl)))
  | groupObj =>
    exact absurd (decide_eq_true rfl) (hnone _ (acl.mem_bodyEntries.2 (.inr (.inr (.inl rfl)))))
  | user uid => rfl
  | group gid => rfl
  | mask => rfl
  | other => rfl

theorem decoded_fields (h : ∀ e ∈ acl.bodyEntries, e.tag.who ≠ specialEveryone) :
    let st := acl.decoded isDir isInherit ⟨.empty, acl.other⟩
    st.allow = acl.bodyEntries.foldl
        (fun allow e => addPerms e.tag (returnedPerms acl.maskPerms e) allow)
        (startEntries acl.other) ∧
      st.mask = (acl.bodyEntries.any fun e => !e.tag.special) ∧
      st.maskSet = acl.bodyEntries.any fun e => e.tag.who = specialMask := by
  unfold decoded
  rw [acesOf_entries, foldl_append, foldl_cons, foldl_nil]
  have hbody : EntriesDecoded acl.maskPerms acl.bodyEntries
      ⟨startEntries acl.other, [], .empty, none, false, false⟩
      ((acl.acesOf isDir isInherit acl.bodyEntries).foldl
        (decodeStep (aclTypeOf isInherit) ⟨.empty, acl.other⟩) _) :=
    foldl_entries isDir isInherit acl.maskPerms acl.nodup_bodyEntries
      (fun e he => ⟨acl.bodyEntries_ne_other e he, h e he⟩)
      (fun e he p hp hmask => List.any_eq_true.2
        ⟨_, acl.other_mem_laterPerms (acl.bodyEntries_ne_other e he) hmask, hp⟩)
      (fun _ _ => rfl) rfl
  obtain ⟨hallow, hmask, hmaskSet⟩ := decodeStep_everyone ⟨.empty, acl.other⟩
    (madeFrom_allowAce isDir isInherit acl.maskPerms ⟨.other, acl.other⟩) rfl
    ((acl.acesOf isDir isInherit acl.bodyEntries).foldl
      (decodeStep (aclTypeOf isInherit) ⟨.empty, acl.other⟩)
      ⟨startEntries acl.other, [], .empty, none, false, false⟩)
  refine ⟨hallow.trans hbody.allow, hmask.trans ?_, hmaskSet.trans ?_⟩
  · exact (Bool.or_false _).trans (hbody.mask.trans (Bool.false_or _))
  · exact hbody.maskSet.trans (Bool.false_or _)

theorem decoded_perm (h : ∀ e ∈ acl.bodyEntries, e.tag.who ≠ specialEveryone) : ∃ out,
    fsalAcl2PosixAcl (acl.acesOf isDir isInherit acl.entries) (aclTypeOf isInherit) = some out ∧
      out.Perm (acl.entries.map fun e => ⟨e.tag, returnedPerms acl.maskPerms e⟩) := by
  obtain ⟨everyone, heveryone, hout⟩ := acl.fsalAcl2PosixAcl_aces isDir isInherit
  rw [acl.everyone_of_aces isDir isInherit h] at heveryone
  subst heveryone
  obtain ⟨hallow, hmask, hmaskSet⟩ := acl.decoded_fields isDir isInherit h
  have hno : (!(acl.decoded isDir isInherit ⟨.empty, acl.other⟩).maskSet &&
      (acl.decoded isDir isInherit ⟨.empty, acl.other⟩).mask) = false := by
    rw [hmask, hmaskSet]
    cases hnamed : acl.bodyEntries.any fun e => !e.tag.special with
    | false => simp
    | true => simp only [acl.mask_of_named hnamed, Bool.not_true, Bool.false_and]
  rw [hno, hallow, if_neg Bool.false_ne_true] at hout
  have hstart : ((startEntries acl.other).map AclEntry.tag).Nodup := by simp [startEntries]
  refine ⟨_, hout, perm_of_findEntry (nodup_foldl_addPerms _ hstart) ?_ fun t => ?_⟩
  · rw [List.map_map]
    exact acl.nodup_entries
  · rw [findEntry_foldl_addPerms acl.nodup_bodyEntries, findEntry_map_perms, entries_eq_body,
      findEntry_append]
    cases hfind : findEntry acl.bodyEntries t with
    | none => exact acl.findEntry_startEntries hfind
    | some e =>
      have htag : e.tag = t := by simpa using find?_some hfind
      have hne : t ≠ .other := htag ▸ acl.bodyEntries_ne_other e (mem_of_find?_eq_some hfind)
      have hempty : permsOf (startEntries acl.other) t = .empty := by
        cases t <;> first | rfl | exact absurd rfl hne
      dsimp only
      rw [hempty, empty_union]
      rfl

theorem decoded_lost (hother : tag ≠ .other) (hwho : tag.who = specialEveryone) :
    ∃ out, fsalAcl2PosixAcl (acl.acesOf isDir isInherit acl.entries) (aclTypeOf isInherit) =
      some out ∧ tag ∉ out.map AclEntry.tag := by
  obtain ⟨everyone, -, hout⟩ := acl.fsalAcl2PosixAcl_aces isDir isInherit
  have hstep : ∀ (aces : List FsalAce) (st : AclDecode),
      (∀ ace ∈ aces, ∃ t, MadeFrom isInherit t ace) → tag ∉ st.allow.map AclEntry.tag →
      tag ∉ (aces.foldl (decodeStep (aclTypeOf isInherit) everyone) st).allow.map
        AclEntry.tag := by
    intro aces
    induction aces with
    | nil => exact fun st _ h => h
    | cons ace rest ih =>
      intro st hmade hst
      refine ih _ (fun ace hace => hmade ace (.tail _ hace)) ?_
      obtain ⟨t, ht⟩ := hmade ace (.head _)
      by_cases heq : t.who = specialEveryone
      · rwa [(decodeStep_everyone everyone ht heq st).1]
      · -- The ace is for another ID, and so is the entry it adds to.
        have hother' : t ≠ .other := fun h => heq (h ▸ rfl)
        rw [decodeStep_madeFrom everyone ht hother' heq]
        exact fun hmem => (mem_tags_addPerms.1 hmem).elim (fun h => heq (h ▸ hwho)) hst
  have hlost : tag ∉ (acl.decoded isDir isInherit everyone).allow.map AclEntry.tag := by
    refine hstep _ _ (fun ace hace => ?_) ?_
    · obtain ⟨e, -, hmade⟩ := acl.madeFrom_of_mem isDir isInherit hace
      exact ⟨e.tag, hmade⟩
    · cases tag <;> simp_all [startEntries, who, specialOwner, specialGroup, specialEveryone]
  refine ⟨_, hout, fun hmem => hlost ?_⟩
  split_ifs at hmem
  · have hmask : tag ≠ .mask := by
      rintro rfl
      cases hwho
    obtain ⟨e, he, rfl⟩ := List.mem_map.1 hmem
    rcases mem_append.1 he with he | he
    · exact mem_map_of_mem (mem_of_mem_filter he)
    · exact absurd (congrArg AclEntry.tag (mem_singleton.1 he)) hmask
  · exact hmem

end Decode

/-- No named entry has the number of EVERYONE@, and one that has the number of the mask has only
permissions that the mask leaves. -/
def NamesApart : Prop := ∀ e ∈ acl.entries, e.tag.special = false →
  e.tag.who ≠ specialEveryone ∧
    (e.tag.who = specialMask → ∀ p, e.perms.has p = true → acl.maskPerms.has p = true)

theorem special_who (hother : tag ≠ .other) (hspecial : tag.special = true) :
    tag.who ≠ specialEveryone := by
  cases tag <;> simp_all [special, who, specialOwner, specialGroup, specialMask,
    specialEveryone]

theorem map_perms_perm_iff (f : AclEntry → PermSet) :
    (acl.entries.map fun e => ⟨e.tag, f e⟩).Perm acl.entries ↔
      ∀ e ∈ acl.entries, f e = e.perms := by
  constructor
  · intro hperm e he
    obtain ⟨e', he', heq⟩ := List.mem_map.1 (hperm.mem_iff.2 he)
    have htag : e'.tag = e.tag := by rw [← heq]
    have hsame : some e' = some e := by
      rw [← findEntry_of_mem acl.nodup_entries he', htag, findEntry_of_mem acl.nodup_entries he]
    cases hsame
    exact congrArg (fun e : AclEntry => e.perms) heq
  · intro hkeep
    have hmap : (acl.entries.map fun e => (⟨e.tag, f e⟩ : AclEntry)) = acl.entries :=
      (map_congr_left fun e he => by rw [hkeep e he]; rfl).trans (map_id _)
    rw [hmap]

theorem returnedPerms_eq_iff (he : e ∈ acl.entries) :
    returnedPerms acl.maskPerms e = e.perms ↔ (e.tag.special = false → e.tag.who = specialMask →
      ∀ p, e.perms.has p = true → acl.maskPerms.has p = true) := by
  by_cases hwho : e.tag.who = specialMask
  · have hunmasked : e.tag.unmasked = false := by
      cases htag : e.tag <;> simp [htag, who, specialOwner, specialMask, specialEveryone,
        unmasked] at hwho ⊢
    have hiff : returnedPerms acl.maskPerms e = e.perms ↔
        ∀ p, e.perms.has p = true → acl.maskPerms.has p = true := by
      constructor
      · intro heq p hp
        have hhas := has_returnedPerms acl.maskPerms e p
        rw [heq, if_pos hwho, hp, hunmasked] at hhas
        simpa using hhas.symm
      · intro hmask
        apply eq_of_has
        intro p
        rw [has_returnedPerms, if_pos hwho, hunmasked]
        cases hp : e.perms.has p with
        | false => rfl
        | true => simp [hmask p hp]
    rw [hiff]
    refine ⟨fun h _ _ => h, fun h => ?_⟩
    cases hspecial : e.tag.special with
    | false => exact h hspecial hwho
    | true =>
      -- The entry is that of the mask.
      have hmask : acl.maskPerms = e.perms := by
        rw [entries_eq_body, mem_append, mem_bodyEntries, mem_singleton] at he
        rcases he with (rfl | ⟨u, _, rfl⟩ | rfl | ⟨g, _, rfl⟩ | ⟨m, hm, rfl⟩) | rfl
        · cases hwho
        · cases hspecial
        · cases hwho
        · cases hspecial
        · rw [maskPerms, hm, Option.getD_some]
        · cases hwho
      exact fun p hp => hmask ▸ hp
  · exact ⟨fun _ _ h => absurd h hwho, fun _ => if_neg hwho⟩

end PosixAcl

open PosixAcl

/-- A POSIX ACL comes back with the same entries and permissions if and only if no named entry is
taken for EVERYONE@ or, with a masked permission, for the mask. -/
theorem posix_acl_round_trip_iff (acl : PosixAcl) (isDir isInherit : Bool) :
    ∃ aces, posixAcl2FsalAcl acl.entries isDir isInherit = some aces ∧
      ∃ out, fsalAcl2PosixAcl aces (aclTypeOf isInherit) = some out ∧
        (out.Perm acl.entries ↔ acl.NamesApart) := by
  refine ⟨_, acl.posixAcl2FsalAcl_eq isDir isInherit, ?_⟩
  by_cases h : ∀ e ∈ acl.bodyEntries, e.tag.who ≠ specialEveryone
  · obtain ⟨out, hout, hperm⟩ := acl.decoded_perm isDir isInherit h
    refine ⟨out, hout, ?_⟩
    have hwho : ∀ e ∈ acl.entries, e.tag.special = false → e.tag.who ≠ specialEveryone := by
      intro e he hspecial
      rw [entries_eq_body] at he
      rcases mem_append.1 he with he | he
      · exact h e he
      · rw [mem_singleton.1 he] at hspecial
        cases hspecial
    calc out.Perm acl.entries
        ↔ ∀ e ∈ acl.entries, returnedPerms acl.maskPerms e = e.perms := by
          rw [← acl.map_perms_perm_iff]
          exact ⟨hperm.symm.trans, hperm.trans⟩
      _ ↔ acl.NamesApart := by
          refine forall₂_congr fun e he => ?_
          rw [acl.returnedPerms_eq_iff he]
          exact ⟨fun hkeep hspecial => ⟨hwho e he hspecial, hkeep hspecial⟩,
            fun hapart hspecial => (hapart hspecial).2⟩
  · push Not at h
    obtain ⟨e, he, hwho⟩ := h
    have hother := acl.bodyEntries_ne_other e he
    obtain ⟨out, hout, hlost⟩ := acl.decoded_lost isDir isInherit hother hwho
    have hmem : e ∈ acl.entries := acl.entries_eq_body ▸ mem_append_left _ he
    refine ⟨out, hout, fun hperm => ?_, fun hapart => ?_⟩
    · exact absurd ((hperm.map AclEntry.tag).mem_iff.2 (mem_map_of_mem hmem)) hlost
    · have hspecial : e.tag.special = false :=
        Bool.eq_false_iff.2 fun hspecial => special_who hother hspecial hwho
      exact absurd hwho (hapart e hmem hspecial).1

def aclNamingThree : PosixAcl where
  userObj := ⟨true, true, false⟩
  users := [(3, ⟨true, true, true⟩)]
  groupObj := ⟨true, false, false⟩
  groups := []
  mask := some ⟨true, true, true⟩
  other := ⟨false, false, false⟩
  users_distinct := by decide
  groups_distinct := by decide
  mask_present := fun _ => rfl

def aclWithoutThree : List AclEntry :=
  [⟨.other, ⟨true, true, true⟩⟩, ⟨.userObj, ⟨true, true, false⟩⟩, ⟨.groupObj, ⟨true, true, true⟩⟩,
    ⟨.mask, ⟨true, true, true⟩⟩]

theorem named_three_becomes_other :
    ∃ aces, posixAcl2FsalAcl aclNamingThree.entries false false = some aces ∧
      fsalAcl2PosixAcl aces .access = some aclWithoutThree ∧
      ¬ aclWithoutThree.Perm aclNamingThree.entries := by
  have hback : (posixAcl2FsalAcl aclNamingThree.entries false false).bind
      (fun aces => fsalAcl2PosixAcl aces .access) = some aclWithoutThree := by
    decide +kernel
  obtain ⟨aces, haces, hout⟩ := Option.bind_eq_some_iff.1 hback
  exact ⟨aces, haces, hout, by decide⟩

end EdgeComputing.Fsal
