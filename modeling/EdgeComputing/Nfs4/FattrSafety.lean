import EdgeComputing.Nfs4.FattrDecoders
import Mathlib.Tactic.FinCases

/-!
Whether a client's attributes are processed safely. `nfs4_Fattr_Supported` does not check for the
end of the attribute table, and `nfs4_Fattr_To_FSAL_attr` calls the null pointers of the numbers
without an entry and hands no place for the numbers about the file system to their decoders.
-/

namespace EdgeComputing.Nfs4

open List Option Library Library.Xdr Attr DecodeState

theorem accessLoop_ok (access : BitVec 32) (attrs : List Nat) :
    ∃ b, accessLoop access attrs = .ok b := by
  induction attrs with
  | nil => exact ⟨true, rfl⟩
  | cons attr rest ih =>
    unfold accessLoop
    by_cases hgt : xattrSupport < attr
    · rw [if_pos hgt]
      exact ih
    · obtain ⟨dent, hdent⟩ := fattr4Entry_of_le (Nat.le_of_not_lt hgt)
      rw [if_neg hgt, hdent]
      dsimp only
      split_ifs
      · exact ⟨false, rfl⟩
      · exact ih

variable {attrs : List Nat} {fsalSupported : BitVec 64}

theorem accessLoop_true {access : BitVec 32} (h : accessLoop access attrs = .ok true) :
    ∀ attr ∈ attrs, ∀ dent, fattr4Entry attr = .ok dent → dent.access &&& access = access := by
  induction attrs with
  | nil => exact fun _ h => nomatch h
  | cons attr rest ih =>
    unfold accessLoop at h
    intro a ha dent hdent
    by_cases hgt : xattrSupport < attr
    · rw [if_pos hgt] at h
      rcases mem_cons.1 ha with rfl | ha
      · exact absurd (le_of_fattr4Entry hdent) (Nat.not_le.2 hgt)
      · exact ih h a ha dent hdent
    · obtain ⟨dent', hdent'⟩ := fattr4Entry_of_le (Nat.le_of_not_lt hgt)
      rw [if_neg hgt, hdent'] at h
      dsimp only at h
      by_cases haccess : dent'.access &&& access = access
      · rw [if_neg (not_not.2 haccess)] at h
        rcases mem_cons.1 ha with rfl | ha
        · rw [hdent] at hdent'
          cases hdent'
          exact haccess
        · exact ih h a ha dent hdent
      · rw [if_pos haccess] at h
        cases h

theorem supportedLoop_true (h : supportedLoop fsalSupported attrs = .ok true) :
    ∀ attr ∈ attrs, atribSupported attr fsalSupported = .ok true := by
  induction attrs with
  | nil => exact fun _ h => nomatch h
  | cons attr rest ih =>
    unfold supportedLoop at h
    split at h
    · cases h
    · cases h
    · next hattr =>
        intro a ha
        rcases mem_cons.1 ha with rfl | ha
        · exact hattr
        · exact ih h a ha

def TableSafe (fsalSupported : BitVec 64) (attrs : List Nat) : Prop :=
  (∃ attr ∈ attrs, xattrSupport < attr) →
    ∃ attr ∈ attrs, atribSupported attr fsalSupported = .ok false

variable {attr : Nat} {decode : Decoder}

theorem atribSupported_of_lt (h : xattrSupport < attr) (mask : BitVec 64) :
    atribSupported attr mask = .error .beyondTable := by
  unfold atribSupported
  rw [fattr4Entry_of_lt h]
  rfl

theorem supportedLoop_ok_iff (fsalSupported : BitVec 64) (hsorted : attrs.Pairwise (· < ·)) :
    (∃ b, supportedLoop fsalSupported attrs = .ok b) ↔ TableSafe fsalSupported attrs := by
  induction attrs with
  | nil => exact ⟨fun _ ⟨_, h, _⟩ => (nomatch h), fun _ => ⟨true, rfl⟩⟩
  | cons attr rest ih =>
    rw [pairwise_cons] at hsorted
    unfold supportedLoop
    by_cases hgt : xattrSupport < attr
    · -- All that follows is beyond the table as well.
      rw [atribSupported_of_lt hgt]
      refine ⟨fun ⟨_, h⟩ => (nomatch h), fun hsafe => ?_⟩
      obtain ⟨a, ha, hfalse⟩ := hsafe ⟨attr, .head _, hgt⟩
      have hlt : xattrSupport < a := by
        rcases mem_cons.1 ha with rfl | ha
        · exact hgt
        · exact Nat.lt_trans hgt (hsorted.1 a ha)
      rw [atribSupported_of_lt hlt] at hfalse
      cases hfalse
    · obtain ⟨dent, hdent⟩ := fattr4Entry_of_le (Nat.le_of_not_lt hgt)
      cases hattr : atribSupported attr fsalSupported with
      | error fault =>
        rw [atribSupported, hdent] at hattr
        cases hattr
      | ok b =>
        cases b with
        | false =>
          exact ⟨fun _ _ => ⟨attr, .head _, hattr⟩, fun _ => ⟨false, rfl⟩⟩
        | true =>
          dsimp only
          rw [ih hsorted.2]
          constructor
          · rintro hsafe ⟨a, ha, hlt⟩
            rcases mem_cons.1 ha with rfl | ha
            · exact absurd hlt hgt
            · obtain ⟨a', ha', hfalse⟩ := hsafe ⟨a, ha, hlt⟩
              exact ⟨a', .tail _ ha', hfalse⟩
          · rintro hsafe ⟨a, ha, hlt⟩
            obtain ⟨a', ha', hfalse⟩ := hsafe ⟨a, .tail _ ha, hlt⟩
            rcases mem_cons.1 ha' with rfl | ha'
            · rw [hattr] at hfalse
              cases hfalse
            · exact ⟨a', ha', hfalse⟩

def fsInfoAttrs : List Nat :=
  [filesAvail, filesFree, filesTotal, maxread, maxwrite, spaceAvail,
    spaceFree, spaceTotal]

def missingAttrs : List Nat := [77, 78, 79, 81]

theorem missingAttrs_le : ∀ attr ∈ missingAttrs, attr ≤ xattrSupport := by decide

theorem fsInfoAttrs_le : ∀ attr ∈ fsInfoAttrs, attr ≤ xattrSupport := by decide

theorem fattr4Decode_fsInfo (h : attr ∈ fsInfoAttrs) :
    ∃ set, fattr4Decode attr = some (decodeFsInfo set) := by
  fin_cases h <;> exact ⟨_, rfl⟩

theorem fattr4Decode_missing : fattr4Decode attr = none ↔ attr ∈ missingAttrs := by
  constructor
  · intro h
    unfold fattr4Decode at h
    split at h <;> first | decide | cases h
  · intro h
    fin_cases h <;> rfl

theorem fattr4Decode_safe (h : fattr4Decode attr = some decode) (hno : attr ∉ fsInfoAttrs) :
    decode.Safe := by
  unfold fattr4Decode at h
  split at h
  all_goals cases h
  · exact takes_supportedAttrs.safe
  · exact takes_type.safe
  · exact takes_change.safe
  · exact takes_filesize.safe
  · exact takes_fsid.safe
  · exact takes_rdattrError.safe
  · exact takes_acl.safe
  · exact safe_filehandle
  · exact takes_fileid.safe
  · exact absurd (by decide) hno
  · exact absurd (by decide) hno
  · exact absurd (by decide) hno
  · exact absurd (by decide) hno
  · exact absurd (by decide) hno
  · exact takes_mode.safe
  · exact takes_numlinks.safe
  · exact takes_owner.safe
  · exact takes_group.safe
  · exact takes_rawdev.safe
  · exact absurd (by decide) hno
  · exact absurd (by decide) hno
  · exact absurd (by decide) hno
  · exact takes_spaceused.safe
  · exact takes_accesstime.safe
  · exact takes_accesstimeset.safe
  · exact takes_createtime.safe
  · exact takes_metatime.safe
  · exact takes_modifytime.safe
  · exact takes_modifytimeset.safe
  · exact takes_secLabel.safe
  · exact takes_noop.safe

variable {st : DecodeState}

theorem decodeFsInfo_ok_iff (set : BitVec 64 → DynamicFsInfo → DynamicFsInfo) (env : DecodeEnv)
    (hinfo : st.args.dynamicinfo = none) :
    st.xdr.rest.length < 8 ∧ decodeFsInfo set env st = .ok (.failed, st) ∨
      8 ≤ st.xdr.rest.length ∧ decodeFsInfo set env st = .error .nullPointer := by
  unfold decodeFsInfo decodeWith
  cases hu64 : st.xdr.u64 with
  | none => exact .inl ⟨Stream.u64_eq_none.1 hu64, rfl⟩
  | some vt =>
    have hle : 8 ≤ st.xdr.rest.length := by
      refine Nat.le_of_not_lt fun hlt => ?_
      rw [Stream.u64_eq_none.2 hlt] at hu64
      cases hu64
    refine .inr ⟨hle, ?_⟩
    obtain ⟨v, xdr⟩ := vt
    dsimp only
    rw [DecodeArgs.withDynamicinfo, hinfo]
    rfl

/-- No attribute that is reached by decoding those before it lacks an entry in the table, and one
about the file system is reached only with fewer than eight bytes left. -/
def NullSafe (env : DecodeEnv) (attrs : List Nat) (st : DecodeState) : Prop :=
  ∀ before attr after st', attrs = before ++ attr :: after → Decodes env before st st' →
    attr ∉ missingAttrs ∧ (attr ∈ fsInfoAttrs → st'.xdr.rest.length < 8)

variable {env : DecodeEnv} {st' : DecodeState}

theorem nullSafe_cons {rest : List Nat} :
    NullSafe env (attr :: rest) st ↔
      (attr ∉ missingAttrs ∧ (attr ∈ fsInfoAttrs → st.xdr.rest.length < 8)) ∧
        ∀ st', DecodesOne env attr st st' → NullSafe env rest st' := by
  constructor
  · intro h
    refine ⟨h [] attr rest st rfl (.nil st), fun st' hone before a after st'' heq hdec => ?_⟩
    exact h (attr :: before) a after st'' (by rw [heq]; rfl) (.cons hone hdec)
  · rintro ⟨hfirst, hrest⟩ before a after st' heq hdec
    cases hdec with
    | nil =>
      cases heq
      exact hfirst
    | cons hone hdec =>
      cases heq
      exact hrest _ hone _ _ _ _ rfl hdec

theorem addMask_ready {st : DecodeState} {mask : BitVec 64}
    (h : st.args.attrs.isSome = true ∧ st.xdr.data.length + 4 < 2 ^ 32 ∧
      st.args.dynamicinfo = none) :
    (st.addMask mask).args.attrs.isSome = true ∧
      (st.addMask mask).xdr.data.length + 4 < 2 ^ 32 ∧
      (st.addMask mask).args.dynamicinfo = none := by
  refine ⟨?_, h.2⟩
  rw [addMask, isSome_map]
  exact h.1

theorem decodeLoop_ok_iff (env : DecodeEnv) (attrs : List Nat) (st : DecodeState)
    (hready : st.args.attrs.isSome = true ∧ st.xdr.data.length + 4 < 2 ^ 32 ∧
      st.args.dynamicinfo = none) :
    (∃ r, decodeLoop env attrs st = .ok r) ↔ NullSafe env attrs st := by
  induction attrs generalizing st with
  | nil =>
    refine ⟨fun _ before _ _ _ heq => ?_, fun _ => ⟨_, rfl⟩⟩
    cases before <;> cases heq
  | cons attr rest ih =>
    rw [nullSafe_cons]
    unfold decodeLoop
    by_cases hgt : xattrSupport < attr
    · -- No attribute beyond the table is decoded.
      rw [if_pos hgt]
      refine ⟨fun _ => ⟨⟨?_, ?_⟩, ?_⟩, fun _ => ⟨_, rfl⟩⟩
      · exact fun hmem => absurd (missingAttrs_le attr hmem) (Nat.not_le.2 hgt)
      · exact fun hmem => absurd (fsInfoAttrs_le attr hmem) (Nat.not_le.2 hgt)
      · intro st' hone
        cases hone with
        | success _ hdent _ | successExp _ hdent _ =>
          exact absurd (le_of_fattr4Entry hdent) (Nat.not_le.2 hgt)
    rw [if_neg hgt]
    obtain ⟨dent, hdent⟩ := fattr4Entry_of_le (Nat.le_of_not_lt hgt)
    cases hdecode : fattr4Decode attr with
    | none =>
      refine ⟨?_, fun h => absurd (fattr4Decode_missing.1 hdecode) h.1.1⟩
      rintro ⟨_, h⟩
      cases h
    | some decode =>
      have hmissing : attr ∉ missingAttrs := fun hmem => by
        rw [fattr4Decode_missing.2 hmem] at hdecode
        cases hdecode
      rw [hdent]
      dsimp only
      by_cases hinfo : attr ∈ fsInfoAttrs
      · obtain ⟨set, hset⟩ := fattr4Decode_fsInfo hinfo
        rw [hdecode] at hset
        cases hset
        rcases decodeFsInfo_ok_iff set env hready.2.2 with ⟨hlt, hres⟩ | ⟨hge, hres⟩
        · rw [hres]
          refine ⟨fun _ => ⟨⟨hmissing, fun _ => hlt⟩, fun st' h => ?_⟩, fun _ => ⟨_, rfl⟩⟩
          obtain ⟨_, -, ⟨h, -⟩ | ⟨h, -⟩⟩ := h.inv hdecode hres <;> cases h
        · rw [hres]
          refine ⟨?_, fun h => absurd (h.1.2 hinfo) (Nat.not_lt.2 hge)⟩
          rintro ⟨_, h⟩
          cases h
      · have hfirst : attr ∉ missingAttrs ∧ (attr ∈ fsInfoAttrs → st.xdr.rest.length < 8) :=
          ⟨hmissing, fun h => absurd h hinfo⟩
        obtain ⟨res, st1, hres, hkept, hdata⟩ :=
          fattr4Decode_safe hdecode hinfo env st hready.1 hready.2.1
        have hready1 : st1.args.attrs.isSome = true ∧ st1.xdr.data.length + 4 < 2 ^ 32 ∧
            st1.args.dynamicinfo = none :=
          ⟨hkept.isSome hready.1, hdata ▸ hready.2.1, hkept.dynamicinfo.trans hready.2.2⟩
        rw [hres]
        have hstop : res ≠ .success → res ≠ .successExp →
            ∀ st', DecodesOne env attr st st' → NullSafe env rest st' := by
          intro hs hexp st' h
          obtain ⟨_, -, ⟨h, -⟩ | ⟨h, -⟩⟩ := h.inv hdecode hres
          · exact absurd h hs
          · exact absurd h hexp
        cases res with
        | success =>
          dsimp only
          rw [ih _ (addMask_ready hready1)]
          refine ⟨fun h => ⟨hfirst, fun st' hst' => ?_⟩,
            fun h => h.2 _ (.success hdecode hdent hres)⟩
          obtain ⟨dent', hdent', ⟨-, rfl⟩ | ⟨h', -⟩⟩ := hst'.inv hdecode hres
          · cases hdent.symm.trans hdent'
            exact h
          · cases h'
        | successExp =>
          dsimp only
          rw [ih _ (addMask_ready hready1)]
          refine ⟨fun h => ⟨hfirst, fun st' hst' => ?_⟩,
            fun h => h.2 _ (.successExp hdecode hdent hres)⟩
          obtain ⟨dent', hdent', ⟨h', -⟩ | ⟨-, rfl⟩⟩ := hst'.inv hdecode hres
          · cases h'
          · cases hdent.symm.trans hdent'
            exact h
        | noop | failed | badowner =>
          exact ⟨fun _ => ⟨hfirst, hstop (by simp) (by simp)⟩, fun _ => ⟨_, rfl⟩⟩

def settableAttrs : List Nat :=
  [size, acl, mode, owner, ownerGroup, timeAccessSet,
    timeModifySet, secLabel]

theorem settable_of_entry : ∀ attr < 83, ∀ dent, fattr4Entry attr = .ok dent →
    dent.supported = true → dent.access &&& attrWrite = attrWrite → attr ∈ settableAttrs := by
  have hall : ∀ attr < 83, (fattr4tab[attr]?).all fun dent =>
      !(dent.supported && decide (dent.access &&& attrWrite = attrWrite)) ||
        decide (attr ∈ settableAttrs) := by
    decide +kernel
  intro attr hlt dent hdent hsupported haccess
  have h := hall attr hlt
  unfold fattr4Entry at hdent
  split at hdent
  · cases hdent
  · next hget =>
      cases hdent
      rw [hget] at h
      simpa [hsupported, haccess] using h

/-- The mask that an attribute adds to `valid_mask`: a set-to-server time has one of its own. -/
def maskOf (attr : Nat) (piece : List Byte) : BitVec 64 :=
  match fattr4tab[attr]? with
  | none => 0
  | some dent =>
    if (attr = timeAccessSet ∨ attr = timeModifySet) ∧ piece = u32Bytes 0 then
      dent.expAttrmask
    else dent.attrmask

theorem maskOf_eq {dent : Fattr4Dent} (h : fattr4Entry attr = .ok dent) (piece : List Byte) :
    maskOf attr piece =
      if (attr = timeAccessSet ∨ attr = timeModifySet) ∧ piece = u32Bytes 0 then
        dent.expAttrmask
      else dent.attrmask := by
  unfold fattr4Entry at h
  unfold maskOf
  split at h
  · cases h
  · next hget =>
      cases h
      simp only [hget]

def ExpOnlyFor (attr : Nat) (res : FattrXdrResult) (piece : List Byte) : Prop :=
  (res = .successExp →
    (attr = timeAccessSet ∨ attr = timeModifySet) ∧ piece = u32Bytes 0) ∧
  (res = .success →
    ¬ ((attr = timeAccessSet ∨ attr = timeModifySet) ∧ piece = u32Bytes 0))

theorem Decoder.Takes.mono {r r' : FattrXdrResult → List Byte → Prop} (h : decode.Takes r)
    (himp : ∀ res piece, r res piece → r' res piece) : decode.Takes r' := by
  intro env st hattrs hlen
  obtain ⟨res, st', piece, hst', hkept, htook, hr⟩ := h env st hattrs hlen
  exact ⟨res, st', piece, hst', hkept, htook, himp res piece hr⟩

theorem settable_takes (h : attr ∈ settableAttrs) :
    ∃ decode, fattr4Decode attr = some decode ∧ decode.Takes (ExpOnlyFor attr) := by
  have hplain : ¬ (attr = timeAccessSet ∨ attr = timeModifySet) →
      ∀ res piece, NotExp res piece → ExpOnlyFor attr res piece :=
    fun hno _ _ hres => ⟨fun heq => absurd heq hres, fun _ hand => hno hand.1⟩
  have hset : (attr = timeAccessSet ∨ attr = timeModifySet) →
      ∀ res piece, ServerTime res piece → ExpOnlyFor attr res piece :=
    fun htime _ _ hres => ⟨fun heq => ⟨htime, hres.1 heq⟩, fun heq hand => hres.2 heq hand.2⟩
  fin_cases h
  · exact ⟨_, rfl, takes_filesize.mono (hplain (by decide))⟩
  · exact ⟨_, rfl, takes_acl.mono (hplain (by decide))⟩
  · exact ⟨_, rfl, takes_mode.mono (hplain (by decide))⟩
  · exact ⟨_, rfl, takes_owner.mono (hplain (by decide))⟩
  · exact ⟨_, rfl, takes_group.mono (hplain (by decide))⟩
  · exact ⟨_, rfl, takes_accesstimeset.mono (hset (by decide))⟩
  · exact ⟨_, rfl, takes_modifytimeset.mono (hset (by decide))⟩
  · exact ⟨_, rfl, takes_secLabel.mono (hplain (by decide))⟩

def DecodeState.validMask (st : DecodeState) : Option (BitVec 64) :=
  st.args.attrs.map FsalAttrlist.validMask

theorem validMask_addMask (st : DecodeState) (mask : BitVec 64) :
    (st.addMask mask).validMask = st.validMask.map (· ||| mask) := by
  rw [addMask, validMask, validMask, Option.map_map,
    Option.map_map]
  rfl

theorem decodesOne_settable (hattr : attr ∈ settableAttrs) (hready : st.args.attrs.isSome = true)
    (hlen : st.xdr.data.length + 4 < 2 ^ 32) (h : DecodesOne env attr st st') :
    ∃ piece, st.xdr.Took piece st'.xdr ∧ st'.args.attrs.isSome = true ∧
      st'.validMask = st.validMask.map (· ||| maskOf attr piece) := by
  obtain ⟨decode, hdecode, htakes⟩ := settable_takes hattr
  obtain ⟨res, st1, piece, hst1, hkept, htook, hexp⟩ := htakes env st hready hlen
  have hsome : ∀ mask, (st1.addMask mask).args.attrs.isSome = true := fun mask => by
    rw [addMask, isSome_map]
    exact hkept.isSome hready
  have hvalid : st1.validMask = st.validMask := hkept.validMask
  obtain ⟨dent, hdent, ⟨rfl, rfl⟩ | ⟨rfl, rfl⟩⟩ := h.inv hdecode hst1
  · refine ⟨piece, htook, hsome _, ?_⟩
    rw [validMask_addMask, hvalid, maskOf_eq hdent, if_neg (hexp.2 rfl)]
  · refine ⟨piece, htook, hsome _, ?_⟩
    rw [validMask_addMask, hvalid, maskOf_eq hdent, if_pos (hexp.1 rfl)]

structure Consumed (attrs : List Nat) (vals : List Byte) (mask : BitVec 64)
    (pieces : List (Nat × List Byte)) : Prop where
  attrs : pieces.map Prod.fst = attrs
  vals : pieces.flatMap Prod.snd = vals
  mask : mask = pieces.foldl (fun mask p => mask ||| maskOf p.1 p.2) 0

theorem decodes_settable (hattrs : ∀ attr ∈ attrs, attr ∈ settableAttrs)
    (hready : st.args.attrs.isSome = true) (hlen : st.xdr.data.length + 4 < 2 ^ 32)
    (h : Decodes env attrs st st') :
    ∃ pieces : List (Nat × List Byte), pieces.map Prod.fst = attrs ∧
      st.xdr.Took (pieces.flatMap Prod.snd) st'.xdr ∧
      st'.validMask = st.validMask.map fun mask =>
        pieces.foldl (fun mask p => mask ||| maskOf p.1 p.2) mask := by
  induction h with
  | nil st => exact ⟨[], rfl, .refl _, map_id'.symm⟩
  | cons hone hrest ih =>
    obtain ⟨piece, htook, hsome, hmask⟩ :=
      decodesOne_settable (hattrs _ (.head _)) hready hlen hone
    obtain ⟨pieces, hfst, htook', hmask'⟩ :=
      ih (fun a ha => hattrs a (.tail _ ha)) hsome (htook.1 ▸ hlen)
    refine ⟨(_, piece) :: pieces, congrArg (_ :: ·) hfst, htook.trans htook', ?_⟩
    rw [hmask', hmask, Option.map_map]
    rfl

structure ClientAttrsSafe (env : DecodeEnv) (fsalSupported : BitVec 64) (data : Option MinorVers)
    (fattr : Fattr4) : Prop where
  supported : ∃ b, nfs4FattrSupported fsalSupported fattr = .ok b
  access : ∀ access, ∃ b, nfs4FattrCheckAccess fattr access = .ok b
  decode : ∃ r, nfs4FattrToFSALattr env fattr data = .ok r
  complete : ∀ attrs, nfs4FattrSupported fsalSupported fattr = .ok true →
    nfs4FattrCheckAccess fattr attrWrite = .ok true →
    nfs4FattrToFSALattr env fattr data = .ok (.ok, attrs) →
    (∀ attr ∈ fattr.attrmask.attrs, atribSupported attr fsalSupported = .ok true ∧
      ∃ dent, fattr4Entry attr = .ok dent ∧ dent.access &&& attrWrite = attrWrite) ∧
    ∃ a pieces, attrs = some a ∧ Consumed fattr.attrmask.attrs fattr.attrVals a.validMask pieces

def clientStart (fattr : Fattr4) (data : Option MinorVers) : DecodeState :=
  decodeStart (some .zero) fattr none none data

theorem clientStart_ready (fattr : Fattr4) (data : Option MinorVers) :
    (clientStart fattr data).args.attrs.isSome = true ∧
      (clientStart fattr data).xdr.data.length + 4 < 2 ^ 32 ∧
      (clientStart fattr data).args.dynamicinfo = none :=
  ⟨rfl, fattr.length_lt, rfl⟩

theorem nfs4FattrToFSALattr_ok_iff (env : DecodeEnv) (data : Option MinorVers) (fattr : Fattr4) :
    (∃ r, nfs4FattrToFSALattr env fattr data = .ok r) ↔
      (fattr.attrVals ≠ [] → NullSafe env fattr.attrmask.attrs (clientStart fattr data)) := by
  by_cases hvals : fattr.attrVals = []
  · unfold nfs4FattrToFSALattr fattr4ToFSALattr
    rw [if_pos hvals]
    exact ⟨fun _ hne => absurd hvals hne, fun _ => ⟨_, rfl⟩⟩
  · rw [nfs4FattrToFSALattr, fattr4ToFSALattr_of_ne env _ hvals,
      ← decodeLoop_ok_iff env _ _ (clientStart_ready fattr data)]
    unfold clientStart
    cases decodeLoop env fattr.attrmask.attrs (decodeStart (some .zero) fattr none none data) with
    | error fault =>
      constructor
      · rintro ⟨r, h⟩
        cases h
      · intro h
        obtain ⟨r, hr⟩ := h hvals
        cases hr
    | ok r => exact ⟨fun _ _ => ⟨r, rfl⟩, fun _ => ⟨_, rfl⟩⟩

theorem settable_of_checks (hsupported : supportedLoop fsalSupported attrs = .ok true)
    (haccess : accessLoop attrWrite attrs = .ok true) : ∀ attr ∈ attrs,
      attr ∈ settableAttrs ∧ ∃ dent, fattr4Entry attr = .ok dent ∧
        dent.access &&& attrWrite = attrWrite := by
  intro attr hattr
  have hs := supportedLoop_true hsupported attr hattr
  unfold atribSupported at hs
  cases hdent : fattr4Entry attr with
  | error fault =>
    rw [hdent] at hs
    cases hs
  | ok dent =>
    rw [hdent] at hs
    have hand := Except.ok.inj hs
    have hwrite := accessLoop_true haccess attr hattr dent hdent
    refine ⟨?_, dent, rfl, hwrite⟩
    exact settable_of_entry attr (Nat.lt_succ_of_le (le_of_fattr4Entry hdent)) dent hdent
      (Bool.and_eq_true_iff.1 hand).1 hwrite

theorem consumed_of_settable {data : Option MinorVers} {fattr : Fattr4}
    {attrs : Option FsalAttrlist} (hset : ∀ attr ∈ fattr.attrmask.attrs, attr ∈ settableAttrs)
    (h : nfs4FattrToFSALattr env fattr data = .ok (.ok, attrs)) :
    ∃ a pieces, attrs = some a ∧
      Consumed fattr.attrmask.attrs fattr.attrVals a.validMask pieces := by
  by_cases hvals : fattr.attrVals = []
  · unfold nfs4FattrToFSALattr fattr4ToFSALattr at h
    rw [if_pos hvals] at h
    split_ifs at h with hnone
    · cases h
      exact ⟨.zero, [], rfl, (Bitmap4.attrs_eq_nil_iff.2 hnone).symm, hvals.symm, rfl⟩
    · cases h
  · rw [nfs4FattrToFSALattr, fattr4ToFSALattr_of_ne env _ hvals] at h
    cases hloop : decodeLoop env fattr.attrmask.attrs
        (decodeStart (some .zero) fattr none none data) with
    | error fault =>
      rw [hloop] at h
      cases h
    | ok r =>
      obtain ⟨status, st⟩ := r
      rw [hloop] at h
      cases h
      obtain ⟨hdec, hend⟩ := decodeLoop_status_ok_iff.1 hloop
      obtain ⟨pieces, hfst, htook, hmask⟩ :=
        decodes_settable hset rfl (clientStart_ready fattr data).2.1 hdec
      have hsome : st.args.attrs.map FsalAttrlist.validMask =
          some (pieces.foldl (fun mask p => mask ||| maskOf p.1 p.2) 0) := hmask
      obtain ⟨a, ha, hamask⟩ := map_eq_some_iff.1 hsome
      refine ⟨a, pieces, ha, hfst, ?_, hamask⟩
      have hrest := htook.2
      rw [hend, append_nil] at hrest
      exact hrest.symm

end EdgeComputing.Nfs4
