import EdgeComputing.Nfs4.FattrDecode

/-!
What the decoders of the attributes do. A safe decoder ends without a fault and leaves the buffer,
`valid_mask` and the place for the numbers about the file system alone; all but one take their value
off the buffer.
-/

namespace EdgeComputing.Nfs4

open List Option Library Library.Xdr Stream

variable {attr : Nat}

theorem fattr4Entry_of_le (h : attr ≤ Attr.xattrSupport) : ∃ dent, fattr4Entry attr = .ok dent := by
  have hlt : attr < fattr4tab.length := by
    rw [length_fattr4tab]
    exact Nat.lt_succ_of_le h
  unfold fattr4Entry
  rw [getElem?_eq_getElem hlt]
  exact ⟨_, rfl⟩

theorem fattr4Entry_of_lt (h : Attr.xattrSupport < attr) :
    fattr4Entry attr = .error .beyondTable := by
  have hle : fattr4tab.length ≤ attr := by
    rw [length_fattr4tab]
    exact h
  unfold fattr4Entry
  rw [getElem?_eq_none hle]

theorem le_of_fattr4Entry {dent : Fattr4Dent} (h : fattr4Entry attr = .ok dent) :
    attr ≤ Attr.xattrSupport := by
  by_contra hgt
  rw [fattr4Entry_of_lt (Nat.lt_of_not_le hgt)] at h
  cases h

structure ArgsKept (args args' : DecodeArgs) : Prop where
  validMask : args'.attrs.map FsalAttrlist.validMask = args.attrs.map FsalAttrlist.validMask
  dynamicinfo : args'.dynamicinfo = args.dynamicinfo

theorem ArgsKept.isSome {args args' : DecodeArgs} (h : ArgsKept args args')
    (hattrs : args.attrs.isSome = true) : args'.attrs.isSome = true := by
  have hmap := congrArg Option.isSome h.validMask
  rwa [isSome_map, isSome_map, hattrs] at hmap

/-- A decoder that, given attributes to fill in, ends without a fault and takes a piece off the
buffer that is related to its result. -/
def Decoder.Takes (decode : Decoder) (related : FattrXdrResult → List Byte → Prop) : Prop :=
  ∀ env st, st.args.attrs.isSome = true → st.xdr.data.length + 4 < 2 ^ 32 →
    ∃ res st' piece, decode env st = .ok (res, st') ∧ ArgsKept st.args st'.args ∧
      st.xdr.Took piece st'.xdr ∧ related res piece

def NotExp (res : FattrXdrResult) (_ : List Byte) : Prop := res ≠ .successExp

theorem takes_noop : decodeNoop.Takes NotExp :=
  fun _ st _ _ => ⟨.noop, st, [], rfl, ⟨rfl, rfl⟩, .refl _, nofun⟩

section DecodeWith

variable {α : Type} {read : Stream → Option (α × Stream)}
  {store : α → DecodeArgs → Except Fault (FattrXdrResult × DecodeArgs)}

theorem takes_decodeWith (hread : ∀ s v t, read s = some (v, t) → ∃ piece, s.Took piece t)
    (hstore : ∀ v args, args.attrs.isSome = true → ∃ res args',
      store v args = .ok (res, args') ∧ ArgsKept args args' ∧ res ≠ .successExp) :
    (decodeWith read store).Takes NotExp := by
  intro env st hattrs _
  unfold decodeWith
  cases hr : read st.xdr with
  | none => exact ⟨.failed, st, [], rfl, ⟨rfl, rfl⟩, .refl _, nofun⟩
  | some vt =>
    obtain ⟨v, xdr⟩ := vt
    obtain ⟨piece, htook⟩ := hread _ _ _ hr
    obtain ⟨res, args', hst, hkept, hres⟩ := hstore v st.args hattrs
    dsimp only
    rw [hst]
    exact ⟨res, ⟨xdr, args'⟩, piece, rfl, hkept, htook, hres⟩

end DecodeWith

section

variable {args : DecodeArgs} (h : args.attrs.isSome = true) {f : FsalAttrlist → FsalAttrlist}
  (hf : ∀ attrs, (f attrs).validMask = attrs.validMask)
include h hf

theorem withAttrs_of_isSome : ∃ args', args.withAttrs f = .ok args' ∧ ArgsKept args args' := by
  obtain ⟨attrs, hattrs⟩ := isSome_iff_exists.1 h
  unfold DecodeArgs.withAttrs
  rw [hattrs]
  refine ⟨_, rfl, ?_, rfl⟩
  rw [hattrs]
  exact congrArg some (hf attrs)

theorem stored_withAttrs :
    ∃ res args', stored (args.withAttrs f) = .ok (res, args') ∧ ArgsKept args args' ∧
      res ≠ .successExp := by
  obtain ⟨args', hargs', hkept⟩ := withAttrs_of_isSome h hf
  rw [hargs']
  exact ⟨.success, args', rfl, hkept, nofun⟩

end

theorem u32_took (s : Stream) (v : BitVec 32) (t : Stream) (h : s.u32 = some (v, t)) :
    ∃ piece, s.Took piece t :=
  ⟨_, u32_eq_some.1 h⟩

theorem u64_took (s : Stream) (v : BitVec 64) (t : Stream) (h : s.u64 = some (v, t)) :
    ∃ piece, s.Took piece t :=
  ⟨_, u64_eq_some.1 h⟩

theorem takes_type : decodeType.Takes NotExp := by
  refine takes_decodeWith u32_took fun t args hattrs => ?_
  split
  · exact ⟨.failed, args, rfl, ⟨rfl, rfl⟩, nofun⟩
  · next type _ =>
      obtain ⟨args', hargs', hkept⟩ :=
        withAttrs_of_isSome hattrs (f := fun attrs => { attrs with type }) fun _ => rfl
      rw [hargs']
      exact ⟨.success, { args' with type }, rfl, ⟨hkept.1, hkept.2⟩, nofun⟩

theorem takes_change : decodeChange.Takes NotExp :=
  takes_decodeWith u64_took fun _ _ h => stored_withAttrs h fun _ => rfl

theorem takes_filesize : decodeFilesize.Takes NotExp :=
  takes_decodeWith u64_took fun _ _ h => stored_withAttrs h fun _ => rfl

theorem takes_fsid : decodeFsid.Takes NotExp := by
  refine takes_decodeWith (fun s v t h => ?_) fun fsid args _ => ?_
  · unfold readMajorMinor at h
    split at h
    · cases h
    · next major s' hmajor =>
        split at h
        · cases h
        · next minor s'' hminor =>
            cases h
            exact ⟨_, (u64_eq_some.1 hmajor).trans (u64_eq_some.1 hminor)⟩
  · refine ⟨.success, _, rfl, ⟨?_, rfl⟩, nofun⟩
    rw [Option.map_map]
    rfl

theorem takes_rdattrError : decodeRdattrError.Takes NotExp :=
  takes_decodeWith u32_took fun _ _ _ => ⟨.success, _, rfl, ⟨rfl, rfl⟩, nofun⟩

theorem takes_fileid : decodeFileid.Takes NotExp := by
  refine takes_decodeWith u64_took fun fileid args _ => ⟨.success, _, rfl, ⟨?_, rfl⟩, nofun⟩
  rw [Option.map_map]
  rfl

theorem takes_mode : decodeMode.Takes NotExp :=
  takes_decodeWith u32_took fun _ _ h => stored_withAttrs h fun _ => rfl

theorem takes_numlinks : decodeNumlinks.Takes NotExp :=
  takes_decodeWith u32_took fun _ _ h => stored_withAttrs h fun _ => rfl

theorem takes_rawdev : decodeRawdev.Takes NotExp := by
  refine takes_decodeWith (fun s v t h => ?_) fun _ _ h => stored_withAttrs h fun _ => rfl
  unfold readSpecdata4 at h
  split at h
  · cases h
  · next specdata1 s' h1 =>
      split at h
      · cases h
      · next specdata2 s'' h2 =>
          cases h
          exact ⟨_, (u32_eq_some.1 h1).trans (u32_eq_some.1 h2)⟩

theorem takes_spaceused : decodeSpaceused.Takes NotExp :=
  takes_decodeWith u64_took fun _ _ h => stored_withAttrs h fun _ => rfl

variable {s t : Stream}

theorem readTime_took {v : BitVec 64 × BitVec 32} (h : readTime s = some (v, t)) :
    s.Took (u64Bytes v.1 ++ u32Bytes v.2) t := by
  unfold readTime at h
  split at h
  · cases h
  · next seconds s' hsec =>
      split at h
      · cases h
      · next nseconds s'' hnsec =>
          cases h
          exact (u64_eq_some.1 hsec).trans (u32_eq_some.1 hnsec)

section Times

variable {set : Timespec → FsalAttrlist → FsalAttrlist}

theorem takes_time (hset : ∀ ts attrs, (set ts attrs).validMask = attrs.validMask) :
    (decodeTime set).Takes NotExp := by
  refine takes_decodeWith (fun s v t h => ⟨_, readTime_took h⟩) fun v args hattrs => ?_
  obtain ⟨args', hargs', hkept⟩ := withAttrs_of_isSome hattrs (hset ⟨v.1, v.2.setWidth 64⟩)
  rw [hargs']
  dsimp only
  split_ifs
  · exact ⟨.failed, _, rfl, ⟨hkept.1, hkept.2⟩, nofun⟩
  · exact ⟨.success, args', rfl, hkept, nofun⟩

def ServerTime (res : FattrXdrResult) (piece : List Byte) : Prop :=
  (res = .successExp → piece = u32Bytes 0) ∧ (res = .success → piece ≠ u32Bytes 0)

theorem takes_timeset (hset : ∀ ts attrs, (set ts attrs).validMask = attrs.validMask) :
    (decodeTimeset set).Takes ServerTime := by
  intro env st hattrs hlen
  unfold decodeTimeset
  cases hhow : st.xdr.u32 with
  | none => exact ⟨.failed, st, [], rfl, ⟨rfl, rfl⟩, .refl _, nofun, nofun⟩
  | some vt =>
    obtain ⟨how, xdr⟩ := vt
    have htook := u32_eq_some.1 hhow
    dsimp only
    split_ifs with hserver
    · subst hserver
      exact ⟨.successExp, _, _, rfl, ⟨rfl, rfl⟩, htook, fun _ => rfl, nofun⟩
    · have hlen' : xdr.data.length + 4 < 2 ^ 32 := by rwa [htook.1]
      obtain ⟨res, st', piece, hst', hkept, htook', hres⟩ :=
        takes_time hset env { st with xdr } hattrs hlen'
      refine ⟨res, st', u32Bytes how ++ piece, hst', hkept, htook.trans htook', ?_, ?_⟩
      · exact fun h => absurd h hres
      · intro _ heq
        have h4 := (append_inj (heq.trans (append_nil _).symm) rfl).1
        exact hserver (u32Bytes_injective h4)

end Times

theorem takes_accesstime : decodeAccesstime.Takes NotExp := takes_time fun _ _ => rfl
theorem takes_metatime : decodeMetatime.Takes NotExp := takes_time fun _ _ => rfl
theorem takes_modifytime : decodeModifytime.Takes NotExp := takes_time fun _ _ => rfl
theorem takes_accesstimeset : decodeAccesstimeset.Takes ServerTime := takes_timeset fun _ _ => rfl
theorem takes_modifytimeset : decodeModifytimeset.Takes ServerTime := takes_timeset fun _ _ => rfl

theorem readWords_took {n : Nat} {words : List (BitVec 32)} (h : readWords s n = some (words, t)) :
    ∃ piece, s.Took piece t := by
  induction n generalizing s words with
  | zero =>
    cases h
    exact ⟨[], .refl _⟩
  | succ n ih =>
    unfold readWords at h
    split at h
    · cases h
    · next word s' hword =>
        obtain ⟨⟨words', t'⟩, hrest, heq⟩ := map_eq_some_iff.1 h
        cases heq
        obtain ⟨piece, htook⟩ := ih hrest
        exact ⟨_, (u32_eq_some.1 hword).trans htook⟩

theorem nfs4MaxAttrIndex_le (data : Option MinorVers) :
    nfs4MaxAttrIndex data ≤ Attr.xattrSupport := by
  rcases data with _ | (_ | _ | _) <;> decide

theorem foldlM_entries_ok (attrs : List Nat) (h : ∀ attr ∈ attrs, attr ≤ Attr.xattrSupport)
    (f : BitVec 64 → Nat → Fattr4Dent → BitVec 64) (mask : BitVec 64) :
    ∃ mask', attrs.foldlM (fun mask attr => (fattr4Entry attr).map (f mask attr)) mask =
      .ok mask' := by
  induction attrs generalizing mask with
  | nil => exact ⟨mask, rfl⟩
  | cons attr rest ih =>
    obtain ⟨dent, hdent⟩ := fattr4Entry_of_le (h attr (.head _))
    obtain ⟨mask', hmask'⟩ := ih (fun a ha => h a (.tail _ ha)) (f mask attr dent)
    refine ⟨mask', ?_⟩
    rw [foldlM_cons, hdent]
    exact hmask'

theorem takes_supportedAttrs : decodeSupportedAttrs.Takes NotExp := by
  refine takes_decodeWith (fun s words t h => ?_) fun words args hattrs => ?_
  · split at h
    · cases h
    · next len s' hlen =>
        split_ifs at h
        obtain ⟨piece, htook⟩ := readWords_took h
        exact ⟨_, (u32_eq_some.1 hlen).trans htook⟩
  · obtain ⟨supported, hsupported⟩ := foldlM_entries_ok
      ((List.range (32 * words.length)).filter (· ≤ nfs4MaxAttrIndex args.data))
      (fun attr hattr => Nat.le_trans (of_decide_eq_true (mem_filter.1 hattr).2)
        (nfs4MaxAttrIndex_le args.data))
      (fun mask attr dent =>
        if ((words[attr / 32]?).getD 0).getLsbD (attr % 32) then mask ||| dent.attrmask else mask)
      0
    dsimp only
    rw [hsupported]
    exact stored_withAttrs hattrs fun _ => rfl

theorem takes_principal {name2id : DecodeEnv → List Byte → Option (BitVec 32)}
    {set : BitVec 64 → FsalAttrlist → FsalAttrlist}
    (hset : ∀ id attrs, (set id attrs).validMask = attrs.validMask) :
    (decodePrincipal name2id set).Takes NotExp := by
  intro env st hattrs hlen
  unfold decodePrincipal
  cases hu32 : st.xdr.u32 with
  | none => exact ⟨.failed, st, [], rfl, ⟨rfl, rfl⟩, .refl _, nofun⟩
  | some vt =>
    obtain ⟨len, xdr⟩ := vt
    have htook := u32_eq_some.1 hu32
    dsimp only
    by_cases hzero : len = 0
    · rw [if_pos hzero]
      exact ⟨.failed, _, [], rfl, ⟨rfl, rfl⟩, .refl _, nofun⟩
    · rw [if_neg hzero]
      cases hget : xdr.get len.toNat with
      | none => exact ⟨.failed, st, [], rfl, ⟨rfl, rfl⟩, .refl _, nofun⟩
      | some bt =>
        obtain ⟨b, xdr'⟩ := bt
        obtain ⟨hblen, htook'⟩ := get_eq_some.1 hget
        have hpos := htook'.pos_eq
        have hle := xdr'.pos_le
        have hname : readBuffer xdr'.data xdr.pos len.toNat =
            .ok ((xdr'.data.drop xdr.pos).take len.toNat) := by
          rw [hpos, hblen] at hle
          exact if_pos hle
        dsimp only
        rw [hname]
        dsimp only
        cases name2id env ((xdr'.data.drop xdr.pos).take len.toNat) with
        | none => exact ⟨.badowner, _, [], rfl, ⟨rfl, rfl⟩, .refl _, nofun⟩
        | some id =>
          obtain ⟨args', hargs', hkept⟩ :=
            withAttrs_of_isSome hattrs (hset (id.setWidth 64))
          dsimp only
          rw [hargs']
          have hskip : ∃ piece, xdr'.Took piece
              ((xdr'.setPos ((xdr.pos + len.toNat + padding len.toNat) % 2 ^ 32)).getD
                xdr') := by
            -- The end of the padding is not beyond 2^32.
            have hpad : padding len.toNat ≤ 3 := by
              unfold padding
              omega
            rw [htook'.1, htook.1] at hle
            rw [Nat.mod_eq_of_lt (by omega)]
            cases hsetPos : xdr'.setPos (xdr.pos + len.toNat + padding len.toNat) with
            | none => exact ⟨[], .refl _⟩
            | some t => exact setPos_took (by omega) hsetPos
          obtain ⟨piece, hpiece⟩ := hskip
          exact ⟨.success, _, _, rfl, hkept, (htook.trans htook').trans hpiece, nofun⟩

theorem takes_owner : decodeOwner.Takes NotExp := takes_principal fun _ _ => rfl

theorem takes_group : decodeGroup.Takes NotExp := takes_principal fun _ _ => rfl

theorem takes_secLabel : decodeSecLabel.Takes NotExp := by
  refine takes_decodeWith (fun s v t h => ?_) fun _ _ h => stored_withAttrs h fun _ => rfl
  unfold readSecLabel4 at h
  split at h
  · cases h
  · next lfs s1 hlfs =>
      split at h
      · cases h
      · next pi s2 hpi =>
          split at h
          · cases h
          · next data s3 hdata =>
              cases h
              obtain ⟨piece, htook⟩ := getBytes_took hdata
              exact ⟨_, ((u32_eq_some.1 hlfs).trans (u32_eq_some.1 hpi)).trans
                htook⟩

theorem AceResult.bind_ok {α β : Type} {x : AceResult α} {f : α → AceResult β} {b : β}
    (h : x >>= f = .ok b) : ∃ a, x = .ok a ∧ f a = .ok b := by
  cases x with
  | error e => cases h
  | ok a => exact ⟨a, rfl, h⟩

theorem orFailed_ok {α : Type} {o : Option α} {a : α} (h : orFailed o = .ok a) : o = some a := by
  cases o with
  | none => cases h
  | some b =>
    cases h
    rfl

theorem readUtf8string_took {name : List Byte} (h : readUtf8string s = some (name, t)) :
    ∃ piece, s.Took piece t := by
  unfold readUtf8string at h
  split at h
  · cases h
  · next size s' hsize =>
      split_ifs at h
      obtain ⟨-, p, htook⟩ := getOpaque_took h
      exact ⟨_, (u32_eq_some.1 hsize).trans htook⟩

variable {env : DecodeEnv}

theorem decodeAce_took {buffer : List Byte} {s : Stream} {r : Fsal.FsalAce × List Byte × Stream}
    (h : decodeAce env buffer s = .ok r) : ∃ piece, s.Took piece r.2.2 := by
  unfold decodeAce at h
  obtain ⟨⟨type, s1⟩, h1, h⟩ := AceResult.bind_ok h
  dsimp only at h
  split at h
  · cases h
  · obtain ⟨⟨flag, s2⟩, h2, h⟩ := AceResult.bind_ok h
    obtain ⟨⟨perm, s3⟩, h3, h⟩ := AceResult.bind_ok h
    obtain ⟨⟨name, s4⟩, h4, h⟩ := AceResult.bind_ok h
    obtain ⟨ace, -, h⟩ := AceResult.bind_ok h
    obtain ⟨piece, hname⟩ := readUtf8string_took (orFailed_ok h4)
    by_cases hwho : ace.who = BitVec.allOnes 32
    · rw [if_pos hwho] at h
      cases h
    rw [if_neg hwho] at h
    cases h
    exact ⟨_, (((u32_eq_some.1 (orFailed_ok h1)).trans
      (u32_eq_some.1 (orFailed_ok h2))).trans
        (u32_eq_some.1 (orFailed_ok h3))).trans hname⟩

theorem decodeAces_took {n : Nat} {buffer : List Byte} {s : Stream} {r : List Fsal.FsalAce × Stream}
    (h : decodeAces env n buffer s = .ok r) : ∃ piece, s.Took piece r.2 := by
  induction n generalizing buffer s r with
  | zero =>
    cases h
    exact ⟨[], .refl _⟩
  | succ n ih =>
    unfold decodeAces at h
    obtain ⟨⟨ace, buffer', s'⟩, hace, h⟩ := AceResult.bind_ok h
    obtain ⟨⟨aces, s''⟩, haces, h⟩ := AceResult.bind_ok h
    cases h
    obtain ⟨piece, htook⟩ := decodeAce_took hace
    obtain ⟨piece', htook'⟩ := ih haces
    exact ⟨_, htook.trans htook'⟩

theorem takes_acl : decodeAcl.Takes NotExp := by
  intro env st hattrs _
  unfold decodeAcl
  cases hu32 : st.xdr.u32 with
  | none => exact ⟨.failed, st, [], rfl, ⟨rfl, rfl⟩, .refl _, nofun⟩
  | some vt =>
    obtain ⟨naces, xdr⟩ := vt
    have htook := u32_eq_some.1 hu32
    dsimp only
    by_cases hzero : naces = 0
    · rw [if_pos hzero]
      exact ⟨.success, _, _, rfl, ⟨rfl, rfl⟩, htook, nofun⟩
    · rw [if_neg hzero]
      cases haces : decodeAces env naces.toNat env.stack xdr with
      | error e =>
        have hres : e.result ≠ .successExp := by
          cases e <;> decide
        exact ⟨e.result, _, [], rfl, ⟨rfl, rfl⟩, .refl _, hres⟩
      | ok r =>
        obtain ⟨aces, xdr'⟩ := r
        obtain ⟨piece, htook'⟩ := decodeAces_took haces
        obtain ⟨args', hargs', hkept⟩ := withAttrs_of_isSome hattrs
          (f := fun attrs =>
            { attrs with acl := if env.aclNewEntry aces then some aces else none })
          fun _ => rfl
        dsimp only
        rw [hargs']
        dsimp only
        split_ifs
        · exact ⟨.success, _, _, rfl, hkept, htook.trans htook', nofun⟩
        · exact ⟨.failed, _, _, rfl, ⟨hkept.1, hkept.2⟩, htook.trans htook', nofun⟩

/-- A decoder that ends without a fault if there are attributes to fill in. -/
def Decoder.Safe (decode : Decoder) : Prop :=
  ∀ env st, st.args.attrs.isSome = true → st.xdr.data.length + 4 < 2 ^ 32 →
    ∃ res st', decode env st = .ok (res, st') ∧ ArgsKept st.args st'.args ∧
      st'.xdr.data = st.xdr.data

theorem Decoder.Takes.safe {decode : Decoder} {related : FattrXdrResult → List Byte → Prop}
    (h : decode.Takes related) : decode.Safe := by
  intro env st hattrs hlen
  obtain ⟨res, st', piece, hst', hkept, htook, -⟩ := h env st hattrs hlen
  exact ⟨res, st', hst', hkept, htook.1⟩

theorem takes_createtime : decodeCreatetime.Takes NotExp :=
  fun _ st _ _ => ⟨.success, st, [], rfl, ⟨rfl, rfl⟩, .refl _, nofun⟩

theorem setPos_data {p : Nat} (h : s.setPos p = some t) : t.data = s.data := by
  unfold setPos at h
  split_ifs at h
  cases h
  rfl

theorem safe_filehandle : decodeFilehandle.Safe := by
  intro env st _ _
  unfold decodeFilehandle
  cases st.args.hdl4 with
  | none =>
    dsimp only
    cases hu32 : st.xdr.u32 with
    | none => exact ⟨.failed, st, rfl, ⟨rfl, rfl⟩, rfl⟩
    | some vt =>
      obtain ⟨fhlen, xdr⟩ := vt
      dsimp only
      cases hset : xdr.setPos ((xdr.pos + fhlen.toNat) % 2 ^ 32) with
      | none => exact ⟨.failed, st, rfl, ⟨rfl, rfl⟩, rfl⟩
      | some t =>
        exact ⟨.success, _, rfl, ⟨rfl, rfl⟩, (setPos_data hset).trans (u32_eq_some.1 hu32).1⟩
  | some fh =>
    dsimp only
    cases hget : st.xdr.getBytes nfs4Fhsize with
    | none => exact ⟨.failed, st, rfl, ⟨rfl, rfl⟩, rfl⟩
    | some vt =>
      obtain ⟨piece, htook⟩ := getBytes_took hget
      exact ⟨.success, _, rfl, ⟨rfl, rfl⟩, htook.1⟩

inductive DecodesOne (env : DecodeEnv) (attr : Nat) (st : DecodeState) : DecodeState → Prop
  | success {decode : Decoder} {dent : Fattr4Dent} {st' : DecodeState}
      (hdecode : fattr4Decode attr = some decode) (hdent : fattr4Entry attr = .ok dent)
      (hres : decode env st = .ok (.success, st')) :
      DecodesOne env attr st (st'.addMask dent.attrmask)
  | successExp {decode : Decoder} {dent : Fattr4Dent} {st' : DecodeState}
      (hdecode : fattr4Decode attr = some decode) (hdent : fattr4Entry attr = .ok dent)
      (hres : decode env st = .ok (.successExp, st')) :
      DecodesOne env attr st (st'.addMask dent.expAttrmask)

theorem DecodesOne.inv {st st' st1 : DecodeState} {decode : Decoder} {res : FattrXdrResult}
    (h : DecodesOne env attr st st') (hdecode : fattr4Decode attr = some decode)
    (hres : decode env st = .ok (res, st1)) :
    ∃ dent, fattr4Entry attr = .ok dent ∧ (res = .success ∧ st' = st1.addMask dent.attrmask ∨
      res = .successExp ∧ st' = st1.addMask dent.expAttrmask) := by
  cases h with
  | success hd hdent hok | successExp hd hdent hok =>
    rw [hdecode] at hd
    cases hd
    rw [hres] at hok
    cases hok
    exact ⟨_, hdent, by simp⟩

inductive Decodes (env : DecodeEnv) : List Nat → DecodeState → DecodeState → Prop
  | nil (st : DecodeState) : Decodes env [] st st
  | cons {attr : Nat} {rest : List Nat} {st st' st'' : DecodeState}
      (hone : DecodesOne env attr st st') (hrest : Decodes env rest st' st'') :
      Decodes env (attr :: rest) st st''

theorem failed_ne_ok {st st1 st' : DecodeState} :
    Except.ok (if st.args.nfsStatus = .ok then .badxdr else st.args.nfsStatus, st1) ≠
      (.ok (.ok, st') : Except Fault (Nfsstat4 × DecodeState)) := by
  intro h
  have hfst := congrArg Prod.fst (Except.ok.inj h)
  dsimp only at hfst
  split_ifs at hfst with hstatus
  exact hstatus hfst

theorem decodeLoop_status_ok_iff {attrs : List Nat} {st st' : DecodeState} :
    decodeLoop env attrs st = .ok (.ok, st') ↔ Decodes env attrs st st' ∧ st'.xdr.rest = [] := by
  constructor
  · intro h
    induction attrs generalizing st with
    | nil =>
      unfold decodeLoop at h
      split_ifs at h with hpos
      · cases h
      · cases h
        exact ⟨.nil _, drop_eq_nil_of_le (Nat.le_of_not_lt hpos)⟩
    | cons attr rest ih =>
      unfold decodeLoop at h
      by_cases hgt : Attr.xattrSupport < attr
      · rw [if_pos hgt] at h
        cases h
      rw [if_neg hgt] at h
      split at h
      · cases h
      · cases h
      · next decode dent hdecode hdent =>
          split at h
          · cases h
          · next st1 hres =>
              obtain ⟨hdec, hend⟩ := ih h
              exact ⟨.cons (.success hdecode hdent hres) hdec, hend⟩
          · next st1 hres =>
              obtain ⟨hdec, hend⟩ := ih h
              exact ⟨.cons (.successExp hdecode hdent hres) hdec, hend⟩
          · cases h
          · exact absurd h failed_ne_ok
          · exact absurd h failed_ne_ok
  · rintro ⟨hdec, hend⟩
    induction hdec with
    | nil st =>
      have hpos : ¬ st.xdr.pos < st.xdr.data.length :=
        Nat.not_lt.2 (drop_eq_nil_iff.1 hend)
      unfold decodeLoop
      rw [if_neg hpos]
    | cons hone _ ih =>
      unfold decodeLoop
      cases hone with
      | success hdecode hdent hres | successExp hdecode hdent hres =>
        rw [if_neg (Nat.not_lt.2 (le_of_fattr4Entry hdent)), hdecode, hdent]
        dsimp only
        rw [hres]
        exact ih hend

theorem fattr4ToFSALattr_of_ne (env : DecodeEnv) (attrs : Option FsalAttrlist) {fattr : Fattr4}
    (h : fattr.attrVals ≠ []) (hdl4 : Option (List Byte)) (dinfo : Option DynamicFsInfo)
    (data : Option MinorVers) : fattr4ToFSALattr env attrs fattr hdl4 dinfo data =
      (decodeLoop env fattr.attrmask.attrs (decodeStart attrs fattr hdl4 dinfo data)).map
        fun (status, st) => (status, st.args.attrs) := by
  unfold fattr4ToFSALattr
  rw [if_neg h]

end EdgeComputing.Nfs4
