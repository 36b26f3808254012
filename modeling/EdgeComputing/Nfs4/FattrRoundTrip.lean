import EdgeComputing.Nfs4.FattrDecoders
import EdgeComputing.Nfs4.FattrEncode
import EdgeComputing.Library.Table
import Mathlib.Tactic.FinCases

/-!
The attributes of `nfs4_FSALattr_To_Fattr` decoded with `Fattr4_To_FSAL_attr`. The decoders take the
pieces the encoders have put out; only the time of creation is put out and not read.
-/

namespace EdgeComputing.Nfs4

open List Library Library.Xdr Attr Stream

def roundTripAttrs : List Nat :=
  [type, change, size, fsid, fileid, mode, numlinks, owner,
    ownerGroup, rawdev, spaceUsed, timeAccess, timeCreate,
    timeMetadata, timeModify]

def SameAttr (attr : Nat) (a b : FsalAttrlist) : Prop :=
  match attr with
  | type => a.type = b.type
  | change => a.change = b.change
  | size => a.filesize = b.filesize
  | fsid => a.fsid = b.fsid
  | fileid => a.fileid = b.fileid
  | mode => a.mode = b.mode
  | numlinks => a.numlinks = b.numlinks
  | owner => a.owner = b.owner
  | ownerGroup => a.group = b.group
  | rawdev => a.rawdev = b.rawdev
  | spaceUsed => a.spaceused = b.spaceused
  | timeAccess => a.atime = b.atime
  | timeCreate => a.creation = b.creation
  | timeMetadata => a.ctime = b.ctime
  | timeModify => a.mtime = b.mtime
  | _ => True

theorem SameAttr.refl (attr : Nat) (a : FsalAttrlist) : SameAttr attr a a := by
  unfold SameAttr
  split <;> first | rfl | trivial

variable {attr : Nat}

theorem SameAttr.trans {a b c : FsalAttrlist} (h : SameAttr attr a b) (h' : SameAttr attr b c) :
    SameAttr attr a c := by
  unfold SameAttr at *
  split at h <;> first | exact h.trans h' | trivial

theorem SameAttr.symm {a b : FsalAttrlist} (h : SameAttr attr a b) : SameAttr attr b a := by
  unfold SameAttr at *
  split at h <;> first | exact h.symm | trivial

def copyAttr (attr : Nat) (src a : FsalAttrlist) : FsalAttrlist :=
  match attr with
  | type => { a with type := src.type }
  | change => { a with change := src.change }
  | size => { a with filesize := src.filesize }
  | fsid => { a with fsid := src.fsid }
  | fileid => { a with fileid := src.fileid }
  | mode => { a with mode := src.mode }
  | numlinks => { a with numlinks := src.numlinks }
  | owner => { a with owner := src.owner }
  | ownerGroup => { a with group := src.group }
  | rawdev => { a with rawdev := src.rawdev }
  | spaceUsed => { a with spaceused := src.spaceused }
  | timeAccess => { a with atime := src.atime }
  | timeCreate => { a with creation := src.creation }
  | timeMetadata => { a with ctime := src.ctime }
  | timeModify => { a with mtime := src.mtime }
  | _ => a

theorem sameAttr_copyAttr (attr : Nat) (src a : FsalAttrlist) :
    SameAttr attr (copyAttr attr src a) src := by
  unfold SameAttr
  split <;> first | rfl | trivial

theorem sameAttr_copyAttr_of_ne {attr x : Nat} (h : x ≠ attr) (src a : FsalAttrlist) :
    SameAttr x (copyAttr attr src a) a := by
  unfold SameAttr copyAttr
  split <;> first | trivial | (split <;> first | rfl | exact absurd rfl h)

def sentTime (ts : Timespec) : Timespec := ⟨ts.tvSec, (ts.tvNsec.setWidth 32).setWidth 64⟩

variable (env : EncodeEnv) (args : EncodeArgs) {pieces : List (List Byte)} {attrs : List Nat}
  {α : Type}

def sentAttrs : FsalAttrlist :=
  { args.attrs with
    type := if args.attrs.type = .extendedAttr then .regularFile else args.attrs.type
    fsid := sentFsid env args
    fileid := args.fileid
    mode := modeBits args.attrs.mode
    owner := (args.attrs.owner.setWidth 32).setWidth 64
    group := (args.attrs.group.setWidth 32).setWidth 64
    rawdev := ⟨(args.attrs.rawdev.major.setWidth 32).setWidth 64,
      (args.attrs.rawdev.minor.setWidth 32).setWidth 64⟩
    atime := sentTime args.attrs.atime
    ctime := sentTime args.attrs.ctime
    mtime := sentTime args.attrs.mtime }

def Accepted (attr : Nat) : Prop :=
  match attr with
  | timeAccess => (args.attrs.atime.tvNsec.setWidth 32).toNat < 1000000000
  | timeMetadata => (args.attrs.ctime.tvNsec.setWidth 32).toNat < 1000000000
  | timeModify => (args.attrs.mtime.tvNsec.setWidth 32).toNat < 1000000000
  | _ => True

structure Inverts (denv : DecodeEnv) (env : EncodeEnv) : Prop where
  uid : ∀ u, denv.name2uid (env.uid2name u).bytes = some u
  gid : ∀ g, denv.name2gid (env.gid2name g).bytes = some g

section Receives

variable {denv : DecodeEnv} {env : EncodeEnv} {args : EncodeArgs} {attr : Nat} {a : FsalAttrlist}

/-- A decoder that is given the bytes of the encoder takes them and stores what arrives, or refuses
it. -/
def Receives (denv : DecodeEnv) (env : EncodeEnv) (args : EncodeArgs) (attr : Nat)
    (decode : Decoder) : Prop :=
  ∀ piece st xdr a, fattr4Encode attr env args = some piece → st.xdr.Took piece xdr →
    st.args.attrs = some a → st.xdr.data.length + 4 < 2 ^ 32 →
      (Accepted args attr ∧ ∃ args', decode denv st = .ok (.success, ⟨xdr, args'⟩) ∧
        args'.attrs = some (copyAttr attr (sentAttrs env args) a)) ∨
      (¬ Accepted args attr ∧ ∃ st', decode denv st = .ok (.failed, st'))

theorem receives_decodeWith {read : Stream → Option (α × Stream)}
    {store : α → DecodeArgs → Except Fault (FattrXdrResult × DecodeArgs)} {bytes : List Byte}
    (v : α) (hacc : Accepted args attr) (henc : fattr4Encode attr env args = some bytes)
    (hread : ∀ s t, s.Took bytes t → read s = some (v, t))
    (hstore : ∀ args' a, args'.attrs = some a → ∃ args'', store v args' = .ok (.success, args'') ∧
      args''.attrs = some (copyAttr attr (sentAttrs env args) a)) :
    Receives denv env args attr (decodeWith read store) := by
  intro piece st xdr a hpiece htook ha _
  rw [henc] at hpiece
  cases hpiece
  obtain ⟨args', hargs', hattrs⟩ := hstore st.args a ha
  refine .inl ⟨hacc, args', ?_, hattrs⟩
  unfold decodeWith
  rw [hread _ _ htook]
  dsimp only
  rw [hargs']

theorem stored_withAttrs_some (f : FsalAttrlist → FsalAttrlist) {args : DecodeArgs}
    (h : args.attrs = some a) :
    ∃ args', stored (args.withAttrs f) = .ok (.success, args') ∧ args'.attrs = some (f a) := by
  unfold stored DecodeArgs.withAttrs
  rw [h]
  exact ⟨_, rfl, rfl⟩

theorem encodeType_cases (env : EncodeEnv) (args : EncodeArgs) :
    encodeType env args = none ∨ ∃ t, encodeType env args = some (u32Bytes t) ∧
      typeOfNf4 t = some (sentAttrs env args).type := by
  unfold encodeType sentAttrs
  cases args.attrs.type <;> first | exact .inl rfl | exact .inr ⟨_, rfl, rfl⟩

theorem receives_type : Receives denv env args type decodeType := by
  rcases encodeType_cases env args with hnone | ⟨t, henc, htype⟩
  · intro piece st xdr a hpiece
    rw [show fattr4Encode type env args = none from hnone] at hpiece
    cases hpiece
  · refine receives_decodeWith t trivial henc (fun _ _ => u32_eq_some.2) fun args' a h => ?_
    rw [htype]
    dsimp only
    unfold DecodeArgs.withAttrs
    rw [h]
    exact ⟨_, rfl, rfl⟩

theorem receives_change : Receives denv env args change decodeChange :=
  receives_decodeWith args.attrs.change trivial rfl (fun _ _ => u64_eq_some.2)
    fun _ _ h => stored_withAttrs_some _ h

theorem receives_filesize : Receives denv env args size decodeFilesize :=
  receives_decodeWith args.attrs.filesize trivial rfl (fun _ _ => u64_eq_some.2)
    fun _ _ h => stored_withAttrs_some _ h

theorem receives_fsid : Receives denv env args fsid decodeFsid := by
  refine receives_decodeWith (sentFsid env args) trivial rfl (fun s t h => ?_) fun args' a h => ?_
  · obtain ⟨m, hmajor, hminor⟩ := h.split
    unfold readMajorMinor
    rw [u64_eq_some.2 hmajor]
    dsimp only
    rw [u64_eq_some.2 hminor]
  · refine ⟨_, rfl, ?_⟩
    dsimp only
    rw [h]
    rfl

theorem receives_fileid : Receives denv env args fileid decodeFileid := by
  refine receives_decodeWith args.fileid trivial rfl (fun _ _ => u64_eq_some.2)
    fun args' a h => ⟨_, rfl, ?_⟩
  dsimp only
  rw [h]
  rfl

theorem receives_mode : Receives denv env args mode decodeMode := by
  refine receives_decodeWith (modeBits args.attrs.mode) trivial rfl
    (fun _ _ => u32_eq_some.2) fun args' a h => ?_
  rw [modeBits, modeBits, BitVec.and_assoc, BitVec.and_self]
  exact stored_withAttrs_some _ h

theorem receives_numlinks : Receives denv env args numlinks decodeNumlinks :=
  receives_decodeWith args.attrs.numlinks trivial rfl (fun _ _ => u32_eq_some.2)
    fun _ _ h => stored_withAttrs_some _ h

theorem receives_rawdev : Receives denv env args rawdev decodeRawdev := by
  refine receives_decodeWith
    (args.attrs.rawdev.major.setWidth 32, args.attrs.rawdev.minor.setWidth 32) trivial rfl
    (fun s t h => ?_) fun _ _ h => stored_withAttrs_some _ h
  obtain ⟨m, hmajor, hminor⟩ := h.split
  unfold readSpecdata4
  rw [u32_eq_some.2 hmajor]
  dsimp only
  rw [u32_eq_some.2 hminor]

theorem receives_spaceused : Receives denv env args spaceUsed decodeSpaceused :=
  receives_decodeWith args.attrs.spaceused trivial rfl (fun _ _ => u64_eq_some.2)
    fun _ _ h => stored_withAttrs_some _ h

theorem receives_time (ts : Timespec) {set : Timespec → FsalAttrlist → FsalAttrlist}
    (hacc : Accepted args attr ↔ (ts.tvNsec.setWidth 32).toNat < 1000000000)
    (henc : fattr4Encode attr env args = some (timeBytes ts))
    (hset : ∀ a, set (sentTime ts) a = copyAttr attr (sentAttrs env args) a) :
    Receives denv env args attr (decodeTime set) := by
  intro piece st xdr a hpiece htook ha _
  rw [henc] at hpiece
  cases hpiece
  have hread : readTime st.xdr = some ((ts.tvSec, ts.tvNsec.setWidth 32), xdr) := by
    obtain ⟨m, hsec, hnsec⟩ := htook.split
    unfold readTime
    rw [u64_eq_some.2 hsec]
    dsimp only
    rw [u32_eq_some.2 hnsec]
  rw [hacc]
  unfold decodeTime decodeWith DecodeArgs.withAttrs
  rw [hread]
  dsimp only
  rw [ha]
  dsimp only
  rcases Nat.lt_or_ge (ts.tvNsec.setWidth 32).toNat 1000000000 with hlt | hge
  · rw [if_neg (Nat.not_le.2 hlt)]
    refine .inl ⟨hlt, _, rfl, congrArg some ?_⟩
    exact hset a
  · rw [if_pos hge]
    exact .inr ⟨Nat.not_lt.2 hge, _, rfl⟩

theorem receives_principal {name2id : DecodeEnv → List Byte → Option (BitVec 32)}
    {set : BitVec 64 → FsalAttrlist → FsalAttrlist} {name : IdName} {id : BitVec 32}
    (hid : name2id denv name.bytes = some id) (hacc : Accepted args attr)
    (henc : fattr4Encode attr env args = some (varBytes name.bytes))
    (hset : ∀ a, set (id.setWidth 64) a = copyAttr attr (sentAttrs env args) a) :
    Receives denv env args attr (decodePrincipal name2id set) := by
  intro piece st xdr a hpiece htook ha hlen
  rw [henc] at hpiece
  cases hpiece
  obtain ⟨s1, hsize, hopaque⟩ := htook.split
  obtain ⟨s2, hname, hpad⟩ := hopaque.split
  have hlt := name.length_lt
  have hsizeNat : (BitVec.ofNat 32 name.bytes.length).toNat = name.bytes.length := by
    rw [BitVec.toNat_ofNat, Nat.mod_eq_of_lt hlt]
  have hne : BitVec.ofNat 32 name.bytes.length ≠ 0 := by
    intro hzero
    rw [hzero] at hsizeNat
    exact name.bytes_ne (eq_nil_of_length_eq_zero hsizeNat.symm)
  have hpos1 := hsize.pos_eq
  have hpos2 := hname.pos_eq
  have hposEnd := hpad.pos_eq
  rw [length_replicate] at hposEnd
  have hread : readBuffer s2.data s1.pos name.bytes.length = .ok name.bytes := by
    have hle := s2.pos_le
    rw [hpos2] at hle
    unfold readBuffer
    rw [if_pos hle, hname.1]
    change Except.ok (s1.rest.take _) = _
    rw [hname.2, take_left]
  have hdata : s2.data = st.xdr.data := hname.1.trans hsize.1
  have hskip : s2.setPos ((s1.pos + name.bytes.length + padding name.bytes.length) % 2 ^ 32) =
      some xdr := by
    have hle := xdr.pos_le
    rw [hpad.1, hdata] at hle
    rw [← hpos2, ← hposEnd, Nat.mod_eq_of_lt (by omega)]
    unfold setPos
    rw [dif_pos (by rw [hdata]; exact hle)]
    exact congrArg some (ext_of_pos hpad.1.symm rfl)
  unfold decodePrincipal
  rw [u32_eq_some.2 hsize]
  dsimp only
  rw [if_neg hne, hsizeNat, get_eq_some.2 ⟨rfl, hname⟩]
  dsimp only
  rw [hread]
  dsimp only
  rw [hid]
  unfold DecodeArgs.withAttrs
  dsimp only
  rw [ha, hskip]
  exact .inl ⟨hacc, _, rfl, congrArg some (hset a)⟩

theorem fattr4Decode_receives (args : EncodeArgs) (hids : Inverts denv env)
    (hattr : attr ∈ roundTripAttrs) (hcreate : attr ≠ timeCreate) :
    ∃ decode, fattr4Decode attr = some decode ∧ Receives denv env args attr decode := by
  fin_cases hattr
  · exact ⟨_, rfl, receives_type⟩
  · exact ⟨_, rfl, receives_change⟩
  · exact ⟨_, rfl, receives_filesize⟩
  · exact ⟨_, rfl, receives_fsid⟩
  · exact ⟨_, rfl, receives_fileid⟩
  · exact ⟨_, rfl, receives_mode⟩
  · exact ⟨_, rfl, receives_numlinks⟩
  · exact ⟨_, rfl, receives_principal (hids.uid _) trivial rfl fun _ => rfl⟩
  · exact ⟨_, rfl, receives_principal (hids.gid _) trivial rfl fun _ => rfl⟩
  · exact ⟨_, rfl, receives_rawdev⟩
  · exact ⟨_, rfl, receives_spaceused⟩
  · exact ⟨_, rfl, receives_time args.attrs.atime .rfl rfl fun _ => rfl⟩
  · exact absurd rfl hcreate
  · exact ⟨_, rfl, receives_time args.attrs.ctime .rfl rfl fun _ => rfl⟩
  · exact ⟨_, rfl, receives_time args.attrs.mtime .rfl rfl fun _ => rfl⟩

end Receives

def valueSize : Nat → Nat
  | type | mode | numlinks => 4
  | change | size | fileid | rawdev | spaceUsed => 8
  | fsid => 16
  | owner =>
    let len := (env.uid2name (args.attrs.owner.setWidth 32)).bytes.length
    4 + (len + padding len)
  | ownerGroup =>
    let len := (env.gid2name (args.attrs.group.setWidth 32)).bytes.length
    4 + (len + padding len)
  | timeAccess | timeCreate | timeMetadata | timeModify => 12
  | _ => 0

theorem length_varBytes (b : List Byte) :
    (varBytes b).length = 4 + (b.length + padding b.length) := by
  unfold varBytes opaqueBytes
  rw [length_append, length_append, length_replicate]
  rfl

theorem length_piece {env : EncodeEnv} {args : EncodeArgs} {piece : List Byte}
    (hattr : attr ∈ roundTripAttrs) (h : fattr4Encode attr env args = some piece) :
    piece.length = valueSize env args attr := by
  fin_cases hattr
  · rcases encodeType_cases env args with hnone | ⟨t, henc, -⟩
    · rw [show fattr4Encode type env args = none from hnone] at h
      cases h
    · rw [show fattr4Encode type env args = some (u32Bytes t) from henc] at h
      cases h
      rfl
  all_goals cases h
  all_goals first | rfl | exact length_varBytes _

theorem length_pieces {env : EncodeEnv} {args : EncodeArgs}
    (hattrs : ∀ attr ∈ attrs, attr ∈ roundTripAttrs) (h : Encodes env args attrs pieces) :
    pieces.flatten.length = (attrs.map (valueSize env args)).sum := by
  induction h with
  | nil => rfl
  | cons hpiece _ ih =>
    rw [flatten_cons, length_append, map_cons, sum_cons,
      length_piece (hattrs _ (.head _)) hpiece, ih fun attr hattr => hattrs attr (.tail _ hattr)]

theorem exists_piece (env : EncodeEnv) {args : EncodeArgs}
    (htype : attr = type → args.attrs.type ≠ .noFileType) (hattr : attr ∈ roundTripAttrs) :
    ∃ piece, fattr4Encode attr env args = some piece := by
  fin_cases hattr
  · change ∃ piece, encodeType env args = some piece
    have hne := htype rfl
    unfold encodeType
    cases h : args.attrs.type with
    | noFileType => exact absurd h hne
    | _ => exact ⟨_, rfl⟩
  all_goals exact ⟨_, rfl⟩

theorem exists_pieces (env : EncodeEnv) {args : EncodeArgs}
    (htype : type ∈ attrs → args.attrs.type ≠ .noFileType)
    (hattrs : ∀ attr ∈ attrs, attr ∈ roundTripAttrs) : ∃ pieces, Encodes env args attrs pieces := by
  induction attrs with
  | nil => exact ⟨[], .nil⟩
  | cons attr rest ih =>
    obtain ⟨piece, hpiece⟩ := exists_piece env
      (fun heq => htype (heq ▸ mem_cons_self)) (hattrs attr (.head _))
    obtain ⟨pieces, hpieces⟩ :=
      ih (fun hmem => htype (.tail _ hmem)) fun attr hattr => hattrs attr (.tail _ hattr)
    exact ⟨piece :: pieces, .cons hpiece hpieces⟩

section Decodes

variable {denv : DecodeEnv} {env : EncodeEnv} {args : EncodeArgs} {attrs : List Nat}
  {pieces : List (List Byte)} {st st' : DecodeState} {xdr : Stream} {a : FsalAttrlist}

theorem decodeWith_ok {read : Stream → Option (α × Stream)}
    {store : α → DecodeArgs → Except Fault (FattrXdrResult × DecodeArgs)} {res : FattrXdrResult}
    (h : decodeWith read store denv st = .ok (res, st')) (hres : res ≠ .failed) :
    ∃ v, read st.xdr = some (v, st'.xdr) := by
  unfold decodeWith at h
  split at h
  · cases h
    exact absurd rfl hres
  · next v xdr hread =>
      split at h
      · cases h
      · cases h
        exact ⟨v, hread⟩

theorem decodesOne_time (h : attr = timeMetadata ∨ attr = timeModify)
    (hone : DecodesOne denv attr st st') : st.xdr.rest.length = 12 + st'.xdr.rest.length := by
  have htime : ∃ set, fattr4Decode attr = some (decodeTime set) := by
    rcases h with rfl | rfl
    · exact ⟨_, rfl⟩
    · exact ⟨_, rfl⟩
  obtain ⟨set, hset⟩ := htime
  have hlength : ∀ {res st1}, decodeTime set denv st = .ok (res, st1) → res ≠ .failed →
      st.xdr.rest.length = 12 + st1.xdr.rest.length := by
    intro res st1 hdecode hres
    obtain ⟨v, hread⟩ := decodeWith_ok hdecode hres
    rw [(readTime_took hread).2, length_append]
    rfl
  cases hone with
  | success hd _ hok | successExp hd _ hok =>
    rw [hset] at hd
    cases hd
    have htaken := hlength hok (by decide)
    exact htaken

theorem decodes_times (htimes : ∀ attr ∈ attrs, attr = timeMetadata ∨ attr = timeModify)
    (h : Decodes denv attrs st st') :
    st.xdr.rest.length = 12 * attrs.length + st'.xdr.rest.length := by
  induction h with
  | nil st => rw [length_nil, Nat.mul_zero, Nat.zero_add]
  | cons hone _ ih =>
    rw [decodesOne_time (htimes _ (.head _)) hone, ih fun x hx => htimes x (.tail _ hx),
      length_cons]
    omega

theorem times_after_create : ∀ attr ∈ roundTripAttrs, timeCreate < attr →
    attr = timeMetadata ∨ attr = timeModify := by
  decide

theorem valueSize_times (env : EncodeEnv) (args : EncodeArgs)
    (htimes : ∀ attr ∈ attrs, attr = timeMetadata ∨ attr = timeModify) :
    (attrs.map (valueSize env args)).sum = 12 * attrs.length := by
  induction attrs with
  | nil => rfl
  | cons attr rest ih =>
    have hsize : valueSize env args attr = 12 := by
      rcases htimes attr (.head _) with rfl | rfl
      · rfl
      · rfl
    rw [map_cons, sum_cons, hsize, ih fun x hx => htimes x (.tail _ hx), length_cons]
    omega

theorem decodesOne_create (h : DecodesOne denv timeCreate st st') : st'.xdr = st.xdr := by
  cases h with
  | success hd _ hok | successExp hd _ hok =>
    cases hd
    cases hok <;> rfl

theorem addMask_attrs (st : DecodeState) (mask : BitVec 64) (h : st.args.attrs = some a) :
    ∃ b, (st.addMask mask).args.attrs = some b ∧ ∀ x, SameAttr x b a := by
  refine ⟨{ a with validMask := a.validMask ||| mask }, ?_, fun x => ?_⟩
  · unfold DecodeState.addMask
    rw [h]
    rfl
  · unfold SameAttr
    split <;> first | rfl | trivial

variable (hids : Inverts denv env) (ha : st.args.attrs = some a)
  (hlen : st.xdr.data.length + 4 < 2 ^ 32)

section One

variable {attr : Nat} {piece : List Byte} (hattr : attr ∈ roundTripAttrs)
  (hcreate : attr ≠ timeCreate) (hpiece : fattr4Encode attr env args = some piece)
  (htook : st.xdr.Took piece xdr)

include hids ha hlen hattr hcreate hpiece htook

theorem decodesOne_received (h : DecodesOne denv attr st st') : Accepted args attr ∧ st'.xdr = xdr ∧
      ∃ b, st'.args.attrs = some b ∧ SameAttr attr b (sentAttrs env args) ∧
        ∀ x, x ≠ attr → SameAttr x b a := by
  obtain ⟨decode, hdecode, hreceives⟩ := fattr4Decode_receives args hids hattr hcreate
  rcases hreceives piece st xdr a hpiece htook ha hlen with
    ⟨hacc, args', hres, hargs'⟩ | ⟨-, st2, hres⟩
  · obtain ⟨dent, -, ⟨-, rfl⟩ | ⟨hexp, -⟩⟩ := h.inv hdecode hres
    · obtain ⟨b, hb, hsame⟩ := addMask_attrs ⟨xdr, args'⟩ dent.attrmask hargs'
      refine ⟨hacc, rfl, b, hb, (hsame attr).trans (sameAttr_copyAttr _ _ _), fun x hx => ?_⟩
      exact (hsame x).trans (sameAttr_copyAttr_of_ne hx _ _)
    · cases hexp
  · obtain ⟨_, -, ⟨hno, -⟩ | ⟨hno, -⟩⟩ := h.inv hdecode hres <;> cases hno

theorem exists_decodesOne (hacc : Accepted args attr) : ∃ st', DecodesOne denv attr st st' := by
  obtain ⟨decode, hdecode, hreceives⟩ := fattr4Decode_receives args hids hattr hcreate
  obtain ⟨dent, hdent⟩ := fattr4Entry_of_le ((by decide : ∀ x ∈ roundTripAttrs, x ≤ xattrSupport) attr hattr)
  rcases hreceives piece st xdr a hpiece htook ha hlen with ⟨-, args', hres, -⟩ | ⟨hno, -⟩
  · exact ⟨_, .success hdecode hdent hres⟩
  · exact absurd hacc hno

end One

variable (hattrs : ∀ attr ∈ attrs, attr ∈ roundTripAttrs) (henc : Encodes env args attrs pieces)
  (htook : st.xdr.Took pieces.flatten xdr)

include hids ha hlen hattrs henc htook

theorem decodes_received (hcreate : timeCreate ∉ attrs) (hsorted : attrs.Pairwise (· < ·))
    (h : Decodes denv attrs st st') :
    (∀ attr ∈ attrs, Accepted args attr) ∧ st'.xdr = xdr ∧
      ∃ b, st'.args.attrs = some b ∧ (∀ attr ∈ attrs, SameAttr attr b (sentAttrs env args)) ∧
        ∀ x, x ∉ attrs → SameAttr x b a := by
  induction h generalizing pieces a with
  | nil st =>
    cases henc
    obtain ⟨-, rfl⟩ := htook.unique (.refl _) rfl
    exact ⟨nofun, rfl, a, ha, nofun, fun x _ => .refl x a⟩
  | cons hone _ ih =>
    cases henc with
    | cons hpiece henc =>
      rw [pairwise_cons] at hsorted
      obtain ⟨m, hfirst, hrest⟩ := htook.split
      obtain ⟨hacc, hxdr, b, hb, hsame, hframe⟩ := decodesOne_received hids ha hlen
        (hattrs _ (.head _)) (fun heq => hcreate (heq ▸ mem_cons_self)) hpiece hfirst hone
      subst hxdr
      obtain ⟨haccs, hxdr, c, hc, hsames, hframes⟩ :=
        ih hb (hfirst.1 ▸ hlen) (fun x hx => hattrs x (.tail _ hx)) henc hrest
          (fun hmem => hcreate (.tail _ hmem)) hsorted.2
      have hfirstNot := fun hmem => Nat.lt_irrefl _ (hsorted.1 _ hmem)
      refine ⟨?_, hxdr, c, hc, ?_, ?_⟩
      · intro x hx
        rcases mem_cons.1 hx with rfl | hx
        · exact hacc
        · exact haccs x hx
      · intro x hx
        rcases mem_cons.1 hx with rfl | hx
        · exact (hframes _ hfirstNot).trans hsame
        · exact hsames x hx
      · intro x hx
        rw [mem_cons, not_or] at hx
        exact (hframes x hx.2).trans (hframe x hx.1)

theorem exists_decodes (hcreate : timeCreate ∉ attrs)
    (hacc : ∀ attr ∈ attrs, Accepted args attr) : ∃ st', Decodes denv attrs st st' := by
  induction henc generalizing st a with
  | nil => exact ⟨st, .nil st⟩
  | @cons attr _ _ _ hpiece _ ih =>
    obtain ⟨m, hfirst, hrest⟩ := htook.split
    have hne : attr ≠ timeCreate := fun heq => hcreate (heq ▸ mem_cons_self)
    obtain ⟨st1, hone⟩ := exists_decodesOne hids ha hlen (hattrs _ (.head _)) hne hpiece hfirst
      (hacc _ (.head _))
    obtain ⟨-, hxdr, b, hb, -, -⟩ :=
      decodesOne_received hids ha hlen (hattrs _ (.head _)) hne hpiece hfirst hone
    subst hxdr
    obtain ⟨st', hdec⟩ :=
      ih hb (hfirst.1 ▸ hlen) (fun x hx => hattrs x (.tail _ hx)) hrest
        (fun hmem => hcreate (.tail _ hmem)) fun x hx => hacc x (.tail _ hx)
    exact ⟨st', .cons hone hdec⟩

theorem not_consumed_of_create (hcreate : timeCreate ∈ attrs)
    (hsorted : attrs.Pairwise (· < ·)) (h : Decodes denv attrs st st') : st'.xdr.rest ≠ [] := by
  induction h generalizing pieces a with
  | nil st => cases hcreate
  | @cons attr rest st st1 st' hone hdec ih =>
    have hrestAttrs : ∀ x ∈ rest, x ∈ roundTripAttrs := fun x hx => hattrs x (.tail _ hx)
    rw [pairwise_cons] at hsorted
    by_cases hfirst : attr = timeCreate
    · subst hfirst
      have htimes : ∀ x ∈ rest, x = timeMetadata ∨ x = timeModify := fun x hx =>
        times_after_create x (hrestAttrs x hx) (hsorted.1 x hx)
      have hleft := decodes_times htimes hdec
      have hsize := length_pieces hattrs henc
      rw [map_cons, sum_cons, valueSize_times env args htimes,
        show valueSize env args timeCreate = 12 from rfl] at hsize
      rw [decodesOne_create hone, htook.2, length_append, hsize] at hleft
      intro hnil
      rw [hnil, length_nil] at hleft
      omega
    · have hmem : timeCreate ∈ rest :=
        (mem_cons.1 hcreate).resolve_left (Ne.symm hfirst)
      cases henc with
      | cons hpiece henc =>
        obtain ⟨m, hpieceTook, hrest⟩ := htook.split
        obtain ⟨-, hxdr, b, hb, -, -⟩ :=
          decodesOne_received hids ha hlen (hattrs _ (.head _)) hfirst hpiece hpieceTook hone
        subst hxdr
        exact ih hb (hpieceTook.1 ▸ hlen) hrestAttrs henc hrest hmem hsorted.2

end Decodes

def Survives (attr : Nat) : Prop :=
  match attr with
  | type => args.attrs.type ≠ .noFileType ∧ args.attrs.type ≠ .extendedAttr
  | fsid => sentFsid env args = args.attrs.fsid
  | fileid => args.fileid = args.attrs.fileid
  | mode => args.attrs.mode.toNat ≤ 0xfff
  | owner => args.attrs.owner.toNat < 2 ^ 32
  | ownerGroup => args.attrs.group.toNat < 2 ^ 32
  | rawdev => args.attrs.rawdev.major.toNat < 2 ^ 32 ∧ args.attrs.rawdev.minor.toNat < 2 ^ 32
  | timeAccess => args.attrs.atime.tvNsec.toNat < 1000000000
  | timeCreate => False
  | timeMetadata => args.attrs.ctime.tvNsec.toNat < 1000000000
  | timeModify => args.attrs.mtime.tvNsec.toNat < 1000000000
  | _ => True

theorem setWidth_eq_iff (v : BitVec 64) : (v.setWidth 32).setWidth 64 = v ↔ v.toNat < 2 ^ 32 := by
  have hv := v.isLt
  rw [← BitVec.toNat_inj, BitVec.toNat_setWidth, BitVec.toNat_setWidth]
  omega

theorem modeBits_eq_iff (mode : BitVec 32) : modeBits mode = mode ↔ mode.toNat ≤ 0xfff := by
  have hbits : (modeBits mode).toNat = mode.toNat % 2 ^ 12 := by
    rw [modeBits, BitVec.toNat_and]
    exact Nat.and_two_pow_sub_one_eq_mod mode.toNat 12
  rw [← BitVec.toNat_inj, hbits]
  omega

theorem sentTime_eq_iff (ts : Timespec) :
    (ts.tvNsec.setWidth 32).toNat < 1000000000 ∧ sentTime ts = ts ↔
      ts.tvNsec.toNat < 1000000000 := by
  have heq : sentTime ts = ts ↔ ts.tvNsec.toNat < 2 ^ 32 := by
    rw [← setWidth_eq_iff]
    constructor
    · exact fun h => congrArg Timespec.tvNsec h
    · intro h
      unfold sentTime
      rw [h]
  rw [heq, BitVec.toNat_setWidth]
  omega

theorem sentType_eq_iff (type : ObjectFileType) :
    (if type = .extendedAttr then ObjectFileType.regularFile else type) = type ↔
      type ≠ .extendedAttr := by
  cases type <;> decide

theorem sentRawdev_eq_iff (dev : MajorMinor) :
    (⟨(dev.major.setWidth 32).setWidth 64, (dev.minor.setWidth 32).setWidth 64⟩ : MajorMinor) =
      dev ↔ dev.major.toNat < 2 ^ 32 ∧ dev.minor.toNat < 2 ^ 32 := by
  rw [← setWidth_eq_iff, ← setWidth_eq_iff]
  constructor
  · exact fun h => ⟨congrArg MajorMinor.major h, congrArg MajorMinor.minor h⟩
  · rintro ⟨hmajor, hminor⟩
    rw [hmajor, hminor]

theorem survives_iff (env : EncodeEnv) (args : EncodeArgs) (hattr : attr ∈ roundTripAttrs)
    (hcreate : attr ≠ timeCreate) :
    Survives env args attr ↔ (attr = type → args.attrs.type ≠ .noFileType) ∧
      Accepted args attr ∧ SameAttr attr (sentAttrs env args) args.attrs := by
  have hvalue : ∀ {n : Nat} {same survives : Prop}, n ≠ type → (same ↔ survives) →
      (survives ↔ (n = type → args.attrs.type ≠ .noFileType) ∧ True ∧ same) := fun hne h =>
    ⟨fun hs => ⟨fun heq => absurd heq hne, trivial, h.2 hs⟩, fun hs => h.1 hs.2.2⟩
  fin_cases hattr
  · exact ⟨fun h => ⟨fun _ => h.1, trivial, (sentType_eq_iff _).2 h.2⟩,
      fun h => ⟨h.1 rfl, (sentType_eq_iff _).1 h.2.2⟩⟩
  · exact hvalue (by decide) (iff_of_true rfl trivial)
  · exact hvalue (by decide) (iff_of_true rfl trivial)
  · exact hvalue (by decide) .rfl
  · exact hvalue (by decide) .rfl
  · exact hvalue (by decide) (modeBits_eq_iff _)
  · exact hvalue (by decide) (iff_of_true rfl trivial)
  · exact hvalue (by decide) (setWidth_eq_iff _)
  · exact hvalue (by decide) (setWidth_eq_iff _)
  · exact hvalue (by decide) (sentRawdev_eq_iff _)
  · exact hvalue (by decide) (iff_of_true rfl trivial)
  · exact ⟨fun h => ⟨nofun, (sentTime_eq_iff _).2 h⟩, fun h => (sentTime_eq_iff _).1 h.2⟩
  · exact absurd rfl hcreate
  · exact ⟨fun h => ⟨nofun, (sentTime_eq_iff _).2 h⟩, fun h => (sentTime_eq_iff _).1 h.2⟩
  · exact ⟨fun h => ⟨nofun, (sentTime_eq_iff _).2 h⟩, fun h => (sentTime_eq_iff _).1 h.2⟩

section RoundTrip

variable (denv : DecodeEnv) (env : EncodeEnv) (args : EncodeArgs) (req : Bitmap4)
  (start : FsalAttrlist) (hdl4 : Option (List Byte)) (dinfo : Option DynamicFsInfo)
  (data : Option MinorVers)

/-- The requested attributes are sent, the whole value is decoded without an error, and the decoded
list has their values. -/
structure RoundTrip (fattr : Fattr4) (decoded : FsalAttrlist) : Prop where
  sent : nfs4FSALattrToFattr env args req = some fattr
  status : fattr4ToFSALattr denv (some start) fattr hdl4 dinfo data = .ok (.ok, some decoded)
  consumed : fattr.attrVals = [] ∨ ∃ st,
    decodeLoop denv fattr.attrmask.attrs (decodeStart (some start) fattr hdl4 dinfo data) =
      .ok (.ok, st) ∧ st.xdr.pos = fattr.attrVals.length
  same : ∀ attr ∈ req.attrs, SameAttr attr decoded args.attrs

def Fits : Prop := (req.attrs.map (valueSize env args)).sum ≤ attrvalsBuflen env args req

variable {denv env args req} {fattr : Fattr4}

theorem encodedAttrs_roundTrip (hreq : ∀ attr ∈ req.attrs, attr ∈ roundTripAttrs) :
    encodedAttrs args.data req.attrs = req.attrs := by
  have hall : ∀ d : Option MinorVers, ∀ attr ∈ roundTripAttrs,
      (decide (attr ≤ nfs4MaxAttrIndex d) && isEncoded d attr) = true := by
    intro d
    rcases d with _ | d
    · decide
    · cases d <;> decide
  exact filter_eq_self.2 fun attr hattr => hall args.data attr (hreq attr hattr)

theorem valueSize_pos (h : attr ∈ roundTripAttrs) : 0 < valueSize env args attr := by
  fin_cases h
  all_goals
    simp only [valueSize]
    omega

theorem attrs_eq_nil_of_vals (hreq : ∀ attr ∈ req.attrs, attr ∈ roundTripAttrs)
    (hpieces : Encodes env args req.attrs pieces) (hnil : pieces.flatten = []) :
    req.attrs = [] := by
  have hsize := length_pieces hreq hpieces
  rw [hnil, length_nil] at hsize
  rw [eq_nil_iff_forall_not_mem]
  intro attr hattr
  have hpos : 0 < valueSize env args attr := valueSize_pos (hreq attr hattr)
  have hle : valueSize env args attr ≤ (req.attrs.map (valueSize env args)).sum :=
    single_le_sum (fun _ _ => Nat.zero_le _) _ (mem_map_of_mem hattr)
  omega

theorem start_took (hvals : fattr.attrVals = pieces.flatten) :
    (decodeStart (some start) fattr hdl4 dinfo data).xdr.Took pieces.flatten
      (atEnd fattr.attrVals) := by
  rw [← hvals]
  exact ofData_took fattr.attrVals

theorem noFileType_of_encodes (hpieces : Encodes env args attrs pieces) (h : type ∈ attrs) :
    args.attrs.type ≠ .noFileType := by
  intro htype
  induction hpieces with
  | nil => cases h
  | cons hpiece _ ih =>
    rcases mem_cons.1 h with rfl | h
    · have hnone : encodeType env args = none := by
        unfold encodeType
        rw [htype]
      rw [show fattr4Encode type env args = none from hnone] at hpiece
      cases hpiece
    · exact ih h

section

variable (hids : Inverts denv env) (hreq : ∀ attr ∈ req.attrs, attr ∈ roundTripAttrs)
include hids hreq

theorem survives_of_roundTrip {decoded : FsalAttrlist}
    (h : RoundTrip denv env args req start hdl4 dinfo data fattr decoded) :
    (∀ attr ∈ req.attrs, Survives env args attr) ∧ Fits env args req := by
  obtain ⟨hattrs, pieces, hpieces, hvals, hfits⟩ := nfs4FSALattrToFattr_sent h.sent
  rw [encodedAttrs_roundTrip hreq] at hattrs hpieces
  rw [length_pieces hreq hpieces] at hfits
  refine ⟨?_, hfits⟩
  by_cases hnil : fattr.attrVals = []
  · rw [attrs_eq_nil_of_vals hreq hpieces (hvals ▸ hnil)]
    exact nofun
  · obtain ⟨st, hloop, -⟩ := h.consumed.resolve_left hnil
    have hdecoded := h.status
    rw [fattr4ToFSALattr_of_ne denv _ hnil, hloop] at hdecoded
    rw [hattrs] at hloop
    obtain ⟨hdec, hend⟩ := decodeLoop_status_ok_iff.1 hloop
    have htook := start_took start hdl4 dinfo data hvals
    have hnot : timeCreate ∉ req.attrs := fun hcreate =>
      not_consumed_of_create hids rfl fattr.length_lt hreq hpieces htook hcreate req.attrs_sorted
        hdec hend
    obtain ⟨haccs, -, b, hb, hsames, -⟩ := decodes_received hids rfl fattr.length_lt hreq
      hpieces htook hnot req.attrs_sorted hdec
    have hb' : b = decoded := by
      have hsome : st.args.attrs = some decoded := congrArg Prod.snd (Except.ok.inj hdecoded)
      exact Option.some.inj (hb.symm.trans hsome)
    subst hb'
    intro attr hattr
    rw [survives_iff env args (hreq attr hattr) fun heq => hnot (heq ▸ hattr)]
    refine ⟨fun heq => ?_, haccs attr hattr, (hsames attr hattr).symm.trans (h.same attr hattr)⟩
    exact noFileType_of_encodes hpieces (heq ▸ hattr)

theorem roundTrip_of_survives (hsurvives : ∀ attr ∈ req.attrs, Survives env args attr)
    (hfits : Fits env args req) :
    ∃ fattr decoded, RoundTrip denv env args req start hdl4 dinfo data fattr decoded := by
  have hnot : timeCreate ∉ req.attrs := fun hcreate => hsurvives _ hcreate
  have hvalues : ∀ attr ∈ req.attrs, (attr = type → args.attrs.type ≠ .noFileType) ∧
      Accepted args attr ∧ SameAttr attr (sentAttrs env args) args.attrs := fun attr hattr =>
    (survives_iff env args (hreq attr hattr) fun heq => hnot (heq ▸ hattr)).1 (hsurvives attr hattr)
  have hencoded : encodedAttrs args.data req.attrs = req.attrs := encodedAttrs_roundTrip hreq
  obtain ⟨fattr, hsent⟩ : ∃ fattr, nfs4FSALattrToFattr env args req = some fattr := by
    obtain ⟨pieces, hpieces⟩ := exists_pieces env (fun h => (hvalues _ h).1 rfl) hreq
    have hlength : pieces.flatten.length ≤ attrvalsBuflen env args req := by
      rw [length_pieces hreq hpieces]
      exact hfits
    exact nfs4FSALattrToFattr_of_fits (hencoded.symm ▸ hpieces) hlength
  obtain ⟨hattrs, pieces, hpieces, hvals, -⟩ := nfs4FSALattrToFattr_sent hsent
  rw [hencoded] at hattrs hpieces
  by_cases hnil : fattr.attrVals = []
  · have hempty := attrs_eq_nil_of_vals hreq hpieces (hvals ▸ hnil)
    refine ⟨fattr, start, hsent, ?_, .inl hnil, ?_⟩
    · unfold fattr4ToFSALattr
      rw [if_pos hnil, if_pos (Bitmap4.attrs_eq_nil_iff.1 (hattrs.trans hempty))]
    · rw [hempty]
      exact nofun
  · have htook := start_took start hdl4 dinfo data hvals
    obtain ⟨st, hdec⟩ := exists_decodes hids rfl fattr.length_lt hreq hpieces htook hnot
      fun attr hattr => (hvalues attr hattr).2.1
    obtain ⟨-, hxdr, b, hb, hsames, -⟩ := decodes_received hids rfl fattr.length_lt hreq
      hpieces htook hnot req.attrs_sorted hdec
    have hend : st.xdr.rest = [] := by rw [hxdr, rest_atEnd]
    have hloop := decodeLoop_status_ok_iff.2 ⟨hdec, hend⟩
    rw [← hattrs] at hloop
    refine ⟨fattr, b, hsent, ?_, .inr ⟨st, hloop, ?_⟩, fun attr hattr => ?_⟩
    · rw [fattr4ToFSALattr_of_ne denv _ hnil, hloop, ← hb]
      rfl
    · rw [hxdr]
      rfl
    · exact (hsames attr hattr).trans (hvalues attr hattr).2.2

end

end RoundTrip

def wordName (id : BitVec 32) : IdName := ⟨u32Bytes id, nofun, by rw [length_u32Bytes]; decide⟩

def wordNames : EncodeEnv where
  uid2name := wordName
  gid2name := wordName
  exportFsid := none
  other := fun _ => none
  maxSendBufferSize := 1048576
  maxSendBufferSize_le := by decide

def idOfWord : List Byte → Option (BitVec 32)
  | [a, b, c, d] => some (u32OfBytes a b c d)
  | _ => none

def wordIds : DecodeEnv := ⟨idOfWord, idOfWord, fun _ => true, []⟩

theorem wordIds_inverts : Inverts wordIds wordNames := by
  have hinv : ∀ id, idOfWord (wordName id).bytes = some id := fun id =>
    congrArg some (u32Bytes_injective (u32Bytes_u32OfBytes _ _ _ _))
  exact ⟨hinv, hinv⟩

def directoryArgs : EncodeArgs where
  attrs :=
    { FsalAttrlist.zero with type := .directory, filesize := 4096, mode := 0o755, owner := 1000 }
  fsid := ⟨0, 0⟩
  fileid := 0
  data := none

end EdgeComputing.Nfs4
