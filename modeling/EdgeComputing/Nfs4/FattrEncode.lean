import EdgeComputing.Nfs4.FattrDecode

/-!
The attributes that the server sends: `nfs4_FSALattr_To_Fattr` with `xdr_fattr4_encode` and the
encoders of the attributes that a decoder stores. An encoder without room for one of its values
fails, and with it the whole encoding, so an encoder is given by all the bytes it puts out.
-/

namespace EdgeComputing.Nfs4

open List Library Library.Xdr

/-- A name that the ID mapper finds for a user or a group: a number, a name with its domain, or
`nobody`. Its length is sent in 32 bits. -/
structure IdName where
  bytes : List Byte
  bytes_ne : bytes ≠ []
  length_lt : bytes.length < 2 ^ 32

structure EncodeEnv where
  uid2name : BitVec 32 → IdName
  gid2name : BitVec 32 → IdName
  /-- The `filesystem_id` of the export, if it has EXPORT_OPTION_FSID_SET. -/
  exportFsid : Option MajorMinor
  /-- What the encoders of the other attributes put out. -/
  other : Nat → Option (List Byte)
  maxSendBufferSize : Nat
  maxSendBufferSize_le : maxSendBufferSize ≤ 1048576 * 9

structure EncodeArgs where
  attrs : FsalAttrlist
  fsid : MajorMinor
  fileid : BitVec 64
  data : Option MinorVers

/-- The bytes of an attribute, or `none` if the encoder does not answer FATTR_XDR_SUCCESS. -/
abbrev Encoder := EncodeEnv → EncodeArgs → Option (List Byte)

def encodeType : Encoder := fun _ args =>
  match args.attrs.type with
  | .regularFile | .extendedAttr => some (u32Bytes 1)
  | .directory => some (u32Bytes 2)
  | .blockFile => some (u32Bytes 3)
  | .characterFile => some (u32Bytes 4)
  | .symbolicLink => some (u32Bytes 5)
  | .socketFile => some (u32Bytes 6)
  | .fifoFile => some (u32Bytes 7)
  | .noFileType => none

def encodeChange : Encoder := fun _ args => some (u64Bytes args.attrs.change)

def encodeFilesize : Encoder := fun _ args => some (u64Bytes args.attrs.filesize)

variable (env : EncodeEnv) (args : EncodeArgs)

def sentFsid : MajorMinor :=
  match args.data, env.exportFsid with
  | some _, some fsid => fsid
  | _, _ => args.fsid

def encodeFsid : Encoder := fun env args =>
  some (u64Bytes (sentFsid env args).major ++ u64Bytes (sentFsid env args).minor)

def encodeFileid : Encoder := fun _ args => some (u64Bytes args.fileid)

def encodeMode : Encoder := fun _ args => some (u32Bytes (modeBits args.attrs.mode))

def encodeNumlinks : Encoder := fun _ args => some (u32Bytes args.attrs.numlinks)

def encodeOwner : Encoder := fun env args =>
  some (varBytes (env.uid2name (args.attrs.owner.setWidth 32)).bytes)

def encodeGroup : Encoder := fun env args =>
  some (varBytes (env.gid2name (args.attrs.group.setWidth 32)).bytes)

def encodeRawdev : Encoder := fun _ args =>
  some (u32Bytes (args.attrs.rawdev.major.setWidth 32) ++
    u32Bytes (args.attrs.rawdev.minor.setWidth 32))

def encodeSpaceused : Encoder := fun _ args => some (u64Bytes args.attrs.spaceused)

def timeBytes (ts : Timespec) : List Byte := u64Bytes ts.tvSec ++ u32Bytes (ts.tvNsec.setWidth 32)

def encodeAccesstime : Encoder := fun _ args => some (timeBytes args.attrs.atime)

def encodeCreatetime : Encoder := fun _ _ => some (timeBytes ⟨0, 0⟩)

def encodeMetatime : Encoder := fun _ args => some (timeBytes args.attrs.ctime)

def encodeModifytime : Encoder := fun _ args => some (timeBytes args.attrs.mtime)

def fattr4Encode : Nat → Encoder
  | Attr.type => encodeType
  | Attr.change => encodeChange
  | Attr.size => encodeFilesize
  | Attr.fsid => encodeFsid
  | Attr.fileid => encodeFileid
  | Attr.mode => encodeMode
  | Attr.numlinks => encodeNumlinks
  | Attr.owner => encodeOwner
  | Attr.ownerGroup => encodeGroup
  | Attr.rawdev => encodeRawdev
  | Attr.spaceUsed => encodeSpaceused
  | Attr.timeAccess => encodeAccesstime
  | Attr.timeCreate => encodeCreatetime
  | Attr.timeMetadata => encodeMetatime
  | Attr.timeModify => encodeModifytime
  | attr => fun env _ => env.other attr

/-- Whether an attribute up to the largest one is encoded. The test for FS_LOCATIONS compares the
number with a mask; no number of an attribute is that large. -/
def isEncoded (data : Option MinorVers) (attr : Nat) : Bool :=
  (fattr4tab[attr]?).any Fattr4Dent.encoded &&
    (data.isSome || (attr ≠ Attr.fsLayoutTypes && attr ≠ Attr.layoutBlksize))

/-- The first loop, which sets up the bitmap. It asserts that each bit can be set. -/
def setBitmapLoop (data : Option MinorVers) : List Nat → Bitmap4 → Option Bitmap4
  | [], bitmap => some bitmap
  | attr :: rest, bitmap =>
    if nfs4MaxAttrIndex data < attr then some bitmap
    else if isEncoded data attr then
      match bitmap.setAttributeInBitmap attr with
      | none => none
      | some bitmap => setBitmapLoop data rest bitmap
    else setBitmapLoop data rest bitmap

def encodeLoop (env : EncodeEnv) (args : EncodeArgs) {size : Nat} :
    List Nat → OutStream size → Option (OutStream size)
  | [], xdr => some xdr
  | attr :: rest, xdr =>
    match fattr4Encode attr env args with
    | none => none
    | some piece =>
      match xdr.put piece with
      | none => none
      | some xdr => encodeLoop env args rest xdr

def xdrFattr4Encode (req : Bitmap4) (size : Nat) : Option (Bitmap4 × OutStream size) :=
  match setBitmapLoop args.data req.attrs .empty with
  | none => none
  | some bitmap => (encodeLoop env args bitmap.attrs .empty).map fun xdr => (bitmap, xdr)

def nfs4AttrvalsBufflen : Nat := 1024

def aceRoom : Nat := 20 + 512

def roughBuflen (req : Bitmap4) : Nat :=
  let naces := if req.attributeIsSet Attr.acl then (args.attrs.acl.map List.length).getD 0 else 0
  (nfs4AttrvalsBufflen + aceRoom * naces) % 2 ^ 32

def attrvalsBuflen (req : Bitmap4) : Nat :=
  if env.maxSendBufferSize < roughBuflen args req then env.maxSendBufferSize
  else roughBuflen args req

theorem attrvalsBuflen_le (env : EncodeEnv) (args : EncodeArgs) (req : Bitmap4) :
    attrvalsBuflen env args req ≤ 1048576 * 9 := by
  have hmax := env.maxSendBufferSize_le
  unfold attrvalsBuflen
  split_ifs with h
  · exact hmax
  · exact Nat.le_trans (Nat.le_of_not_lt h) hmax

/-- `nfs4_FSALattr_To_Fattr`; `none` is its -1. -/
def nfs4FSALattrToFattr (req : Bitmap4) : Option Fattr4 :=
  if req.map = [] then some ⟨.empty, [], by decide⟩
  else
    match xdrFattr4Encode env args req (attrvalsBuflen env args req) with
    | none => none
    | some (bitmap, xdr) =>
      some ⟨bitmap, xdr.bytes, by
        have hle := xdr.length_le
        have hsize := attrvalsBuflen_le env args req
        omega⟩

def encodedAttrs (data : Option MinorVers) (req : List Nat) : List Nat :=
  req.filter fun attr => attr ≤ nfs4MaxAttrIndex data && isEncoded data attr

theorem le_of_isEncoded {data : Option MinorVers} {attr : Nat} (h : isEncoded data attr = true) :
    attr ≤ Attr.xattrSupport := by
  by_contra hgt
  have hnone : fattr4tab[attr]? = none := by
    rw [getElem?_eq_none_iff, length_fattr4tab]
    exact Nat.lt_of_not_le hgt
  rw [isEncoded, hnone] at h
  cases h

theorem setBitmapLoop_spec (data : Option MinorVers) {req : List Nat} (bitmap : Bitmap4)
    (hsorted : req.Pairwise (· < ·)) : ∃ bitmap', setBitmapLoop data req bitmap = some bitmap' ∧
      ∀ attr, bitmap'.attributeIsSet attr = true ↔
        bitmap.attributeIsSet attr = true ∨ attr ∈ encodedAttrs data req := by
  induction req generalizing bitmap with
  | nil => exact ⟨bitmap, rfl, fun attr => ⟨.inl, fun h => h.resolve_right not_mem_nil⟩⟩
  | cons first rest ih =>
    rw [pairwise_cons] at hsorted
    unfold setBitmapLoop encodedAttrs
    by_cases hgt : nfs4MaxAttrIndex data < first
    · -- The loop ends here, and all that follow are larger.
      rw [if_pos hgt]
      refine ⟨bitmap, rfl, fun attr => ⟨.inl, fun h => h.resolve_right fun hmem => ?_⟩⟩
      obtain ⟨hmem, hle⟩ := mem_filter.1 hmem
      have hle := of_decide_eq_true (Bool.and_eq_true_iff.1 hle).1
      rcases mem_cons.1 hmem with rfl | hmem
      · omega
      · have := hsorted.1 attr hmem
        omega
    rw [if_neg hgt, filter_cons, decide_eq_true (Nat.le_of_not_lt hgt), Bool.true_and]
    by_cases henc : isEncoded data first = true
    · obtain ⟨bitmap1, hset, hbits⟩ := Bitmap4.setAttributeInBitmap_spec bitmap
        (show first < 96 from Nat.lt_of_le_of_lt (le_of_isEncoded henc) (by decide))
      obtain ⟨bitmap', hloop, hspec⟩ := ih bitmap1 hsorted.2
      rw [if_pos henc, if_pos henc, hset]
      refine ⟨bitmap', hloop, fun attr => ?_⟩
      rw [hspec, hbits, mem_cons, or_assoc]
      rfl
    · obtain ⟨bitmap', hloop, hspec⟩ := ih bitmap hsorted.2
      rw [if_neg henc, if_neg henc]
      exact ⟨bitmap', hloop, hspec⟩

def Encodes (attrs : List Nat) (pieces : List (List Byte)) : Prop :=
  List.Forall₂ (fun attr piece => fattr4Encode attr env args = some piece) attrs pieces

theorem encodeLoop_eq_some {env : EncodeEnv} {args : EncodeArgs} {size : Nat} {attrs : List Nat}
    {xdr xdr' : OutStream size} : encodeLoop env args attrs xdr = some xdr' ↔
      ∃ pieces, Encodes env args attrs pieces ∧ xdr'.bytes = xdr.bytes ++ pieces.flatten := by
  induction attrs generalizing xdr with
  | nil =>
    constructor
    · intro h
      cases h
      exact ⟨[], .nil, (append_nil _).symm⟩
    · rintro ⟨pieces, hpieces, hbytes⟩
      cases hpieces
      exact congrArg some (OutStream.ext (hbytes.trans (append_nil _)).symm)
  | cons attr rest ih =>
    unfold encodeLoop
    constructor
    · intro h
      split at h
      · cases h
      · next piece hpiece =>
          split at h
          · cases h
          · next xdr1 hput =>
              obtain ⟨pieces, hpieces, hbytes⟩ := ih.1 h
              refine ⟨piece :: pieces, .cons hpiece hpieces, ?_⟩
              rw [hbytes, OutStream.put_eq_some.1 hput, flatten_cons, append_assoc]
    · rintro ⟨pieces, hpieces, hbytes⟩
      cases hpieces with
      | cons hpiece hpieces =>
        next piece pieces =>
        rw [flatten_cons, ← append_assoc] at hbytes
        have hroom : (xdr.bytes ++ piece).length ≤ size := by
          have hle := xdr'.length_le
          rw [hbytes, length_append] at hle
          omega
        have hput : xdr.put piece = some ⟨xdr.bytes ++ piece, hroom⟩ :=
          OutStream.put_eq_some.2 rfl
        rw [hpiece]
        dsimp only
        rw [hput]
        exact ih.2 ⟨pieces, hpieces, hbytes⟩

theorem xdrFattr4Encode_spec (env : EncodeEnv) (args : EncodeArgs) (req : Bitmap4) (size : Nat) :
    ∃ bitmap, bitmap.attrs = encodedAttrs args.data req.attrs ∧
      xdrFattr4Encode env args req size =
        (encodeLoop env args bitmap.attrs .empty).map fun xdr => (bitmap, xdr) := by
  obtain ⟨bitmap, hbitmap, hbits⟩ := setBitmapLoop_spec args.data .empty req.attrs_sorted
  refine ⟨bitmap, ?_, ?_⟩
  · apply bitmap.attrs_sorted.eq_of_mem_iff (req.attrs_sorted.filter _)
    intro attr
    rw [Bitmap4.mem_attrs, hbits]
    exact ⟨fun h => h.resolve_left nofun, .inr⟩
  · unfold xdrFattr4Encode
    rw [hbitmap]

theorem nfs4FSALattrToFattr_sent {env : EncodeEnv} {args : EncodeArgs} {req : Bitmap4}
    {fattr : Fattr4} (h : nfs4FSALattrToFattr env args req = some fattr) :
    fattr.attrmask.attrs = encodedAttrs args.data req.attrs ∧
      ∃ pieces, Encodes env args (encodedAttrs args.data req.attrs) pieces ∧
        fattr.attrVals = pieces.flatten ∧
        pieces.flatten.length ≤ attrvalsBuflen env args req := by
  unfold nfs4FSALattrToFattr at h
  by_cases hnil : req.map = []
  · rw [if_pos hnil] at h
    cases h
    have hattrs : req.attrs = [] := by
      rw [Bitmap4.attrs_eq, hnil]
      rfl
    rw [hattrs]
    exact ⟨rfl, [], .nil, rfl, Nat.zero_le _⟩
  · rw [if_neg hnil] at h
    obtain ⟨bitmap, hattrs, hencode⟩ :=
      xdrFattr4Encode_spec env args req (attrvalsBuflen env args req)
    rw [hencode] at h
    cases hloop : encodeLoop env args bitmap.attrs .empty with
    | none =>
      rw [hloop] at h
      cases h
    | some xdr =>
      rw [hloop] at h
      cases h
      obtain ⟨pieces, hpieces, hbytes⟩ := encodeLoop_eq_some.1 hloop
      rw [hattrs] at hpieces
      refine ⟨hattrs, pieces, hpieces, hbytes, ?_⟩
      have hle := xdr.length_le
      rw [hbytes] at hle
      exact hle

theorem nfs4FSALattrToFattr_of_fits {env : EncodeEnv} {args : EncodeArgs} {req : Bitmap4}
    {pieces : List (List Byte)}
    (hpieces : Encodes env args (encodedAttrs args.data req.attrs) pieces)
    (hfits : pieces.flatten.length ≤ attrvalsBuflen env args req) :
    ∃ fattr, nfs4FSALattrToFattr env args req = some fattr := by
  unfold nfs4FSALattrToFattr
  by_cases hnil : req.map = []
  · rw [if_pos hnil]
    exact ⟨_, rfl⟩
  · obtain ⟨bitmap, hattrs, hencode⟩ :=
      xdrFattr4Encode_spec env args req (attrvalsBuflen env args req)
    have hloop : encodeLoop env args bitmap.attrs .empty = some ⟨pieces.flatten, hfits⟩ :=
      encodeLoop_eq_some.2 ⟨pieces, hattrs ▸ hpieces, rfl⟩
    rw [if_neg hnil, hencode, hloop]
    exact ⟨_, rfl⟩

end EdgeComputing.Nfs4
