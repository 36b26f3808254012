import EdgeComputing.Nfs4.Fattr4

/-!
The attributes that a client sends: `nfs4_Fattr_Supported`, `nfs4_Fattr_Check_Access` and
`nfs4_Fattr_To_FSAL_attr` with the decoders. These share a position in the value buffer and the
structure `xdr_attrs_args`; following one of its null pointers is a `Fault`. The environment maps
names to IDs, and says which ACLs the server can keep and what the stack holds where `decode_acl`
has its buffer.
-/

namespace EdgeComputing.Nfs4

open Library Library.Xdr Stream

inductive FattrXdrResult
  | noop | success | successExp | failed | badowner
deriving DecidableEq

structure DynamicFsInfo where
  totalBytes : BitVec 64
  freeBytes : BitVec 64
  availBytes : BitVec 64
  totalFiles : BitVec 64
  freeFiles : BitVec 64
  availFiles : BitVec 64
  maxread : BitVec 64
  maxwrite : BitVec 64
deriving DecidableEq

structure DecodeArgs where
  attrs : Option FsalAttrlist
  hdl4 : Option (List Byte)
  rdattrError : BitVec 32
  type : ObjectFileType
  fsid : MajorMinor
  fileid : BitVec 64
  nfsStatus : Nfsstat4
  data : Option MinorVers
  dynamicinfo : Option DynamicFsInfo
deriving DecidableEq

structure DecodeState where
  xdr : Stream
  args : DecodeArgs
deriving DecidableEq

structure DecodeEnv where
  name2uid : List Byte → Option (BitVec 32)
  name2gid : List Byte → Option (BitVec 32)
  /-- Whether `nfs4_acl_new_entry` finds or makes an entry for the aces. -/
  aclNewEntry : List Fsal.FsalAce → Bool
  /-- The string that the stack holds. -/
  stack : List Byte

abbrev Decoder := DecodeEnv → DecodeState → Except Fault (FattrXdrResult × DecodeState)

def DecodeArgs.withAttrs (args : DecodeArgs) (f : FsalAttrlist → FsalAttrlist) :
    Except Fault DecodeArgs :=
  match args.attrs with
  | none => .error .nullPointer
  | some attrs => .ok { args with attrs := some (f attrs) }

def DecodeArgs.withDynamicinfo (args : DecodeArgs) (f : DynamicFsInfo → DynamicFsInfo) :
    Except Fault DecodeArgs :=
  match args.dynamicinfo with
  | none => .error .nullPointer
  | some info => .ok { args with dynamicinfo := some (f info) }

def decodeWith {α : Type} (read : Stream → Option (α × Stream))
    (store : α → DecodeArgs → Except Fault (FattrXdrResult × DecodeArgs)) : Decoder :=
  fun _ st =>
    match read st.xdr with
    | none => .ok (.failed, st)
    | some (v, xdr) =>
      match store v st.args with
      | .error fault => .error fault
      | .ok (res, args) => .ok (res, ⟨xdr, args⟩)

def stored (args : Except Fault DecodeArgs) : Except Fault (FattrXdrResult × DecodeArgs) :=
  args.map fun args => (.success, args)

def decodeNoop : Decoder := fun _ st => .ok (.noop, st)

def typeOfNf4 (t : BitVec 32) : Option ObjectFileType :=
  match t.toNat with
  | 1 => some .regularFile
  | 2 => some .directory
  | 3 => some .blockFile
  | 4 => some .characterFile
  | 5 => some .symbolicLink
  | 6 => some .socketFile
  | 7 => some .fifoFile
  | _ => none

def decodeType : Decoder :=
  decodeWith u32 fun t args =>
    match typeOfNf4 t with
    | none => .ok (.failed, args)
    | some type =>
      stored ((args.withAttrs fun attrs => { attrs with type }).map fun args =>
        { args with type })

def decodeChange : Decoder :=
  decodeWith u64 fun v args =>
    stored (args.withAttrs fun attrs => { attrs with change := v })

def decodeFilesize : Decoder :=
  decodeWith u64 fun v args =>
    stored (args.withAttrs fun attrs => { attrs with filesize := v })

def readMajorMinor (xdr : Stream) : Option (MajorMinor × Stream) :=
  match xdr.u64 with
  | none => none
  | some (major, xdr) =>
    match xdr.u64 with
    | none => none
    | some (minor, xdr) => some (⟨major, minor⟩, xdr)

def decodeFsid : Decoder :=
  decodeWith readMajorMinor fun fsid args =>
    .ok (.success, { args with fsid, attrs := args.attrs.map fun attrs => { attrs with fsid } })

def decodeRdattrError : Decoder :=
  decodeWith u32 fun v args => .ok (.success, { args with rdattrError := v })

def decodeFileid : Decoder :=
  decodeWith u64 fun fileid args =>
    .ok (.success, { args with fileid, attrs := args.attrs.map fun attrs => { attrs with fileid } })

def decodeFsInfo (set : BitVec 64 → DynamicFsInfo → DynamicFsInfo) : Decoder :=
  decodeWith u64 fun v args => stored (args.withDynamicinfo (set v))

def decodeFilesAvail : Decoder := decodeFsInfo fun v info => { info with availFiles := v }
def decodeFilesFree : Decoder := decodeFsInfo fun v info => { info with freeFiles := v }
def decodeFilesTotal : Decoder := decodeFsInfo fun v info => { info with totalFiles := v }
def decodeMaxread : Decoder := decodeFsInfo fun v info => { info with maxread := v }
def decodeMaxwrite : Decoder := decodeFsInfo fun v info => { info with maxwrite := v }
def decodeSpaceAvail : Decoder := decodeFsInfo fun v info => { info with availBytes := v }
def decodeSpaceFree : Decoder := decodeFsInfo fun v info => { info with freeBytes := v }
def decodeSpaceTotal : Decoder := decodeFsInfo fun v info => { info with totalBytes := v }

def modeBits (mode : BitVec 32) : BitVec 32 := mode &&& 0xfff

def decodeMode : Decoder :=
  decodeWith u32 fun v args =>
    stored (args.withAttrs fun attrs => { attrs with mode := modeBits v })

def decodeNumlinks : Decoder :=
  decodeWith u32 fun v args =>
    stored (args.withAttrs fun attrs => { attrs with numlinks := v })

def readSpecdata4 (xdr : Stream) : Option ((BitVec 32 × BitVec 32) × Stream) :=
  match xdr.u32 with
  | none => none
  | some (specdata1, xdr) =>
    match xdr.u32 with
    | none => none
    | some (specdata2, xdr) => some ((specdata1, specdata2), xdr)

def decodeRawdev : Decoder :=
  decodeWith readSpecdata4 fun v args =>
    stored (args.withAttrs fun attrs =>
      { attrs with rawdev := ⟨v.1.setWidth 64, v.2.setWidth 64⟩ })

def decodeSpaceused : Decoder :=
  decodeWith u64 fun v args =>
    stored (args.withAttrs fun attrs => { attrs with spaceused := v })

def readTime (xdr : Stream) : Option ((BitVec 64 × BitVec 32) × Stream) :=
  match xdr.u64 with
  | none => none
  | some (seconds, xdr) =>
    match xdr.u32 with
    | none => none
    | some (nseconds, xdr) => some ((seconds, nseconds), xdr)

def decodeTime (set : Timespec → FsalAttrlist → FsalAttrlist) : Decoder :=
  decodeWith readTime fun v args =>
    match args.withAttrs (set ⟨v.1, v.2.setWidth 64⟩) with
    | .error fault => .error fault
    | .ok args =>
      if 1000000000 ≤ v.2.toNat then .ok (.failed, { args with nfsStatus := .inval })
      else .ok (.success, args)

def decodeTimeset (set : Timespec → FsalAttrlist → FsalAttrlist) : Decoder := fun env st =>
  match st.xdr.u32 with
  | none => .ok (.failed, st)
  | some (how, xdr) =>
    if how = 0 then .ok (.successExp, { st with xdr })
    else decodeTime set env { st with xdr }

def decodeAccesstime : Decoder := decodeTime fun ts attrs => { attrs with atime := ts }
def decodeAccesstimeset : Decoder := decodeTimeset fun ts attrs => { attrs with atime := ts }
def decodeMetatime : Decoder := decodeTime fun ts attrs => { attrs with ctime := ts }
def decodeModifytime : Decoder := decodeTime fun ts attrs => { attrs with mtime := ts }
def decodeModifytimeset : Decoder := decodeTimeset fun ts attrs => { attrs with mtime := ts }

def decodeCreatetime : Decoder := fun _ st => .ok (.success, st)

def readWords (xdr : Stream) : Nat → Option (List (BitVec 32) × Stream)
  | 0 => some ([], xdr)
  | n + 1 =>
    match xdr.u32 with
    | none => none
    | some (word, xdr) => (readWords xdr n).map fun (words, xdr) => (word :: words, xdr)

def decodeSupportedAttrs : Decoder :=
  decodeWith
    (fun xdr =>
      match xdr.u32 with
      | none => none
      | some (len, xdr) => if len.toNat ≤ 3 then readWords xdr len.toNat else none)
    fun words args =>
      let attrs := (List.range (32 * words.length)).filter (· ≤ nfs4MaxAttrIndex args.data)
      let supported := attrs.foldlM (fun mask attr =>
        (fattr4Entry attr).map fun dent =>
          if ((words[attr / 32]?).getD 0).getLsbD (attr % 32) then mask ||| dent.attrmask
          else mask) (0 : BitVec 64)
      match supported with
      | .error fault => .error fault
      | .ok supported => stored (args.withAttrs fun attrs => { attrs with supported })

def nfs4Fhsize : Nat := 128

/-- Without a handle to fill in, the position is moved over the bytes, modulo 2^32 and without
their padding. -/
def decodeFilehandle : Decoder := fun _ st =>
  match st.args.hdl4 with
  | none =>
    match st.xdr.u32 with
    | none => .ok (.failed, st)
    | some (fhlen, xdr) =>
      match xdr.setPos ((xdr.pos + fhlen.toNat) % 2 ^ 32) with
      | none => .ok (.failed, st)
      | some xdr => .ok (.success, { st with xdr })
  | some _ =>
    match st.xdr.getBytes nfs4Fhsize with
    | none => .ok (.failed, st)
    | some (fh, xdr) => .ok (.success, ⟨xdr, { st.args with hdl4 := some fh }⟩)

def readBuffer (data : List Byte) (addr len : Nat) : Except Fault (List Byte) :=
  if addr + len ≤ data.length then .ok ((data.drop addr).take len) else .error .outsideBuffer

/-- `decode_owner` and `decode_group`. A padding that is missing at the end of the buffer is not
an error. -/
def decodePrincipal (name2id : DecodeEnv → List Byte → Option (BitVec 32))
    (set : BitVec 64 → FsalAttrlist → FsalAttrlist) : Decoder := fun env st =>
  match st.xdr.u32 with
  | none => .ok (.failed, st)
  | some (len, xdr) =>
    if len = 0 then .ok (.failed, { st with args := { st.args with nfsStatus := .inval } })
    else
      let pos := xdr.pos
      let newpos := (pos + len.toNat + padding len.toNat) % 2 ^ 32
      match xdr.get len.toNat with
      | none => .ok (.failed, st)
      | some (_, xdr) =>
        match readBuffer xdr.data pos len.toNat with
        | .error fault => .error fault
        | .ok name =>
          match name2id env name with
          | none =>
            .ok (.badowner, { st with args := { st.args with nfsStatus := .badowner } })
          | some id =>
            match st.args.withAttrs (set (id.setWidth 64)) with
            | .error fault => .error fault
            | .ok args => .ok (.success, ⟨(xdr.setPos newpos).getD xdr, args⟩)

def decodeOwner : Decoder :=
  decodePrincipal DecodeEnv.name2uid fun id attrs => { attrs with owner := id }

def decodeGroup : Decoder :=
  decodePrincipal DecodeEnv.name2gid fun id attrs => { attrs with group := id }

def xdrArrayMaxlen : Nat := 1024

def readSecLabel4 (xdr : Stream) : Option (SecLabel4 × Stream) :=
  match xdr.u32 with
  | none => none
  | some (lfs, xdr) =>
    match xdr.u32 with
    | none => none
    | some (pi, xdr) =>
      match xdr.getBytes xdrArrayMaxlen with
      | none => none
      | some (data, xdr) => some (⟨lfs, pi, data⟩, xdr)

def decodeSecLabel : Decoder :=
  decodeWith readSecLabel4 fun secLabel args =>
    stored (args.withAttrs fun attrs => { attrs with secLabel })

def bytesOf (text : List Char) : List Byte := text.map fun c => .ofNat 8 c.toNat

def whostr2TypeMap : List (List Byte × BitVec 32) :=
  [(bytesOf ['O', 'W', 'N', 'E', 'R', '@'], Fsal.specialOwner),
    (bytesOf ['G', 'R', 'O', 'U', 'P', '@'], Fsal.specialGroup),
    (bytesOf ['E', 'V', 'E', 'R', 'Y', 'O', 'N', 'E', '@'], Fsal.specialEveryone)]

def maxnamlen : Nat := 255

def readUtf8string (xdr : Stream) : Option (List Byte × Stream) :=
  match xdr.u32 with
  | none => none
  | some (size, xdr) => if size.toNat < maxnamlen then xdr.getOpaque size.toNat else none

def aceTypeOf (type : BitVec 32) : Option Fsal.AceType :=
  match type.toNat with
  | 0 => some .allow
  | 1 => some .deny
  | 2 => some .audit
  | 3 => some .alarm
  | _ => none

inductive AceError
  | failed | aceType | badOwner
deriving DecidableEq

def AceError.result : AceError → FattrXdrResult
  | .failed | .badOwner => .failed
  | .aceType => .noop

def AceError.status (old : Nfsstat4) : AceError → Nfsstat4
  | .failed | .aceType => old
  | .badOwner => .badowner

abbrev AceResult := Except AceError

def orFailed {α : Type} : Option α → AceResult α
  | none => .error .failed
  | some a => .ok a

def aceWho (env : DecodeEnv) (buffer name : List Byte) (type : Fsal.AceType)
    (perm flag : BitVec 32) : AceResult Fsal.FsalAce :=
  match whostr2TypeMap.find? fun who => who.1 = buffer with
  | some who =>
    .ok ⟨type, perm, flag &&& ~~~Fsal.flagGroupId, Fsal.iflagSpecialId, who.2⟩
  | none =>
    (orFailed (if flag &&& Fsal.flagGroupId ≠ 0 then env.name2gid name
      else env.name2uid name)).map fun who => ⟨type, perm, flag, 0, who⟩

def decodeAce (env : DecodeEnv) (buffer : List Byte) (xdr : Stream) :
    AceResult (Fsal.FsalAce × List Byte × Stream) := do
  let (type, xdr) ← orFailed xdr.u32
  match aceTypeOf type with
  | none => .error .aceType
  | some type =>
    let (flag, xdr) ← orFailed xdr.u32
    let (perm, xdr) ← orFailed xdr.u32
    let (name, xdr) ← orFailed (readUtf8string xdr)
    let buffer := if name = [] then buffer else name.takeWhile (· ≠ 0)
    let ace ← aceWho env buffer name type perm flag
    if ace.who = BitVec.allOnes 32 then .error .badOwner
    else .ok (ace, buffer, xdr)

def decodeAces (env : DecodeEnv) : Nat → List Byte → Stream →
    AceResult (List Fsal.FsalAce × Stream)
  | 0, _, xdr => .ok ([], xdr)
  | n + 1, buffer, xdr => do
    let (ace, buffer, xdr) ← decodeAce env buffer xdr
    let (aces, xdr) ← decodeAces env n buffer xdr
    .ok (ace :: aces, xdr)

def decodeAcl : Decoder := fun env st =>
  match st.xdr.u32 with
  | none => .ok (.failed, st)
  | some (naces, xdr) =>
    if naces = 0 then .ok (.success, { st with xdr })
    else
      match decodeAces env naces.toNat env.stack xdr with
      | .error e =>
        .ok (e.result,
          { st with args := { st.args with nfsStatus := e.status st.args.nfsStatus } })
      | .ok (aces, xdr) =>
        let kept := env.aclNewEntry aces
        match st.args.withAttrs fun attrs =>
            { attrs with acl := if kept then some aces else none } with
        | .error fault => .error fault
        | .ok args =>
          if kept then .ok (.success, ⟨xdr, args⟩)
          else .ok (.failed, ⟨xdr, { args with nfsStatus := .serverfault }⟩)

/-- The decoders of `fattr4tab`; `none` is a null pointer. -/
def fattr4Decode : Nat → Option Decoder
  | Attr.supportedAttrs => some decodeSupportedAttrs
  | Attr.type => some decodeType
  | Attr.change => some decodeChange
  | Attr.size => some decodeFilesize
  | Attr.fsid => some decodeFsid
  | Attr.rdattrError => some decodeRdattrError
  | Attr.acl => some decodeAcl
  | Attr.filehandle => some decodeFilehandle
  | Attr.fileid => some decodeFileid
  | Attr.filesAvail => some decodeFilesAvail
  | Attr.filesFree => some decodeFilesFree
  | Attr.filesTotal => some decodeFilesTotal
  | Attr.maxread => some decodeMaxread
  | Attr.maxwrite => some decodeMaxwrite
  | Attr.mode => some decodeMode
  | Attr.numlinks => some decodeNumlinks
  | Attr.owner => some decodeOwner
  | Attr.ownerGroup => some decodeGroup
  | Attr.rawdev => some decodeRawdev
  | Attr.spaceAvail => some decodeSpaceAvail
  | Attr.spaceFree => some decodeSpaceFree
  | Attr.spaceTotal => some decodeSpaceTotal
  | Attr.spaceUsed => some decodeSpaceused
  | Attr.timeAccess => some decodeAccesstime
  | Attr.timeAccessSet => some decodeAccesstimeset
  | Attr.timeCreate => some decodeCreatetime
  | Attr.timeMetadata => some decodeMetatime
  | Attr.timeModify => some decodeModifytime
  | Attr.timeModifySet => some decodeModifytimeset
  | Attr.secLabel => some decodeSecLabel
  | 77 | 78 | 79 | 81 => none
  | _ => some decodeNoop

def atribSupported (attr : Nat) (fsalSupported : BitVec 64) : Except Fault Bool :=
  (fattr4Entry attr).map fun dent =>
    dent.supported && (dent.attrmask = 0 || fsalSupported &&& dent.attrmask ≠ 0)

def supportedLoop (fsalSupported : BitVec 64) : List Nat → Except Fault Bool
  | [] => .ok true
  | attr :: rest =>
    match atribSupported attr fsalSupported with
    | .error fault => .error fault
    | .ok false => .ok false
    | .ok true => supportedLoop fsalSupported rest

def nfs4FattrSupported (fsalSupported : BitVec 64) (fattr : Fattr4) : Except Fault Bool :=
  supportedLoop fsalSupported fattr.attrmask.attrs

def accessLoop (access : BitVec 32) : List Nat → Except Fault Bool
  | [] => .ok true
  | attr :: rest =>
    if Attr.xattrSupport < attr then accessLoop access rest
    else
      match fattr4Entry attr with
      | .error fault => .error fault
      | .ok dent =>
        if dent.access &&& access ≠ access then .ok false else accessLoop access rest

def nfs4FattrCheckAccess (fattr : Fattr4) (access : BitVec 32) : Except Fault Bool :=
  accessLoop access fattr.attrmask.attrs

def DecodeState.addMask (st : DecodeState) (mask : BitVec 64) : DecodeState :=
  { st with args := { st.args with
    attrs := st.args.attrs.map fun attrs => { attrs with validMask := attrs.validMask ||| mask } } }

def decodeLoop (env : DecodeEnv) : List Nat → DecodeState →
    Except Fault (Nfsstat4 × DecodeState)
  | [], st => .ok (if st.xdr.pos < st.xdr.data.length then .badxdr else .ok, st)
  | attr :: rest, st =>
    if Attr.xattrSupport < attr then .ok (.badxdr, st)
    else
      match fattr4Decode attr, fattr4Entry attr with
      | none, _ => .error .nullPointer
      | _, .error fault => .error fault
      | some decode, .ok dent =>
        match decode env st with
        | .error fault => .error fault
        | .ok (.success, st) => decodeLoop env rest (st.addMask dent.attrmask)
        | .ok (.successExp, st) => decodeLoop env rest (st.addMask dent.expAttrmask)
        | .ok (.noop, st) => .ok (.attrnotsupp, st)
        | .ok (.failed, st) | .ok (.badowner, st) =>
          .ok (if st.args.nfsStatus = .ok then .badxdr else st.args.nfsStatus, st)

def decodeStart (attrs : Option FsalAttrlist) (fattr : Fattr4) (hdl4 : Option (List Byte))
    (dinfo : Option DynamicFsInfo) (data : Option MinorVers) : DecodeState where
  xdr := ofData fattr.attrVals
  args :=
    { attrs := attrs.map fun attrs => { attrs with validMask := 0 }
      hdl4, rdattrError := 0, type := .noFileType, fsid := ⟨0, 0⟩, fileid := 0, nfsStatus := .ok
      data, dynamicinfo := dinfo }

def fattr4ToFSALattr (env : DecodeEnv) (attrs : Option FsalAttrlist) (fattr : Fattr4)
    (hdl4 : Option (List Byte)) (dinfo : Option DynamicFsInfo) (data : Option MinorVers) :
    Except Fault (Nfsstat4 × Option FsalAttrlist) :=
  if fattr.attrVals = [] then
    .ok (if fattr.attrmask.nextAttrFromBitmap none = none then .ok else .badxdr, attrs)
  else
    (decodeLoop env fattr.attrmask.attrs (decodeStart attrs fattr hdl4 dinfo data)).map
      fun (status, st) => (status, st.args.attrs)

def nfs4FattrToFSALattr (env : DecodeEnv) (fattr : Fattr4) (data : Option MinorVers) :
    Except Fault (Nfsstat4 × Option FsalAttrlist) :=
  fattr4ToFSALattr env (some .zero) fattr none none data

end EdgeComputing.Nfs4
