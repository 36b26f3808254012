import EdgeComputing.Library.PathTree

/-!
The recovery store of `recovery_fs.c`: confirmed clients and their revoked delegations as a
hierarchy of directories that a restarted server reads back. Texts are lists of bytes without the
terminating zero, and an open that follows a null pointer or writes behind its buffer has no result.
`mkdir` fails if the name is there or the parent is not, `rmdir` if the directory is not empty.
-/

namespace EdgeComputing.Sal

open Library

abbrev Text := List UInt8

def nameMax : Nat := 255

def pathMax : Nat := 4096

def ascii (c : Char) : UInt8 := c.toUInt8

def isprint (b : UInt8) : Bool := 32 ≤ b && b ≤ 126

def isspace (b : UInt8) : Bool := b = 32 || (9 ≤ b && b ≤ 13)

def isdigit (b : UInt8) : Bool := 48 ≤ b && b ≤ 57

structure HostAddr where
  text : Text
  printable : ∀ b ∈ text, isprint b = true ∧ b ≠ ascii '/' ∧ b ≠ ascii '('

def localAddr : HostAddr := ⟨"10.0.0.1".toList.map ascii, by decide +kernel⟩

/-- `nfs_client_record_t`; `get_client_record` asserts that the value is not empty. -/
structure ClientVal where
  bytes : List UInt8
  nonempty : bytes ≠ []

structure RecovClient where
  gshClient : Option HostAddr
  clientVal : ClientVal

def RecovClient.strClientAddr (c : RecovClient) : Text :=
  match c.gshClient with
  | some host => host.text
  | none => "(unknown)".toList.map ascii

def hexDigit (n : UInt8) : UInt8 := if n < 10 then 48 + n else 87 + n

def hexByte (b : UInt8) : Text := [hexDigit (b >>> 4), hexDigit (b &&& 15)]

def decimal (n : Nat) : Text := (Nat.toDigits 10 n).map ascii

/-- The text that `fs_convert_opaque_value_max_for_dir` writes: the value itself if it can be part
of a file name, otherwise in hexadecimal. -/
def opaqueText (value : List UInt8) : Text :=
  if value.all fun b => isprint b && b != ascii '/' then value
  else ascii '0' :: ascii 'x' :: value.flatMap hexByte

/-- `fs_convert_opaque_value_max_for_dir` into an empty buffer of PATH_MAX bytes, if it returns more
than zero: the text and its terminating zero have to fit. -/
def fsConvertOpaqueValueMaxForDir (value : List UInt8) : Option Text :=
  if value.length = 0 ∨ value.length > pathMax then none
  else if (opaqueText value).length < pathMax then some (opaqueText value)
  else none

def clidName (addr cidstr : Text) : Text :=
  addr ++ ascii '-' :: ascii '(' :: (decimal cidstr.length ++ ascii ':' :: (cidstr ++ [ascii ')']))

/-- The new `cid_recov_tag`, a null pointer if the value has no text. A length that does not fit
into four digits ends the server. -/
def fsCreateClidName (c : RecovClient) : Option Text :=
  match fsConvertOpaqueValueMaxForDir c.clientVal.bytes with
  | none => none
  | some cidstr =>
    if (decimal cidstr.length).length ≥ 5 then none else some (clidName c.strClientAddr cidstr)

abbrev FileName := Text

abbrev Dir := PathTree FileName

inductive Errno
  | eexist
  | enoent
deriving DecidableEq

def mkdir (fs : Dir) (path : List FileName) : Except Errno Dir :=
  match fs.insert path with
  | .ok fs => .ok fs
  | .error .present => .error .eexist
  | .error .noParent => .error .enoent

def made (fs : Dir) (path : List FileName) : Dir :=
  match mkdir fs path with
  | .ok fs => fs
  | .error _ => fs

/-- The loop of `fs_add_clid` from `path`, of `pathpos` bytes, for the rest of the name, whose
length is enough fuel: every turn takes a component off it. -/
def addClidLoop : Nat → Dir → List FileName → Nat → Text → Dir
  | 0, fs, _, _, _ => fs
  | fuel + 1, fs, path, pathpos, rest =>
    if rest = [] then fs
    else
      let pathpos := pathpos + 1
      if pathpos + rest.length ≥ pathMax then fs
      else if rest.length ≤ nameMax then made fs (path ++ [rest])
      else
        let path := path ++ [rest.take nameMax]
        match mkdir fs path with
        | .error .enoent => fs
        | .error .eexist => addClidLoop fuel fs path (pathpos + nameMax) (rest.drop nameMax)
        | .ok fs => addClidLoop fuel fs path (pathpos + nameMax) (rest.drop nameMax)

def fsAddClid (recovDirLen : Nat) (fs : Dir) (c : RecovClient) : Option Dir :=
  (fsCreateClidName c).map fun tag => addClidLoop tag.length fs [] recovDirLen tag

def segments : Nat → Text → List FileName
  | 0, _ => []
  | fuel + 1, rest =>
    if rest = [] then []
    else if rest.length ≤ nameMax then [rest]
    else rest.take nameMax :: segments fuel (rest.drop nameMax)

def recovPath (tag : Text) : List FileName := segments tag.length tag

def revokedName (rhdlstr : Text) : FileName := 1 :: rhdlstr

/-- `fs_add_revoke_fh` for the text of a handle. A path that does not fit is logged, and then written
behind the end of its buffer. -/
def fsAddRevokeFh (recovDirLen : Nat) (fs : Dir) (tag rhdlstr : Text) : Option Dir :=
  let path := recovPath tag
  if recovDirLen + path.length + tag.length + 3 + rhdlstr.length > pathMax then none
  else
    some (made fs (path ++ [revokedName rhdlstr]))

def isRevoked (name : FileName) : Bool := name.head? = some 1

/-- The revoked handles go, and then every directory of the path that is empty. -/
def fsRmClidImpl : Dir → List FileName → Dir
  | fs, [] => fs.filterTop fun name => !isRevoked name
  | .nil, _ :: _ => .nil
  | .cons name sub rest, head :: tail =>
    if name = head then
      let sub := fsRmClidImpl sub tail
      if sub = .nil then rest else .cons name sub rest
    else .cons name sub (fsRmClidImpl rest (head :: tail))

structure ClidEntry where
  clName : Text
  clRfhList : List Text
deriving DecidableEq

def strchr (s : Text) (c : UInt8) : Option Text :=
  match s.dropWhile (· ≠ c) with
  | [] => none
  | b :: rest => some (b :: rest)

def digitsValue (s : Text) : Nat :=
  (s.takeWhile isdigit).foldl (fun n b => 10 * n + (b.toNat - 48)) 0

def atoi (s : Text) : Int :=
  match s.dropWhile isspace with
  | [] => 0
  | b :: rest =>
    if b = ascii '-' then -(digitsValue rest : Int)
    else if b = ascii '+' then digitsValue rest
    else digitsValue (b :: rest)

inductive ClidFormat
  | invalid
  | incomplete
  | complete
deriving DecidableEq

def clidFormat (buildClid : Text) : ClidFormat :=
  if buildClid.length + 1 ≥ pathMax then .invalid
  else
    match strchr buildClid (ascii '(') with
    | none => .invalid
    | some ptr =>
      match strchr ptr (ascii ':') with
      | none => .invalid
      | some ptr2 =>
        let len := ptr.length - ptr2.length - 1
        if len ≥ 9 then .invalid
        else
          let cidLen := atoi ((ptr.drop 1).take (len + 1))
          if (ptr2.length : Int) = cidLen + 2 ∧ ptr2.getLast? = some (ascii ')') then .complete
          else .incomplete

def isHidden (name : FileName) : Bool :=
  name = [ascii '.'] || name = [ascii '.', ascii '.'] || isRevoked name

def revokedHandles (fs : Dir) : List Text := (fs.names.filter isRevoked).map (·.drop 1)

structure ReadResult where
  num : Nat
  calls : List ClidEntry
  left : Dir
  target : Dir

/-- `fs_read_recov_clids_impl` over the entries of a directory: the number of those that are not
hidden, the calls of `add_clid_entry`, what is left of the directory and what becomes of the one that
`tgtdir` is in. -/
def fsReadRecovClidsImpl (takeover : Bool) :
    Text → Option (List FileName) → Dir → Dir → ReadResult
  | _, _, .nil, target => ⟨0, [], .nil, target⟩
  | clidStr, tgtdir, .cons name sub rest, target =>
    if isHidden name then
      let next := fsReadRecovClidsImpl takeover clidStr tgtdir rest target
      { next with left := .cons name sub next.left }
    else
      let buildClid := clidStr ++ name
      let newPath := tgtdir.map (· ++ [name])
      let target := newPath.elim target (made target)
      let inner := fsReadRecovClidsImpl takeover buildClid newPath sub target
      let format := if inner.num = 0 then some (clidFormat buildClid) else none
      let added : Bool := format = some .complete
      let handles := if added then revokedHandles inner.left else []
      -- the markers are created in the target of this directory, not of the one they come from
      let target := tgtdir.elim inner.target fun tgtdir =>
        handles.foldl (fun target handle => made target (tgtdir ++ [revokedName handle])) inner.target
      let sub :=
        if added && !takeover then inner.left.filterTop fun name => !isRevoked name
        else inner.left
      let next := fsReadRecovClidsImpl takeover clidStr tgtdir rest target
      -- an invalid name is passed over before the directory can be removed
      let kept : Bool := takeover || format = some .invalid || sub ≠ .nil
      { num := next.num + 1
        calls := inner.calls ++ (if added then [⟨buildClid, handles⟩] else []) ++ next.calls
        left := if kept then .cons name sub next.left else next.left
        target := next.target }

structure RecovDirs where
  old : Dir
  recov : Dir
deriving DecidableEq

def fsReadRecovClidsRecover (s : RecovDirs) : List ClidEntry × RecovDirs :=
  let first := fsReadRecovClidsImpl false [] none s.old .nil
  let second := fsReadRecovClidsImpl false [] (some []) s.recov first.left
  (first.calls ++ second.calls, ⟨second.target, second.left⟩)

def fsReadRecovClidsTakeover (src : Dir) (s : RecovDirs) : List ClidEntry × RecovDirs :=
  let result := fsReadRecovClidsImpl true [] (some []) src s.old
  (result.calls, { s with old := result.target })

def fsCleanOldRecovDirImpl : Dir → Dir
  | .nil => .nil
  | .cons name sub rest =>
    if isRevoked name then fsCleanOldRecovDirImpl rest
    else
      let sub := fsCleanOldRecovDirImpl sub
      let rest := fsCleanOldRecovDirImpl rest
      if sub = .nil then rest else .cons name sub rest

end EdgeComputing.Sal
