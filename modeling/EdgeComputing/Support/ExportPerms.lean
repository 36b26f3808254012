import Mathlib.Data.List.Basic
import Mathlib.Tactic.IntervalCases

/-!
The permissions of a request, as `export_check_access` merges them from the first matching client
entry, the export, the EXPORT_DEFAULTS block and the built-in defaults: from each block what no
block before it has set. The attribute expiration time is not taken from a client entry.
-/

namespace EdgeComputing.Support

open BitVec Option

def exportOptionAnonUidSet : BitVec 32 := 0x00000008#32

def exportOptionAnonGidSet : BitVec 32 := 0x00000010#32

def exportOptionExpireSet : BitVec 32 := 0x00080000#32

structure ExportPerms where
  anonymousUid : UInt32
  anonymousGid : UInt32
  expireTimeAttr : Int32
  options : BitVec 32
  set : BitVec 32
  deriving DecidableEq

def ExportPerms.isSet (perms : ExportPerms) (mask : BitVec 32) : Bool :=
  perms.set &&& mask != 0#32

def ExportPerms.zero : ExportPerms := ⟨0, 0, 0, 0#32, 0#32⟩

/-- `sockaddr_t` by its family. The bytes of an address are in network order; of a family that is
neither, the matching reads the bytes at the place of an IPv4 address. -/
inductive SockAddr where
  | inet (port : UInt16) (addr : Vector UInt8 4)
  | inet6 (port : UInt16) (addr : Vector UInt8 16)
  | other (family port : UInt16) (addr : Vector UInt8 4)
  deriving DecidableEq

def convertIpv6ToIpv4 : SockAddr → SockAddr
  | .inet6 port addr =>
    if addr.toList.take 10 = List.replicate 10 0 ∧ addr[10] = 0xFF ∧ addr[11] = 0xFF then
      .inet port #v[addr[12], addr[13], addr[14], addr[15]]
    else .inet6 port addr
  | addr => addr

inductive ClientType (Cidr : Type) where
  | proto
  | network (cidr : Cidr)
  | netgroup (netgroupname : String)
  | wildcardhost (wildcard : String)
  | gssprincipal (princname : String)
  | matchAny
  | bad

structure ClientEntry (Cidr : Type) where
  type : ClientType Cidr
  clientPerms : ExportPerms

inductive IpName where
  | success (hostname : String)
  | notFound
  | failed
  deriving DecidableEq

structure MatchEnv (Cidr : Type) where
  cidrFromInaddr : Vector UInt8 4 → Cidr
  cidrFromIn6addr : Vector UInt8 16 → Cidr
  cidrContains : Cidr → Cidr → Bool
  nfsIpNameGet : SockAddr → IpName
  nfsIpNameAdd : SockAddr → IpName
  ngInnetgr : String → String → Bool
  sprintSockip : SockAddr → Option String
  fnmatch : String → String → Bool

variable {Cidr : Type}

namespace MatchEnv

variable (env : MatchEnv Cidr)

def hostPrefix : SockAddr → Cidr
  | .inet6 _ addr => env.cidrFromIn6addr addr
  | .inet _ addr => env.cidrFromInaddr addr
  | .other _ _ addr => env.cidrFromInaddr addr

def hostname (hostaddr : SockAddr) : IpName :=
  match env.nfsIpNameGet hostaddr with
  | .notFound => env.nfsIpNameAdd hostaddr
  | rc => rc

def entryMatches (hostaddr : SockAddr) (client : ClientEntry Cidr) : Bool :=
  match client.type with
  | .network cidr => env.cidrContains cidr (env.hostPrefix hostaddr)
  | .netgroup netgroupname =>
    match env.hostname hostaddr with
    | .success name => env.ngInnetgr netgroupname name
    | _ => false
  | .wildcardhost wildcard =>
    (env.sprintSockip hostaddr).any (env.fnmatch wildcard) ||
      match env.hostname hostaddr with
      | .success name => env.fnmatch wildcard name
      | _ => false
  | .gssprincipal _ => false
  | .matchAny => true
  | .proto => false
  | .bad => false

def clientMatch (hostaddr : SockAddr) : List (ClientEntry Cidr) → Option (ClientEntry Cidr)
  | [] => none
  | client :: rest => if env.entryMatches hostaddr client then some client else
      clientMatch hostaddr rest

theorem clientMatch_eq_find? (hostaddr : SockAddr) (clients : List (ClientEntry Cidr)) :
    env.clientMatch hostaddr clients = clients.find? (env.entryMatches hostaddr) := by
  induction clients with
  | nil => rfl
  | cons client rest ih =>
    simp only [clientMatch, List.find?_cons, ih]
    cases env.entryMatches hostaddr client <;> rfl

end MatchEnv

structure PermsExport (Cidr : Type) where
  clients : List (ClientEntry Cidr)
  exportPerms : ExportPerms

structure GlobalExportPerms where
  dflt : ExportPerms
  conf : ExportPerms
  deriving DecidableEq

def takeClient (client : ExportPerms) : ExportPerms where
  options := client.options &&& client.set
  anonymousUid := if client.isSet exportOptionAnonUidSet then client.anonymousUid else 0
  anonymousGid := if client.isSet exportOptionAnonGidSet then client.anonymousGid else 0
  expireTimeAttr := 0
  set := client.set

def takeUnset (perms block : ExportPerms) : ExportPerms where
  options := perms.options ||| (block.options &&& block.set &&& ~~~perms.set)
  anonymousUid := if !perms.isSet exportOptionAnonUidSet && block.isSet exportOptionAnonUidSet
    then block.anonymousUid else perms.anonymousUid
  anonymousGid := if !perms.isSet exportOptionAnonGidSet && block.isSet exportOptionAnonGidSet
    then block.anonymousGid else perms.anonymousGid
  expireTimeAttr := if !perms.isSet exportOptionExpireSet && block.isSet exportOptionExpireSet
    then block.expireTimeAttr else perms.expireTimeAttr
  set := perms.set ||| block.set

def takeDefaults (perms dflt : ExportPerms) : ExportPerms where
  options := perms.options ||| (dflt.options &&& ~~~perms.set)
  anonymousUid := if !perms.isSet exportOptionAnonUidSet then dflt.anonymousUid
    else perms.anonymousUid
  anonymousGid := if !perms.isSet exportOptionAnonGidSet then dflt.anonymousGid
    else perms.anonymousGid
  expireTimeAttr := if !perms.isSet exportOptionExpireSet then dflt.expireTimeAttr
    else perms.expireTimeAttr
  set := perms.set ||| dflt.set

def exportCheckAccess (env : MatchEnv Cidr) (callerAddr : SockAddr)
    (ctxExport : Option (PermsExport Cidr)) (exportOpt : GlobalExportPerms) : ExportPerms :=
  let perms := match ctxExport with
    | none => ExportPerms.zero
    | some exp =>
      let client := env.clientMatch (convertIpv6ToIpv4 callerAddr) exp.clients
      let perms := match client with
        | none => ExportPerms.zero
        | some client => takeClient client.clientPerms
      takeUnset perms exp.exportPerms
  takeDefaults (takeUnset perms exportOpt.conf) exportOpt.dflt

/-- The first block that has one of the given bits set; the built-in defaults come last, and stand
also where no block has it set. -/
def firstSetting (blocks : List ExportPerms) (dflt : ExportPerms) (mask : BitVec 32) :
    ExportPerms :=
  (blocks.find? (·.isSet mask)).getD dflt

structure OptionsMostSpecific (blocks : List ExportPerms) (dflt perms : ExportPerms) : Prop where
  options : ∀ i < 32, perms.options.getLsbD i =
    (firstSetting blocks dflt (twoPow 32 i)).options.getLsbD i
  anonymousUid : perms.anonymousUid =
    (firstSetting blocks dflt exportOptionAnonUidSet).anonymousUid
  anonymousGid : perms.anonymousGid =
    (firstSetting blocks dflt exportOptionAnonGidSet).anonymousGid

def MostSpecific (blocks : List ExportPerms) (dflt perms : ExportPerms) : Prop :=
  OptionsMostSpecific blocks dflt perms ∧
    perms.expireTimeAttr = (firstSetting blocks dflt exportOptionExpireSet).expireTimeAttr

def ipv4Mapped (addr : Vector UInt8 4) : Vector UInt8 16 :=
  #v[0, 0, 0, 0, 0, 0, 0, 0, 0, 0, 0xFF, 0xFF, addr[0], addr[1], addr[2], addr[3]]

inductive MatchedAs : SockAddr → SockAddr → Prop where
  | mapped (port : UInt16) (addr : Vector UInt8 4) :
      MatchedAs (.inet6 port (ipv4Mapped addr)) (.inet port addr)
  | itself (caller : SockAddr) (plain : ∀ port addr, caller ≠ .inet6 port (ipv4Mapped addr)) :
      MatchedAs caller caller

def clientBlock (env : MatchEnv Cidr) (host : SockAddr) (ctxExport : Option (PermsExport Cidr)) :
    Option ExportPerms :=
  ctxExport.bind fun exp => (exp.clients.find? (env.entryMatches host)).map (·.clientPerms)

def sharedBlocks (ctxExport : Option (PermsExport Cidr)) (exportOpt : GlobalExportPerms) :
    List ExportPerms :=
  (ctxExport.map (·.exportPerms)).toList ++ [exportOpt.conf]

theorem eq_ipv4Mapped_of_bytes {addr : Vector UInt8 16}
    (hzero : addr.toList.take 10 = List.replicate 10 0) (hten : addr[10] = 0xFF)
    (heleven : addr[11] = 0xFF) :
    addr = ipv4Mapped #v[addr[12], addr[13], addr[14], addr[15]] := by
  have hbyte : ∀ i (hi : i < 10), addr[i] = 0 := by
    intro i hi
    have hget : (addr.toList.take 10)[i]? = some 0 := by
      rw [hzero, List.getElem?_replicate, if_pos hi]
    rw [List.getElem?_take, if_pos hi, Vector.getElem?_toList,
      Vector.getElem?_eq_getElem (by omega)] at hget
    exact some.inj hget
  refine Vector.ext fun i hi => ?_
  by_cases hlow : i < 10
  · rw [hbyte i hlow]
    interval_cases i <;> rfl
  · interval_cases i
    · exact hten
    · exact heleven
    all_goals rfl

theorem matchedAs_convertIpv6ToIpv4 (caller : SockAddr) :
    MatchedAs caller (convertIpv6ToIpv4 caller) := by
  cases caller with
  | inet port addr | other family port addr => exact .itself _ (by simp)
  | inet6 port addr =>
    simp only [convertIpv6ToIpv4]
    split
    next hbytes =>
      have hmapped := MatchedAs.mapped port #v[addr[12], addr[13], addr[14], addr[15]]
      rwa [← eq_ipv4Mapped_of_bytes hbytes.1 hbytes.2.1 hbytes.2.2] at hmapped
    next hbytes =>
      refine .itself _ fun port' addr' heq => hbytes ?_
      cases heq
      exact ⟨rfl, rfl, rfl⟩

theorem isSet_twoPow (perms : ExportPerms) (i : Nat) (hi : i < 32) :
    perms.isSet (twoPow 32 i) = perms.set.getLsbD i := by
  have hne : twoPow 32 i ≠ 0#32 := by
    intro hzero
    have hbit := congrArg (fun bits => bits.getLsbD i) hzero
    simp [hi] at hbit
  rw [ExportPerms.isSet, and_twoPow]
  cases perms.set.getLsbD i <;> simp [hne]

theorem isSet_of_set_eq_or {perms a b : ExportPerms} (hset : perms.set = a.set ||| b.set)
    (mask : BitVec 32) : perms.isSet mask = (a.isSet mask || b.isSet mask) := by
  have hdistrib : (a.set ||| b.set) &&& mask = (a.set &&& mask) ||| (b.set &&& mask) := by
    ext i
    simp [Bool.and_or_distrib_right]
  rw [ExportPerms.isSet, hset, hdistrib, Bool.eq_iff_iff]
  simp only [ExportPerms.isSet, bne_iff_ne, ne_eq, Bool.or_eq_true, or_eq_zero_iff]
  exact Decidable.not_and_iff_or_not

/-- The permissions merged from the blocks so far; the expiration time is treated apart. -/
structure Merged (blocks : List ExportPerms) (perms : ExportPerms) : Prop where
  isSet : ∀ mask, perms.isSet mask = blocks.any (·.isSet mask)
  options : ∀ i < 32, perms.options.getLsbD i =
    (blocks.find? (·.isSet (twoPow 32 i))).any (·.options.getLsbD i)
  anonymousUid : ∀ block, blocks.find? (·.isSet exportOptionAnonUidSet) = some block →
    perms.anonymousUid = block.anonymousUid
  anonymousGid : ∀ block, blocks.find? (·.isSet exportOptionAnonGidSet) = some block →
    perms.anonymousGid = block.anonymousGid

def MergedExpire (blocks : List ExportPerms) (perms : ExportPerms) : Prop :=
  ∀ block, blocks.find? (·.isSet exportOptionExpireSet) = some block →
    perms.expireTimeAttr = block.expireTimeAttr

theorem merged_nil : Merged [] ExportPerms.zero := by
  refine ⟨fun mask => ?_, fun i hi => ?_, fun block hfind => ?_, fun block hfind => ?_⟩
  · simp [ExportPerms.isSet, ExportPerms.zero]
  · simp [ExportPerms.zero]
  · cases hfind
  · cases hfind

namespace Merged

variable {blocks : List ExportPerms} {perms : ExportPerms} (hm : Merged blocks perms)
include hm

theorem find?_cases (mask : BitVec 32) :
    (perms.isSet mask = true ∧ ∃ block, blocks.find? (·.isSet mask) = some block) ∨
      (perms.isSet mask = false ∧ blocks.find? (·.isSet mask) = none) := by
  cases hset : perms.isSet mask with
  | true =>
    refine .inl ⟨rfl, isSome_iff_exists.1 ?_⟩
    rw [List.find?_isSome]
    simpa [hm.isSet mask] using hset
  | false =>
    refine .inr ⟨rfl, ?_⟩
    rw [List.find?_eq_none]
    simpa [hm.isSet mask] using hset

variable {mask : BitVec 32} {α : Type}

theorem scalar_takeUnset {field : ExportPerms → α} {value : α}
    (hvalue : ∀ block, blocks.find? (·.isSet mask) = some block → value = field block)
    (next : ExportPerms) :
    ∀ block, (blocks ++ [next]).find? (·.isSet mask) = some block →
      (if !perms.isSet mask && next.isSet mask then field next else value) = field block := by
  intro block hfind
  rw [List.find?_append] at hfind
  obtain ⟨hset, first, hfirst⟩ | ⟨hset, hnone⟩ := hm.find?_cases mask
  · rw [hfirst, some_or] at hfind
    simpa [hset] using hvalue block (hfirst.trans hfind)
  · rw [hnone, none_or, List.find?_singleton] at hfind
    split at hfind
    next hnext => simp_all
    next hnext => cases hfind

theorem takeUnset (next : ExportPerms) : Merged (blocks ++ [next]) (takeUnset perms next) := by
  refine ⟨fun mask => ?_, fun i hi => ?_, ?_, ?_⟩
  · rw [isSet_of_set_eq_or rfl, hm.isSet mask]
    simp
  · rw [List.find?_append]
    have hbit : (Support.takeUnset perms next).options.getLsbD i =
        (perms.options.getLsbD i || (next.options.getLsbD i && next.set.getLsbD i &&
          !perms.set.getLsbD i)) := by
      simp [Support.takeUnset, hi]
    rw [hbit, hm.options i hi, ← isSet_twoPow _ i hi, ← isSet_twoPow _ i hi]
    obtain ⟨hset, first, hfirst⟩ | ⟨hset, hnone⟩ := hm.find?_cases (twoPow 32 i)
    · simp [hset, hfirst]
    · cases hnext : next.isSet (twoPow 32 i) <;> simp [hset, hnone, hnext]
  · exact hm.scalar_takeUnset hm.anonymousUid next
  · exact hm.scalar_takeUnset hm.anonymousGid next

theorem scalar_takeDefaults {field : ExportPerms → α} {value : α}
    (hvalue : ∀ block, blocks.find? (·.isSet mask) = some block → value = field block)
    (dflt : ExportPerms) :
    (if !perms.isSet mask then field dflt else value) = field (firstSetting blocks dflt mask) := by
  obtain ⟨hset, first, hfirst⟩ | ⟨hset, hnone⟩ := hm.find?_cases mask
  · simp [hset, firstSetting, hfirst, hvalue first hfirst]
  · simp [hset, firstSetting, hnone]

theorem takeDefaults (dflt : ExportPerms) :
    OptionsMostSpecific blocks dflt (takeDefaults perms dflt) := by
  refine ⟨fun i hi => ?_, hm.scalar_takeDefaults hm.anonymousUid dflt,
    hm.scalar_takeDefaults hm.anonymousGid dflt⟩
  have hbit : (Support.takeDefaults perms dflt).options.getLsbD i =
      (perms.options.getLsbD i || (dflt.options.getLsbD i && !perms.set.getLsbD i)) := by
    simp [Support.takeDefaults, hi]
  rw [hbit, hm.options i hi, ← isSet_twoPow _ i hi]
  obtain ⟨hset, first, hfirst⟩ | ⟨hset, hnone⟩ := hm.find?_cases (twoPow 32 i)
  · simp [hset, hfirst, firstSetting]
  · simp [hset, hnone, firstSetting]

end Merged

theorem takeClient_eq (client : ExportPerms) :
    takeClient client = { takeUnset .zero client with expireTimeAttr := 0 } := by
  have hall : client.options &&& client.set &&& ~~~0#32 = client.options &&& client.set :=
    and_allOnes
  simp only [takeClient, takeUnset, ExportPerms.zero, hall]
  simp [ExportPerms.isSet]

theorem merged_takeClient (client : ExportPerms) : Merged [client] (takeClient client) := by
  have hm : Merged [client] (takeUnset .zero client) := merged_nil.takeUnset client
  rw [takeClient_eq]
  exact { hm with }

variable {perms : ExportPerms}

def clientPart : Option ExportPerms → ExportPerms
  | none => ExportPerms.zero
  | some client => takeClient client

theorem merged_clientPart (client : Option ExportPerms) :
    Merged client.toList (clientPart client) := by
  cases client with
  | none => exact merged_nil
  | some client => exact merged_takeClient client

theorem exportCheckAccess_eq_foldl (env : MatchEnv Cidr) (caller : SockAddr)
    (ctxExport : Option (PermsExport Cidr)) (exportOpt : GlobalExportPerms) :
    exportCheckAccess env caller ctxExport exportOpt =
      takeDefaults ((sharedBlocks ctxExport exportOpt).foldl takeUnset
        (clientPart (clientBlock env (convertIpv6ToIpv4 caller) ctxExport))) exportOpt.dflt := by
  cases ctxExport with
  | none => rfl
  | some exp =>
    simp only [exportCheckAccess, MatchEnv.clientMatch_eq_find?, clientBlock, sharedBlocks,
      bind_some, map_some, toList_some, List.cons_append, List.nil_append,
      List.foldl_cons, List.foldl_nil]
    cases exp.clients.find? (env.entryMatches (convertIpv6ToIpv4 caller)) <;> rfl

variable {blocks : List ExportPerms}

theorem Merged.foldl (hm : Merged blocks perms) (next : List ExportPerms) :
    Merged (blocks ++ next) (next.foldl Support.takeUnset perms) := by
  induction next generalizing blocks perms with
  | nil => simpa using hm
  | cons block rest ih => simpa using ih (hm.takeUnset block)

theorem Merged.expire_foldl (hm : Merged blocks perms) (hexpire : MergedExpire blocks perms)
    (next : List ExportPerms) :
    MergedExpire (blocks ++ next) (next.foldl Support.takeUnset perms) := by
  induction next generalizing blocks perms with
  | nil => simpa using hexpire
  | cons block rest ih => simpa using ih (hm.takeUnset block) (hm.scalar_takeUnset hexpire block)

theorem expire_foldl_of_isSet (hset : perms.isSet exportOptionExpireSet = true)
    (next : List ExportPerms) :
    (next.foldl takeUnset perms).expireTimeAttr = perms.expireTimeAttr ∧
      (next.foldl takeUnset perms).isSet exportOptionExpireSet = true := by
  induction next generalizing perms with
  | nil => exact ⟨rfl, hset⟩
  | cons block rest ih =>
    have hset' : (takeUnset perms block).isSet exportOptionExpireSet = true := by
      rw [isSet_of_set_eq_or rfl, hset, Bool.true_or]
    obtain ⟨hrest, hlast⟩ := ih hset'
    exact ⟨hrest.trans (by simp [takeUnset, hset]), hlast⟩

theorem expire_of_clientPart (client : Option ExportPerms) (shared : List ExportPerms)
    (dflt : ExportPerms) :
    (takeDefaults (shared.foldl takeUnset (clientPart client)) dflt).expireTimeAttr =
      if client.any (·.isSet exportOptionExpireSet) then 0
      else (firstSetting shared dflt exportOptionExpireSet).expireTimeAttr := by
  have hm := merged_clientPart client
  have hset : (clientPart client).isSet exportOptionExpireSet =
      client.any (·.isSet exportOptionExpireSet) := by
    rw [hm.isSet]
    cases client <;> simp
  split
  next hclient =>
    -- the mask of the entry keeps every later block from setting the time left by `memset`
    obtain ⟨hkept, hlast⟩ := expire_foldl_of_isSet (hset.trans hclient) shared
    simp only [takeDefaults, hlast, hkept]
    cases client <;> rfl
  next hclient =>
    have hnone : client.toList.find? (·.isSet exportOptionExpireSet) = none := by
      cases client with
      | none => rfl
      | some block => simpa using hclient
    have hexpire : MergedExpire client.toList (clientPart client) := by
      intro block hfind
      rw [hnone] at hfind
      cases hfind
    refine ((hm.foldl shared).scalar_takeDefaults (hm.expire_foldl hexpire shared) dflt).trans ?_
    simp only [firstSetting, List.find?_append, hnone, none_or]

/-- Every option bit and the anonymous ids come from the most specific block that has them set; so
does the expiration time, except that a client entry is no source of it. -/
theorem effective_perms_most_specific (env : MatchEnv Cidr) (caller : SockAddr)
    (ctxExport : Option (PermsExport Cidr)) (exportOpt : GlobalExportPerms) :
    ∃ host, MatchedAs caller host ∧
      OptionsMostSpecific
        ((clientBlock env host ctxExport).toList ++ sharedBlocks ctxExport exportOpt)
        exportOpt.dflt (exportCheckAccess env caller ctxExport exportOpt) ∧
      (exportCheckAccess env caller ctxExport exportOpt).expireTimeAttr =
        if (clientBlock env host ctxExport).any (·.isSet exportOptionExpireSet) then 0
        else (firstSetting (sharedBlocks ctxExport exportOpt) exportOpt.dflt
          exportOptionExpireSet).expireTimeAttr := by
  refine ⟨convertIpv6ToIpv4 caller, matchedAs_convertIpv6ToIpv4 caller, ?_⟩
  rw [exportCheckAccess_eq_foldl]
  exact ⟨((merged_clientPart _).foldl _).takeDefaults _, expire_of_clientPart _ _ _⟩

def noNames : MatchEnv Unit where
  cidrFromInaddr := fun _ => ()
  cidrFromIn6addr := fun _ => ()
  cidrContains := fun _ _ => false
  nfsIpNameGet := fun _ => .failed
  nfsIpNameAdd := fun _ => .failed
  ngInnetgr := fun _ _ => false
  sprintSockip := fun _ => none
  fnmatch := fun _ _ => false

def expireBlock (seconds : Int32) : ExportPerms where
  anonymousUid := 0
  anonymousGid := 0
  expireTimeAttr := seconds
  options := 0#32
  set := exportOptionExpireSet

def expiringExport : PermsExport Unit := ⟨[⟨.matchAny, expireBlock 30⟩], expireBlock 60⟩

/-- The client entry sets a time of 30 and every other block one of 60; the request gets 0. -/
theorem client_expire_ignored :
    ¬ ∃ host, MatchedAs (.inet 0 #v[10, 0, 0, 1]) host ∧
      MostSpecific
        ((clientBlock noNames host (some expiringExport)).toList ++
          sharedBlocks (some expiringExport) ⟨expireBlock 60, expireBlock 60⟩)
        (expireBlock 60)
        (exportCheckAccess noNames (.inet 0 #v[10, 0, 0, 1]) (some expiringExport)
          ⟨expireBlock 60, expireBlock 60⟩) := by
  rintro ⟨host, -, -, hexpire⟩
  have hclient : clientBlock noNames host (some expiringExport) = some (expireBlock 30) := rfl
  rw [hclient] at hexpire
  revert hexpire
  decide

end EdgeComputing.Support
