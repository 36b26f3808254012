import EdgeComputing.Library.Machine
import Mathlib.Logic.Function.Basic

/-!
The user part of the id mapping cache: a tree by name, one by uid, and a direct-mapped array in
front of the latter. An entry added for a GSS principal is in the name tree only. An entry is named
by its address.
-/

namespace EdgeComputing.Idmapper

open Function Library

def idCacheSize : Nat := 1009

structure CacheUser (ν : Type) where
  uname : ν
  uid : Nat
  gid : Option Nat
  inUidtree : Bool
  epoch : Nat
  deriving DecidableEq

/-- `users` are the entries in memory, the trees hold their addresses. `plain` is the name of the
last plain mapping added for a uid. -/
structure UserCache (ν : Type) where
  users : Nat → Option (CacheUser ν)
  unameTree : List Nat
  uidTree : List Nat
  uidCache : Nat → Option Nat
  plain : Nat → Option ν

structure Clock where
  now : Nat
  expiration : Nat

def userExpired {ν : Type} (clock : Clock) (user : CacheUser ν) : Bool :=
  clock.expiration < clock.now - user.epoch

namespace UserCache

variable {ν : Type}

def empty : UserCache ν where
  users _ := none
  unameTree := []
  uidTree := []
  uidCache _ := none
  plain _ := none

variable (σ : UserCache ν)

def setSlot (uid : Nat) (node : Option Nat) : UserCache ν :=
  { σ with uidCache := update σ.uidCache (uid % idCacheSize) node }

def removeUid (a : Nat) : UserCache ν :=
  { σ with uidTree := σ.uidTree.filter (· ≠ a) }

def removeName (a : Nat) : UserCache ν :=
  { σ with unameTree := σ.unameTree.filter (· ≠ a) }

def free (a : Nat) : UserCache ν :=
  { σ with users := update σ.users a none }

def insertName (a : Nat) (user : CacheUser ν) : UserCache ν :=
  { σ with users := update σ.users a (some user), unameTree := a :: σ.unameTree }

def insertUid (a uid : Nat) : UserCache ν :=
  setSlot { σ with uidTree := a :: σ.uidTree } uid (some a)

def combine (old new : CacheUser ν) : CacheUser ν :=
  if old.uid = new.uid then
    { new with gid := new.gid.or old.gid, inUidtree := new.inUidtree || old.inUidtree }
  else new

def replaceName (a : Nat) (old : CacheUser ν) : UserCache ν :=
  let σ := σ.removeName a
  let σ := if old.inUidtree then (σ.setSlot old.uid none).removeUid a else σ
  σ.free a

def replaceUid (a : Nat) (old : CacheUser ν) : UserCache ν :=
  (((σ.setSlot old.uid none).removeUid a).removeName a).free a

def clearUsers : UserCache ν → List Nat → Option (UserCache ν)
  | σ, [] => some σ
  | σ, a :: rest => (σ.users a).bind fun user =>
    let σ := σ.removeName a
    let σ := if user.inUidtree then σ.removeUid a else σ
    (σ.free a).clearUsers rest

/-- `idmapper_clear_cache`; an entry left in the uid tree fails its assertion. -/
def clearCache : Option (UserCache ν) :=
  (clearUsers { σ with uidCache := fun _ => none } σ.unameTree).bind fun σ =>
    if σ.uidTree = [] then some σ else none

variable [DecidableEq ν]

def findName (name : ν) : Option Nat :=
  σ.unameTree.find? fun a => (σ.users a).any (·.uname = name)

def findUid (uid : Nat) : Option Nat :=
  σ.uidTree.find? fun a => (σ.users a).any (·.uid = uid)

def addUid (addr : Nat) (new : CacheUser ν) : Option (UserCache ν) :=
  if new.inUidtree then
    match σ.findUid new.uid with
    | none => some (σ.insertUid addr new.uid)
    | some a => (σ.users a).map fun old => (σ.replaceUid a old).insertUid addr new.uid
  else some σ

/-- `idmapper_add_user`, with the address the allocator gives and the time. It gives `none` where a
freed entry would be read. -/
def addUser (addr : Nat) (name : ν) (uid : Nat) (gid : Option Nat) (gssPrinc : Bool) (now : Nat) :
    Option (UserCache ν) :=
  let new := { uname := name, uid, gid, inUidtree := !gssPrinc, epoch := now }
  let added :=
    match σ.findName name with
    | none => (σ.insertName addr new).addUid addr new
    | some a => (σ.users a).bind fun old =>
      ((σ.replaceName a old).insertName addr (combine old new)).addUid addr (combine old new)
  -- the history, which the code does not have
  added.map fun σ => if gssPrinc then σ else { σ with plain := update σ.plain uid name }

/-- `idmapper_lookup_by_uname`: the entry found and what is returned; the slot of its uid is set
unless the name is a GSS principal's. -/
def lookupByUname (clock : Clock) (name : ν) (gssPrinc : Bool) :
    Option (UserCache ν × Option (CacheUser ν × Bool)) :=
  match σ.findName name with
  | none => some (σ, none)
  | some a => (σ.users a).map fun user =>
    (if gssPrinc then σ else σ.setSlot user.uid (some a), some (user, !userExpired clock user))

def lookupByUid (clock : Clock) (uid : Nat) : Option (UserCache ν × Option (CacheUser ν × Bool)) :=
  let inTree : Option (UserCache ν × Option (CacheUser ν × Bool)) :=
    match σ.findUid uid with
    | none => some (σ, none)
    | some a => (σ.users a).map fun user =>
      (σ.setSlot uid (some a), some (user, !userExpired clock user))
  match σ.uidCache (uid % idCacheSize) with
  | none => inTree
  | some a => (σ.users a).bind fun user =>
    if user.uid = uid then some (σ, some (user, !userExpired clock user)) else inTree

end UserCache

inductive UserCall (ν : Type) where
  | addUser (addr : Nat) (name : ν) (uid : Nat) (gid : Option Nat) (gssPrinc : Bool) (now : Nat)
  | lookupByUname (clock : Clock) (name : ν) (gssPrinc : Bool)
  | lookupByUid (clock : Clock) (uid : Nat)
  | clearCache

variable {ν : Type} [DecidableEq ν]

def userCacheMachine : Machine (UserCache ν) (UserCall ν) where
  init σ := σ = .empty
  step σ
    | .addUser addr name uid gid gssPrinc now =>
      if (σ.users addr).isNone then σ.addUser addr name uid gid gssPrinc now else none
    | .lookupByUname clock name gssPrinc => (σ.lookupByUname clock name gssPrinc).map Prod.fst
    | .lookupByUid clock uid => (σ.lookupByUid clock uid).map Prod.fst
    | .clearCache => σ.clearCache

end EdgeComputing.Idmapper
