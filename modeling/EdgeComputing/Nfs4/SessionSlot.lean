import EdgeComputing.Library.Machine
import EdgeComputing.Nfs4.Nfsstat4
import Mathlib.Algebra.Order.Ring.Int

/-!
One slot of an NFSv4.1 session and the compounds that use it. SEQUENCE, its completion
(`complete_op`), the recording of the reply and the release of the slot are one step each.
`recordedBy`, `execution` and `executed` are history that no function of the source reads.
-/

namespace EdgeComputing.Nfs4

open Library

structure SequenceResok where
  srSequenceid : BitVec 32
  srSlotid : Nat
  srHighestSlotid : Nat
  srTargetHighestSlotid : Nat
  srCbPathDown : Bool
deriving DecidableEq

inductive ResBody (Body : Type*)
  | statusOnly
  | sequence (resok : SequenceResok)
  | op (body : Body)
deriving DecidableEq

structure ResOp (Body : Type*) where
  resop : Nat
  status : Nfsstat4
  body : ResBody Body
deriving DecidableEq

structure Compound4res (Body : Type*) where
  status : Nfsstat4
  tag : String
  resarray : List (ResOp Body)
deriving DecidableEq

/-- `COMPOUND4res_extended`. `recordedBy` is the number of the execution that put
the reply in the slot. -/
structure ResExtended (Body : Type*) where
  res : Compound4res Body
  recordedBy : Option Nat
deriving DecidableEq

inductive Stage
  | sequenced | opCompleted | completed | freed
deriving DecidableEq

/-- The part of `compound_data_t` that concerns the slot. `slot` and `session` say whether the
pointers are set; `compound_data_Free` unlocks the slot when `session` is. `res` is `none` for a
NULL that `complete_op` reads from the slot. `execution` is the execution this compound is or
replays. -/
structure CompoundData (Body : Type*) where
  minorversion : Nat
  saSequenceid : BitVec 32
  saCachethis : Bool
  slot : Bool
  session : Bool
  result : ReqResult
  stage : Stage
  res : Option (ResExtended Body)
  execution : Nat
deriving DecidableEq

/-- The slot, the compound that holds `slot->lock`, the compounds in the order in
which their SEQUENCE ran, and the sequence ids that passed SEQUENCE. -/
structure SlotState (Body : Type*) where
  sequence : BitVec 32
  cachedResult : Option (ResExtended Body)
  lockHolder : Option Nat
  compounds : List (CompoundData Body)
  executed : List (BitVec 32)
deriving DecidableEq

structure ChannelAttrs where
  caMaxrequests : Nat
  caMaxresponsesize : Nat
  caMaxresponsesizeCached : Nat
deriving DecidableEq

structure SequenceArgs where
  minorversion : Nat
  tag : String
  saSequenceid : BitVec 32
  saSlotid : Nat
  saCachethis : Bool
deriving DecidableEq

structure SequenceEnv where
  sessionFound : Bool
  leaseReserved : Bool
  foreChannelAttrs : ChannelAttrs
  nbSlots : Nat
  channelUp : Bool
  respSize : Nat
  opRespSize : Nat
deriving DecidableEq

variable {Body : Type*}

/-- `check_resp_room` of a session request: `nfs_opnum4` and `nfsstat4` take four
bytes each. -/
def checkRespRoom (attrs : ChannelAttrs) (saCachethis : Bool) (respSize opRespSize : Nat) :
    Nfsstat4 :=
  let testResponseSize := (respSize + 4 + opRespSize + 4 + 4) % 2 ^ 32
  if testResponseSize > attrs.caMaxresponsesize then .repTooBig
  else if !saCachethis then .ok
  else if testResponseSize > attrs.caMaxresponsesizeCached then .repTooBigToCache
  else .ok

def sequenceRefused (env : SequenceEnv) (args : SequenceArgs) : Option Nfsstat4 :=
  if args.minorversion = 0 then some .inval
  else if !env.sessionFound then some .badsession
  else if !env.leaseReserved then some .expired
  else if args.saSlotid ≥ env.foreChannelAttrs.caMaxrequests then some .badslot
  else none

def sequenceReply (args : SequenceArgs) (status : Nfsstat4) (body : ResBody Body) :
    ResExtended Body :=
  ⟨⟨.ok, args.tag, [⟨53, status, body⟩]⟩, none⟩

def refusedCompound (args : SequenceArgs) (status : Nfsstat4) : CompoundData Body where
  minorversion := args.minorversion
  saSequenceid := args.saSequenceid
  saCachethis := false
  slot := false
  session := false
  result := .error
  stage := .sequenced
  res := some (sequenceReply args status .statusOnly)
  execution := 0

def replayCompound (args : SequenceArgs) (s : SlotState Body) : CompoundData Body where
  minorversion := args.minorversion
  saSequenceid := args.saSequenceid
  saCachethis := false
  slot := true
  session := false
  result := .replay
  stage := .sequenced
  res := some (sequenceReply args .ok .statusOnly)
  execution := s.executed.length - 1

def SlotState.advance (s : SlotState Body) : SlotState Body :=
  { s with
    sequence := s.sequence + 1
    cachedResult := none
    executed := s.executed ++ [s.sequence + 1] }

def sequenceResok (env : SequenceEnv) (args : SequenceArgs) (s : SlotState Body) :
    SequenceResok where
  srSequenceid := s.sequence + 1
  srSlotid := args.saSlotid
  srHighestSlotid := env.nbSlots - 1
  srTargetHighestSlotid := env.foreChannelAttrs.caMaxrequests - 1
  srCbPathDown := !env.channelUp

/-- A compound whose SEQUENCE has advanced the slot; `session` is cleared again when
the response does not fit. -/
def executedCompound (env : SequenceEnv) (args : SequenceArgs) (s : SlotState Body)
    (room : Nfsstat4) : CompoundData Body where
  minorversion := args.minorversion
  saSequenceid := args.saSequenceid
  saCachethis := args.saCachethis
  slot := true
  session := decide (room = .ok)
  result := if room = .ok then .ok else .error
  stage := .sequenced
  res := some (sequenceReply args room (.sequence (sequenceResok env args s)))
  execution := s.executed.length

/-- The slot and the data of the compound afterwards. The lock is kept exactly when SEQUENCE
succeeds. -/
def nfs4OpSequence (env : SequenceEnv) (args : SequenceArgs) (s : SlotState Body) :
    SlotState Body × CompoundData Body :=
  match sequenceRefused env args with
  | some status => (s, refusedCompound args status)
  | none =>
    if s.sequence + 1 ≠ args.saSequenceid then
      if s.sequence = args.saSequenceid then
        if s.cachedResult.isSome then (s, replayCompound args s)
        else (s, refusedCompound args .retryUncachedRep)
      else (s, refusedCompound args .seqMisordered)
    else
      let room := checkRespRoom env.foreChannelAttrs args.saCachethis env.respSize env.opRespSize
      let compound := executedCompound env args s room
      if room ≠ .ok then (s.advance, compound)
      else ({ s.advance with lockHolder := some s.compounds.length }, compound)

/-- `complete_op` of SEQUENCE. A replay reads the slot again, without its lock. -/
def completeOp (s : SlotState Body) (c : CompoundData Body) : CompoundData Body :=
  { c with
    stage := .opCompleted
    res := if c.result = .replay then s.cachedResult else c.res }

/-- The reply kept in the slot when the client did not ask for caching. The array
has one element or more, since SEQUENCE has run. -/
def uncachedResult (res : Compound4res Body) : Compound4res Body :=
  match res.resarray with
  | [] => res
  | [res0] => ⟨res0.status, res.tag, [res0]⟩
  | res0 :: res1 :: _ =>
    let status :=
      if res1.status = .ok ∨ res1.status = .denied then .retryUncachedRep else res1.status
    ⟨status, res.tag, [res0, { res1 with status := status }]⟩

/-- The reply of a compound once its other operations have run; `rest` are their
results. A compound that is replayed or failed in SEQUENCE has none. -/
def finalResult (c : CompoundData Body) (rest : List (ResOp Body)) (res : Compound4res Body) :
    Compound4res Body :=
  if c.result = .replay then res
  else
    let resarray := if c.result = .ok then res.resarray ++ rest else res.resarray
    { res with
      resarray := resarray
      status := (resarray.getLast?.map ResOp.status).getD .ok }

def recordedResult (s : SlotState Body) (c : CompoundData Body) (res : Compound4res Body) :
    Option (ResExtended Body) :=
  if c.saCachethis then some ⟨res, some c.execution⟩
  else if c.minorversion > 0 ∧ c.result ≠ .replay ∧ c.slot then
    some ⟨uncachedResult res, some c.execution⟩
  else s.cachedResult

inductive SlotAction (Body : Type*)
  | sequence (env : SequenceEnv) (args : SequenceArgs)
  | completeOp (i : Nat)
  | completeCompound (i : Nat) (rest : List (ResOp Body))
  | free (i : Nat)

def completeNfs4Compound (s : SlotState Body) (i : Nat) (c : CompoundData Body)
    (rest : List (ResOp Body)) : SlotState Body :=
  match c.res with
  | none => { s with compounds := s.compounds.set i { c with stage := .completed } }
  | some ext =>
    let res := finalResult c rest ext.res
    { s with
      cachedResult := recordedResult s c res
      compounds :=
        s.compounds.set i { c with stage := .completed, res := some { ext with res := res } } }

def compoundDataFree (s : SlotState Body) (i : Nat) (c : CompoundData Body) : SlotState Body :=
  { s with
    lockHolder := if c.session then none else s.lockHolder
    compounds := s.compounds.set i { c with stage := .freed, session := false } }

def SlotState.init : SlotState Body := ⟨0, none, none, [], []⟩

def SlotState.push (s : SlotState Body) (c : CompoundData Body) : SlotState Body :=
  { s with compounds := s.compounds ++ [c] }

def slotMachine : Machine (SlotState Body) (SlotAction Body) where
  init s := s = .init
  step s
    | .sequence env args =>
      if sequenceRefused env args = none ∧ s.lockHolder ≠ none then none
      else
        let (t, c) := nfs4OpSequence env args s
        some (t.push c)
    | .completeOp i =>
      s.compounds[i]?.bind fun c =>
        if c.stage = .sequenced then
          some { s with compounds := s.compounds.set i (completeOp s c) }
        else none
    | .completeCompound i rest =>
      s.compounds[i]?.bind fun c =>
        if c.stage = .opCompleted then some (completeNfs4Compound s i c rest) else none
    | .free i =>
      s.compounds[i]?.bind fun c =>
        if c.stage = .completed then some (compoundDataFree s i c) else none

end EdgeComputing.Nfs4
