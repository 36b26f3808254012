import Mathlib.Tactic.SplitIfs
import EdgeComputing.Nfs4.Nfsstat4

/-!
The NFSv4.0 part of a state owner: the seqid, file, operation and response of the last recorded
request, and the check of a new request against them. Of a response only the status is looked at.
-/

namespace EdgeComputing.Sal

open Nfs4

/-- The operations that carry a seqid, as `argop`; `illegal` marks a new owner. -/
inductive SeqOp
  | illegal | opOpen | opOpenConfirm | opOpenDowngrade | opClose | opLock | opLocku
deriving DecidableEq

structure Response (Body : Type*) where
  status : Nfsstat4
  body : Option Body
deriving DecidableEq

structure Nfs4Owner (Obj Body : Type*) where
  soSeqid : BitVec 32
  soLastEntry : Option Obj
  soArgop : SeqOp
  soResp : Response Body
  soConfirmed : Bool
deriving DecidableEq

variable {Obj Body : Type*} [DecidableEq Obj] {owner : Nfs4Owner Obj Body}

def newNfs4Owner (confirm : Bool) : Nfs4Owner Obj Body :=
  ⟨0, none, .illegal, ⟨.ok, none⟩, confirm⟩

/-- `Check_nfs4_seqid`: `none` if the request is to be processed, otherwise the
response to send. -/
def checkNfs4Seqid (owner : Nfs4Owner Obj Body) (seqid : BitVec 32) (argop : SeqOp) (obj : Obj) :
    Option (Response Body) :=
  match owner.soLastEntry with
  | none => none
  | some last =>
    if seqid = owner.soSeqid + 1 then none
    else if owner.soSeqid ≠ seqid then some ⟨.badSeqid, none⟩
    else if argop ≠ owner.soArgop then some ⟨.badSeqid, none⟩
    else if last ≠ obj then some ⟨.badSeqid, none⟩
    else some owner.soResp

theorem checkNfs4Seqid_of_recorded {last : Obj} (h : owner.soLastEntry = some last)
    (seqid : BitVec 32) (argop : SeqOp) (obj : Obj) :
    checkNfs4Seqid owner seqid argop obj =
      if seqid = owner.soSeqid + 1 then none
      else if seqid = owner.soSeqid ∧ argop = owner.soArgop ∧ obj = last then some owner.soResp
      else some ⟨.badSeqid, none⟩ := by
  unfold checkNfs4Seqid
  rw [h]
  dsimp only
  split_ifs <;> simp_all

theorem checkNfs4Seqid_eq_none_iff (owner : Nfs4Owner Obj Body) (seqid : BitVec 32)
    (argop : SeqOp) (obj : Obj) :
    checkNfs4Seqid owner seqid argop obj = none ↔
      owner.soLastEntry = none ∨ seqid = owner.soSeqid + 1 := by
  cases hlast : owner.soLastEntry with
  | none => simp [checkNfs4Seqid, hlast]
  | some last =>
    rw [checkNfs4Seqid_of_recorded hlast]
    split_ifs with hnext hsame
    · simp [hnext]
    · simpa using hnext
    · simpa using hnext

theorem checkNfs4Seqid_eq_some {seqid : BitVec 32} {argop : SeqOp} {obj : Obj}
    {resp : Response Body} (h : checkNfs4Seqid owner seqid argop obj = some resp) :
    if owner.soLastEntry = some obj ∧ seqid = owner.soSeqid ∧ argop = owner.soArgop then
      resp = owner.soResp
    else resp = ⟨.badSeqid, none⟩ := by
  cases hlast : owner.soLastEntry with
  | none => simp [checkNfs4Seqid, hlast] at h
  | some last =>
    rw [checkNfs4Seqid_of_recorded hlast] at h
    split_ifs at h with hnext hsame
    · obtain ⟨hseqid, hargop, hobj⟩ := hsame
      rw [if_pos ⟨by rw [hobj], hseqid, hargop⟩]
      exact (Option.some.inj h).symm
    · rw [if_neg fun ⟨hobj, hseqid, hargop⟩ =>
        hsame ⟨hseqid, hargop, (Option.some.inj hobj).symm⟩]
      exact (Option.some.inj h).symm

def copyNfs4StateReq (owner : Nfs4Owner Obj Body) (seqid : BitVec 32) (argop : SeqOp)
    (obj : Option Obj) (resp : Response Body) : Nfs4Owner Obj Body :=
  { owner with soSeqid := seqid, soLastEntry := obj, soArgop := argop, soResp := resp }

end EdgeComputing.Sal
