import EdgeComputing.Library.Table
import EdgeComputing.Nfs4.SessionSlot

/-!
What a step on a session slot can do, and what every interleaving keeps: the sequence ids that pass
SEQUENCE are counted from 1.
-/

namespace EdgeComputing.Nfs4

open List Option Library SlotState

variable {Body : Type*} {s t : SlotState Body}

def Advances (env : SequenceEnv) (args : SequenceArgs) (s : SlotState Body) : Prop :=
  sequenceRefused env args = none ∧ s.sequence + 1 = args.saSequenceid

variable {args : SequenceArgs} {env : SequenceEnv} {a : SlotAction Body}

theorem minorversion_pos_of_advances (h : Advances env args s) : 0 < args.minorversion := by
  have hrefused := h.1
  unfold sequenceRefused at hrefused
  split_ifs at hrefused with hminor
  exact Nat.pos_of_ne_zero hminor

inductive SlotStep (s : SlotState Body) : SlotAction Body → SlotState Body → Prop
  | refused {env : SequenceEnv} {args : SequenceArgs} (status : Nfsstat4)
      (hstay : ¬Advances env args s) :
      SlotStep s (.sequence env args) (s.push (refusedCompound args status))
  | replay {env : SequenceEnv} {args : SequenceArgs} (hfree : s.lockHolder = none)
      (hstay : ¬Advances env args s) (hsequence : s.sequence = args.saSequenceid)
      (hcached : s.cachedResult.isSome) :
      SlotStep s (.sequence env args) (s.push (replayCompound args s))
  | failed {env : SequenceEnv} {args : SequenceArgs} {room : Nfsstat4}
      (hfree : s.lockHolder = none) (hnext : Advances env args s) (hroom : room ≠ .ok) :
      SlotStep s (.sequence env args) (s.advance.push (executedCompound env args s room))
  | executing {env : SequenceEnv} {args : SequenceArgs} (hfree : s.lockHolder = none)
      (hnext : Advances env args s) :
      SlotStep s (.sequence env args)
        ({ s.advance with lockHolder := some s.compounds.length }.push
          (executedCompound env args s .ok))
  | completeOp {i : Nat} {c : CompoundData Body} (hc : s.compounds[i]? = some c)
      (hstage : c.stage = .sequenced) :
      SlotStep s (.completeOp i)
        { s with compounds := s.compounds.set i (completeOp s c) }
  | completeCompound {i : Nat} {c : CompoundData Body} {rest : List (ResOp Body)}
      (hc : s.compounds[i]? = some c) (hstage : c.stage = .opCompleted) :
      SlotStep s (.completeCompound i rest) (completeNfs4Compound s i c rest)
  | free {i : Nat} {c : CompoundData Body} (hc : s.compounds[i]? = some c)
      (hstage : c.stage = .completed) :
      SlotStep s (.free i) (compoundDataFree s i c)

theorem slotStep_sequence (hfree : sequenceRefused env args = none → s.lockHolder = none) :
    SlotStep s (.sequence env args)
      ((nfs4OpSequence env args s).1.push (nfs4OpSequence env args s).2) := by
  unfold nfs4OpSequence
  cases hrefused : sequenceRefused env args with
  | some status => exact .refused status (by simp [Advances, hrefused])
  | none =>
    have hlock := hfree hrefused
    dsimp only
    split_ifs with hnext hsame hcached hroom
    · exact .replay hlock (fun h => hnext h.2) hsame hcached
    · exact .refused _ fun h => hnext h.2
    · exact .refused _ fun h => hnext h.2
    · exact .failed hlock ⟨hrefused, not_not.1 hnext⟩ hroom
    · have hadvances : Advances env args s := ⟨hrefused, not_not.1 hnext⟩
      rw [not_not] at hroom
      simp only [hroom]
      exact .executing hlock hadvances

theorem slotStep_of_step (h : slotMachine.step s a = some t) : SlotStep s a t := by
  cases a with
  | sequence env args =>
    simp only [slotMachine, ite_none_left_eq_some, some.injEq, not_and, not_not] at h
    obtain ⟨hfree, rfl⟩ := h
    exact slotStep_sequence hfree
  | completeOp i =>
    simp only [slotMachine, bind_eq_some_iff, ite_none_right_eq_some, some.injEq] at h
    obtain ⟨c, hc, hstage, rfl⟩ := h
    exact .completeOp hc hstage
  | completeCompound i rest =>
    simp only [slotMachine, bind_eq_some_iff, ite_none_right_eq_some, some.injEq] at h
    obtain ⟨c, hc, hstage, rfl⟩ := h
    exact .completeCompound hc hstage
  | free i =>
    simp only [slotMachine, bind_eq_some_iff, ite_none_right_eq_some, some.injEq] at h
    obtain ⟨c, hc, hstage, rfl⟩ := h
    exact .free hc hstage

@[simp] theorem push_cachedResult (s : SlotState Body) (c : CompoundData Body) :
    (s.push c).cachedResult = s.cachedResult := rfl

variable {i : Nat}

variable {c : CompoundData Body} {d : CompoundData Body}

theorem push_of_getElem? (h : s.compounds[i]? = some d) : (s.push c).compounds[i]? = some d := by
  obtain ⟨hi, -⟩ := List.getElem?_eq_some_iff.1 h
  rw [push, getElem?_append_left hi, h]

structure SlotHistory (s : SlotState Body) : Prop where
  ids : ∀ (k : Nat) (id : BitVec 32), s.executed[k]? = some id → id = BitVec.ofNat 32 (k + 1)
  sequence : s.sequence = BitVec.ofNat 32 s.executed.length
  cached : s.cachedResult.isSome → s.executed ≠ []
  named : ∀ (i : Nat) (c : CompoundData Body), s.compounds[i]? = some c → c.slot →
    s.executed[c.execution]? = some c.saSequenceid
  slot : ∀ (i : Nat) (c : CompoundData Body), s.compounds[i]? = some c →
    c.saCachethis ∨ c.result = .replay → c.slot

theorem slotHistory_init : SlotHistory (SlotState.init : SlotState Body) := by
  constructor <;> simp [init]

theorem SlotHistory.push (hs : SlotHistory s)
    (hnamed : c.slot → s.executed[c.execution]? = some c.saSequenceid)
    (hslot : c.saCachethis ∨ c.result = .replay → c.slot) : SlotHistory (s.push c) := by
  constructor
  · exact hs.ids
  · exact hs.sequence
  · exact hs.cached
  · exact forall_append hs.named hnamed
  · exact forall_append hs.slot hslot

theorem SlotHistory.advance (hs : SlotHistory s) (holder : Option Nat) :
    SlotHistory { s.advance with lockHolder := holder } := by
  constructor
  · intro k id hk
    rcases getElem?_append_cases hk with ⟨rfl, rfl⟩ | ⟨-, hk⟩
    · rw [hs.sequence]
      exact (BitVec.ofNat_add _ _).symm
    · exact hs.ids k id hk
  · simp only [SlotState.advance, length_append, length_singleton]
    rw [hs.sequence]
    exact (BitVec.ofNat_add _ _).symm
  · simp [SlotState.advance]
  · intro i c hc hslot
    have h := hs.named i c hc hslot
    obtain ⟨hlt, -⟩ := List.getElem?_eq_some_iff.1 h
    simp only [SlotState.advance, getElem?_append_left hlt]
    exact h
  · exact hs.slot

theorem SlotHistory.set {holder : Option Nat} {cached : Option (ResExtended Body)}
    (hs : SlotHistory s) (hc : s.compounds[i]? = some c) (hcached : cached.isSome → s.executed ≠ [])
    (hslot : d.slot = c.slot) (hcachethis : d.saCachethis = c.saCachethis)
    (hresult : d.result = c.result) (hexecution : d.execution = c.execution)
    (hid : d.saSequenceid = c.saSequenceid) :
    SlotHistory { s with
      cachedResult := cached, lockHolder := holder, compounds := s.compounds.set i d } := by
  constructor
  · exact hs.ids
  · exact hs.sequence
  · exact hcached
  · apply forall_set hs.named
    rw [hslot, hexecution, hid]
    exact hs.named i c hc
  · apply forall_set hs.slot
    rw [hslot, hcachethis, hresult]
    exact hs.slot i c hc

theorem executed_of_advance (hnext : Advances env args s) (room : Nfsstat4) :
    s.advance.executed[(executedCompound env args s room).execution]?
      = some (executedCompound env args s room).saSequenceid := by
  simpa [advance, executedCompound] using hnext.2

theorem SlotHistory.replayed (hs : SlotHistory s) (hsequence : s.sequence = args.saSequenceid)
    (hcached : s.cachedResult.isSome) : s.executed[s.executed.length - 1]? = some args.saSequenceid := by
  have hpos : 0 < s.executed.length := length_pos_iff.2 (hs.cached hcached)
  have hlast := getElem?_eq_getElem (l := s.executed) (i := s.executed.length - 1) (by omega)
  rw [hlast, hs.ids _ _ hlast, ← hsequence, hs.sequence]
  congr
  omega

theorem SlotHistory.recorded (hs : SlotHistory s) (hc : s.compounds[i]? = some c)
    (res : Compound4res Body) (h : (recordedResult s c res).isSome) : s.executed ≠ [] := by
  have hslot : c.slot → s.executed ≠ [] := by
    intro hslot hnil
    simpa [hnil] using hs.named i c hc hslot
  unfold recordedResult at h
  split_ifs at h with hcachethis hstores
  · exact hslot (hs.slot i c hc (.inl hcachethis))
  · exact hslot hstores.2.2
  · exact hs.cached h

theorem SlotHistory.step (hs : SlotHistory s) (h : SlotStep s a t) : SlotHistory t := by
  cases h with
  | refused status => exact hs.push (by simp [refusedCompound]) (by simp [refusedCompound])
  | replay _ _ hsequence hcached =>
    exact hs.push (fun _ => hs.replayed hsequence hcached) fun _ => rfl
  | failed _ hnext =>
    exact (hs.advance s.lockHolder).push (fun _ => executed_of_advance hnext _) fun _ => rfl
  | executing _ hnext =>
    exact (hs.advance _).push (fun _ => executed_of_advance hnext _) fun _ => rfl
  | completeOp hc => exact hs.set hc hs.cached rfl rfl rfl rfl rfl
  | @completeCompound i c rest hc =>
    unfold completeNfs4Compound
    cases c.res with
    | none => exact hs.set hc hs.cached rfl rfl rfl rfl rfl
    | some ext => exact hs.set hc (hs.recorded hc _) rfl rfl rfl rfl rfl
  | free hc => exact hs.set hc hs.cached rfl rfl rfl rfl rfl

theorem slotHistory_of_reachable (h : slotMachine.Reachable s) : SlotHistory s := by
  apply h.invariant
  · rintro s rfl
    exact slotHistory_init
  · intro s a t hs hstep
    exact hs.step (slotStep_of_step hstep)

def ExecutedOnce (s : SlotState Body) : Prop :=
  ∀ i j (id : BitVec 32), i < j → s.executed[i]? = some id → s.executed[j]? = some id →
    2 ^ 32 ≤ j - i

theorem SlotHistory.executedOnce (hs : SlotHistory s) : ExecutedOnce s := by
  intro i j id hij hi hj
  have heq := (hs.ids i id hi).symm.trans (hs.ids j id hj)
  have hmod := congrArg BitVec.toNat heq
  simp only [BitVec.toNat_ofNat] at hmod
  omega

end EdgeComputing.Nfs4
