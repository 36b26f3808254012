import EdgeComputing.Nfs4.SlotHistory

/-!
Which reply a retransmission gets. A replay sends the reply of the execution it replays as long as
the slot is not advanced between its SEQUENCE and its `complete_op`, and a compound whose response
did not fit records its reply before that of a later one.
-/

namespace EdgeComputing.Nfs4

open List Option Library SlotState

variable {Body : Type*} {s t : SlotState Body}

def CompoundData.Replaying (c : CompoundData Body) : Prop :=
  c.result = .replay ∧ c.stage = .sequenced

def CompoundData.Stores (c : CompoundData Body) : Prop :=
  c.saCachethis = true ∨ c.minorversion > 0 ∧ c.result ≠ .replay ∧ c.slot = true

def SlotState.Unrecorded (s : SlotState Body) : Prop :=
  ∃ j ∈ s.lockHolder, ∃ d ∈ s.compounds[j]?, d.stage = .sequenced ∨ d.stage = .opCompleted

def RepliesOfExecution (s : SlotState Body) : Prop :=
  ∀ (i : Nat) (c : CompoundData Body), s.compounds[i]? = some c →
    c.result = .replay → c.stage ≠ .sequenced →
      ∃ r, c.res = some r ∧ r.recordedBy = some c.execution ∧
        s.executed[c.execution]? = some c.saSequenceid

/-- The order of steps the slot relies on but does not enforce: it is advanced only
when no replay is still to read its reply, and a reply other than that of the latest
execution is recorded only while the latest one, which will overwrite it, holds the
lock. -/
def InOrder (s : SlotState Body) : SlotAction Body → Prop
  | .sequence env args =>
    Advances env args s → ∀ c ∈ s.compounds, ¬c.Replaying
  | .completeCompound i _ =>
    ∀ c ∈ s.compounds[i]?, c.Stores → c.execution + 1 = s.executed.length ∨ s.Unrecorded
  | _ => True

instance (c : CompoundData Body) : Decidable c.Replaying :=
  inferInstanceAs (Decidable (_ ∧ _))

instance (c : CompoundData Body) : Decidable c.Stores :=
  inferInstanceAs (Decidable (_ ∨ _))

instance (s : SlotState Body) : Decidable s.Unrecorded :=
  inferInstanceAs (Decidable (∃ j ∈ s.lockHolder, ∃ d ∈ s.compounds[j]?, _ ∨ _))

instance (env : SequenceEnv) (args : SequenceArgs) (s : SlotState Body) :
    Decidable (Advances env args s) :=
  inferInstanceAs (Decidable (_ ∧ _))

instance (s : SlotState Body) (a : SlotAction Body) : Decidable (InOrder s a) :=
  match a with
  | .sequence env args =>
    inferInstanceAs (Decidable (Advances env args s → ∀ c ∈ s.compounds, ¬c.Replaying))
  | .completeCompound i _ =>
    inferInstanceAs (Decidable (∀ c ∈ s.compounds[i]?, c.Stores →
      c.execution + 1 = s.executed.length ∨ s.Unrecorded))
  | .completeOp _ => .isTrue trivial
  | .free _ => .isTrue trivial

structure SlotOrder (s : SlotState Body) : Prop where
  holder : ∀ (i : Nat) (c : CompoundData Body), s.compounds[i]? = some c → c.session →
    s.lockHolder = some i
  held : ∀ j, s.lockHolder = some j → ∃ d : CompoundData Body, s.compounds[j]? = some d ∧
    d.session ∧ d.stage ≠ .freed ∧ d.Stores ∧ d.execution + 1 = s.executed.length
  own : ∀ (i : Nat) (c : CompoundData Body), s.compounds[i]? = some c → c.result ≠ .replay →
    c.res.isSome
  stores : ∀ (i : Nat) (c : CompoundData Body), s.compounds[i]? = some c → c.Stores →
    c.result ≠ .replay
  replaying : ∀ (i : Nat) (c : CompoundData Body), s.compounds[i]? = some c → c.Replaying →
    ¬s.Unrecorded ∧ ∃ r, s.cachedResult = some r ∧ r.recordedBy = some c.execution
  latest : ∀ (i : Nat) (c : CompoundData Body), s.compounds[i]? = some c → c.Replaying →
    c.execution + 1 = s.executed.length
  cached : ∀ r, s.cachedResult = some r → r.recordedBy = some (s.executed.length - 1) ∨ s.Unrecorded
  sent : ∀ (i : Nat) (c : CompoundData Body), s.compounds[i]? = some c →
    c.result = .replay → c.stage ≠ .sequenced →
      ∃ r, c.res = some r ∧ r.recordedBy = some c.execution

theorem slotOrder_init : SlotOrder (SlotState.init : SlotState Body) := by
  constructor <;> simp [init]

theorem SlotOrder.unrecorded_push (hs : SlotOrder s) (c : CompoundData Body) :
    (s.push c).Unrecorded ↔ s.Unrecorded := by
  constructor
  · rintro ⟨j, hj, d, hd, hstage⟩
    obtain ⟨e, he, -⟩ := hs.held j hj
    have heq : e = d := some.inj ((push_of_getElem? he).symm.trans hd)
    exact ⟨j, hj, d, heq ▸ he, hstage⟩
  · rintro ⟨j, hj, d, hd, hstage⟩
    exact ⟨j, hj, d, push_of_getElem? hd, hstage⟩

variable {c d : CompoundData Body}

theorem SlotOrder.push (hs : SlotOrder s) (hsession : c.session = false) (hown : c.res.isSome)
    (hstores : c.Stores → c.result ≠ .replay) (hstage : c.stage = .sequenced)
    (hreplaying : c.Replaying →
      ¬s.Unrecorded ∧ ∃ r, s.cachedResult = some r ∧ r.recordedBy = some c.execution)
    (hlatest : c.Replaying → c.execution + 1 = s.executed.length) : SlotOrder (s.push c) := by
  constructor
  · exact forall_append hs.holder fun h => absurd h (by simp [hsession])
  · intro j hj
    obtain ⟨d, hd, hrest⟩ := hs.held j hj
    exact ⟨d, push_of_getElem? hd, hrest⟩
  · exact forall_append hs.own fun _ => hown
  · exact forall_append hs.stores hstores
  · simp only [hs.unrecorded_push]
    exact forall_append hs.replaying hreplaying
  · exact forall_append hs.latest hlatest
  · intro r hr
    rw [hs.unrecorded_push]
    exact hs.cached r hr
  · exact forall_append hs.sent fun _ hsent => absurd hstage hsent

theorem SlotOrder.advance (hs : SlotOrder s) (hfree : s.lockHolder = none)
    (hquiet : ∀ c ∈ s.compounds, ¬c.Replaying) : SlotOrder s.advance := by
  constructor
  · exact hs.holder
  · intro j hj
    simp [SlotState.advance, hfree] at hj
  · exact hs.own
  · exact hs.stores
  · intro i c hc hreplaying
    exact absurd hreplaying (hquiet c (mem_of_getElem? hc))
  · intro i c hc hreplaying
    exact absurd hreplaying (hquiet c (mem_of_getElem? hc))
  · simp [SlotState.advance]
  · exact hs.sent

theorem SlotOrder.take (hs : SlotOrder s) (hfree : s.lockHolder = none)
    (hcached : s.cachedResult = none) (hstores : c.Stores) (hown : c.res.isSome)
    (hresult : c.result ≠ .replay) (hsession : c.session) (hstage : c.stage = .sequenced)
    (hlatest : c.execution + 1 = s.executed.length) :
    SlotOrder ({ s with lockHolder := some s.compounds.length }.push c) := by
  have hquiet : ∀ (i : Nat) (d : CompoundData Body),
      (s.push c).compounds[i]? = some d → ¬d.Replaying := by
    refine forall_append (fun i d hd hreplaying => ?_) fun h => hresult h.1
    obtain ⟨-, r, hr, -⟩ := hs.replaying i d hd hreplaying
    simp [hcached] at hr
  constructor
  · refine forall_append (fun i d hd hd' => ?_) fun _ => rfl
    have := hs.holder i d hd hd'
    simp [hfree] at this
  · rintro j ⟨⟩
    exact ⟨c, by simp [SlotState.push], hsession, by simp [hstage], hstores, hlatest⟩
  · exact forall_append hs.own fun _ => hown
  · exact forall_append hs.stores fun _ => hresult
  · intro i d hd hreplaying
    exact absurd hreplaying (hquiet i d hd)
  · intro i d hd hreplaying
    exact absurd hreplaying (hquiet i d hd)
  · simp [hcached]
  · exact forall_append hs.sent fun h => absurd h hresult

variable {i : Nat} {r : ResExtended Body}

theorem unrecorded_set {c : CompoundData Body} {i : Nat} (d : CompoundData Body)
    (cached : Option (ResExtended Body)) (hc : s.compounds[i]? = some c)
    (hkeep : s.lockHolder ≠ some i ∨
      ((d.stage = .sequenced ∨ d.stage = .opCompleted) ↔
        (c.stage = .sequenced ∨ c.stage = .opCompleted))) :
    SlotState.Unrecorded { s with cachedResult := cached, compounds := s.compounds.set i d }
      ↔ s.Unrecorded := by
  constructor
  · rintro ⟨j, hj, e, he, hstage⟩
    rcases getElem?_set_cases he with ⟨rfl, rfl⟩ | ⟨-, he⟩
    · rcases hkeep with hother | hkeep
      · exact absurd hj hother
      · exact ⟨j, hj, c, hc, hkeep.1 hstage⟩
    · exact ⟨j, hj, e, he, hstage⟩
  · rintro ⟨j, hj, e, he, hstage⟩
    by_cases hji : j = i
    · subst hji
      obtain rfl : e = c := some.inj (he.symm.trans hc)
      rcases hkeep with hother | hkeep
      · exact absurd hj hother
      · exact ⟨j, hj, d, getElem?_set_of_some hc, hkeep.2 hstage⟩
    · refine ⟨j, hj, e, ?_, hstage⟩
      rwa [getElem?_set_ne (Ne.symm hji)]

theorem recordedResult_of_stores (hstores : c.Stores) (res : Compound4res Body) :
    ∃ r, recordedResult s c res = some r ∧ r.recordedBy = some c.execution := by
  unfold recordedResult
  split_ifs with hcachethis hsession
  · exact ⟨_, rfl, rfl⟩
  · exact ⟨_, rfl, rfl⟩
  · rcases hstores with h | h
    · exact absurd h hcachethis
    · exact absurd h hsession

structure CompoundData.MovesOn (d c : CompoundData Body) : Prop where
  stores : d.Stores ↔ c.Stores
  result : d.result = c.result
  execution : d.execution = c.execution
  own : c.res.isSome → d.res.isSome

section

variable (hs : SlotOrder s) (hc : s.compounds[i]? = some c)
include hs hc

theorem SlotOrder.held_at (hi : s.lockHolder = some i) :
    c.session ∧ c.stage ≠ .freed ∧ c.Stores ∧ c.execution + 1 = s.executed.length := by
  obtain ⟨d, hd, hheld⟩ := hs.held i hi
  obtain rfl : d = c := some.inj (hd.symm.trans hc)
  exact hheld

theorem SlotOrder.set (d : CompoundData Body) (cached : Option (ResExtended Body))
    (ht : t = { s with cachedResult := cached, compounds := s.compounds.set i d })
    (hsession : d.session = c.session) (hmoves : d.MovesOn c) (hstage : d.stage ≠ .sequenced)
    (hkept : c.session → d.stage ≠ .freed)
    (hreplaying : ∀ (j : Nat) (e : CompoundData Body), s.compounds[j]? = some e → e.Replaying →
      ¬t.Unrecorded ∧ ∃ r, cached = some r ∧ r.recordedBy = some e.execution)
    (hcached : ∀ r, cached = some r → r.recordedBy = some (s.executed.length - 1) ∨ t.Unrecorded)
    (hsent : d.result = .replay → ∃ r, d.res = some r ∧ r.recordedBy = some d.execution) :
    SlotOrder t := by
  subst ht
  constructor
  · exact forall_set hs.holder fun h => hs.holder i c hc (hsession ▸ h)
  · intro j hj
    by_cases hji : j = i
    · subst hji
      obtain ⟨hlocked, -, hheld⟩ := hs.held_at hc hj
      refine ⟨d, getElem?_set_of_some hc, hsession ▸ hlocked, hkept hlocked, ?_⟩
      rw [hmoves.stores, hmoves.execution]
      exact hheld
    · obtain ⟨e, he, hheld⟩ := hs.held j hj
      refine ⟨e, ?_, hheld⟩
      rwa [getElem?_set_ne (Ne.symm hji)]
  · exact forall_set hs.own fun h => hmoves.own (hs.own i c hc (hmoves.result ▸ h))
  · exact forall_set hs.stores fun h => hmoves.result ▸ hs.stores i c hc (hmoves.stores.1 h)
  · exact forall_set hreplaying fun h => absurd h.2 hstage
  · exact forall_set hs.latest fun h => absurd h.2 hstage
  · exact hcached
  · exact forall_set hs.sent fun h _ => hsent h

theorem SlotOrder.setCompound (hkeep : s.lockHolder ≠ some i ∨
      ((d.stage = .sequenced ∨ d.stage = .opCompleted) ↔
        (c.stage = .sequenced ∨ c.stage = .opCompleted)))
    (hsession : d.session = c.session) (hmoves : d.MovesOn c) (hstage : d.stage ≠ .sequenced)
    (hkept : c.session → d.stage ≠ .freed)
    (hsent : d.result = .replay → ∃ r, d.res = some r ∧ r.recordedBy = some d.execution) :
    SlotOrder { s with compounds := s.compounds.set i d } := by
  have hunrecorded := unrecorded_set d s.cachedResult hc hkeep
  apply hs.set hc d s.cachedResult rfl hsession hmoves hstage hkept
  · rw [hunrecorded]
    exact hs.replaying
  · rw [hunrecorded]
    exact hs.cached
  · exact hsent

theorem SlotOrder.completeOp (hstage : c.stage = .sequenced) :
    SlotOrder { s with compounds := s.compounds.set i (completeOp s c) } := by
  apply hs.setCompound hc (d := Nfs4.completeOp s c) (.inr (by simp [Nfs4.completeOp, hstage])) rfl
  · refine ⟨Iff.rfl, rfl, rfl, fun hsome => ?_⟩
    unfold Nfs4.completeOp
    split_ifs with hreplay
    · obtain ⟨-, r, hr, -⟩ := hs.replaying i c hc ⟨hreplay, hstage⟩
      simp [hr]
    · exact hsome
  · simp [Nfs4.completeOp]
  · simp [Nfs4.completeOp]
  · intro hreplay
    obtain ⟨-, r, hr, hrec⟩ := hs.replaying i c hc ⟨hreplay, hstage⟩
    have hreplay' : c.result = .replay := hreplay
    exact ⟨r, by simp [Nfs4.completeOp, hreplay', hr], hrec⟩

theorem SlotOrder.record (hwrites : c.Stores)
    (horder : c.execution + 1 = s.executed.length ∨ s.Unrecorded)
    (hrecorded : r.recordedBy = some c.execution) (hsession : d.session = c.session)
    (hmoves : d.MovesOn c) (hstage : d.stage = .completed) :
    SlotOrder { s with cachedResult := some r, compounds := s.compounds.set i d } := by
  have hafter : SlotState.Unrecorded
      { s with cachedResult := some r, compounds := s.compounds.set i d } → s.Unrecorded := by
    rintro ⟨j, hj, e, he, he'⟩
    rcases getElem?_set_cases he with ⟨-, rfl⟩ | ⟨-, he⟩
    · simp [hstage] at he'
    · exact ⟨j, hj, e, he, he'⟩
  have hreplay : d.result ≠ .replay := hmoves.result ▸ hs.stores i c hc hwrites
  apply hs.set hc d (some r) rfl hsession hmoves (by simp [hstage]) (by simp [hstage])
  · intro j e he hreplaying
    obtain ⟨hrec, -⟩ := hs.replaying j e he hreplaying
    have hlatest := hs.latest j e he hreplaying
    rcases horder with horder | horder
    · refine ⟨fun h => hrec (hafter h), r, rfl, ?_⟩
      rw [hrecorded]
      congr 1
      omega
    · exact absurd horder hrec
  · intro r' hr'
    obtain rfl := some.inj hr'
    by_cases hlatest : c.execution + 1 = s.executed.length
    · left
      rw [hrecorded, ← hlatest, Nat.add_sub_cancel]
    · right
      obtain ⟨j, hj, e, he, he'⟩ := horder.resolve_left hlatest
      refine ⟨j, hj, e, ?_, he'⟩
      -- the holder of the lock is the latest execution, so it is another compound
      have hji : j ≠ i := by
        rintro rfl
        exact hlatest (hs.held_at hc hj).2.2.2
      exact (getElem?_set_ne (Ne.symm hji)).trans he
  · exact fun h => absurd h hreplay

theorem SlotOrder.completeCompound (hstage : c.stage = .opCompleted)
    (horder : c.Stores → c.execution + 1 = s.executed.length ∨ s.Unrecorded)
    (rest : List (ResOp Body)) : SlotOrder (completeNfs4Compound s i c rest) := by
  have hsent := fun h => hs.sent i c hc h (by simp [hstage])
  unfold completeNfs4Compound
  cases hres : c.res with
  | none =>
    by_cases hreplay : c.result = .replay
    · obtain ⟨r, hr, -⟩ := hsent hreplay
      simp [hres] at hr
    · simpa [hres] using hs.own i c hc hreplay
  | some ext =>
    have hsent' : c.result = .replay → ext.recordedBy = some c.execution := by
      intro hreplay
      obtain ⟨r, hr, hrec⟩ := hsent hreplay
      obtain rfl : ext = r := some.inj (hres.symm.trans hr)
      exact hrec
    by_cases hstores : c.Stores
    · obtain ⟨r, hr, hrec⟩ := recordedResult_of_stores hstores (finalResult c rest ext.res)
      dsimp only
      rw [hr]
      exact hs.record hc hstores (horder hstores) hrec rfl ⟨Iff.rfl, rfl, rfl, fun _ => rfl⟩ rfl
    · dsimp only
      rw [recordedResult, if_neg fun h => hstores (.inl h), if_neg fun h => hstores (.inr h)]
      have hother : s.lockHolder ≠ some i := fun hi => hstores (hs.held_at hc hi).2.2.1
      exact hs.setCompound hc (.inl hother) rfl ⟨Iff.rfl, rfl, rfl, fun _ => rfl⟩ (by simp)
        (by simp) fun h => ⟨_, rfl, hsent' h⟩

theorem SlotOrder.unlock (hstage : c.stage = .completed) (hholder : s.lockHolder = some i)
    (hsession : d.session = false) (hmoves : d.MovesOn c) (hres : d.res = c.res)
    (hfreed : d.stage = .freed) :
    SlotOrder { s with lockHolder := none, compounds := s.compounds.set i d } := by
  have hrecorded : ¬s.Unrecorded := by
    rintro ⟨j, hj, e, he, he'⟩
    obtain rfl : i = j := some.inj (hholder.symm.trans hj)
    obtain rfl : e = c := some.inj (he.symm.trans hc)
    simp [hstage] at he'
  have hunlocked : ¬SlotState.Unrecorded
      { s with lockHolder := none, compounds := s.compounds.set i d } := by
    rintro ⟨j, hj, -⟩
    simp at hj
  constructor
  · intro j e he he'
    rcases getElem?_set_cases he with ⟨-, rfl⟩ | ⟨hji, he⟩
    · simp [hsession] at he'
    · have hj := hs.holder j e he he'
      exact absurd (some.inj (hj.symm.trans hholder)) hji
  · intro j hj
    simp at hj
  · exact forall_set hs.own fun h => hmoves.own (hs.own i c hc (hmoves.result ▸ h))
  · exact forall_set hs.stores fun h => hmoves.result ▸ hs.stores i c hc (hmoves.stores.1 h)
  · exact forall_set (fun j e he h => ⟨hunlocked, (hs.replaying j e he h).2⟩)
      fun h => absurd h.2 (by simp [hfreed])
  · exact forall_set hs.latest fun h => absurd h.2 (by simp [hfreed])
  · intro r hr
    exact .inl ((hs.cached r hr).resolve_right hrecorded)
  · refine forall_set hs.sent fun h _ => ?_
    rw [hres, hmoves.execution]
    exact hs.sent i c hc (hmoves.result ▸ h) (by simp [hstage])

theorem SlotOrder.free (hstage : c.stage = .completed) : SlotOrder (compoundDataFree s i c) := by
  unfold compoundDataFree
  cases hsession : c.session with
  | true => exact hs.unlock hc hstage (hs.holder i c hc hsession) rfl ⟨Iff.rfl, rfl, rfl, id⟩ rfl rfl
  | false =>
    exact hs.setCompound hc (.inr (by simp [hstage])) hsession.symm ⟨Iff.rfl, rfl, rfl, id⟩ (by simp)
      (by simp [hsession]) fun h => hs.sent i c hc h (by simp [hstage])

end

variable {args : SequenceArgs}

theorem SlotOrder.replay (hs : SlotOrder s) (hist : SlotHistory s) (hfree : s.lockHolder = none)
    (hcached : s.cachedResult.isSome) : SlotOrder (s.push (replayCompound args s)) := by
  have hrecorded : ¬s.Unrecorded := by
    rintro ⟨j, hj, -⟩
    simp [hfree] at hj
  obtain ⟨r, hr⟩ := isSome_iff_exists.1 hcached
  have hlatest := (hs.cached r hr).resolve_right hrecorded
  have hpos : 0 < s.executed.length := length_pos_iff.2 (hist.cached hcached)
  apply hs.push rfl rfl
  · simp [CompoundData.Stores, replayCompound]
  · rfl
  · exact fun _ => ⟨hrecorded, r, hr, hlatest⟩
  · intro _
    simp only [replayCompound]
    omega

variable {a : SlotAction Body}

theorem SlotOrder.step (hs : SlotOrder s) (hist : SlotHistory s) (hguard : InOrder s a)
    (h : SlotStep s a t) : SlotOrder t := by
  cases h with
  | refused status =>
    exact hs.push rfl rfl (fun _ => by simp [refusedCompound]) rfl
      (by simp [CompoundData.Replaying, refusedCompound])
      (by simp [CompoundData.Replaying, refusedCompound])
  | replay hfree _ _ hcached => exact hs.replay hist hfree hcached
  | failed hfree hnext hroom =>
    have hadvanced := hs.advance hfree (hguard hnext)
    exact hadvanced.push (by simp [executedCompound, hroom]) rfl
      (by simp [executedCompound, hroom]) rfl
      (by simp [CompoundData.Replaying, executedCompound, hroom])
      (by simp [CompoundData.Replaying, executedCompound, hroom])
  | executing hfree hnext =>
    have hadvanced := hs.advance hfree (hguard hnext)
    have hminor : 0 < _ := minorversion_pos_of_advances hnext
    exact hadvanced.take hfree rfl (.inr ⟨hminor, by simp [executedCompound], rfl⟩) rfl
      (by simp [executedCompound]) rfl rfl (by simp [executedCompound, SlotState.advance])
  | completeOp hc hstage => exact hs.completeOp hc hstage
  | completeCompound hc hstage => exact hs.completeCompound hc hstage (hguard _ hc) _
  | free hc hstage => exact hs.free hc hstage

theorem slotOrder_of_reachableBy (h : slotMachine.ReachableBy InOrder s) : SlotOrder s := by
  have hboth : SlotHistory s ∧ SlotOrder s := by
    apply h.invariant
    · rintro s rfl
      exact ⟨slotHistory_init, slotOrder_init⟩
    · intro s a t hs hguard hstep
      have hslot := slotStep_of_step hstep
      exact ⟨hs.1.step hslot, hs.2.step hs.1 hguard hslot⟩
  exact hboth.2

theorem SlotOrder.repliesOfExecution (hs : SlotOrder s) (hist : SlotHistory s) :
    RepliesOfExecution s := by
  intro i c hc hreplay hstage
  obtain ⟨r, hr, hrecorded⟩ := hs.sent i c hc hreplay hstage
  exact ⟨r, hr, hrecorded, hist.named i c hc (hist.slot i c hc (.inr hreplay))⟩

def slotArgs (saSequenceid : BitVec 32) (saCachethis : Bool) : SequenceArgs :=
  ⟨1, "", saSequenceid, 0, saCachethis⟩

def slotEnv (room : Nat) : SequenceEnv := ⟨true, true, ⟨1, room, room⟩, 1, true, 0, 36⟩

theorem retransmission_sends_cached (hfree : s.lockHolder = none)
    (hcached : s.cachedResult = some r) :
    ∃ u, slotMachine.RunBy InOrder s u ∧
      (RepliesOfExecution u → r.recordedBy = some (s.executed.length - 1)) := by
  let args := slotArgs s.sequence false
  have hnext : s.sequence + 1 ≠ s.sequence := by
    intro h
    have := congrArg BitVec.toNat h
    simp only [BitVec.toNat_add] at this
    have hlt := s.sequence.isLt
    simp at this
    omega
  have hguard : InOrder s (.sequence (slotEnv 100) args) := fun h => absurd h.2 hnext
  have hsequence : slotMachine.step s (.sequence (slotEnv 100) args)
      = some (s.push (replayCompound args s)) := by
    have hrefused : sequenceRefused (slotEnv 100) args = none := rfl
    have hid : args.saSequenceid = s.sequence := rfl
    simp [slotMachine, nfs4OpSequence, hrefused, hfree, hid, hcached]
  let u := s.push (replayCompound args s)
  have hlast : u.compounds[s.compounds.length]? = some (replayCompound args s) := by
    simp [u, push]
  have hread : slotMachine.step u (.completeOp s.compounds.length) = some { u with
      compounds := u.compounds.set s.compounds.length (completeOp u (replayCompound args s)) } := by
    simp [slotMachine, hlast, replayCompound]
  refine ⟨_, .step (a := .completeOp _) (.step .refl hguard hsequence) trivial hread, ?_⟩
  intro hreplies
  obtain ⟨r', hr', hrecorded, -⟩ := hreplies s.compounds.length _ (getElem?_set_of_some hlast) rfl
    (by simp [completeOp])
  have hcached' : (completeOp u (replayCompound args s)).res = some r := by
    simp [completeOp, replayCompound, u, hcached]
  obtain rfl : r = r' := some.inj (hcached'.symm.trans hr')
  exact hrecorded

theorem replay_after_advance {env : SequenceEnv} (hstep : SlotStep s (.sequence env args) t)
    (hnext : Advances env args s) (hc : s.compounds[i]? = some c) (hreplaying : c.Replaying) :
    ∃ u, slotMachine.RunBy InOrder t u ∧ ¬RepliesOfExecution u := by
  have hafter : t.cachedResult = none ∧ t.compounds[i]? = some c := by
    cases hstep with
    | refused _ hstay | replay _ hstay => exact absurd hnext hstay
    | failed | executing => exact ⟨rfl, push_of_getElem? hc⟩
  obtain ⟨hcached, hc⟩ := hafter
  have hread : slotMachine.step t (.completeOp i)
      = some { t with compounds := t.compounds.set i (completeOp t c) } := by
    simp [slotMachine, hc, hreplaying.2]
  refine ⟨_, .step (a := .completeOp i) .refl trivial hread, ?_⟩
  intro hreplies
  obtain ⟨r, hr, -⟩ := hreplies i _ (getElem?_set_of_some hc) hreplaying.1 (by simp [completeOp])
  simp [completeOp, hreplaying.1, hcached] at hr

theorem replay_after_late_record {rest : List (ResOp Body)} (hs : SlotOrder s)
    (hist : SlotHistory s) (hc : s.compounds[i]? = some c) (hstores : c.Stores)
    (hlate : c.execution + 1 ≠ s.executed.length) (hrecorded : ¬s.Unrecorded) :
    ∃ u, slotMachine.RunBy InOrder (completeNfs4Compound s i c rest) u
      ∧ ¬RepliesOfExecution u := by
  obtain ⟨ext, hext⟩ := isSome_iff_exists.1 (hs.own i c hc (hs.stores i c hc hstores))
  obtain ⟨r, hr, hrec⟩ := recordedResult_of_stores (s := s) hstores (finalResult c rest ext.res)
  have hslot : c.slot := hstores.elim (fun h => hist.slot i c hc (.inl h)) fun h => h.2.2
  obtain ⟨hlt, -⟩ := List.getElem?_eq_some_iff.1 (hist.named i c hc hslot)
  have hwrong : r.recordedBy ≠ some (s.executed.length - 1) := by
    rw [hrec]
    intro h
    have := some.inj h
    omega
  have hcached : (completeNfs4Compound s i c rest).cachedResult = some r := by
    simp [completeNfs4Compound, hext, hr]
  have hexecuted : (completeNfs4Compound s i c rest).executed = s.executed := by
    simp [completeNfs4Compound, hext]
  have hlock : (completeNfs4Compound s i c rest).lockHolder = s.lockHolder := by
    simp [completeNfs4Compound, hext]
  cases hholder : s.lockHolder with
  | none =>
    obtain ⟨u, hu, hsends⟩ := retransmission_sends_cached (hlock.trans hholder) hcached
    exact ⟨u, hu, fun hreplies => hwrong (hexecuted ▸ hsends hreplies)⟩
  | some j =>
    -- the holder has recorded its reply, so it may release the slot
    obtain ⟨d, hd, hsession, hkept, -⟩ := hs.held j hholder
    have hdone : d.stage = .completed := by
      cases hstage : d.stage with
      | sequenced => exact absurd ⟨j, hholder, d, hd, .inl hstage⟩ hrecorded
      | opCompleted => exact absurd ⟨j, hholder, d, hd, .inr hstage⟩ hrecorded
      | completed => rfl
      | freed => exact absurd hstage hkept
    have hji : j ≠ i := by
      rintro rfl
      exact hlate (hs.held_at hc hholder).2.2.2
    have hd' : (completeNfs4Compound s i c rest).compounds[j]? = some d := by
      simp only [completeNfs4Compound, hext]
      exact (getElem?_set_ne (Ne.symm hji)).trans hd
    have hfree : slotMachine.step (completeNfs4Compound s i c rest) (.free j)
        = some (compoundDataFree (completeNfs4Compound s i c rest) j d) := by
      simp only [slotMachine, hd', bind_some, hdone, if_true]
    have hopen : (compoundDataFree (completeNfs4Compound s i c rest) j d).lockHolder = none := by
      simp [compoundDataFree, hsession]
    obtain ⟨u, hu, hsends⟩ := retransmission_sends_cached hopen (r := r) hcached
    refine ⟨u, .trans (.step (a := .free j) .refl trivial hfree) hu, ?_⟩
    exact fun hreplies => hwrong (hexecuted ▸ hsends hreplies)

theorem wrong_reply_of_not_inOrder (hs : SlotOrder s) (hist : SlotHistory s)
    (hstep : SlotStep s a t) (horder : ¬InOrder s a) :
    ∃ u, slotMachine.RunBy InOrder t u ∧ ¬RepliesOfExecution u := by
  cases a with
  | sequence env args =>
    simp only [InOrder, Classical.not_imp, not_forall, not_not] at horder
    obtain ⟨hnext, c, hmem, hreplaying⟩ := horder
    obtain ⟨i, hc⟩ := getElem?_of_mem hmem
    exact replay_after_advance hstep hnext hc hreplaying
  | completeCompound i rest =>
    simp only [InOrder, Classical.not_imp, not_forall, not_or] at horder
    obtain ⟨c, hc, hstores, hlate, hrecorded⟩ := horder
    cases hstep with
    | completeCompound hc' hstage =>
      obtain rfl := some.inj (hc.symm.trans hc')
      exact replay_after_late_record hs hist hc hstores hlate hrecorded
  | completeOp i | free i => exact absurd trivial horder

/-- Every sequence id is executed once until the counter wraps. In every run whose
steps come in order each replay sends the reply of the execution it replays, and a
step keeps that promise for the rest of the run if and only if it comes in order. -/
theorem slot_exactly_once_iff :
    (∀ s : SlotState Body, slotMachine.Reachable s → ExecutedOnce s) ∧
      ∀ s : SlotState Body, slotMachine.ReachableBy InOrder s →
        RepliesOfExecution s ∧
          ∀ a t, slotMachine.step s a = some t →
            (InOrder s a ↔ ∀ u, slotMachine.RunBy InOrder t u → RepliesOfExecution u) := by
  constructor
  · intro s hs
    exact (slotHistory_of_reachable hs).executedOnce
  · intro s hs
    have horder := slotOrder_of_reachableBy hs
    have hist := slotHistory_of_reachable hs.reachable
    refine ⟨horder.repliesOfExecution hist, fun a t hstep => ⟨?_, ?_⟩⟩
    · intro hguard u hu
      have hreach := (hs.step hguard hstep).run hu
      exact (slotOrder_of_reachableBy hreach).repliesOfExecution
        (slotHistory_of_reachable hreach.reachable)
    · intro hreplies
      by_contra hout
      obtain ⟨u, hu, hwrong⟩ := wrong_reply_of_not_inOrder horder hist
        (slotStep_of_step hstep) hout
      exact hwrong (hreplies u hu)

def wholeCompound (i : Nat) (saSequenceid : BitVec 32) : List (SlotAction Nat) :=
  [.sequence (slotEnv 100) (slotArgs saSequenceid true), .completeOp i,
    .completeCompound i [⟨9, .ok, .op saSequenceid.toNat⟩], .free i]

/-- A request is executed and retransmitted: the retransmission sends its reply. -/
theorem slot_exactly_once_retransmission :
    ∃ s : SlotState Nat, ExecutedOnce s ∧ RepliesOfExecution s ∧ s.executed = [1] ∧
      s.compounds.map CompoundData.result = [.ok, .replay] := by
  have hrun : (slotMachine.runFromBy InOrder init
      (wholeCompound 0 1 ++ [.sequence (slotEnv 100) (slotArgs 1 true), .completeOp 1])).map
        (fun s => (s.executed, s.compounds.map CompoundData.result))
      = some ([1], [.ok, .replay]) := by
    decide +kernel
  obtain ⟨s, hreach, hresults⟩ := Machine.exists_reachableBy hrun (.init rfl)
  exact ⟨s, slot_exactly_once_iff.1 s hreach.reachable, (slot_exactly_once_iff.2 s hreach).1,
    congrArg Prod.fst hresults, congrArg Prod.snd hresults⟩

/-- Request 1 is executed and retransmitted; request 2 is executed between SEQUENCE
and `complete_op` of the retransmission, which then sends the reply of request 2. -/
theorem retransmission_sends_later_reply :
    ∃ s : SlotState Nat, slotMachine.Reachable s ∧ s.executed = [1, 2] ∧
      ∃ c r, s.compounds[1]? = some c ∧ c.result = .replay ∧ c.saSequenceid = 1 ∧
        c.stage = .opCompleted ∧ c.res = some r ∧ r.recordedBy = some 1 ∧
        r.res.resarray = [⟨53, .ok, .sequence ⟨2, 0, 0, 0, false⟩⟩, ⟨9, .ok, .op 2⟩] := by
  let r : ResExtended Nat :=
    ⟨⟨.ok, "", [⟨53, .ok, .sequence ⟨2, 0, 0, 0, false⟩⟩, ⟨9, .ok, .op 2⟩]⟩, some 1⟩
  let c : CompoundData Nat := ⟨1, 1, false, true, false, .replay, .opCompleted, some r, 0⟩
  have hrun : (slotMachine.runFrom init
      (wholeCompound 0 1 ++ [.sequence (slotEnv 100) (slotArgs 1 true)] ++ wholeCompound 2 2
        ++ [.completeOp 1])).map (fun s => (s.executed, s.compounds[1]?))
      = some ([1, 2], some c) := by
    decide +kernel
  obtain ⟨s, hreach, hs⟩ := Machine.exists_reachable hrun (.init rfl)
  exact ⟨s, hreach, congrArg Prod.fst hs, c, r, congrArg Prod.snd hs, rfl, rfl, rfl, rfl, rfl, rfl⟩

end EdgeComputing.Nfs4
