import EdgeComputing.Nfs4.StateOps

/-!
Which requests respect the type of the state they name. The stateid check finds states of every type
and no operation looks at the type, so a wrong one is refused only by accident.
-/

namespace EdgeComputing.Nfs4.StateOps

open List Option Sal NfsState StateTable StateOp

def StateOp.kind : StateOp → StateType
  | .locku _ => .lock
  | _ => .share

def StateOp.stateid : StateOp → Stateid4
  | .close args => args.openStateid
  | .openDowngrade args => args.openStateid
  | .openConfirm args => args.openStateid
  | .locku args => args.lockStateid

def StateOp.seqid : StateOp → BitVec 32
  | .close args => args.seqid
  | .openDowngrade args => args.seqid
  | .openConfirm args => args.seqid
  | .locku args => args.seqid

def StateOp.argop : StateOp → SeqOp
  | .close _ => .opClose
  | .openDowngrade _ => .opOpenDowngrade
  | .openConfirm _ => .opOpenConfirm
  | .locku _ => .opLocku

variable {OwnerId Obj : Type*}

def StateOp.flags (data : CompoundFile Obj) : StateOp → StateidFlags
  | .close _ =>
    if data.minorversion = 0 then stateidSpecialForClose40 else stateidSpecialForClose41
  | _ => stateidSpecialForLock

def StateOp.early (data : CompoundFile Obj) : StateOp → Option Nfsstat4
  | .openConfirm _ => if data.minorversion > 0 then some .notsupp else none
  | .locku args => if args.locktype = none then some .inval else none
  | _ => none

def OwnMember (accessed : List UnionAccess) : Prop :=
  ∀ a ∈ accessed, a.used = a.actual

/-- A state of another type than the operation works on is refused with BAD_STATEID and
nothing changes, and no union is accessed as what it is not. -/
def KindRespected (s : StateServer OwnerId Obj) (op : StateOp) (st : NfsState OwnerId Obj)
    (result : Option (OpResult OwnerId Obj)) : Prop :=
  ∃ r, result = some r ∧ (st.type ≠ op.kind → r.resp.status = .badStateid ∧ r.server = s) ∧
    OwnMember r.accessed

@[simp] theorem ownMember_nil : OwnMember [] := by
  simp [OwnMember]

theorem ownMember_cons {a : UnionAccess} {accessed : List UnionAccess} :
    OwnMember (a :: accessed) ↔ a.used = a.actual ∧ OwnMember accessed := by
  simp [OwnMember]

theorem ownMember_append {xs ys : List UnionAccess} :
    OwnMember (xs ++ ys) ↔ OwnMember xs ∧ OwnMember ys := by
  simp only [OwnMember, mem_append, or_imp, forall_and]

@[simp] theorem ownMember_delAccesses (type : StateType) : OwnMember (delAccesses type) := by
  cases type <;> simp [OwnMember, delAccesses]

theorem type_eq_share_iff (st : NfsState OwnerId Obj) :
    st.type = .share ↔ ∃ data, st.stateData = .share data := by
  unfold type
  cases st.stateData <;> simp [StateData.type]

variable {env : OpEnv OwnerId} {data : CompoundFile Obj} {s : StateServer OwnerId Obj}
  {st : NfsState OwnerId Obj} {op : StateOp} {other : StateidOther}

theorem early_ne_badStateid {status : Nfsstat4} (hearly : op.early data = some status) :
    status ≠ .badStateid := by
  cases op with
  | close args | openDowngrade args => simp [early] at hearly
  | openConfirm args | locku args =>
    simp only [early, ite_none_right_eq_some, some.injEq] at hearly
    simp [← hearly.2]

/-- OPEN_CONFIRM for an owner that is already confirmed is the only case in which a state
of another type is refused after the seqid check. -/
def StateOp.AlreadyConfirmed (s : StateServer OwnerId Obj) (st : NfsState OwnerId Obj) :
    StateOp → Prop
  | .openConfirm _ => (s.owners st.stateOwner).soConfirmed = true
  | _ => False

def StateOp.Repeats (data : CompoundFile Obj) (owner : Nfs4Owner Obj Stateid4) (op : StateOp) :
    Prop :=
  owner.soLastEntry = some data.currentObj ∧ op.seqid = owner.soSeqid ∧ op.argop = owner.soArgop

def StateOp.Follows (owner : Nfs4Owner Obj Stateid4) (op : StateOp) : Prop :=
  owner.soLastEntry = none ∨ op.seqid = owner.soSeqid + 1

theorem alreadyConfirmed_minorversion (hearly : op.early data = none)
    (h : op.AlreadyConfirmed s st) : data.minorversion = 0 := by
  cases op with
  | openConfirm args =>
    simp only [early] at hearly
    split at hearly
    · cases hearly
    · omega
  | close args => exact h.elim
  | openDowngrade args => exact h.elim
  | locku args => exact h.elim

section Deleting

variable [DecidableEq Obj]

theorem stateDelLocked_of_not_share (hget : s.table.get other = some st)
    (htype : st.type ≠ .share) :
    stateDelLocked s other = some (s.forget st, delAccesses st.type) := by
  unfold stateDelLocked
  rw [hget]
  cases hdata : st.stateData with
  | share data => exact absurd ((type_eq_share_iff st).2 ⟨data, hdata⟩) htype
  | lock openstate | deleg isWrite | layout returnOnClose => simp only [hdata]

theorem stateDelLocked_of_closed {data : StateShare} (hget : s.table.get other = some st)
    (hdata : st.stateData = .share data) (hempty : data.shareLockstates = []) :
    stateDelLocked s other = some (s.forget st, delAccesses .share) := by
  unfold stateDelLocked
  rw [hget]
  dsimp only
  rw [hdata]
  simp [hempty]

/-- States that are not opens are deleted without looking at them as what they are not, and
the open states that stay list none of them any more. -/
theorem deleteAll_spec (others : List StateidOther)
    (hnot : ∀ other ∈ others, ∀ st, s.table.get other = some st → st.type ≠ .share) :
    ∃ s' acc, deleteAll s others = some (s', acc) ∧ OwnMember acc ∧
      ∀ i, i ∉ others → ∀ st data, s.table.get i = some st → st.stateData = .share data →
        ∃ st' data', s'.table.get i = some st' ∧ st'.stateData = .share data' ∧
          ∀ j ∈ data'.shareLockstates, j ∈ data.shareLockstates ∧ j ∉ others := by
  induction others generalizing s with
  | nil =>
    refine ⟨s, [], rfl, ownMember_nil, ?_⟩
    intro i _ st data hget hdata
    exact ⟨st, data, hget, hdata, fun j hj => ⟨hj, by simp⟩⟩
  | cons other rest ih =>
    cases hget : s.table.get other with
    | none =>
      obtain ⟨s', acc, hrest, hacc, hkept⟩ :=
        ih fun j hj => hnot j (mem_cons_of_mem other hj)
      refine ⟨s', [] ++ acc, by simp [deleteAll, stateDelLocked, hget, hrest], hacc, ?_⟩
      intro i hi st data hst hdata
      obtain ⟨st', data', hst', hdata', hlisted⟩ :=
        hkept i (fun h => hi (mem_cons_of_mem other h)) st data hst hdata
      refine ⟨st', data', hst', hdata', fun j hj => ?_⟩
      obtain ⟨hjold, hjrest⟩ := hlisted j hj
      refine ⟨hjold, ?_⟩
      -- a listed lock state is in the table, so it is not the missing one
      obtain ⟨lk, hlk, _⟩ :=
        s.table.wf.lockstates st (getState_mem hst).1 data hdata j hjold
      intro hmem
      rcases mem_cons.1 hmem with rfl | hmem
      · exact absurd (hget.symm.trans hlk) (by simp)
      · exact hjrest hmem
    | some lk =>
      have htype := hnot other mem_cons_self lk hget
      have hother : lk.stateidOther = other := (getState_mem hget).2
      have hdel := stateDelLocked_of_not_share hget htype
      have hnot' : ∀ j ∈ rest, ∀ st, (s.forget lk).table.get j = some st → st.type ≠ .share := by
        intro j hj st hst
        by_cases hjo : j = lk.stateidOther
        · rw [hjo] at hst
          exact absurd (hst.symm.trans (getState_removeState_self _ _)) (by simp)
        · have hst := (getState_removeState_of_ne hjo s.table.states).symm.trans hst
          obtain ⟨st0, hst0, rfl⟩ := map_eq_some_iff.1 hst
          simpa using hnot j (mem_cons_of_mem other hj) st0 hst0
      obtain ⟨s', acc, hrest, hacc, hkept⟩ := ih hnot'
      refine ⟨s', delAccesses lk.type ++ acc, by simp [deleteAll, hdel, hrest],
        ownMember_append.2 ⟨by simp, hacc⟩, ?_⟩
      intro i hi st data hst hdata
      have hne : i ≠ lk.stateidOther := fun h => hi (by simp [h, hother])
      have hst1 : (s.forget lk).table.get i = some (st.unlink lk.stateidOther) := by
        refine (getState_removeState_of_ne hne s.table.states).trans ?_
        rw [show getState s.table.states i = some st from hst]
        rfl
      obtain ⟨st', data', hst', hdata', hlisted⟩ :=
        hkept i (fun h => hi (mem_cons_of_mem other h)) _ _ hst1
          (by simp only [unlink, StateData.unlink, hdata]; rfl)
      refine ⟨st', data', hst', hdata', fun j hj => ?_⟩
      obtain ⟨hjold, hjrest⟩ := hlisted j hj
      obtain ⟨hjold, hjne⟩ := mem_filter.1 hjold
      refine ⟨hjold, fun hmem => ?_⟩
      rcases mem_cons.1 hmem with rfl | hmem
      · simp [hother] at hjne
      · exact hjrest hmem

theorem cleanupLayouts_spec :
    ∃ s' acc, cleanupLayouts env data s = some (s', acc) ∧ OwnMember acc := by
  unfold cleanupLayouts
  split
  · exact ⟨s, [], rfl, ownMember_nil⟩
  · dsimp only
    have hlayout : ∀ st ∈ s.table.states.filter (ofClient env data .layout),
        st ∈ s.table.states ∧ st.type = .layout := by
      intro st hst
      obtain ⟨hmem, hclient⟩ := mem_filter.1 hst
      simp only [ofClient, Bool.and_eq_true, decide_eq_true_eq] at hclient
      exact ⟨hmem, hclient.1.2⟩
    generalize s.table.states.filter (ofClient env data .layout) = layouts at hlayout
    obtain ⟨s', acc, hdel, hacc, _⟩ := deleteAll_spec (s := s)
      ((layouts.filter fun st =>
        st.stateData = .layout true && env.layoutReturned st.stateidOther).map
          stateidOther) (by
        intro other hother st hget
        obtain ⟨st0, hst0, rfl⟩ := mem_map.1 hother
        obtain ⟨hmem, htype⟩ := hlayout st0 (mem_filter.1 hst0).1
        obtain rfl := some.inj ((s.table.wf.getState_eq_some hmem).symm.trans hget)
        simp [htype])
    refine ⟨s', _, by rw [hdel]; rfl, ownMember_append.2 ⟨?_, hacc⟩⟩
    intro a ha
    obtain ⟨st, hst, rfl⟩ := mem_map.1 ha
    exact (hlayout st hst).2.symm

theorem releaseStates_spec {st' : NfsState OwnerId Obj} {share : StateShare}
    (hget : s.table.get st.stateidOther = some st')
    (hst : st.stateData = .share share) (hst' : st'.stateData = .share share) :
    ∃ s' acc, releaseStates env data s st = some (s', acc) ∧ OwnMember acc := by
  have hwf := s.table.wf.lockstates st' (getState_mem hget).1 share hst'
  have hnot : ∀ other ∈ share.shareLockstates, ∀ lk, s.table.get other = some lk →
      lk.type ≠ .share := by
    intro other hother lk hlk
    obtain ⟨lk', hlk', htype⟩ := hwf other hother
    obtain rfl := some.inj (hlk'.symm.trans hlk)
    simp [htype]
  have hself : st.stateidOther ∉ share.shareLockstates := fun hmem =>
    hnot _ hmem st' hget ((type_eq_share_iff st').2 ⟨share, hst'⟩)
  obtain ⟨s1, acc1, hdel, hacc1, hkept⟩ := deleteAll_spec share.shareLockstates hnot
  obtain ⟨st1, share1, hget1, hst1, hlisted⟩ := hkept _ hself st' share hget hst'
  have hempty : share1.shareLockstates = [] :=
    eq_nil_iff_forall_not_mem.2 fun j hj => (hlisted j hj).2 (hlisted j hj).1
  have hdel1 := stateDelLocked_of_closed hget1 hst1 hempty
  have hlast : ∃ s3 acc3, (if data.minorversion = 0 then some (s1.forget st1, [])
      else cleanupLayouts env data (s1.forget st1)) = some (s3, acc3) ∧ OwnMember acc3 := by
    split
    · exact ⟨_, [], rfl, ownMember_nil⟩
    · exact cleanupLayouts_spec
  obtain ⟨s3, acc3, hlast, hacc3⟩ := hlast
  refine ⟨s3, acc1 ++ delAccesses .share ++ acc3, ?_, ?_⟩
  · simp [releaseStates, OpEnv.share, hst, hdel, hdel1, hlast]
  · simp [ownMember_append, hacc1, hacc3]

theorem seqidAnswer_eq_none_iff :
    seqidAnswer data s st.stateOwner op.seqid op.argop = none ↔
      data.minorversion ≠ 0 ∨ op.Follows (s.owners st.stateOwner) := by
  unfold seqidAnswer
  split
  case isTrue h => simp [checkNfs4Seqid_eq_none_iff, h, Follows]
  case isFalse h => simp [h]

theorem seqidAnswer_badStateid_iff {resp : Response Stateid4}
    (h : seqidAnswer data s st.stateOwner op.seqid op.argop = some resp) :
    resp.status = .badStateid ↔ op.Repeats data (s.owners st.stateOwner) ∧
      (s.owners st.stateOwner).soResp.status = .badStateid := by
  unfold seqidAnswer at h
  split at h
  · have hanswer := checkNfs4Seqid_eq_some h
    split at hanswer
    case isTrue hrepeats => simp [hanswer, Repeats, hrepeats]
    case isFalse hrepeats => simp [hanswer, Repeats, hrepeats]
  · cases h

end Deleting

variable [DecidableEq OwnerId]

theorem locksHeld_spec (env : OpEnv OwnerId) (others : List StateidOther)
    (hlocks : ∀ other ∈ others, ∃ lk, s.table.get other = some lk ∧ lk.type = .lock) :
    ∃ held acc, locksHeld env s others = some (held, acc) ∧ OwnMember acc := by
  induction others with
  | nil => exact ⟨false, [], rfl, ownMember_nil⟩
  | cons other rest ih =>
    obtain ⟨lk, hget, htype⟩ := hlocks other mem_cons_self
    unfold locksHeld
    rw [hget]
    dsimp only
    rw [htype]
    split
    · exact ⟨true, _, rfl, by simp [OwnMember]⟩
    · obtain ⟨held, acc, hrest, hacc⟩ := ih fun j hj => hlocks j (mem_cons_of_mem other hj)
      refine ⟨held, ⟨.lock, .lock⟩ :: acc, by rw [hrest]; rfl, ?_⟩
      exact ownMember_cons.2 ⟨rfl, hacc⟩

variable [DecidableEq Obj]

def StateOp.process (env : OpEnv OwnerId) (data : CompoundFile Obj) (s : StateServer OwnerId Obj)
    (st : NfsState OwnerId Obj) : StateOp → Option (OpResult OwnerId Obj)
  | .close args => closeState env data args s st
  | .openDowngrade args => some (downgradeState env data args s st)
  | .openConfirm args => some (confirmState data args s st)
  | .locku args => args.locktype.map fun locktype =>
    let r := unlockState env data args locktype s st
    ⟨r.1, r.2.save data st.stateOwner args.seqid .opLocku r.1, []⟩

def StateOp.missing : StateOp → Response Stateid4
  | .close args =>
    let seqid := args.openStateid.seqid + 1
    ⟨.ok, some ⟨if seqid = 0 then 1 else seqid, args.openStateid.other⟩⟩
  | _ => ⟨.stale, none⟩

theorem run_eq (op : StateOp) (env : OpEnv OwnerId) (data : CompoundFile Obj)
    (s : StateServer OwnerId Obj) :
    op.run env data s =
      match op.early data with
      | some status => some ⟨⟨status, none⟩, s, []⟩
      | none =>
        match nfs4CheckStateid env.clients data (op.flags data) op.stateid op.seqid s.table
            s.owners with
        | .failure status => some ⟨⟨status, none⟩, s, []⟩
        | .noState => some ⟨op.missing, s, []⟩
        | .found _ st =>
          match seqidAnswer data s st.stateOwner op.seqid op.argop with
          | some resp => some ⟨resp, s, []⟩
          | none => op.process env data s st := by
  cases op with
  | close args => rfl
  | openDowngrade args => rfl
  | openConfirm args =>
    simp only [run, nfs4OpOpenConfirm, early]
    split
    · rfl
    · rfl
  | locku args =>
    obtain ⟨locktype, lockStateid, seqid, offset, length⟩ := args
    cases locktype with
    | none => rfl
    | some locktype => rfl

theorem run_of_names (h : Names data (op.flags data) op.stateid s.table st)
    (hearly : op.early data = none) :
    op.run env data s =
      if leaseReserved env.clients data (env.clients.soClientid st.stateOwner) then
        match seqidAnswer data s st.stateOwner op.seqid op.argop with
        | some resp => some ⟨resp, s, []⟩
        | none => op.process env data s st
      else some ⟨⟨.expired, none⟩, s, []⟩ := by
  have hcheck := nfs4CheckStateid_of_names env.clients h op.seqid s.owners
  rw [run_eq, hearly]
  dsimp only
  split at hcheck
  case isTrue hlease =>
    obtain ⟨replay, hcheck⟩ := hcheck
    rw [if_pos hlease, hcheck]
  case isFalse hlease => rw [if_neg hlease, hcheck]

theorem closeState_ownMember (hget : s.table.get st.stateidOther = some st)
    (htype : st.type = .share) (args : CloseArgs) :
    ∃ r, closeState env data args s st = some r ∧ OwnMember r.accessed := by
  obtain ⟨share, hshare⟩ := (type_eq_share_iff st).1 htype
  have hlist : (env.share st.stateData).shareLockstates = share.shareLockstates := by
    simp [OpEnv.share, hshare]
  obtain ⟨held, acc, hheld, hacc⟩ := locksHeld_spec env share.shareLockstates
    (s.table.wf.lockstates st (getState_mem hget).1 share hshare)
  unfold closeState
  rw [hlist, hheld]
  cases held with
  | true => exact ⟨_, rfl, ownMember_cons.2 ⟨htype.symm, hacc⟩⟩
  | false =>
    dsimp only
    have hrelease : ∃ s' acc', releaseStates env data
        (if data.minorversion = 0 then { s with table := s.table.update st.stateidOther } else s)
        st = some (s', acc') ∧ OwnMember acc' := by
      split
      · have hget' : (s.table.update st.stateidOther).get st.stateidOther =
            some st.updateStateid := by
          refine (getState_updateState _ _ s.table.states).trans ?_
          rw [show getState s.table.states _ = some st from hget]
          simp
        exact releaseStates_spec hget' hshare hshare
      · exact releaseStates_spec hget hshare hshare
    obtain ⟨s', acc', hrelease, hacc'⟩ := hrelease
    rw [hrelease]
    exact ⟨_, rfl, ownMember_cons.2 ⟨htype.symm, ownMember_append.2 ⟨hacc, hacc'⟩⟩⟩

theorem process_ownMember (env : OpEnv OwnerId) (hget : s.table.get st.stateidOther = some st)
    (htype : st.type = op.kind) (hearly : op.early data = none) :
    ∃ r, op.process env data s st = some r ∧ OwnMember r.accessed := by
  cases op with
  | close args => exact closeState_ownMember hget htype args
  | openDowngrade args =>
    refine ⟨_, rfl, ?_⟩
    have haccessed : (downgradeState env data args s st).accessed = [⟨st.type, .share⟩] := by
      unfold downgradeState
      dsimp only
      split_ifs <;> rfl
    rw [haccessed]
    exact ownMember_cons.2 ⟨htype.symm, ownMember_nil⟩
  | openConfirm args =>
    refine ⟨_, rfl, ?_⟩
    unfold confirmState
    dsimp only
    split_ifs <;> exact ownMember_nil
  | locku args =>
    cases hlock : args.locktype with
    | none => simp [early, hlock] at hearly
    | some locktype => exact ⟨_, by simp only [process, hlock]; rfl, ownMember_nil⟩

theorem unlockState_ne_badStateid (args : LockuArgs) (locktype : LockType) :
    (unlockState env data args locktype s st).1.status ≠ .badStateid := by
  unfold unlockState
  split
  · simp
  · dsimp only
    split
    · have henv : ∀ op entry, env.unlockEnv.lockOp2 op entry ≠ .stateError :=
        fun op entry => stateErrorConvert_ne_stateError (env.lockOp2 op entry)
      intro hbad
      rw [nfs4ErrnoState_eq_badStateid_iff, stateUnlock] at hbad
      split at hbad
      · cases hbad
      · exact doLockOp_ne_stateError henv _ _ hbad
    · simp

theorem process_other_kind (htype : st.type ≠ op.kind) :
    KindRespected s op st (op.process env data s st) ↔ op.AlreadyConfirmed s st := by
  cases op with
  | close args =>
    refine iff_of_false ?_ id
    rintro ⟨r, hr, _, hown⟩
    refine htype (hown ⟨st.type, .share⟩ ?_).symm
    change closeState env data args s st = some r at hr
    unfold closeState at hr
    split at hr
    · cases hr
    · obtain rfl := some.inj hr
      exact mem_cons_self
    · obtain ⟨x, _, rfl⟩ := map_eq_some_iff.1 hr
      exact mem_cons_self
  | openDowngrade args =>
    refine iff_of_false ?_ id
    rintro ⟨r, hr, _, hown⟩
    obtain rfl := some.inj hr
    refine htype (hown ⟨st.type, .share⟩ ?_).symm
    unfold downgradeState
    dsimp only
    split_ifs <;> exact mem_cons_self
  | openConfirm args =>
    cases hconfirmed : (s.owners st.stateOwner).soConfirmed with
    | true =>
      refine iff_of_true ⟨_, rfl, ?_⟩ hconfirmed
      simp [confirmState, hconfirmed]
    | false =>
      refine iff_of_false ?_ (by simp [AlreadyConfirmed, hconfirmed])
      rintro ⟨r, hr, hrefused, _⟩
      obtain rfl := some.inj hr
      have hstatus := (hrefused htype).1
      simp [confirmState, hconfirmed] at hstatus
  | locku args =>
    refine iff_of_false ?_ id
    rintro ⟨r, hr, hrefused, _⟩
    obtain ⟨locktype, _, rfl⟩ := map_eq_some_iff.1 hr
    exact unlockState_ne_badStateid args locktype (hrefused htype).1

/-- A state of the wrong type is refused all the same: an NFSv4.0 request under a valid lease
that repeats one answered BAD_STATEID, or an OPEN_CONFIRM of a confirmed owner. -/
def RefusedAnyway (env : OpEnv OwnerId) (data : CompoundFile Obj) (s : StateServer OwnerId Obj)
    (st : NfsState OwnerId Obj) (op : StateOp) : Prop :=
  let owner := s.owners st.stateOwner
  op.early data = none ∧ data.minorversion = 0 ∧
    leaseReserved env.clients data (env.clients.soClientid st.stateOwner) = true ∧
    (op.Repeats data owner ∧ owner.soResp.status = .badStateid ∨
      op.Follows owner ∧ op.AlreadyConfirmed s st)

/-- For every request that names a state of the current file with a current seqid, exactly
when the type of the state is respected. -/
theorem state_kind_respected_iff {env : OpEnv OwnerId} {data : CompoundFile Obj}
    {s : StateServer OwnerId Obj} {st : NfsState OwnerId Obj} {op : StateOp}
    (h : Names data (op.flags data) op.stateid s.table st) :
    KindRespected s op st (op.run env data s) ↔
      st.type = op.kind ∨ RefusedAnyway env data s st op := by
  -- an answer that touches nothing is judged by its status alone
  have hanswer : ∀ resp : Response Stateid4, KindRespected s op st (some ⟨resp, s, []⟩) ↔
      st.type = op.kind ∨ resp.status = .badStateid := by
    intro resp
    simp [KindRespected, or_iff_not_imp_left]
  cases hearly : op.early data with
  | some status =>
    rw [run_eq, hearly]
    simp [hanswer, RefusedAnyway, hearly, early_ne_badStateid hearly]
  | none =>
    rw [run_of_names h hearly]
    split
    case isFalse hlease => simp [hanswer, RefusedAnyway, hlease]
    case isTrue hlease =>
      cases hseqid : seqidAnswer data s st.stateOwner op.seqid op.argop with
      | some resp =>
        have hnone : ¬ seqidAnswer data s st.stateOwner op.seqid op.argop = none := by
          simp [hseqid]
        rw [seqidAnswer_eq_none_iff, not_or, not_not] at hnone
        simp [hanswer, RefusedAnyway, hearly, hlease, hnone, seqidAnswer_badStateid_iff hseqid]
      | none =>
        by_cases htype : st.type = op.kind
        · obtain ⟨r, hr, hown⟩ := process_ownMember env h.get htype hearly
          simp [KindRespected, htype, hr, hown]
        · dsimp only
          rw [process_other_kind htype]
          refine ⟨fun hconf => .inr ⟨hearly, alreadyConfirmed_minorversion hearly hconf,
            hlease, .inr ⟨?_, hconf⟩⟩, ?_⟩
          · rcases seqidAnswer_eq_none_iff.1 hseqid with hminor | hfollows
            · exact absurd (alreadyConfirmed_minorversion hearly hconf) hminor
            · exact hfollows
          · rintro (hkind | ⟨_, hminor, _, ⟨hrepeats, _⟩ | ⟨_, hconf⟩⟩)
            · exact absurd hkind htype
            · rcases seqidAnswer_eq_none_iff.1 hseqid with hminor' | hfollows
              · exact absurd hminor hminor'
              · obtain ⟨hlast, hsame, _⟩ := hrepeats
                rcases hfollows with hnone | hnext
                · simp [hnone] at hlast
                · exact absurd (hsame.symm.trans hnext) (by bv_omega)
            · exact hconf

def openedFile : StateServer Nat Unit where
  table := {
    epochLow := 0
    states := [⟨⟨1, 1⟩, 1, 0, (), .share ⟨[], 3, 0, 8, 1⟩⟩]
    wf := ⟨by decide, by decide, by simp⟩ }
  owners _ := newNfs4Owner true
  locks _ := LockState.empty
  descriptors _ := some ⟨true, true, false, false⟩
  writeDelegated _ := false

def openState : NfsState Nat Unit := ⟨⟨1, 1⟩, 1, 0, (), .share ⟨[], 3, 0, 8, 1⟩⟩

def willingEnv : OpEnv Nat where
  clients := ⟨fun client => .ok client, fun _ => 1, fun _ => true⟩
  shareBytes _ := ⟨[], 0, 0, 0, 0⟩
  locklistBytes _ := false
  layoutReturned _ := true
  reopen2 := .noError
  lockEnv := grantingEnv
  lockOp2 _ _ := .noError
  maxfilesize := 2 ^ 63

def compoundV40 : CompoundFile Unit := ⟨(), 0, none, none, 1⟩

def closeRequest : StateOp := .close ⟨⟨1, ⟨1, 1⟩⟩, 1⟩

def lockuOfOpen : StateOp := .locku ⟨some .lockW, ⟨1, ⟨1, 1⟩⟩, 1, 0, 10⟩

/-- CLOSE of an open state respects its type. -/
theorem state_kind_respected_close :
    KindRespected openedFile closeRequest openState
      (closeRequest.run willingEnv compoundV40 openedFile) :=
  (state_kind_respected_iff ⟨rfl, rfl, 1, by decide, .inl rfl⟩).2 (.inl rfl)

/-- LOCKU that names the stateid of an open is carried out, and the open stateid moves on. -/
theorem locku_of_open_state_carried_out :
    Names compoundV40 (lockuOfOpen.flags compoundV40) lockuOfOpen.stateid openedFile.table
        openState ∧
      openState.type ≠ lockuOfOpen.kind ∧
      ∃ r, lockuOfOpen.run willingEnv compoundV40 openedFile = some r ∧ r.resp.status = .ok ∧
        (r.server.table.get ⟨1, 1⟩).map stateSeqid = some 2 ∧
        (r.server.owners 0).soArgop = .opLocku := by
  have hrun : (lockuOfOpen.run willingEnv compoundV40 openedFile).map (fun r =>
      (r.resp.status, (r.server.table.get ⟨1, 1⟩).map stateSeqid,
        (r.server.owners 0).soArgop)) = some (.ok, some 2, .opLocku) := by
    decide +kernel
  obtain ⟨r, hr, hseen⟩ := map_eq_some_iff.1 hrun
  simp only [Prod.mk.injEq] at hseen
  exact ⟨⟨rfl, rfl, 1, by decide, .inl rfl⟩, by decide, r, hr, hseen⟩

end EdgeComputing.Nfs4.StateOps
