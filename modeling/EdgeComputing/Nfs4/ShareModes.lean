import EdgeComputing.Library.Machine
import EdgeComputing.Nfs4.OpenTrace

/-!
The share modes that an open state records, against the flags its descriptor was last opened with.
An exclusive create of an open file adds modes without a reopen, and OPEN_DOWNGRADE reopens the
descriptor but leaves the recorded modes.
-/

namespace EdgeComputing.Nfs4

open Option Library Fsal Sal StateOps

def twoBits (low high : Bool) : BitVec 32 := (if low then 1 else 0) ||| if high then 2 else 0

def StateOps.OpenFlags.access (f : StateOps.OpenFlags) : BitVec 32 := twoBits f.read f.write

def StateOps.OpenFlags.deny (f : StateOps.OpenFlags) : BitVec 32 := twoBits f.denyRead f.denyWriteMand

theorem twoBits_or (p q r s : Bool) : twoBits (p || r) (q || s) = twoBits p q ||| twoBits r s := by
  cases p <;> cases q <;> cases r <;> cases s <;> rfl

theorem union_access (f g : StateOps.OpenFlags) : (f.union g).access = f.access ||| g.access :=
  twoBits_or f.read f.write g.read g.write

theorem union_deny (f g : StateOps.OpenFlags) : (f.union g).deny = f.deny ||| g.deny :=
  twoBits_or f.denyRead f.denyWriteMand g.denyRead g.denyWriteMand

theorem twoBits_and (x : BitVec 32) : twoBits (x &&& 1 ≠ 0) (x &&& 2 ≠ 0) = x &&& 3 := by
  have hlow : x &&& 1 = if x.getLsbD 0 then 1 else 0 := BitVec.and_twoPow x 0
  have hhigh : x &&& 2 = if x.getLsbD 1 then 2 else 0 := BitVec.and_twoPow x 1
  have hboth : x &&& 3 = (x &&& 1) ||| (x &&& 2) := by
    rw [← BitVec.and_or_distrib_left]
    rfl
  rw [hboth, hlow, hhigh]
  cases x.getLsbD 0 <;> cases x.getLsbD 1 <;> decide

theorem modeFlags_access (shareAccess shareDeny : BitVec 32) :
    (modeFlags shareAccess shareDeny).access = shareAccess &&& 3 :=
  twoBits_and shareAccess

theorem modeFlags_deny (shareAccess shareDeny : BitVec 32) :
    (modeFlags shareAccess shareDeny).deny = shareDeny &&& 3 :=
  twoBits_and shareDeny

theorem twoBits_and_three (p q : Bool) : twoBits p q &&& 3 = twoBits p q := by
  cases p <;> cases q <;> rfl

theorem and_three_of_and_not {x : BitVec 32} (h : x &&& ~~~3 = 0) : x &&& 3 = x := by
  have hall : x &&& (3 ||| ~~~3) = x := by
    rw [BitVec.or_not_self]
    exact BitVec.and_allOnes
  rw [BitVec.and_or_distrib_left, h] at hall
  exact BitVec.or_zero.symm.trans hall

def openArgsValid (minorversion : Nat) (arg : Open4Args) : Bool :=
  (arg.openhow = none || arg.claim = .null)
    && !(arg.shareAccess &&& 3 = 0
      || (minorversion = 0 && arg.shareAccess &&& ~~~3 ≠ 0)
      || arg.shareAccess &&& (~~~0xFF00 &&& ~~~3) ≠ 0
      || arg.shareDeny &&& ~~~3 ≠ 0)

def openDowngrade (reopen2 : FsalErr) (args : OpenDowngradeArgs) (st : OpenState) :
    Nfsstat4 × OpenState :=
  if st.share.shareAccess &&& args.shareAccess ≠ args.shareAccess then (.inval, st)
  else if st.share.shareDeny &&& args.shareDeny ≠ args.shareDeny then (.inval, st)
  else if st.share.shareAccessPrev &&& bitOf args.shareAccess = 0
      ∨ st.share.shareDenyPrev &&& bitOf args.shareDeny = 0 then (.inval, st)
  else if stateErrorConvert reopen2 ≠ .success then (.serverfault, st)
  else (.ok, { st with descriptor := downgradeFlags args })

variable {args : OpenDowngradeArgs}

theorem nfs4DoOpenDowngrade_eq {OwnerId Obj : Type*} [DecidableEq OwnerId] [DecidableEq Obj]
    {env : OpEnv OwnerId} {s : StateServer OwnerId Obj} {st : NfsState OwnerId Obj}
    {share : StateShare} {flags : StateOps.OpenFlags} (hdata : st.stateData = .share share)
    (hflags : s.descriptors st.stateidOther = some flags) :
    (nfs4DoOpenDowngrade env args s st).1 = (openDowngrade env.reopen2 args ⟨share, flags⟩).1 ∧
      (nfs4DoOpenDowngrade env args s st).2.table = s.table ∧
      (nfs4DoOpenDowngrade env args s st).2.descriptors st.stateidOther =
        some (openDowngrade env.reopen2 args ⟨share, flags⟩).2.descriptor := by
  simp only [nfs4DoOpenDowngrade, openDowngrade, OpEnv.share, hdata]
  split_ifs
  all_goals simp [hflags]

inductive ModeRequest
  | opOpen (minorversion : Nat) (env : Open4Env) (arg : Open4Args)
  | opOpenDowngrade (reopen2 : FsalErr) (args : OpenDowngradeArgs)

/-- The owner has no state on the file at first. A request that fails is not a step. -/
def modeMachine : Machine (Option OpenState) ModeRequest where
  init σ := σ = none
  step σ
    | .opOpen minorversion env arg =>
      if openArgsValid minorversion arg then
        (open4Ex env arg σ).bind fun v => if v.status = .ok then some v.openState else none
      else none
    | .opOpenDowngrade reopen2 args =>
      σ.bind fun st =>
        let r := openDowngrade reopen2 args st
        if r.1 = .ok then some (some r.2) else none

theorem out_status {v w : Open4} (h : v.out = some w) : w.status = v.status := by
  unfold Open4.out at h
  split_ifs at h
  all_goals
    cases h
    rfl

variable {σ τ : Option OpenState} {minorversion : Nat} {reopen2 : FsalErr} {arg : Open4Args}
  {env : Open4Env} {st : OpenState}

theorem open_step (h : modeMachine.step σ (.opOpen minorversion env arg) = some τ) :
    openArgsValid minorversion arg = true ∧ τ = some (afterOpen arg σ) := by
  simp only [modeMachine] at h
  split_ifs at h with hvalid
  obtain ⟨v, hv, hstep⟩ := bind_eq_some_iff.1 h
  split_ifs at hstep with hstatus
  cases hstep
  refine ⟨hvalid, ?_⟩
  have houtcome := open4Ex_outcome env arg σ
  rw [hv] at houtcome
  generalize hresult : some v = result at houtcome
  cases houtcome with
  | undone hc hheld hne => exact absurd ((out_status hresult.symm).symm.trans hstatus) hne
  | opened hc hfh hok hafter =>
    cases hresult
    exact hafter
  | nullPointer hc hfh => cases hresult
  | droppedTwice hc hfh hne hobj =>
    cases hresult
    exact absurd hstatus hne

theorem openDowngrade_step (h : modeMachine.step σ (.opOpenDowngrade reopen2 args) = some τ) :
    ∃ st, σ = some st ∧ τ = some { st with descriptor := downgradeFlags args } := by
  obtain ⟨st, rfl, hstep⟩ := bind_eq_some_iff.1 h
  dsimp only at hstep
  split_ifs at hstep with hok
  cases hstep
  refine ⟨st, rfl, congrArg some ?_⟩
  unfold openDowngrade at hok ⊢
  split_ifs at hok ⊢
  rfl

def recordedAccess (σ : Option OpenState) : BitVec 32 := σ.elim 0 (·.share.shareAccess)

def recordedDeny (σ : Option OpenState) : BitVec 32 := σ.elim 0 (·.share.shareDeny)

def accessInForce (σ : Option OpenState) : BitVec 32 := σ.elim 0 (·.descriptor.access)

def denyInForce (σ : Option OpenState) : BitVec 32 := σ.elim 0 (·.descriptor.deny)

structure ModesInForce (σ : Option OpenState) : Prop where
  access : recordedAccess σ = accessInForce σ
  deny : recordedDeny σ = denyInForce σ

/-- What a request should make of the modes: OPEN adds its own, OPEN_DOWNGRADE leaves exactly its
own and adds none to those in force. -/
def ModesSet (σ : Option OpenState) : ModeRequest → Option OpenState → Prop
  | .opOpen _ _ arg, τ =>
    recordedAccess τ = recordedAccess σ ||| (arg.shareAccess &&& 3) ∧
      recordedDeny τ = recordedDeny σ ||| arg.shareDeny
  | .opOpenDowngrade _ args, τ =>
    recordedAccess τ = args.shareAccess ∧ recordedDeny τ = args.shareDeny ∧
      accessInForce σ &&& accessInForce τ = accessInForce τ ∧
      denyInForce σ &&& denyInForce τ = denyInForce τ

/-- An exclusive create of a file that is open asks for modes that are recorded already, and an
OPEN_DOWNGRADE for all of them. -/
def AsksNoChange (σ : Option OpenState) : ModeRequest → Prop
  | .opOpen _ _ arg =>
    σ ≠ none → (createmodeOf arg).isExclusive = true →
      recordedAccess σ ||| (arg.shareAccess &&& 3) = recordedAccess σ ∧
        recordedDeny σ ||| arg.shareDeny = recordedDeny σ
  | .opOpenDowngrade _ args =>
    args.shareAccess = recordedAccess σ ∧ args.shareDeny = recordedDeny σ

instance (σ : Option OpenState) (r : ModeRequest) : Decidable (AsksNoChange σ r) := by
  cases r <;> unfold AsksNoChange <;> infer_instance

theorem deny_and_three (h : openArgsValid minorversion arg = true) :
    arg.shareDeny &&& 3 = arg.shareDeny := by
  apply and_three_of_and_not
  simp only [openArgsValid, Bool.and_eq_true, Bool.not_eq_true', Bool.or_eq_false_iff,
    decide_eq_false_iff_not, not_not] at h
  exact h.2.2

theorem afterOpen_sets (σ : Option OpenState) (minorversion : Nat) (env : Open4Env)
    (arg : Open4Args) : ModesSet σ (.opOpen minorversion env arg) (some (afterOpen arg σ)) := by
  cases σ with
  | none => exact ⟨(BitVec.zero_or).symm, (BitVec.zero_or).symm⟩
  | some st =>
    unfold afterOpen reopened
    split_ifs
    all_goals exact ⟨rfl, rfl⟩

theorem afterOpen_inForce_iff (hσ : ModesInForce σ)
    (hvalid : openArgsValid minorversion arg = true) :
    AsksNoChange σ (.opOpen minorversion env arg) ↔ ModesInForce (some (afterOpen arg σ)) := by
  have hdeny := deny_and_three hvalid
  cases σ with
  | none =>
    refine iff_of_true (fun h => absurd rfl h) ⟨?_, ?_⟩
    · exact (modeFlags_access arg.shareAccess arg.shareDeny).symm
    · exact hdeny.symm.trans (modeFlags_deny arg.shareAccess arg.shareDeny).symm
  | some st =>
    have haccess : st.share.shareAccess = st.descriptor.access := hσ.access
    have hdenied : st.share.shareDeny = st.descriptor.deny := hσ.deny
    by_cases hexcl : (createmodeOf arg).isExclusive = true
    · have hafter : afterOpen arg (some st) = withModes arg st := by
        rw [afterOpen, reopened, if_pos hexcl]
      rw [hafter]
      constructor
      · intro hguard
        obtain ⟨hsame, hsame'⟩ := hguard (by simp) hexcl
        exact ⟨hsame.trans haccess, hsame'.trans hdenied⟩
      · intro hτ _ _
        exact ⟨hτ.access.trans haccess.symm, hτ.deny.trans hdenied.symm⟩
    · refine iff_of_true (fun _ h => absurd h hexcl) ?_
      have hafter : (afterOpen arg (some st)).descriptor =
          (modeFlags arg.shareAccess arg.shareDeny).union st.descriptor := by
        simp [afterOpen, reopened, hexcl, withModes]
      obtain ⟨hset, hset'⟩ := afterOpen_sets (some st) minorversion env arg
      refine ⟨hset.trans ?_, hset'.trans ?_⟩
      · show st.share.shareAccess ||| _ = (afterOpen arg (some st)).descriptor.access
        rw [hafter, union_access, modeFlags_access, haccess, BitVec.or_comm]
      · show st.share.shareDeny ||| _ = (afterOpen arg (some st)).descriptor.deny
        rw [hafter, union_deny, modeFlags_deny, hdeny, hdenied, BitVec.or_comm]

theorem downgradeFlags_eq (args : OpenDowngradeArgs) :
    downgradeFlags args = modeFlags args.shareAccess args.shareDeny :=
  rfl

theorem downgrade_inForce_iff (hσ : ModesInForce (some st)) :
    AsksNoChange (some st) (.opOpenDowngrade reopen2 args) ↔
      ModesInForce (some { st with descriptor := downgradeFlags args }) ∧
        ModesSet (some st) (.opOpenDowngrade reopen2 args)
          (some { st with descriptor := downgradeFlags args }) := by
  have haccess : st.share.shareAccess = st.descriptor.access := hσ.access
  have hdeny : st.share.shareDeny = st.descriptor.deny := hσ.deny
  constructor
  · rintro ⟨hsame, hsame'⟩
    have hflags : (downgradeFlags args).access = st.descriptor.access := by
      rw [downgradeFlags_eq, modeFlags_access, hsame]
      show st.share.shareAccess &&& 3 = _
      rw [haccess]
      exact twoBits_and_three st.descriptor.read st.descriptor.write
    have hflags' : (downgradeFlags args).deny = st.descriptor.deny := by
      rw [downgradeFlags_eq, modeFlags_deny, hsame']
      show st.share.shareDeny &&& 3 = _
      rw [hdeny]
      exact twoBits_and_three st.descriptor.denyRead st.descriptor.denyWriteMand
    refine ⟨⟨haccess.trans hflags.symm, hdeny.trans hflags'.symm⟩, hsame.symm, hsame'.symm, ?_, ?_⟩
    · show st.descriptor.access &&& (downgradeFlags args).access = (downgradeFlags args).access
      rw [hflags, BitVec.and_self]
    · show st.descriptor.deny &&& (downgradeFlags args).deny = (downgradeFlags args).deny
      rw [hflags', BitVec.and_self]
  · rintro ⟨-, hset, hset', -⟩
    exact ⟨hset.symm, hset'.symm⟩

theorem modeMachine_step {r : ModeRequest} (hσ : ModesInForce σ)
    (h : modeMachine.step σ r = some τ) :
    AsksNoChange σ r ↔ ModesInForce τ ∧ ModesSet σ r τ := by
  cases r with
  | opOpen minorversion env arg =>
    obtain ⟨hvalid, rfl⟩ := open_step h
    rw [afterOpen_inForce_iff hσ hvalid]
    exact ⟨fun hτ => ⟨hτ, afterOpen_sets σ minorversion env arg⟩, And.left⟩
  | opOpenDowngrade reopen2 args =>
    obtain ⟨st, rfl, rfl⟩ := openDowngrade_step h
    exact downgrade_inForce_iff hσ

/-- As long as no request asks for a change of the two kinds, the modes recorded are those in force
and every request sets them as it should; the first request that does breaks this. -/
theorem share_modes_in_force_iff (hσ : modeMachine.ReachableBy AsksNoChange σ) :
    ModesInForce σ ∧ ∀ r τ, modeMachine.step σ r = some τ →
      (AsksNoChange σ r ↔ ModesInForce τ ∧ ModesSet σ r τ) := by
  have hinv : ModesInForce σ := by
    refine Machine.ReachableBy.invariant ?_ ?_ hσ
    · rintro s rfl
      exact ⟨rfl, rfl⟩
    · intro s r t hs hguard hstep
      exact ((modeMachine_step hs hstep).1 hguard).1
  exact ⟨hinv, fun r τ hstep => modeMachine_step hinv hstep⟩

def openWorks : Open4Env := { noHandle with currentType := .directory, fhandle := true }

def openRead : ModeRequest := .opOpen 0 openWorks ⟨.null, none, 1, 0⟩

def openBoth : ModeRequest := .opOpen 0 openWorks ⟨.null, none, 3, 2⟩

def downgradeTo (shareAccess shareDeny : BitVec 32) : ModeRequest :=
  .opOpenDowngrade .noError ⟨⟨0, ⟨0, 0⟩⟩, 0, shareAccess, shareDeny⟩

/-- A state that reads is upgraded, and an exclusive create and a downgrade ask for nothing new. -/
theorem share_modes_in_force_upgraded :
    ∃ σ : Option OpenState, modeMachine.ReachableBy AsksNoChange σ ∧
      recordedAccess σ = 3 ∧ recordedDeny σ = 2 ∧ ModesInForce σ := by
  have hrun : (modeMachine.runFromBy AsksNoChange none [openRead, openBoth,
      .opOpen 0 openWorks ⟨.null, some .exclusive4, 1, 0⟩, downgradeTo 3 2]).map
        (fun σ => (recordedAccess σ, recordedDeny σ)) = some (3, 2) := by
    decide +kernel
  obtain ⟨σ, hreach, hmodes⟩ := Machine.exists_reachableBy hrun (.init rfl)
  obtain ⟨haccess, hdeny⟩ := Prod.mk.inj hmodes
  exact ⟨σ, hreach, haccess, hdeny, (share_modes_in_force_iff hreach).1⟩

/-- After a downgrade to reading, a second one is granted writing again. -/
theorem downgrade_adds_write :
    ∃ σ τ : Option OpenState, modeMachine.Reachable σ ∧
      modeMachine.step σ (downgradeTo 3 2) = some τ ∧
      recordedAccess σ = 3 ∧ accessInForce σ = 1 ∧ accessInForce τ = 3 := by
  have hrun : (modeMachine.runFrom none [openRead, openBoth, downgradeTo 1 0]).bind
      (fun σ => (modeMachine.step σ (downgradeTo 3 2)).map fun τ =>
        (recordedAccess σ, accessInForce σ, accessInForce τ)) = some (3, 1, 3) := by
    decide +kernel
  obtain ⟨σ, hσ, hnext⟩ := bind_eq_some_iff.1 hrun
  obtain ⟨τ, hstep, hmodes⟩ := map_eq_some_iff.1 hnext
  obtain ⟨hrecorded, hrest⟩ := Prod.mk.inj hmodes
  obtain ⟨hbefore, hafter⟩ := Prod.mk.inj hrest
  exact ⟨σ, τ, Machine.reachable_of_runFrom (.init rfl) _ hσ, hstep, hrecorded, hbefore, hafter⟩

end EdgeComputing.Nfs4
