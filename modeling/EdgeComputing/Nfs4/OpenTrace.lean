import EdgeComputing.Nfs4.OpenEx

/-!
A failed OPEN leaves no trace, unless the last step fails. Up to the construction of the file handle
the local variables agree with what has been done, and the exit undoes it. The failure of the handle
is handled on the spot.
-/

namespace EdgeComputing.Nfs4

open Option Fsal Sal StateOps Open4

/-- No null pointer is followed; and if the request fails, no new state is registered, the old one
is as it was, the state lock is free and all references are dropped. -/
def LeavesNoTrace (before : Option OpenState) : Option Open4 → Prop
  | none => False
  | some v => v.status ≠ .ok →
      v.registered = false ∧ v.existing = before ∧ v.stLock = false ∧
        v.objTaken = v.objDropped ∧ v.stateTaken = v.stateDropped

variable (env : Open4Env) (arg : Open4Args)

def knownFile : Option ObjectFileType :=
  if arg.claim = .null then if env.lookup = .noError then some env.lookupType else none
  else some env.currentType

def createmodeOf : FsalCreateMode :=
  if arg.claim = .null then (arg.openhow.map nfs4CreatemodeToFsal).getD .noCreate else .noCreate

def ClaimPasses : Prop :=
  match arg.claim with
  | .null =>
    env.currentType = .directory ∧ env.utf8Scan = .ok ∧
      (arg.openhow ≠ none → env.createArgs = .ok) ∧
      (env.lookup = .noError ∧ createmodeOf arg ≠ .guarded ∨
        env.lookup = .noent ∧ arg.openhow ≠ none)
  | .previous => env.delegReclaim = true
  | .fh => True
  | .delegatePrev => False
  | .delegateCur | .delegCurFh => env.claimDeleg = .ok

def OpensNew (before : Option OpenState) : Prop :=
  env.open2 = .noError ∧ env.exportReady = true ∧ before = none ∧ env.stateSet = true

def RegularFile : Prop :=
  ∀ type ∈ knownFile env arg, type = .regularFile

def foundState (before : Option OpenState) : Option StatePtr :=
  if (knownFile env arg).isSome && before.isSome then some .existing else none

def StateAccepted (before : Option OpenState) : Prop :=
  knownFile env arg ≠ none → (ofDelegation arg = true ∨ env.delegConflict = false) ∧
    (before ≠ none → env.sameExport = true)

def FileOpens (before : Option OpenState) : Prop :=
  match foundState env arg before with
  | none => OpensNew env before
  | some _ =>
    if (createmodeOf arg).isExclusive then env.verify2 = .noError else env.reopen2 = .noError

def HandleNeeded (before : Option OpenState) : Prop :=
  ClaimPasses env arg ∧ RegularFile env arg ∧ StateAccepted env arg before ∧
    FileOpens env arg before

/-- The local variables tell what there is to undo, but for `extra` references on the file. -/
structure Held (before : Option OpenState) (extra : Nat) (v : Open4) : Prop where
  obj : v.objTaken = v.objDropped + v.lookedUpFileObj.toNat + extra
  file : v.stLockHeld = true ∨ v.lookedUpFileObj = true → v.fileObj ≠ none
  lock : v.stLock = v.stLockHeld
  existing : v.existing = before
  fresh : v.registered = false
  state : v.newState = true ∧ v.fileState ≠ none ∧ v.stateTaken = v.stateDropped ∨
    v.newState = false ∧ v.stateTaken = v.stateDropped + v.fileState.isSome.toNat

variable {v : Open4} {before : Option OpenState} {Q : Open4 → Prop}

theorem Held.fail (h : Held before 0 v) (status : Nfsstat4) :
    Held before 0 { v with status := status } :=
  { h with }

theorem Held.file_isNone {extra : Nat} (h : Held before extra v) :
    ((v.stLockHeld || v.lookedUpFileObj) && v.fileObj.isNone) = false := by
  cases hfile : v.fileObj with
  | some _ => simp
  | none =>
    have hnot : ¬ (v.stLockHeld = true ∨ v.lookedUpFileObj = true) := fun hor => h.file hor hfile
    rw [not_or, Bool.not_eq_true, Bool.not_eq_true] at hnot
    simp [hnot.1, hnot.2]

theorem Held.out (h : Held before 0 v) (hstatus : v.status ≠ .ok) : LeavesNoTrace before v.out := by
  have hfresh : ¬ (v.status ≠ .ok ∧ v.newState = true ∧ v.fileState = none) := by
    rintro ⟨-, hnew, hnone⟩
    rcases h.state with hstate | hstate
    · exact hstate.2.1 hnone
    · rw [hstate.1] at hnew
      cases hnew
  simp only [Open4.out, h.file_isNone, Bool.false_eq_true, if_false, if_neg hfresh]
  refine fun _ => ⟨h.fresh, h.existing, ?_, ?_, ?_⟩
  · dsimp only
    split_ifs with hheld
    · rfl
    · rw [h.lock]
      exact Bool.eq_false_iff.2 hheld
  · have hobj := h.obj
    dsimp only
    split_ifs with hlooked
    · rw [hlooked] at hobj
      exact hobj
    · rw [Bool.eq_false_iff.2 hlooked] at hobj
      exact hobj
  · dsimp only
    rcases h.state with ⟨hnew, -, hrefs⟩ | ⟨hnew, hrefs⟩
    · rw [if_neg (fun hand => hand.2.1 hnew), hrefs]
    · cases hptr : v.fileState with
      | none =>
        rw [if_neg (fun hand => hand.2.2 rfl), hrefs, hptr]
        rfl
      | some ptr =>
        rw [if_pos ⟨hstatus, by simp [hnew], by simp⟩, hrefs, hptr]
        rfl

/-- A stage goes on where `c` holds, and otherwise to the exit with all that is held known. -/
inductive OpenStage (before : Option OpenState) (c : Prop) (Q : Open4 → Prop) : Flow → Prop
  | next {v : Open4} (hc : c) (hv : Q v) : OpenStage before c Q (.ok v)
  | out {v : Open4} (hc : ¬ c) (hv : Held before 0 v) (hstatus : v.status ≠ .ok) :
      OpenStage before c Q (.error (.out v))

theorem OpenStage.of_fail {c : Prop} {status : Nfsstat4} (hc : ¬ c) (hv : Held before 0 v)
    (hstatus : status ≠ .ok) : OpenStage before c Q (v.fail status) :=
  .out hc (hv.fail status) hstatus

structure BeforeOpen (env : Open4Env) (arg : Open4Args) (before : Option OpenState)
    (fileState : Option StatePtr) (v : Open4) : Prop where
  held : Held before 0 v
  file : v.fileObj = knownFile env arg
  createmode : v.createmode = createmodeOf arg
  byName : v.byName = (knownFile env arg).isNone
  fileState : v.fileState = fileState
  newState : v.newState = false
  status : v.status = .ok

theorem BeforeOpen.refs {env : Open4Env} {arg : Open4Args} {fileState : Option StatePtr}
    (hv : BeforeOpen env arg before fileState v) :
    v.stateTaken = v.stateDropped + fileState.isSome.toNat := by
  rcases hv.held.state with ⟨hnew, -⟩ | ⟨-, hrefs⟩
  · rw [hv.newState] at hnew
    cases hnew
  · rw [hrefs, hv.fileState]

section Stages

variable (before : Option OpenState)

theorem init_held (existing : Option OpenState) : Held existing 0 (init existing) where
  obj := rfl
  file := by simp [init]
  lock := rfl
  existing := rfl
  fresh := rfl
  state := .inr ⟨rfl, rfl⟩

theorem lookupName_stage (hclaim : arg.claim = .null) :
    OpenStage before (ClaimPasses env arg) (BeforeOpen env arg before none)
      ((init before).lookupName env arg) := by
  have hheld := init_held before
  have hmode : createmodeOf arg = (arg.openhow.map nfs4CreatemodeToFsal).getD .noCreate := by
    rw [createmodeOf, if_pos hclaim]
  simp only [lookupName, ClaimPasses, hclaim]
  split_ifs with hsymlink hdir hscan hargs hlookup hguarded herror
  · exact .of_fail (fun h => by simp [hsymlink] at h) hheld (by simp)
  · exact .of_fail (fun h => hdir h.1) hheld (by simp)
  · exact .of_fail (fun h => hscan h.2.1) hheld hscan
  · exact .of_fail (fun h => hargs.2 (h.2.2.1 hargs.1)) hheld hargs.2
  · refine .of_fail (fun h => ?_) ⟨rfl, by simp, rfl, rfl, rfl, .inr ⟨rfl, rfl⟩⟩ (by simp)
    rcases h.2.2.2 with hfound | hcreate
    · exact hfound.2 (hmode.trans hguarded)
    · rw [hlookup] at hcreate
      cases hcreate.1
  · refine .next ?_ ⟨⟨rfl, by simp, rfl, rfl, rfl, .inr ⟨rfl, rfl⟩⟩, ?_, hmode.symm, ?_, rfl, rfl, rfl⟩
    · refine ⟨not_not.1 hdir, not_not.1 hscan, fun hhow => ?_, .inl ⟨hlookup, ?_⟩⟩
      · by_contra hne
        exact hargs ⟨hhow, hne⟩
      · rw [hmode]
        exact hguarded
    · simp [knownFile, hclaim, hlookup]
    · simp [knownFile, hclaim, hlookup, init, getRef]
  · refine .of_fail (fun h => ?_) ⟨rfl, by simp [init], rfl, rfl, rfl, .inr ⟨rfl, rfl⟩⟩ ?_
    · rcases h.2.2.2 with hfound | hcreate
      · exact hlookup hfound.1
      · rcases herror with herr | hhow
        · exact herr hcreate.1
        · exact hcreate.2 hhow
    · rw [ne_eq, nfs4ErrnoVerbose_ok_iff]
      exact hlookup
  · rw [not_or, not_not] at herror
    refine .next ?_ ⟨⟨rfl, by simp [init], rfl, rfl, rfl, .inr ⟨rfl, rfl⟩⟩, ?_, hmode.symm, ?_,
      rfl, rfl, rfl⟩
    · refine ⟨not_not.1 hdir, not_not.1 hscan, fun hhow => ?_, .inr ⟨herror.1, herror.2⟩⟩
      by_contra hne
      exact hargs ⟨hhow, hne⟩
    · simp [knownFile, hclaim, hlookup, init]
    · simp [knownFile, hclaim, hlookup]

theorem currentFile_before (hclaim : arg.claim ≠ .null) :
    BeforeOpen env arg before none { init before with fileObj := some env.currentType } := by
  refine ⟨⟨rfl, by simp, rfl, rfl, rfl, .inr ⟨rfl, rfl⟩⟩, ?_, ?_, ?_, rfl, rfl, rfl⟩
  · simp [knownFile, hclaim]
  · simp [createmodeOf, hclaim, init]
  · simp [knownFile, hclaim, init]

theorem processClaim_stage :
    OpenStage before (ClaimPasses env arg) (BeforeOpen env arg before none)
      ((init before).processClaim env arg) := by
  have hheld := init_held before
  have hcurrent := currentFile_before env arg before
  cases hclaim : arg.claim with
  | null =>
    simp only [Open4.processClaim, hclaim]
    exact lookupName_stage env arg before hclaim
  | previous =>
    simp only [Open4.processClaim, ClaimPasses, hclaim]
    split_ifs with hreclaim
    · exact .next hreclaim (hcurrent (by simp [hclaim]))
    · exact .of_fail hreclaim hheld (by simp)
  | fh =>
    simp only [Open4.processClaim, ClaimPasses, hclaim]
    exact .next trivial (hcurrent (by simp [hclaim]))
  | delegatePrev =>
    simp only [Open4.processClaim, ClaimPasses, hclaim]
    exact .of_fail not_false hheld (by simp)
  | delegateCur | delegCurFh =>
    simp only [Open4.processClaim, ClaimPasses, hclaim]
    split_ifs with hdeleg
    · exact .of_fail hdeleg hheld hdeleg
    · exact .next (not_not.1 hdeleg) (hcurrent (by simp [hclaim]))

variable {env arg before} {st : OpenState}

theorem checkFileType_stage (hv : BeforeOpen env arg before none v) :
    OpenStage before (RegularFile env arg)
      (fun w => BeforeOpen env arg before none w ∧
        w.openflags = modeFlags arg.shareAccess arg.shareDeny)
      (v.setOpenflags arg).checkFileType := by
  have hset : BeforeOpen env arg before none (v.setOpenflags arg) :=
    ⟨{ hv.held with }, hv.file, hv.createmode, hv.byName, hv.fileState, hv.newState, hv.status⟩
  have hregular : RegularFile env arg ↔ ∀ type, v.fileObj = some type → type = .regularFile := by
    rw [RegularFile, ← hv.file]
    rfl
  unfold checkFileType
  rw [hregular]
  split
  · rename_i hfile
    exact .next (fun type htype => by cases hfile.symm.trans htype) ⟨hset, rfl⟩
  · rename_i hfile
    refine .next (fun type htype => ?_) ⟨hset, rfl⟩
    cases hfile.symm.trans htype
    rfl
  · rename_i hfile
    exact .of_fail (fun h => by cases h _ hfile) hset.held (by simp)
  · rename_i type hne _ hfile
    exact .of_fail (fun h => hne (h type hfile)) hset.held (by simp)

theorem findState_stage (hv : BeforeOpen env arg before none v)
    (hflags : v.openflags = modeFlags arg.shareAccess arg.shareDeny) :
    OpenStage before (StateAccepted env arg before)
      (fun w => BeforeOpen env arg before (foundState env arg before) w ∧
        w.openflags = modeFlags arg.shareAccess arg.shareDeny)
      (v.findState env arg) := by
  have hrefs := hv.refs
  obtain ⟨hheld, hfile, hmode, hname, hptr, hnew, hstatus⟩ := hv
  unfold findState
  cases hknown : v.fileObj with
  | none =>
    have hunknown : knownFile env arg = none := hfile ▸ hknown
    refine .next (fun h => absurd hunknown h) ⟨⟨hheld, hfile, hmode, hname, ?_, hnew, hstatus⟩, hflags⟩
    rw [hptr, foundState, hunknown]
    rfl
  | some type =>
    have hsome : knownFile env arg = some type := hfile ▸ hknown
    have hlocked : Held before 0 v.lockState :=
      ⟨hheld.obj, fun _ => by simp [lockState, hknown], rfl, hheld.existing, hheld.fresh,
        hheld.state⟩
    dsimp only
    by_cases hconflict : (!ofDelegation arg && env.delegConflict) = true
    · rw [if_pos hconflict]
      refine .of_fail (fun h => ?_) hlocked (by simp)
      obtain ⟨hdeleg | hno, -⟩ := h (by simp [hsome])
      · simp [hdeleg] at hconflict
      · simp [hno] at hconflict
    · have hallowed : ofDelegation arg = true ∨ env.delegConflict = false := by
        rw [Bool.and_eq_true, Bool.not_eq_true', not_and_or, Bool.not_eq_false,
          Bool.not_eq_true] at hconflict
        exact hconflict
      have hexisting : v.lockState.existing = before := hheld.existing
      rw [if_neg hconflict, hexisting]
      cases before with
      | none =>
        refine .next (fun _ => ⟨hallowed, fun h => absurd rfl h⟩)
          ⟨⟨hlocked, hfile, hmode, hname, ?_, hnew, hstatus⟩, hflags⟩
        rw [foundState, hsome]
        exact hptr
      | some st =>
        have htaken : Held (some st) 0 { v.lockState with
            existing := some st, fileState := some .existing, stateTaken := v.lockState.stateTaken + 1 } :=
          ⟨hheld.obj, hlocked.file, rfl, rfl, hheld.fresh, .inr ⟨hnew, by
            simpa [lockState] using hrefs⟩⟩
        dsimp only
        split_ifs with hexport
        · refine .next (fun _ => ⟨hallowed, fun _ => hexport⟩)
            ⟨⟨htaken, hfile, hmode, hname, ?_, hnew, hstatus⟩, hflags⟩
          rw [foundState, hsome]
          rfl
        · refine .of_fail (fun h => hexport ?_) htaken (by simp)
          exact (h (by simp [hsome])).2 (by simp)

theorem foundState_some {ptr : StatePtr} (h : foundState env arg before = some ptr) :
    knownFile env arg ≠ none ∧ ∃ st, before = some st ∧ ptr = .existing := by
  unfold foundState at h
  split_ifs at h with hboth
  cases h
  rw [Bool.and_eq_true, isSome_iff_ne_none, isSome_iff_exists] at hboth
  obtain ⟨st, hst⟩ := hboth.2
  exact ⟨hboth.1, st, hst, rfl⟩

def Open4.openState (v : Open4) : Option OpenState := if v.registered then v.fresh else v.existing

/-- A new state is open, and there is a reference on the file that no local variable tells of. -/
structure OpenedNew (arg : Open4Args) (before : Option OpenState) (v : Open4) : Prop where
  held : Held before 1 v
  file : v.fileObj ≠ none ∨ v.outObj ≠ none
  fileState : v.fileState = some .fresh
  newState : v.newState = true
  fresh : v.fresh = some ⟨⟨[], 0, 0, 0, 0⟩, modeFlags arg.shareAccess arg.shareDeny⟩
  status : v.status = .ok

theorem openNew_stage (hv : BeforeOpen env arg before none v)
    (hflags : v.openflags = modeFlags arg.shareAccess arg.shareDeny) :
    OpenStage before (env.open2 = .noError) (OpenedNew arg before) (v.openNew env) := by
  have hrefs : v.stateTaken = v.stateDropped := hv.refs
  obtain ⟨hheld, hfile, hmode, hname, hptr, hnew, hstatus⟩ := hv
  simp only [openNew]
  by_cases hopen : env.open2 = .noError
  · rw [if_neg (not_not.2 hopen)]
    refine .next hopen ⟨⟨?_, hheld.file, hheld.lock, hheld.existing, hheld.fresh, ?_⟩, ?_, rfl, rfl,
      ?_, hstatus⟩
    · simp only [getRef, hheld.obj]
    · exact .inl ⟨rfl, by simp [getRef], hrefs⟩
    · cases hknown : knownFile env arg with
      | none => exact .inr (by simp [hname, hknown])
      | some type => exact .inl (by simp [getRef, hfile, hknown])
    · rw [← hflags]
  · rw [if_pos hopen]
    refine .of_fail hopen ⟨hheld.obj, hheld.file, hheld.lock, hheld.existing, hheld.fresh, ?_⟩ ?_
    · exact .inl ⟨rfl, by simp, hrefs⟩
    · rwa [ne_eq, nfs4ErrnoVerbose_ok_iff]

theorem OpenedNew.lockOpened (hv : OpenedNew arg before v) :
    ∃ w, v.lockOpened = .ok w ∧ OpenedNew arg before w ∧ w.fileObj ≠ none := by
  cases hfile : v.fileObj with
  | some type => exact ⟨v, by simp [Open4.lockOpened, hfile], hv, by simp [hfile]⟩
  | none =>
    obtain ⟨type, hout⟩ := ne_none_iff_exists'.1 (hv.file.resolve_left (not_not.2 hfile))
    refine ⟨{ v.lockState with fileObj := some type }, by simp [Open4.lockOpened, hfile, hout],
      ⟨⟨hv.held.obj, by simp, rfl, hv.held.existing, hv.held.fresh, hv.held.state⟩, .inl (by simp),
        hv.fileState, hv.newState, hv.fresh, hv.status⟩, by simp⟩

structure Registered (arg : Open4Args) (v : Open4) : Prop where
  file : v.fileObj ≠ none
  newState : v.newState = true
  registered : v.registered = true
  fresh : v.fresh = some ⟨candidateData arg, modeFlags arg.shareAccess arg.shareDeny⟩

theorem stateAddImpl_error (env : Open4Env) (share : StateShare)
    (h : ¬ (env.exportReady = true ∧ v.existing = none ∧ env.stateSet = true)) :
    ∃ status : StateStatus, status ≠ .success ∧
      v.stateAddImpl env share = (status, { v with fresh := none, fileState := none }) := by
  unfold stateAddImpl
  cases hexport : env.exportReady with
  | false => exact ⟨.estale, by simp, by simp⟩
  | true =>
    have htaken : (v.existing.isSome || !env.stateSet) = true := by
      by_contra hfree
      rw [Bool.not_eq_true, Bool.or_eq_false_iff, Bool.not_eq_false'] at hfree
      exact h ⟨hexport, by simpa using hfree.1, hfree.2⟩
    exact ⟨.entryExists, by simp, by simp [htaken]⟩

theorem registerState_stage (hv : OpenedNew arg before v) (hfile : v.fileObj ≠ none) :
    OpenStage before (env.exportReady = true ∧ before = none ∧ env.stateSet = true) (Registered arg)
      (v.registerState env arg) := by
  have hexisting := hv.held.existing
  obtain ⟨type, htype⟩ := ne_none_iff_exists'.1 hfile
  simp only [registerState, hv.newState, if_true]
  by_cases hreg : env.exportReady = true ∧ before = none ∧ env.stateSet = true
  · simp only [stateAddImpl, hreg, hexisting]
    exact .next ⟨trivial, trivial, trivial⟩ ⟨hfile, hv.newState, rfl, by simp [hv.fresh]⟩
  · obtain ⟨status, hne, hadd⟩ := stateAddImpl_error env (candidateData arg) (v := v)
      (by rwa [hexisting])
    have hrefs : v.stateTaken = v.stateDropped := by
      rcases hv.held.state with ⟨-, -, h⟩ | ⟨h, -⟩
      · exact h
      · rw [hv.newState] at h
        cases h
    -- the reference of open2 is dropped here, and the state is no longer there to be freed
    have hheld : Held before 0 { ({ v with fresh := none, fileState := none } : Open4).putRef with
        newState := false } := by
      refine ⟨?_, hv.held.file, hv.held.lock, hexisting, hv.held.fresh, .inr ⟨rfl, hrefs⟩⟩
      have hobj := hv.held.obj
      simp only [putRef]
      omega
    rw [hadd]
    split
    · rename_i hpair
      cases hpair
      exact absurd rfl hne
    · rename_i hpair
      cases hpair
      simp only [htype]
      refine .of_fail hreg ?_ ?_
      · simpa only [htype] using hheld
      · rwa [ne_eq, nfs4ErrnoState_ok_iff]

/-- With the handle the call succeeds. Without it the state is deleted, and the modes of the request
are added to a state that `*file_state` no longer points to. -/
theorem Registered.finish (env : Open4Env) (hv : Registered arg v) :
    if env.fhandle = true then
      ∃ w, exit (v.createFh env >>= (·.recordModes arg)) = some w ∧ w.status = .ok ∧
        w.openState = some ⟨candidateData arg, modeFlags arg.shareAccess arg.shareDeny⟩
    else exit (v.createFh env >>= (·.recordModes arg)) = none := by
  obtain ⟨type, htype⟩ := ne_none_iff_exists'.1 hv.file
  cases hfh : env.fhandle with
  | false =>
    simp [createFh, open4CreateFh, putRef, Open4.stateDelLocked, hfh,
      hv.newState, recordModes, deref, exit, bind, Except.bind]
  | true =>
    simp [createFh, open4CreateFh, putRef, hfh, hv.newState, recordModes,
      exit, bind, Except.bind, out, htype, openState, hv.registered, hv.fresh]

/-- The state of before is open as the request asks, and there is a reference on the file that no
local variable tells of. -/
structure OpenedExisting (st : OpenState) (v : Open4) : Prop where
  obj : v.objTaken = v.objDropped + v.lookedUpFileObj.toNat + 1
  file : v.fileObj ≠ none
  fileState : v.fileState = some .existing
  newState : v.newState = false
  registered : v.registered = false
  existing : v.existing = some st
  status : v.status = .ok

/-- The state with the flags its descriptor gets: an exclusive create leaves them alone. -/
def reopened (arg : Open4Args) (st : OpenState) : OpenState :=
  if (createmodeOf arg).isExclusive then st
  else { st with descriptor := (modeFlags arg.shareAccess arg.shareDeny).union st.descriptor }

theorem openFile_stage (hv : BeforeOpen env arg (some st) (some .existing) v)
    (hflags : v.openflags = modeFlags arg.shareAccess arg.shareDeny)
    (hknown : knownFile env arg ≠ none) :
    OpenStage (some st)
      (if (createmodeOf arg).isExclusive then env.verify2 = .noError else env.reopen2 = .noError)
      (OpenedExisting (reopened arg st)) (v.openFile env) := by
  obtain ⟨hheld, hfile, hmode, hname, hptr, hnew, hstatus⟩ := hv
  obtain ⟨type, htype⟩ := ne_none_iff_exists'.1 hknown
  rw [htype] at hfile
  have hobj : v.getRef.objTaken = v.objDropped + v.lookedUpFileObj.toNat + 1 := by
    rw [getRef, hheld.obj]
  simp only [openFile, hptr, hmode, reopened]
  by_cases hexcl : (createmodeOf arg).isExclusive = true
  · simp only [hexcl, if_true, verify, hfile]
    by_cases hverify : env.verify2 = .noError
    · rw [if_neg (not_not.2 hverify)]
      exact .next hverify ⟨hobj, by simp [getRef, hfile], hptr, hnew, hheld.fresh,
        hheld.existing, hstatus⟩
    · rw [if_pos hverify]
      exact .of_fail hverify hheld (by rwa [ne_eq, nfs4ErrnoVerbose_ok_iff])
  · simp only [hexcl, Bool.false_eq_true, if_false, upgrade, hfile, hheld.existing]
    by_cases hreopen : env.reopen2 = .noError
    · rw [if_neg (not_not.2 hreopen)]
      refine .next hreopen ⟨hobj, ?_, hptr, hnew, hheld.fresh, ?_, hstatus⟩
      · simp [getRef]
      · simp [hflags]
    · rw [if_pos hreopen]
      refine .of_fail hreopen ?_ (by rwa [ne_eq, nfs4ErrnoVerbose_ok_iff])
      exact ⟨hheld.obj, fun _ => by simp, hheld.lock, rfl, hheld.fresh, hheld.state⟩

def withModes (arg : Open4Args) (st : OpenState) : OpenState :=
  { st with share := { st.share with
      shareAccess := st.share.shareAccess ||| (arg.shareAccess &&& 3)
      shareDeny := st.share.shareDeny ||| arg.shareDeny
      shareAccessPrev := st.share.shareAccessPrev ||| bitOf (arg.shareAccess &&& 3)
      shareDenyPrev := st.share.shareDenyPrev ||| bitOf arg.shareDeny } }

theorem OpenedExisting.finish (env : Open4Env) (arg : Open4Args) (hv : OpenedExisting st v) :
    ∃ w, exit (v.lockOpened >>= fun v => v.registerState env arg >>= fun v =>
        v.createFh env >>= fun v => v.recordModes arg) = some w ∧
      if env.fhandle = true then w.status = .ok ∧ w.openState = some (withModes arg st)
      else w.status ≠ .ok ∧ w.objDropped = w.objTaken + 1 := by
  obtain ⟨type, htype⟩ := ne_none_iff_exists'.1 hv.file
  cases hfh : env.fhandle with
  | false =>
    simp [lockOpened, htype, bind, Except.bind, registerState, hv.newState,
      createFh, open4CreateFh, putRef, hfh, exit, out]
    rw [hv.obj]
    cases v.lookedUpFileObj <;> rfl
  | true =>
    simp [lockOpened, htype, bind, Except.bind, registerState, hv.newState,
      createFh, open4CreateFh, putRef, hfh, recordModes, deref,
      hv.fileState, hv.existing, exit, out, openState, hv.registered, withModes]

def afterOpen (arg : Open4Args) : Option OpenState → OpenState
  | none => ⟨candidateData arg, modeFlags arg.shareAccess arg.shareDeny⟩
  | some st => withModes arg (reopened arg st)

inductive OpenOutcome (env : Open4Env) (arg : Open4Args) (before : Option OpenState) :
    Option Open4 → Prop
  | undone {v : Open4} (hc : ¬ HandleNeeded env arg before) (hv : Held before 0 v)
      (hstatus : v.status ≠ .ok) : OpenOutcome env arg before v.out
  | opened {w : Open4} (hc : HandleNeeded env arg before) (hfh : env.fhandle = true)
      (hstatus : w.status = .ok) (hafter : w.openState = some (afterOpen arg before)) :
      OpenOutcome env arg before (some w)
  | nullPointer (hc : HandleNeeded env arg before) (hfh : env.fhandle = false) :
      OpenOutcome env arg before none
  | droppedTwice {w : Open4} (hc : HandleNeeded env arg before) (hfh : env.fhandle = false)
      (hstatus : w.status ≠ .ok) (hobj : w.objDropped = w.objTaken + 1) :
      OpenOutcome env arg before (some w)

theorem OpenStage.outcome {c : Prop} {m : Flow} (hm : OpenStage before c Q m) (rest : Open4 → Flow)
    (hneeded : HandleNeeded env arg before → c)
    (hrest : ∀ v, c → Q v → OpenOutcome env arg before (exit (rest v))) :
    OpenOutcome env arg before (exit (m >>= rest)) := by
  cases hm with
  | next hc hv => exact hrest _ hc hv
  | out hc hv hstatus => exact .undone (fun h => hc (hneeded h)) hv hstatus

theorem OpenedNew.outcome (hv : OpenedNew arg before v)
    (hneeded : HandleNeeded env arg before ↔ OpensNew env before) (hopen : env.open2 = .noError) :
    OpenOutcome env arg before (exit (v.lockOpened >>= fun v => v.registerState env arg >>=
      fun v => v.createFh env >>= fun v => v.recordModes arg)) := by
  obtain ⟨w, hlock, hw, hfile⟩ := hv.lockOpened
  rw [hlock]
  refine (registerState_stage hw hfile).outcome _ (fun h => (hneeded.1 h).2) fun u hreg hu => ?_
  have hc : HandleNeeded env arg before := hneeded.2 ⟨hopen, hreg⟩
  have hfinish := hu.finish env
  split_ifs at hfinish with hfh
  · obtain ⟨x, hexit, hstatus, hstate⟩ := hfinish
    rw [hexit]
    refine .opened hc hfh hstatus ?_
    rw [hstate, hreg.2.1, afterOpen]
  · rw [hfinish]
    exact .nullPointer hc (Bool.eq_false_iff.2 hfh)

theorem OpenedExisting.outcome (hv : OpenedExisting (reopened arg st) v)
    (hc : HandleNeeded env arg (some st)) :
    OpenOutcome env arg (some st) (exit (v.lockOpened >>= fun v => v.registerState env arg >>=
      fun v => v.createFh env >>= fun v => v.recordModes arg)) := by
  obtain ⟨w, hexit, hw⟩ := hv.finish env arg
  rw [hexit]
  split_ifs at hw with hfh
  · exact .opened hc hfh hw.1 hw.2
  · exact .droppedTwice hc (Bool.eq_false_iff.2 hfh) hw.1 hw.2

theorem open4Ex_outcome (env : Open4Env) (arg : Open4Args) (before : Option OpenState) :
    OpenOutcome env arg before (open4Ex env arg before) := by
  unfold open4Ex
  refine (processClaim_stage env arg before).outcome _ (fun h => h.1) fun v hclaim hv => ?_
  refine (checkFileType_stage hv).outcome _ (fun h => h.2.1) fun v hregular ⟨hv, hflags⟩ => ?_
  refine (findState_stage hv hflags).outcome _ (fun h => h.2.2.1) fun v haccepted ⟨hv, hflags⟩ => ?_
  have hneeded : HandleNeeded env arg before ↔ FileOpens env arg before :=
    ⟨fun h => h.2.2.2, fun h => ⟨hclaim, hregular, haccepted, h⟩⟩
  rw [FileOpens] at hneeded
  cases hfound : foundState env arg before with
  | none =>
    rw [hfound] at hv hneeded
    have hopen : v.openFile env = v.openNew env := by rw [openFile, hv.fileState]
    rw [hopen]
    refine (openNew_stage hv hflags).outcome _ (fun h => (hneeded.1 h).1) fun v hopened hv => ?_
    exact hv.outcome hneeded hopened
  | some ptr =>
    rw [hfound] at hv hneeded
    obtain ⟨hknown, st, rfl, rfl⟩ := foundState_some hfound
    exact (openFile_stage hv hflags hknown).outcome _ hneeded.1 fun v hopened hv =>
      hv.outcome (hneeded.2 hopened)

end Stages

/-- A request leaves no trace unless it comes to the construction of the file handle and that
fails. -/
theorem failed_open_leaves_no_trace_iff (env : Open4Env) (arg : Open4Args)
    (before : Option OpenState) :
    LeavesNoTrace before (open4Ex env arg before) ↔
      (HandleNeeded env arg before → env.fhandle = true) := by
  have houtcome := open4Ex_outcome env arg before
  generalize open4Ex env arg before = result at houtcome ⊢
  cases houtcome with
  | undone hc hv hstatus => exact iff_of_true (hv.out hstatus) fun h => absurd h hc
  | opened hc hfh hstatus hafter =>
    exact iff_of_true (fun hne => absurd hstatus hne) fun _ => hfh
  | nullPointer hc hfh =>
    refine iff_of_false id fun h => ?_
    rw [h hc] at hfh
    cases hfh
  | droppedTwice hc hfh hstatus hobj =>
    refine iff_of_false (fun h => ?_) fun h => ?_
    · have hbalance := (h hstatus).2.2.2.1
      omega
    · rw [h hc] at hfh
      cases hfh

def noHandle : Open4Env where
  currentType := .regularFile
  utf8Scan := .ok
  createArgs := .ok
  lookup := .noError
  lookupType := .regularFile
  delegReclaim := true
  claimDeleg := .ok
  delegConflict := false
  sameExport := true
  open2 := .noError
  verify2 := .noError
  reopen2 := .noError
  exportReady := true
  stateSet := true
  fhandle := false
  reopenBack := .noError

/-- Without the handle a first OPEN of a file follows a null pointer, and a second one drops the
file once more than it has taken it. -/
theorem failed_handle_leaves_trace :
    open4Ex noHandle ⟨.fh, none, 1, 0⟩ none = none ∧
      ((open4Ex noHandle ⟨.fh, none, 3, 0⟩ (some ⟨⟨[], 1, 0, 2, 1⟩, ⟨true, false, false, false⟩⟩)).map
        fun v => (v.status, v.objTaken, v.objDropped)) = some (.serverfault, 1, 2) := by
  decide +kernel

end EdgeComputing.Nfs4
