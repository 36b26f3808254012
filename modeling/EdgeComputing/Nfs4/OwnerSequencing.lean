import Mathlib.Logic.Basic
import EdgeComputing.Nfs4.OwnerRequests

/-!
The history of the requests of all owners: a request is refused before any seqid is checked,
answered by a seqid check, or carried out and then recorded if it counts.
-/

namespace EdgeComputing.Nfs4

open Option Library Sal SeqState SeqRequest

def exempt : Nfsstat4 → Bool
  | .staleClientid | .staleStateid | .badStateid | .badSeqid | .badxdr | .resource
  | .nofilehandle | .moved => true
  | _ => false

structure Done (Obj Body : Type*) where
  seqid : BitVec 32
  argop : SeqOp
  obj : Obj
  resp : Response Body
deriving DecidableEq

variable {OwnerId Obj Body Server : Type*}

def SeqRequest.argop : SeqRequest OwnerId Obj Body Server → SeqOp
  | .opOpen _ _ => .opOpen
  | .opOpenConfirm _ _ => .opOpenConfirm
  | .opOpenDowngrade _ _ => .opOpenDowngrade
  | .opClose _ _ _ => .opClose
  | .opLock _ _ => .opLock
  | .opLocku _ _ _ => .opLocku

def SeqRequest.obj : SeqRequest OwnerId Obj Body Server → Obj
  | .opOpen args _ => args.obj
  | .opOpenConfirm args _ => args.obj
  | .opOpenDowngrade args _ => args.obj
  | .opClose _ args _ => args.obj
  | .opLock args _ => args.obj
  | .opLocku _ args _ => args.obj

def SeqRequest.seqid : SeqRequest OwnerId Obj Body Server → BitVec 32
  | .opOpen args _ => args.seqid
  | .opOpenConfirm args _ => args.seqid
  | .opOpenDowngrade args _ => args.seqid
  | .opClose _ args _ => args.seqid
  | .opLock args _ => args.locker.seqid
  | .opLocku _ args _ => args.seqid

def StateidAnswer.owner : StateidAnswer OwnerId → Option OwnerId
  | .failure _ => none
  | .valid owner => owner
  | .replay owner => owner

def SeqRequest.owner : SeqRequest OwnerId Obj Body Server → Option OwnerId
  | .opOpen args env => if env.refused = none ∧ env.ownerCreated then some args.owner else none
  | .opOpenConfirm _ env => if env.refused = none then env.stateid.owner else none
  | .opOpenDowngrade _ env => if env.refused = none then env.stateid.owner else none
  | .opClose _ _ env => if env.refused = none then env.stateid.owner else none
  | .opLock args env =>
    if env.refused = none then
      match env.stateid with
      | .failure _ => none
      | .replay owner => owner
      | .valid owner => if lockRefused args env = none then owner else none
    else none
  | .opLocku _ _ env => if env.refused = none then env.stateid.owner else none

def SeqRequest.lockSeqid : SeqRequest OwnerId Obj Body Server → Option (BitVec 32)
  | .opLock ⟨.newLockOwner _ lockSeqid _, _, _⟩ _ => some lockSeqid
  | _ => none

def SeqRequest.hasLocks : SeqRequest OwnerId Obj Body Server → Bool
  | .opLock _ env => env.lockOwnerHasLocks
  | _ => false

def SeqRequest.restarts : SeqRequest OwnerId Obj Body Server → Bool
  | .opOpen args _ => args.seqid = 0
  | _ => false

/-- The response to a repeated request; the file of an OPEN is looked up again. -/
def SeqRequest.repeated (resp : Response Body) :
    SeqRequest OwnerId Obj Body Server → Response Body
  | .opOpen args env => replayedOpen args env resp
  | _ => resp

structure SeqHistory (OwnerId Obj Body Server : Type*) where
  state : SeqState OwnerId Obj Body Server
  last : OwnerId → Option (Done Obj Body)

variable {s t : SeqState OwnerId Obj Body Server} {o : OwnerId}

def Recorded (s : SeqState OwnerId Obj Body Server) (o : OwnerId) (d : Done Obj Body) : Prop :=
  (s.ownerOf o).soSeqid = d.seqid ∧ (s.ownerOf o).soLastEntry = some d.obj ∧
    (s.ownerOf o).soArgop = d.argop ∧ (s.ownerOf o).soResp = d.resp ∧ (s.owners o).isSome

structure SameRecord (s t : SeqState OwnerId Obj Body Server) (o : OwnerId) : Prop where
  seqid : (t.ownerOf o).soSeqid = (s.ownerOf o).soSeqid
  lastEntry : (t.ownerOf o).soLastEntry = (s.ownerOf o).soLastEntry
  argop : (t.ownerOf o).soArgop = (s.ownerOf o).soArgop
  resp : (t.ownerOf o).soResp = (s.ownerOf o).soResp
  known : (s.owners o).isSome → (t.owners o).isSome

theorem SameRecord.refl (s : SeqState OwnerId Obj Body Server) (o : OwnerId) :
    SameRecord s s o :=
  ⟨rfl, rfl, rfl, rfl, id⟩

theorem SameRecord.trans {s t u : SeqState OwnerId Obj Body Server} (hst : SameRecord s t o)
    (htu : SameRecord t u o) : SameRecord s u o where
  seqid := htu.seqid.trans hst.seqid
  lastEntry := htu.lastEntry.trans hst.lastEntry
  argop := htu.argop.trans hst.argop
  resp := htu.resp.trans hst.resp
  known h := htu.known (hst.known h)

theorem Recorded.of_same {d : Done Obj Body} (h : Recorded s o d) (hsame : SameRecord s t o) :
    Recorded t o d := by
  obtain ⟨hseqid, hlast, hargop, hresp, hknown⟩ := h
  exact ⟨hsame.seqid.trans hseqid, hsame.lastEntry.trans hlast, hsame.argop.trans hargop,
    hsame.resp.trans hresp, hsame.known hknown⟩

theorem SameRecord.server (h : SameRecord s t o) (server : Server) :
    SameRecord s { t with server := server } o :=
  { h with }

section Owners

variable [DecidableEq OwnerId]
variable (s : SeqState OwnerId Obj Body Server) (o : OwnerId) {o' : OwnerId}

theorem sameRecord_setOwner_of_ne (h : o' ≠ o) (w : Nfs4Owner Obj Body) :
    SameRecord s (s.setOwner o w) o' := by
  constructor <;> simp [ownerOf, setOwner, h]

theorem sameRecord_record_of_ne (h : o' ≠ o) (seqid : BitVec 32) (argop : SeqOp) (obj : Option Obj)
    (resp : Response Body) : SameRecord s (s.record o seqid argop obj resp) o' :=
  sameRecord_setOwner_of_ne s o h _

theorem recorded_record (seqid : BitVec 32) (argop : SeqOp) (obj : Obj) (resp : Response Body) :
    Recorded (s.record o seqid argop (some obj) resp) o ⟨seqid, argop, obj, resp⟩ := by
  simp [Recorded, record, setOwner, ownerOf, copyNfs4StateReq]

theorem sameRecord_setConfirmed (confirmed : Bool) (o' : OwnerId) :
    SameRecord s (s.setOwner o { s.ownerOf o with soConfirmed := confirmed }) o' := by
  by_cases h : o' = o
  · subst h
    constructor <;> simp [setOwner, ownerOf]
  · exact sameRecord_setOwner_of_ne s o h _

theorem sameRecord_create (h : s.owners o = none) (confirm : Bool) (o' : OwnerId) :
    SameRecord s (s.setOwner o (newNfs4Owner confirm)) o' := by
  by_cases ho : o' = o
  · subst ho
    constructor <;> simp [setOwner, ownerOf, newNfs4Owner, h]
  · exact sameRecord_setOwner_of_ne s o ho _

variable [DecidableEq Obj]

def SeqHistory.note (last : OwnerId → Option (Done Obj Body)) (o : OwnerId) (d : Done Obj Body) :
    OwnerId → Option (Done Obj Body) :=
  fun o' => if o' = o then some d else last o'

def SeqRequest.rememberLock (r : SeqRequest OwnerId Obj Body Server)
    (h : Handled OwnerId Obj Body Server) (last : OwnerId → Option (Done Obj Body)) :
    OwnerId → Option (Done Obj Body) :=
  match h.introduced, r.lockSeqid with
  | some l, some lockSeqid =>
    if h.executed ∧ h.resp.status = .ok then
      SeqHistory.note last l ⟨lockSeqid, r.argop, r.obj, h.resp⟩
    else last
  | _, _ => last

/-- What the history remembers after a request: besides a granted LOCK, every request
that was carried out for the owner it was checked against. -/
def SeqRequest.remember (r : SeqRequest OwnerId Obj Body Server)
    (h : Handled OwnerId Obj Body Server) (last : OwnerId → Option (Done Obj Body)) :
    OwnerId → Option (Done Obj Body) :=
  match h.checked with
  | some o =>
    if h.executed ∧ exempt h.resp.status = false then
      SeqHistory.note (r.rememberLock h last) o ⟨r.seqid, r.argop, r.obj, h.resp⟩
    else r.rememberLock h last
  | none => r.rememberLock h last

def seqMachine : Machine (SeqHistory OwnerId Obj Body Server)
    (SeqRequest OwnerId Obj Body Server) where
  init s := ∃ server, s = ⟨⟨fun _ => none, server⟩, fun _ => none⟩
  step s r := (r.handle s.state).map fun h => ⟨h.state, r.remember h s.last⟩

/-- The request does not end at an exit that records what does not count, records it
for no file, or does not record what counts. -/
def RecordsWhatCounts (_ : SeqHistory OwnerId Obj Body Server) :
    SeqRequest OwnerId Obj Body Server → Prop
  | .opOpen args env =>
    env.validateClaim = .ok ∧ args.createNotNull = false ∧ exempt env.openEx.status = false
  | .opOpenDowngrade _ env => env.outcome.status = .ok
  | .opLocku _ _ env => exempt env.outcome.status = false
  | .opLock _ env =>
    exempt env.stateLock.status → env.stateLock.status = .resource
      ∨ env.stateLock.status = .badStateid
  | _ => True

end Owners

variable [DecidableEq Obj]

inductive Handling (s : SeqState OwnerId Obj Body Server)
    (r : SeqRequest OwnerId Obj Body Server) (h : Handled OwnerId Obj Body Server) : Prop
  | refused (hchecked : h.checked = none) (hintroduced : h.introduced = none)
      (hexecuted : h.executed = false) (hstate : h.state = s)
  | answered (o : OwnerId) (resp : Response Body) (hchecked : h.checked = some o)
      (hintroduced : h.introduced = none) (hexecuted : h.executed = false)
      (hstate : h.state = s)
      (hcheck : checkNfs4Seqid (s.ownerOf o) r.seqid r.argop r.obj = some resp)
      (hresp : h.resp = r.repeated resp)
  | lockAnswered (o l : OwnerId) (hchecked : h.checked = some o)
      (hintroduced : h.introduced = some l) (hexecuted : h.executed = false)
      (hstate : h.state = s)
      (hcheck : checkNfs4Seqid (s.ownerOf o) r.seqid r.argop r.obj = none)
      (hlock : ∀ q, r.lockSeqid = some q →
        checkNfs4Seqid (s.ownerOf l) q r.argop r.obj = some h.resp)
      (hrepeated : ∀ resp, r.repeated resp = resp)
  | executed (o : OwnerId) (hchecked : h.checked = some o) (hexecuted : h.executed = true)
      (hcheck : r.restarts ∨ s.owners o = none ∨
        checkNfs4Seqid (s.ownerOf o) r.seqid r.argop r.obj = none)
      (hself : exempt h.resp.status = false → Recorded h.state o ⟨r.seqid, r.argop, r.obj, h.resp⟩)
      (hexempt : exempt h.resp.status = true → SameRecord s h.state o)
      (hlock : ∀ l q, h.introduced = some l → r.lockSeqid = some q → l ≠ o →
        h.resp.status = .ok → Recorded h.state l ⟨q, r.argop, r.obj, h.resp⟩)
      (hlockCheck : ∀ l q, h.introduced = some l → r.lockSeqid = some q → r.hasLocks →
        (s.owners l).isSome → checkNfs4Seqid (s.ownerOf l) q r.argop r.obj = none)
      (hother : ∀ o', o' ≠ o → (h.introduced = some o' → r.lockSeqid ≠ none → h.resp.status ≠ .ok) →
        SameRecord s h.state o')

section Handling

variable {s u : SeqState OwnerId Obj Body Server} {r : SeqRequest OwnerId Obj Body Server}
  {o : OwnerId} {resp : Response Body} {env : StateidEnv OwnerId Body Server}
  {args : StateidArgs Obj} {h : Handled OwnerId Obj Body Server} {introduced : Option OwnerId}

def Passes (s : SeqState OwnerId Obj Body Server) (r : SeqRequest OwnerId Obj Body Server)
    (o : OwnerId) : Prop :=
  r.restarts ∨ s.owners o = none ∨ checkNfs4Seqid (s.ownerOf o) r.seqid r.argop r.obj = none

theorem handling_refuse (resp : Response Body) : Handling s r (refuse s resp) :=
  .refused rfl rfl rfl rfl

theorem handling_refused (hh : some (refuse s resp) = some h) : Handling s r h :=
  some.inj hh ▸ handling_refuse resp

def LockPasses (s : SeqState OwnerId Obj Body Server) (r : SeqRequest OwnerId Obj Body Server)
    (introduced : Option OwnerId) : Prop :=
  ∀ l q, introduced = some l → r.lockSeqid = some q → r.hasLocks → (s.owners l).isSome →
    checkNfs4Seqid (s.ownerOf l) q r.argop r.obj = none

theorem handling_unsavedIntroducing (hpass : Passes s r o) (hlock : LockPasses s r introduced)
    (hsame : ∀ o', SameRecord s u o') (hexempt : exempt resp.status = true) :
    Handling s r { unsaved u o resp with introduced := introduced } := by
  apply Handling.executed o rfl rfl hpass
  · intro hcounts
    exact absurd (hexempt.symm.trans hcounts) (by decide)
  · exact fun _ => hsame o
  · intro l q _ _ _ hok
    have hstatus : resp.status = .ok := hok
    rw [hstatus] at hexempt
    cases hexempt
  · exact hlock
  · exact fun o' _ _ => hsame o'

theorem handling_unsaved (hpass : Passes s r o) (hsame : ∀ o', SameRecord s u o')
    (hexempt : exempt resp.status = true) : Handling s r (unsaved u o resp) :=
  handling_unsavedIntroducing hpass (by simp [LockPasses]) hsame hexempt

theorem handling_checkedByStateid {gone : Response Body}
    {process : OwnerId → Handled OwnerId Obj Body Server} (hseqid : r.seqid = args.seqid)
    (hobj : r.obj = args.obj) (hrepeated : ∀ resp, r.repeated resp = resp)
    (hprocess : ∀ o, Passes s r o → Handling s r (process o)) :
    Handling s r (checkedByStateid r.argop gone args env s process) := by
  unfold checkedByStateid
  cases env.refused with
  | some status => exact handling_refuse _
  | none =>
    cases env.stateid with
    | failure status => exact handling_refuse _
    | valid owner | replay owner =>
      cases owner with
      | none => exact handling_refuse _
      | some o =>
        dsimp only
        rw [← hseqid, ← hobj]
        cases hcheck : checkNfs4Seqid (s.ownerOf o) r.seqid r.argop r.obj with
        | some resp => exact .answered o resp rfl rfl rfl rfl hcheck (hrepeated resp).symm
        | none => exact hprocess o (.inr (.inr hcheck))

variable [DecidableEq OwnerId]

theorem handling_savedIntroducing (hpass : Passes s r o) (hlock : LockPasses s r introduced)
    (hfailed : introduced = none ∨ resp.status ≠ .ok) (hsame : ∀ o', SameRecord s u o')
    (hcounts : exempt resp.status = false) :
    Handling s r
      { saved u o r.seqid r.argop (some r.obj) resp with introduced := introduced } := by
  apply Handling.executed o rfl rfl hpass
  · intro _
    exact recorded_record u o _ _ _ _
  · intro hexempt
    exact absurd (hexempt.symm.trans hcounts) (by decide)
  · intro l q hl _ _ hok
    rcases hfailed with hnone | hfailed
    · rw [hnone] at hl
      cases hl
    · exact absurd hok hfailed
  · exact hlock
  · intro o' ho' _
    exact (hsame o').trans (sameRecord_record_of_ne u o ho' _ _ _ _)

theorem handling_saved (hpass : Passes s r o) (hsame : ∀ o', SameRecord s u o')
    (hcounts : exempt resp.status = false) :
    Handling s r (saved u o r.seqid r.argop (some r.obj) resp) :=
  handling_savedIntroducing hpass (by simp [LockPasses]) (.inl rfl) hsame hcounts

theorem handling_openProcess {args : OpenArgs OwnerId Obj} {env : OpenEnv Body Server}
    (hpass : Passes s (.opOpen args env) args.owner) (hsame : ∀ o', SameRecord s u o')
    (hclaim : env.validateClaim = .ok) (hcreate : args.createNotNull = false)
    (hcounts : exempt env.openEx.status = false) :
    Handling s (.opOpen args env) (openProcess args env u) := by
  unfold openProcess
  rw [if_neg (by simp [hclaim]), if_neg (by simp [hcreate])]
  split_ifs
  · exact handling_saved hpass hsame rfl
  · exact handling_saved hpass (fun o' => (hsame o').server _) hcounts

theorem handling_open {args : OpenArgs OwnerId Obj} {env : OpenEnv Body Server}
    (hclaim : env.validateClaim = .ok) (hcreate : args.createNotNull = false)
    (hcounts : exempt env.openEx.status = false) :
    Handling s (.opOpen args env) (nfs4OpOpen args env s) := by
  unfold nfs4OpOpen
  cases env.refused with
  | some status => exact handling_refuse _
  | none =>
    cases env.ownerCreated with
    | false => exact handling_refuse _
    | true =>
      rw [if_neg (by simp)]
      cases howner : s.owners args.owner with
      | none =>
        exact handling_openProcess (.inr (.inl howner)) (sameRecord_create s _ howner false)
          hclaim hcreate hcounts
      | some owner =>
        have hof : s.ownerOf args.owner = owner := by simp [ownerOf, howner]
        dsimp only
        split_ifs with hzero
        · rw [← hof]
          exact handling_openProcess (.inl (by simpa [restarts] using hzero))
            (sameRecord_setConfirmed s _ false) hclaim hcreate hcounts
        · cases hcheck : checkNfs4Seqid owner args.seqid .opOpen args.obj with
          | some resp =>
            exact .answered args.owner resp rfl rfl rfl rfl (by rw [hof]; exact hcheck) rfl
          | none =>
            exact handling_openProcess (.inr (.inr (by rw [hof]; exact hcheck)))
              (SameRecord.refl s) hclaim hcreate hcounts

theorem handling_close {locksHeld : Bool} :
    Handling s (.opClose locksHeld args env) (nfs4OpClose locksHeld args env s) := by
  apply handling_checkedByStateid (r := .opClose locksHeld args env) rfl rfl fun _ => rfl
  intro o hpass
  split_ifs
  · exact handling_saved hpass (SameRecord.refl s) rfl
  · exact handling_saved hpass (fun o' => (SameRecord.refl s o').server _) rfl

theorem handling_openConfirm :
    Handling s (.opOpenConfirm args env) (nfs4OpOpenConfirm args env s) := by
  apply handling_checkedByStateid (r := .opOpenConfirm args env) rfl rfl fun _ => rfl
  intro o hpass
  split_ifs
  · exact handling_unsaved hpass (SameRecord.refl s) rfl
  · exact handling_saved hpass (fun o' => (sameRecord_setConfirmed s o true o').server _) rfl

theorem handling_openDowngrade (hok : env.outcome.status = .ok) :
    Handling s (.opOpenDowngrade args env) (nfs4OpOpenDowngrade args env s) := by
  apply handling_checkedByStateid (r := .opOpenDowngrade args env) rfl rfl fun _ => rfl
  intro o hpass
  rw [if_neg (by simp [hok])]
  exact handling_saved hpass (fun o' => (SameRecord.refl s o').server _) rfl

theorem handling_locku {rangeValid : Bool} (hcounts : exempt env.outcome.status = false) :
    Handling s (.opLocku rangeValid args env) (nfs4OpLocku rangeValid args env s) := by
  apply handling_checkedByStateid (r := .opLocku rangeValid args env) rfl rfl fun _ => rfl
  intro o hpass
  split_ifs
  · exact handling_saved hpass (SameRecord.refl s) rfl
  · exact handling_saved hpass (fun o' => (SameRecord.refl s o').server _) hcounts

section Lock

variable {args : LockArgs OwnerId Obj} {env : LockEnv4 OwnerId Body Server} {l : OwnerId}

theorem handling_granted {q : BitVec 32} (hpass : Passes s r o) (hq : r.lockSeqid = some q)
    (hlock : LockPasses s r (some l)) (hsame : ∀ o', SameRecord s u o') (hok : resp.status = .ok) :
    Handling s r
      { saved (u.record l q r.argop (some r.obj) resp) o r.seqid r.argop (some r.obj) resp with
        introduced := some l } := by
  apply Handling.executed o rfl rfl hpass
  · intro _
    exact recorded_record _ o _ _ _ _
  · intro hexempt
    have hexempt : exempt resp.status = true := hexempt
    rw [hok] at hexempt
    cases hexempt
  · intro l' q' hl' hq' hne _
    obtain rfl := some.inj hl'
    obtain rfl := some.inj (hq.symm.trans hq')
    exact (recorded_record u l q _ _ _).of_same (sameRecord_record_of_ne _ o hne _ _ _ _)
  · exact hlock
  · intro o' ho' hnot
    have hl : o' ≠ l := fun h => hnot (by rw [h]) (by simp [hq]) hok
    exact ((hsame o').trans (sameRecord_record_of_ne u l hl _ _ _ _)).trans
      (sameRecord_record_of_ne _ o ho' _ _ _ _)

variable (hguard : exempt env.stateLock.status →
  env.stateLock.status = .resource ∨ env.stateLock.status = .badStateid)

include hguard

theorem handling_pushLock (introduced : Option (OwnerId × BitVec 32))
    (hpass : Passes s (.opLock args env) o)
    (hq : (opLock args env).lockSeqid = introduced.map Prod.snd)
    (hlock : LockPasses s (.opLock args env) (introduced.map Prod.fst))
    (hsame : ∀ o', SameRecord s u o') :
    Handling s (.opLock args env) (pushLock args env o introduced u) := by
  have hserver : ∀ o', SameRecord s { u with server := env.stateLock.server } o' :=
    fun o' => (hsame o').server _
  unfold pushLock
  dsimp only
  split_ifs with hopen hfailed hcounts
  · exact handling_unsavedIntroducing hpass hlock hsame rfl
  · apply handling_savedIntroducing (r := .opLock args env) hpass hlock (.inr hfailed) hserver
    apply Bool.eq_false_iff.2
    intro hexempt
    rcases hguard hexempt with h | h
    · exact hcounts.1 h
    · exact hcounts.2 h
  · apply handling_unsavedIntroducing hpass hlock hserver
    rcases not_and_or.1 hcounts with h | h
    · simp [not_not.1 h, exempt]
    · simp [not_not.1 h, exempt]
  · have hok : env.stateLock.status = .ok := not_not.1 hfailed
    cases introduced with
    | none => exact handling_saved (r := .opLock args env) hpass hserver (by simp [hok, exempt])
    | some p => exact handling_granted (r := .opLock args env) hpass hq hlock hserver hok

theorem handling_introduceLockOwner {openSeqid q : BitVec 32}
    (hlocker : args.locker = .newLockOwner openSeqid q l)
    (hcheck : checkNfs4Seqid (s.ownerOf o) args.locker.seqid .opLock args.obj = none) :
    Handling s (.opLock args env) (introduceLockOwner args env o q l s) := by
  have hq : (opLock args env).lockSeqid = some q := by
    obtain ⟨locker, obj, rangeValid⟩ := args
    subst hlocker
    rfl
  have hpass : Passes s (.opLock args env) o := .inr (.inr hcheck)
  unfold introduceLockOwner
  split
  · exact handling_unsaved hpass (SameRecord.refl s) rfl
  · dsimp only
    cases howner : s.owners l with
    | none =>
      have hlock : LockPasses s (.opLock args env) (some l) := by
        intro l' _ hl' _ _ hknown
        obtain rfl := some.inj hl'
        rw [howner] at hknown
        cases hknown
      simp only [isNone_none, if_true]
      split
      · exact handling_unsavedIntroducing hpass hlock (sameRecord_create s l howner true) rfl
      · exact handling_pushLock hguard _ hpass hq hlock (sameRecord_create s l howner true)
    | some owner =>
      have hof : s.ownerOf l = owner := by simp [ownerOf, howner]
      simp only [isNone_some, Bool.false_eq_true, if_false]
      split
      case h_1 resp hresp =>
        obtain ⟨-, hresp⟩ := ite_none_right_eq_some.1 hresp
        refine .lockAnswered o l rfl rfl rfl rfl hcheck ?_ ?_
        · intro q' hq'
          obtain rfl := some.inj (hq.symm.trans hq')
          rw [hof]
          exact hresp
        · exact fun _ => rfl
      case h_2 hnone =>
        have hlock : LockPasses s (.opLock args env) (some l) := by
          intro l' q' hl' hq' hhas _
          obtain rfl := some.inj hl'
          obtain rfl := some.inj (hq.symm.trans hq')
          have hhas : env.lockOwnerHasLocks = true := hhas
          rw [if_pos hhas] at hnone
          rw [hof]
          exact hnone
        split
        · exact handling_unsavedIntroducing hpass hlock (SameRecord.refl s) rfl
        · exact handling_pushLock hguard _ hpass hq hlock (SameRecord.refl s)

theorem handling_lockProcess
    (hcheck : checkNfs4Seqid (s.ownerOf o) args.locker.seqid .opLock args.obj = none) :
    Handling s (.opLock args env) (lockProcess args env o s) := by
  have hpass : Passes s (.opLock args env) o := .inr (.inr hcheck)
  have hfailed : ∀ status, exempt status = false → Handling s (.opLock args env)
      (saved s o args.locker.seqid .opLock (some args.obj) ⟨status, none⟩) :=
    fun status h => handling_saved (r := .opLock args env) hpass (SameRecord.refl s) h
  unfold lockProcess
  dsimp only
  split_ifs
  · exact hfailed .inval rfl
  · exact hfailed .openmode rfl
  · cases env.grace with
    | noGrace => exact hfailed .noGrace rfl
    | inGrace => exact hfailed .grace rfl
    | allowed =>
      cases hlocker : args.locker with
      | newLockOwner openSeqid q l => exact handling_introduceLockOwner hguard hlocker hcheck
      | existing q =>
        apply handling_pushLock hguard none hpass _ (by simp [LockPasses]) (SameRecord.refl s)
        obtain ⟨locker, obj, rangeValid⟩ := args
        subst hlocker
        rfl

theorem handling_lock (hh : nfs4OpLock args env s = some h) : Handling s (.opLock args env) h := by
  unfold nfs4OpLock at hh
  split at hh
  · exact handling_refused hh
  · split at hh
    · exact handling_refused hh
    · exact handling_refused hh
    · obtain ⟨resp, hcheck, rfl⟩ := map_eq_some_iff.1 hh
      exact .answered _ resp rfl rfl rfl rfl hcheck rfl
    · exact handling_refused hh
    · split at hh
      · exact handling_refused hh
      · split at hh
        case h_1 resp hcheck =>
          obtain rfl := some.inj hh
          exact .answered _ resp rfl rfl rfl rfl hcheck rfl
        case h_2 hcheck =>
          obtain rfl := some.inj hh
          exact handling_lockProcess hguard hcheck

end Lock

theorem handling_of_handle {s : SeqHistory OwnerId Obj Body Server}
    {r : SeqRequest OwnerId Obj Body Server} (hguard : RecordsWhatCounts s r)
    (hh : r.handle s.state = some h) : Handling s.state r h := by
  cases r with
  | opOpen args env =>
    obtain rfl := some.inj hh
    obtain ⟨hclaim, hcreate, hcounts⟩ := hguard
    exact handling_open hclaim hcreate hcounts
  | opOpenConfirm args env =>
    obtain rfl := some.inj hh
    exact handling_openConfirm
  | opOpenDowngrade args env =>
    obtain rfl := some.inj hh
    exact handling_openDowngrade hguard
  | opClose locksHeld args env =>
    obtain rfl := some.inj hh
    exact handling_close
  | opLock args env => exact handling_lock hguard hh
  | opLocku rangeValid args env =>
    obtain rfl := some.inj hh
    exact handling_locku hguard

end Handling

end EdgeComputing.Nfs4
