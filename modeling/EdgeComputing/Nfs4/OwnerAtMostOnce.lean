import Mathlib.Tactic.ByContra
import EdgeComputing.Nfs4.OwnerSequencing

/-!
At-most-once execution by owner. As long as every request that passes its seqid check is recorded
exactly when it counts, the check admits the successor, repeats the response or answers BAD_SEQID. A
LOCK that introduces a lock owner without locks is not checked against it.
-/

namespace EdgeComputing.Nfs4

open Option Library Sal SeqRequest

variable {OwnerId Obj Body Server : Type*} [DecidableEq OwnerId] [DecidableEq Obj]

section History

variable {s : SeqHistory OwnerId Obj Body Server} {r : SeqRequest OwnerId Obj Body Server}
  {h : Handled OwnerId Obj Body Server} {last : OwnerId → Option (Done Obj Body)} {o : OwnerId}
  {d : Done Obj Body} {q : BitVec 32}

omit [DecidableEq Obj] in
theorem remember_of_not_executed (hexecuted : h.executed = false) : r.remember h last = last := by
  unfold remember rememberLock
  rw [hexecuted]
  cases h.introduced <;> cases r.lockSeqid <;> cases h.checked <;> simp

omit [DecidableEq Obj] in
theorem rememberLock_eq_some (hexecuted : h.executed = true)
    (hd : r.rememberLock h last o = some d) :
    (∃ q, h.introduced = some o ∧ r.lockSeqid = some q ∧ h.resp.status = .ok ∧
        d = ⟨q, r.argop, r.obj, h.resp⟩) ∨
      (h.introduced = some o → r.lockSeqid ≠ none → h.resp.status ≠ .ok) ∧ last o = some d := by
  unfold rememberLock at hd
  cases hl : h.introduced with
  | none => exact .inr ⟨fun h => by simp at h, by simpa [hl] using hd⟩
  | some l =>
    cases hq : r.lockSeqid with
    | none => exact .inr ⟨fun _ h => absurd rfl h, by simpa [hl, hq] using hd⟩
    | some q =>
      rw [hl, hq] at hd
      dsimp only at hd
      split_ifs at hd with hgranted
      · unfold SeqHistory.note at hd
        split_ifs at hd with ho
        · exact .inl ⟨q, by rw [ho], rfl, hgranted.2, (some.inj hd).symm⟩
        · exact .inr ⟨fun h => absurd (some.inj h).symm ho, hd⟩
      · exact .inr ⟨fun _ _ hok => hgranted ⟨hexecuted, hok⟩, hd⟩

theorem Handling.recorded (hh : Handling s.state r h)
    (hinv : ∀ o d, s.last o = some d → Recorded s.state o d) (o : OwnerId) (d : Done Obj Body)
    (hd : r.remember h s.last o = some d) : Recorded h.state o d := by
  have hkept : h.executed = false → h.state = s.state → Recorded h.state o d := by
    intro hexecuted hstate
    rw [remember_of_not_executed hexecuted] at hd
    rw [hstate]
    exact hinv o d hd
  cases hh with
  | refused _ _ hexecuted hstate | answered _ _ _ _ hexecuted hstate
  | lockAnswered _ _ _ _ hexecuted hstate =>
    exact hkept hexecuted hstate
  | executed o' hchecked hexecuted _ hself hexempt hlock _ hother =>
    simp only [remember, hchecked, hexecuted, true_and] at hd
    by_cases ho : o = o'
    · subst ho
      split_ifs at hd with hcounts
      · simp only [SeqHistory.note, if_true, some.injEq] at hd
        rw [← hd]
        exact hself hcounts
      · rcases rememberLock_eq_some hexecuted hd with ⟨q, _, _, hok, _⟩ | ⟨_, hlast⟩
        · exact absurd (by rw [hok]; rfl) hcounts
        · exact (hinv o d hlast).of_same (hexempt (by simpa using hcounts))
    · have hd' : r.rememberLock h s.last o = some d := by
        split_ifs at hd
        · simpa [SeqHistory.note, ho] using hd
        · exact hd
      rcases rememberLock_eq_some hexecuted hd' with ⟨q, hl, hq, hok, rfl⟩ | ⟨hnot, hlast⟩
      · exact hlock o q hl hq ho hok
      · exact (hinv o d hlast).of_same (hother o ho hnot)

theorem recorded_of_reachable
    (hs : seqMachine.ReachableBy RecordsWhatCounts s) :
    ∀ o d, s.last o = some d → Recorded s.state o d := by
  induction hs with
  | init hinit =>
    obtain ⟨server, rfl⟩ := hinit
    simp
  | step _ hguard hstep ih =>
    obtain ⟨h, hh, rfl⟩ := map_eq_some_iff.1 hstep
    exact (handling_of_handle hguard hh).recorded ih

structure Sequenced (s : SeqHistory OwnerId Obj Body Server)
    (r : SeqRequest OwnerId Obj Body Server) (h : Handled OwnerId Obj Body Server)
    (seqid : BitVec 32) (d : Done Obj Body) : Prop where
  successor : h.executed = true → seqid = d.seqid + 1
  replay : seqid = d.seqid → r.argop = d.argop → r.obj = d.obj →
    h.resp = r.repeated d.resp ∧ h.state = s.state
  badSeqid : seqid ≠ d.seqid + 1 → ¬ (seqid = d.seqid ∧ r.argop = d.argop ∧ r.obj = d.obj) →
    h.resp = ⟨.badSeqid, none⟩ ∧ h.state = s.state

omit [DecidableEq OwnerId] in
theorem Recorded.check {s : SeqState OwnerId Obj Body Server} (h : Recorded s o d)
    (seqid : BitVec 32) (argop : SeqOp) (obj : Obj) :
    checkNfs4Seqid (s.ownerOf o) seqid argop obj =
      if seqid = d.seqid + 1 then none
      else if seqid = d.seqid ∧ argop = d.argop ∧ obj = d.obj then some d.resp
      else some ⟨.badSeqid, none⟩ := by
  obtain ⟨hseqid, hlast, hargop, hresp, _⟩ := h
  rw [checkNfs4Seqid_of_recorded hlast, hseqid, hargop, hresp]

theorem ne_succ (a : BitVec 32) : a ≠ a + 1 := by
  bv_omega

omit [DecidableEq OwnerId] in
theorem sequenced_of_pass (hrec : Recorded s.state o d)
    (hcheck : checkNfs4Seqid (s.state.ownerOf o) q r.argop r.obj = none) : Sequenced s r h q d := by
  have hq : q = d.seqid + 1 := by
    rw [hrec.check] at hcheck
    by_contra hne
    rw [if_neg hne] at hcheck
    split_ifs at hcheck
  refine ⟨fun _ => hq, fun hsame => ?_, fun hne => absurd hq hne⟩
  exact absurd (hsame.symm.trans hq) (ne_succ _)

omit [DecidableEq OwnerId] in
theorem sequenced_of_answer {resp : Response Body} (hrec : Recorded s.state o d)
    (hcheck : checkNfs4Seqid (s.state.ownerOf o) q r.argop r.obj = some resp)
    (hresp : h.resp = r.repeated resp) (hexecuted : h.executed = false)
    (hstate : h.state = s.state) : Sequenced s r h q d := by
  rw [hrec.check] at hcheck
  refine ⟨fun h => absurd (hexecuted.symm.trans h) (by decide), ?_, ?_⟩
  · intro hq hargop hobj
    rw [if_neg (by rw [hq]; exact ne_succ _), if_pos ⟨hq, hargop, hobj⟩] at hcheck
    rw [hresp, some.inj hcheck]
    exact ⟨rfl, hstate⟩
  · intro hq hnot
    rw [if_neg hq, if_neg hnot] at hcheck
    rw [hresp, ← some.inj hcheck]
    refine ⟨?_, hstate⟩
    cases r <;> rfl

end History

section Owner

variable {s : SeqState OwnerId Obj Body Server} {h : Handled OwnerId Obj Body Server}

omit [DecidableEq Obj] in
theorem checked_openProcess (args : OpenArgs OwnerId Obj) (env : OpenEnv Body Server) :
    (openProcess args env s).checked = some args.owner := by
  unfold openProcess
  split_ifs <;> rfl

theorem checked_open (args : OpenArgs OwnerId Obj) (env : OpenEnv Body Server) :
    (nfs4OpOpen args env s).checked = (opOpen args env).owner := by
  unfold nfs4OpOpen
  cases hrefused : env.refused with
  | some status => simp [owner, hrefused, refuse]
  | none =>
    cases hcreated : env.ownerCreated with
    | false => simp [owner, hcreated, refuse]
    | true =>
      rw [if_neg (by simp), owner, if_pos ⟨hrefused, hcreated⟩]
      cases s.owners args.owner with
      | none => exact checked_openProcess args env
      | some owner =>
        dsimp only
        split_ifs
        · exact checked_openProcess args env
        · cases checkNfs4Seqid owner args.seqid .opOpen args.obj with
          | some resp => rfl
          | none => exact checked_openProcess args env

omit [DecidableEq OwnerId] in
theorem checked_checkedByStateid (argop : SeqOp) (gone : Response Body) (args : StateidArgs Obj)
    (env : StateidEnv OwnerId Body Server) {process : OwnerId → Handled OwnerId Obj Body Server}
    (hprocess : ∀ o, (process o).checked = some o) :
    (checkedByStateid argop gone args env s process).checked =
      if env.refused = none then env.stateid.owner else none := by
  unfold checkedByStateid
  cases hrefused : env.refused with
  | some status => simp [refuse]
  | none =>
    rw [if_pos rfl]
    cases env.stateid with
    | failure status => rfl
    | valid owner | replay owner =>
      cases owner with
      | none => rfl
      | some o =>
        dsimp only
        cases checkNfs4Seqid (s.ownerOf o) args.seqid argop args.obj with
        | some resp => rfl
        | none => exact hprocess o

omit [DecidableEq Obj] in
theorem checked_pushLock (args : LockArgs OwnerId Obj) (env : LockEnv4 OwnerId Body Server)
    (o : OwnerId) (introduced : Option (OwnerId × BitVec 32)) :
    (pushLock args env o introduced s).checked = some o := by
  unfold pushLock
  dsimp only
  split_ifs
  · rfl
  · rfl
  · rfl
  · cases introduced <;> rfl

theorem checked_lockProcess (args : LockArgs OwnerId Obj) (env : LockEnv4 OwnerId Body Server)
    (o : OwnerId) : (lockProcess args env o s).checked = some o := by
  unfold lockProcess
  dsimp only
  split_ifs
  · rfl
  · rfl
  · cases env.grace with
    | noGrace => rfl
    | inGrace => rfl
    | allowed =>
      cases args.locker with
      | existing q => exact checked_pushLock args env o none
      | newLockOwner openSeqid q l =>
        dsimp only
        unfold introduceLockOwner
        dsimp only
        split
        · rfl
        · split
          · rfl
          · split
            · rfl
            · exact checked_pushLock args env o _

theorem checked_lock {args : LockArgs OwnerId Obj} {env : LockEnv4 OwnerId Body Server}
    (hh : nfs4OpLock args env s = some h) :
    h.checked = (opLock args env).owner := by
  unfold nfs4OpLock at hh
  unfold owner
  cases hrefused : env.refused with
  | some status =>
    rw [hrefused] at hh
    obtain rfl := some.inj hh
    simp [refuse, hrefused]
  | none =>
    rw [hrefused] at hh
    dsimp only
    rw [if_pos hrefused]
    cases hstateid : env.stateid with
    | failure status =>
      rw [hstateid] at hh
      obtain rfl := some.inj hh
      rfl
    | replay owner =>
      rw [hstateid] at hh
      cases owner with
      | none =>
        obtain rfl := some.inj hh
        rfl
      | some o =>
        obtain ⟨resp, _, rfl⟩ := map_eq_some_iff.1 hh
        rfl
    | valid owner =>
      rw [hstateid] at hh
      cases owner with
      | none =>
        obtain rfl := some.inj hh
        simp [refuse]
      | some o =>
        cases hlock : lockRefused args env with
        | some status =>
          simp only [hlock] at hh
          obtain rfl := some.inj hh
          rfl
        | none =>
          simp only [hlock] at hh
          dsimp only
          rw [if_pos rfl]
          split at hh
          · obtain rfl := some.inj hh
            rfl
          · obtain rfl := some.inj hh
            exact checked_lockProcess args env o

theorem checked_eq_owner {r : SeqRequest OwnerId Obj Body Server} (hh : r.handle s = some h) :
    h.checked = r.owner := by
  cases r with
  | opOpen args env =>
    obtain rfl := some.inj hh
    exact checked_open args env
  | opOpenConfirm args env | opOpenDowngrade args env | opClose locksHeld args env
  | opLocku rangeValid args env =>
    obtain rfl := some.inj hh
    apply checked_checkedByStateid
    intro o
    split_ifs <;> rfl
  | opLock args env => exact checked_lock hh

end Owner

instance (s : SeqHistory OwnerId Obj Body Server) (r : SeqRequest OwnerId Obj Body Server) :
    Decidable (RecordsWhatCounts s r) := by
  cases r <;> unfold RecordsWhatCounts <;> infer_instance

def openRequest (seqid : BitVec 32) : SeqRequest Nat Unit Nat Unit :=
  .opOpen ⟨0, seqid, (), false, true⟩ ⟨none, true, .ok, .ok, true, ⟨.ok, some 10, ()⟩⟩

def lockIntroducing (openSeqid lockSeqid : BitVec 32) (hasLocks : Bool) :
    SeqRequest Nat Unit Nat Unit :=
  .opLock ⟨.newLockOwner openSeqid lockSeqid 1, (), true⟩
    ⟨none, .valid (some 0), none, none, true, .allowed, true, hasLocks, true, true,
      ⟨.ok, some 20, ()⟩⟩

def lockuRequest (seqid : BitVec 32) : SeqRequest Nat Unit Nat Unit :=
  .opLocku true ⟨seqid, ()⟩ ⟨none, .valid (some 1), ⟨.ok, some 30, ()⟩⟩

def lockedOnce : List (SeqRequest Nat Unit Nat Unit) :=
  [openRequest 1, lockIntroducing 2 5 false, lockuRequest 6]

def observed {α : Type} (rs : List (SeqRequest Nat Unit Nat Unit))
    (r : SeqRequest Nat Unit Nat Unit)
    (f : SeqHistory Nat Unit Nat Unit → Handled Nat Unit Nat Unit → α) : Option α :=
  (seqMachine.runFromBy RecordsWhatCounts ⟨⟨fun _ => none, ()⟩, fun _ => none⟩ rs).bind fun s =>
    (r.handle s.state).map (f s)

theorem exists_of_observed {α : Type} {rs : List (SeqRequest Nat Unit Nat Unit)}
    {r : SeqRequest Nat Unit Nat Unit}
    {f : SeqHistory Nat Unit Nat Unit → Handled Nat Unit Nat Unit → α} {a : α}
    (h : observed rs r f = some a) :
    ∃ s h, seqMachine.ReachableBy RecordsWhatCounts s ∧ r.handle s.state = some h ∧ f s h = a := by
  obtain ⟨s, hs, hrest⟩ := bind_eq_some_iff.1 h
  obtain ⟨h, hh, hf⟩ := map_eq_some_iff.1 hrest
  exact ⟨s, h, Machine.reachableBy_of_runFromBy (.init ⟨(), rfl⟩) rs hs, hh, hf⟩

end EdgeComputing.Nfs4
