import EdgeComputing.Fsal.FsidFindable

/-!
Runs of the operations on the file systems. From a state in which all indexed file systems are
found, an operation does what it says and leads to such a state exactly under `KeepsFindable`, a
condition on the state before it.
-/

namespace EdgeComputing.Fsal

open Function Library PosixFs FsidType

/-- What an operation promises: a re-index that fails changes nothing, and a change to `FSID_DEVICE`
makes the fsid the device numbers. -/
def OpOk (s : FileSystems) (op : FsOp) (ret : Int) (t : FileSystems) : Prop :=
  match op with
  | .reIndex _ _ _ => ret ≠ 0 → Unchanged s t
  | .changeType id fsidType =>
    (ret ≠ 0 → Unchanged s t) ∧ (fsidType = .device → ret = 0 → (t.mem id).fsid = (s.mem id).dev)
  | .create _ _ => True
  | .remove _ => True

def KeepsDevice (s : FileSystems) (id : Nat) : Prop :=
  let fs := s.mem id
  match fs.fsidType with
  | .device => fs.fsid = fs.dev
  | .twoUint64 => shrinkHalves fs.fsid = fs.dev ∨ Taken s id .device (shrinkHalves fs.fsid)
  | .oneUint64 => splitMajor fs.fsid = fs.dev ∨ Taken s id .device (splitMajor fs.fsid)
  | _ => True

def KeepsFindable (s : FileSystems) (op : FsOp) : Prop :=
  match op with
  | .reIndex id fsidType fsid =>
    fsidType = .oneUint64 → fsid.minor = 0 ∨ Taken s id fsidType fsid
  | .changeType id .twoUint64 =>
    (s.mem id).fsidType = .twoUint64 ∨ (s.mem id).fsidType = .major64 ∨
      SamePlace s id (fsidKey .twoUint64 (s.mem id).fsid)
  | .changeType id .device => KeepsDevice s id
  | _ => True

/-- An operation does not stop the server, and afterwards everything is as it should be exactly under
its condition. -/
def StepSpec (rot : Rotations) (s : FileSystems) (op : FsOp) : Prop :=
  ∃ ret t, applyFsOp rot s op = some (ret, t) ∧ Indexed t ∧
    (KeepsFindable s op ↔ Ordered t ∧ OpOk s op ret t)

theorem toNat_and_mask32_lt (v : BitVec 64) : (v &&& mask32).toNat < 2 ^ 32 := by
  rw [BitVec.toNat_and]
  exact Nat.lt_of_le_of_lt Nat.and_le_right (by decide)

theorem toNat_shiftRight_lt (v : BitVec 64) : (v >>> 32).toNat < 2 ^ 32 := by
  have hv := v.isLt
  rw [BitVec.toNat_ushiftRight, Nat.shiftRight_eq_div_pow]
  omega

theorem shrinkHalves_fits32 (fsid : Fsid) : (shrinkHalves fsid).fits32 = true := by
  have hxor : ∀ v : BitVec 64, ((v &&& mask32) ^^^ (v >>> 32)).toNat < 2 ^ 32 := by
    intro v
    rw [BitVec.toNat_xor]
    exact Nat.xor_lt_two_pow (toNat_and_mask32_lt v) (toNat_shiftRight_lt v)
  exact (Fsid.fits32_iff _).2 ⟨hxor _, hxor _⟩

theorem splitMajor_fits32 (fsid : Fsid) : (splitMajor fsid).fits32 = true :=
  (Fsid.fits32_iff _).2 ⟨toNat_shiftRight_lt _, toNat_and_mask32_lt _⟩

section Steps

variable (rot : Rotations) {s : FileSystems} (hs : Indexed s) (ho : Ordered s) {id : Nat}

section Allocated

variable (hid : (s.mem id).inFsidAvl = true)
include hs ho hid

theorem reIndexFsFsid_step (fsidType : FsidType) (fsid : Fsid)
    (hfits : fsidType.is32 = true → fsid.fits32 = true) :
    ∃ ret t, reIndexFsFsid rot s id fsidType fsid = some (ret, t) ∧ Indexed t ∧
      (Ordered t ↔ (fsidType = .oneUint64 → fsid.minor = 0 ∨ Taken s id fsidType fsid)) ∧
      (ret ≠ 0 → Unchanged s t) ∧
      (fsidType ≠ .noType → (ret = 0 ↔ ¬ Taken s id fsidType fsid)) ∧
      (ret = 0 → (t.mem id).fsid = fsid) := by
  by_cases htype : fsidType = .noType
  · refine ⟨negEinval, s, by simp [reIndexFsFsid, htype], hs, iff_of_true ho ?_,
      fun _ => ⟨rfl, rfl, rfl⟩, fun h => absurd htype h, ?_⟩
    · simp [htype]
    · intro h
      cases h
  · obtain ⟨htaken, t, hret, hunchanged⟩ | ⟨hfree, t, hret, hmem, hperm, hsorted⟩ :=
      reIndexFsFsid_cases rot hs ho.sorted hid htype fsid
    · refine ⟨negEexist, t, hret, hunchanged.indexed hs,
        iff_of_true (hunchanged.ordered ho) fun _ => .inr htaken, fun _ => hunchanged,
        fun _ => iff_of_false (by decide) (fun h => h htaken), ?_⟩
      intro h
      cases h
    · refine ⟨0, t, hret, hs.setFsid hmem hperm htype hfits, ?_, fun h => absurd rfl h,
        fun _ => iff_of_true rfl hfree, fun _ => ?_⟩
      · have hone := oneMajor_setFsid_iff hid hmem ho
        constructor
        · intro hordered htype
          exact .inl (hone.1 hordered.oneMajor htype)
        · intro hminor
          exact ⟨hsorted, hone.2 fun h => (hminor h).resolve_right hfree⟩
      · rw [hmem, update_self]
        rfl

variable {fsid : Fsid}

theorem convert_step {fsidType : FsidType} (hkeeps : KeepsFindable s (.changeType id fsidType))
    (heq : changeFsidType rot s id fsidType = reIndexFsFsid rot s id fsidType fsid)
    (hfits : fsidType.is32 = true → fsid.fits32 = true)
    (hone : fsidType = .oneUint64 → fsid.minor = 0)
    (hdev : fsidType = .device → fsid = (s.mem id).dev) :
    StepSpec rot s (.changeType id fsidType) := by
  obtain ⟨ret, t, hret, hindexed, hordered, hunchanged, -, hfsid⟩ :=
    reIndexFsFsid_step rot hs ho hid fsidType fsid hfits
  refine ⟨ret, t, heq.trans hret, hindexed, iff_of_true hkeeps
    ⟨hordered.2 fun h => .inl (hone h), hunchanged, fun h hzero => ?_⟩⟩
  rw [hfsid hzero, hdev h]

theorem device_step (hfits : fsid.fits32 = true)
    (heq : changeFsidType rot s id .device = reIndexFsFsid rot s id .device fsid)
    (hkeeps : KeepsDevice s id ↔ fsid = (s.mem id).dev ∨ Taken s id .device fsid) :
    StepSpec rot s (.changeType id .device) := by
  obtain ⟨ret, t, hret, hindexed, hordered, hunchanged, hzero, hfsid⟩ :=
    reIndexFsFsid_step rot hs ho hid .device fsid fun _ => hfits
  refine ⟨ret, t, heq.trans hret, hindexed, hkeeps.trans ?_⟩
  have hord : Ordered t := hordered.2 (by simp)
  constructor
  · rintro (hdev | htaken)
    · exact ⟨hord, hunchanged, fun _ h => (hfsid h).trans hdev⟩
    · refine ⟨hord, hunchanged, fun _ h => ?_⟩
      exact absurd htaken ((hzero (by simp)).1 h)
  · rintro ⟨-, -, hdev⟩
    by_cases htaken : Taken s id .device fsid
    · exact .inr htaken
    · have hret0 := (hzero (by simp)).2 htaken
      exact .inl ((hfsid hret0).symm.trans (hdev rfl hret0))

theorem setFsid_twoUint64 :
    let t := { s with mem := update s.mem id ((s.mem id).setFsid .twoUint64 (s.mem id).fsid) }
    Indexed t ∧ (SamePlace s id (fsidKey .twoUint64 (s.mem id).fsid) ↔
      Ordered t ∧ OpOk s (.changeType id .twoUint64) 0 t) := by
  intro t
  have hmem : t.mem = update s.mem id ((s.mem id).setFsid .twoUint64 (s.mem id).fsid) :=
    rfl
  have hsorted := sorted_setFsid_iff hid hmem hs ho.sorted
  refine ⟨hs.setFsid hmem (.refl _) (by simp) (by simp [is32]), ?_⟩
  constructor
  · intro hplace
    refine ⟨⟨hsorted.2 hplace, (oneMajor_setFsid_iff hid hmem ho).2 (by simp)⟩, ?_⟩
    exact ⟨fun h => absurd rfl h, by simp⟩
  · rintro ⟨hordered, -⟩
    exact hsorted.1 hordered.sorted

omit hid in
theorem invalid_step {fsidType : FsidType} (hkeeps : KeepsFindable s (.changeType id fsidType))
    (heq : changeFsidType rot s id fsidType = some (negEinval, s)) :
    StepSpec rot s (.changeType id fsidType) := by
  refine ⟨negEinval, s, heq, hs, iff_of_true hkeeps ⟨ho, fun _ => ⟨rfl, rfl, rfl⟩, fun _ h => ?_⟩⟩
  cases h

theorem changeFsidType_step (fsidType : FsidType) : StepSpec rot s (.changeType id fsidType) := by
  by_cases hsame : (s.mem id).fsidType = fsidType
  · refine ⟨0, s, by simp [applyFsOp, changeFsidType, hsame], hs, ?_⟩
    cases fsidType with
    | device => simp [KeepsFindable, KeepsDevice, hsame, OpOk, ho]
    | _ => simp [KeepsFindable, hsame, OpOk, ho]
  · cases fsidType with
    | noType => exact invalid_step rot hs ho trivial (by simp [changeFsidType, hsame])
    | oneUint64 =>
      by_cases htwo64 : (s.mem id).fsidType = .twoUint64
      · exact convert_step rot hs ho hid trivial (by simp [changeFsidType, htwo64]; rfl) (by simp [is32])
          (fun _ => rfl) (by simp)
      · by_cases htwo32 : (s.mem id).fsidType = .twoUint32
        · exact convert_step rot hs ho hid trivial (by simp [changeFsidType, htwo32]; rfl) (by simp [is32])
            (fun _ => rfl) (by simp)
        · exact invalid_step rot hs ho trivial (by simp [changeFsidType, hsame, htwo64, htwo32])
    | major64 =>
      exact convert_step rot hs ho hid trivial (by simp [changeFsidType, hsame]; rfl) (by simp [is32])
        (by simp) (by simp)
    | twoUint64 =>
      by_cases hmajor64 : (s.mem id).fsidType = .major64
      · exact convert_step rot hs ho hid (.inr (.inl hmajor64)) (by simp [changeFsidType, hmajor64]; rfl)
          (by simp [is32]) (by simp) (by simp)
      · refine ⟨0, _, by simp [applyFsOp, changeFsidType, hsame, hmajor64]; rfl, ?_⟩
        have hplace := setFsid_twoUint64 hs ho hid
        simpa [KeepsFindable, hsame, hmajor64] using hplace
    | twoUint32 =>
      by_cases htwo64 : (s.mem id).fsidType = .twoUint64
      · exact convert_step rot hs ho hid trivial (by simp [changeFsidType, twoUint32Fsid, htwo64]; rfl)
          (fun _ => shrinkHalves_fits32 _) (by simp) (by simp)
      · by_cases hone : (s.mem id).fsidType = .oneUint64
        · exact convert_step rot hs ho hid trivial (by simp [changeFsidType, twoUint32Fsid, hone]; rfl)
            (fun _ => splitMajor_fits32 _) (by simp) (by simp)
        · exact invalid_step rot hs ho trivial (by simp [changeFsidType, twoUint32Fsid, hsame, htwo64, hone])
    | device =>
      by_cases htwo64 : (s.mem id).fsidType = .twoUint64
      · exact device_step rot hs ho hid (shrinkHalves_fits32 (s.mem id).fsid)
          (by simp [changeFsidType, twoUint32Fsid, htwo64]) (by simp [KeepsDevice, htwo64])
      · by_cases hone : (s.mem id).fsidType = .oneUint64
        · exact device_step rot hs ho hid (splitMajor_fits32 (s.mem id).fsid)
            (by simp [changeFsidType, twoUint32Fsid, hone]) (by simp [KeepsDevice, hone])
        · have hkeeps : KeepsFindable s (.changeType id .device) := by
            unfold KeepsFindable KeepsDevice
            cases htype : (s.mem id).fsidType <;> simp_all
          exact convert_step rot hs ho hid hkeeps
            (by simp [changeFsidType, twoUint32Fsid, hsame, htwo64, hone])
            (fun _ => (hs.proper id).devFits hid) (by simp) (fun _ => rfl)

theorem removeFs_step : StepSpec rot s (.remove id) := by
  have htree : (removeFs rot s id).avlFsid = rot.remove id s.avlFsid := by simp [removeFs, hid]
  have hproper : free.Proper := ⟨rfl, by simp [free], by simp [free],
    by simp [free]⟩
  refine ⟨0, removeFs rot s id, rfl, ⟨?_, fun other => ?_, ?_⟩, iff_of_true trivial ⟨⟨?_, ?_⟩, trivial⟩⟩
  · rw [htree]
    exact nodup_remove rot hs.nodup id
  · rw [htree, mem_remove, hs.mem_iff, removeFs]
    by_cases hother : other = id
    · simp [hother, free]
    · simp [hother]
  · rw [removeFs, Function.forall_update_iff s.mem fun _ fs => fs.Proper]
    exact ⟨hproper, fun other _ => hs.proper other⟩
  · rw [htree]
    exact (sorted_update_of_notMem (notMem_remove_self rot) _).2 (sorted_remove rot ho.sorted id)
  · rw [removeFs, Function.forall_update_iff s.mem fun _ fs => fs.OneMajor]
    exact ⟨by simp [OneMajor, free], fun other _ => ho.oneMajor other⟩

end Allocated

structure SameIndex (s t : FileSystems) : Prop where
  mem : ∀ id, ∃ device type, t.mem id = { s.mem id with device := device, type := type }
  avlFsid : t.avlFsid.toList = s.avlFsid.toList

theorem switchDevice_same (mem : Nat → PosixFs) (found : Nat) (fs : PosixFs) (id : Nat) :
    ∃ device type, switchDevice mem found fs id =
      { mem id with device := device, type := type } := by
  unfold switchDevice
  split
  next =>
    by_cases hfound : id = found
    · subst hfound
      exact ⟨fs.device, fs.type, update_self ..⟩
    · exact ⟨(mem id).device, (mem id).type, update_of_ne hfound ..⟩
  next => exact ⟨(mem id).device, (mem id).type, rfl⟩

include hs ho in
theorem SameIndex.indexed_ordered {t : FileSystems} (h : SameIndex s t) :
    Indexed t ∧ Ordered t := by
  have hflag : ∀ id, (t.mem id).inFsidAvl = (s.mem id).inFsidAvl := by
    intro id
    obtain ⟨device, type, heq⟩ := h.mem id
    rw [heq]
  have hkey : memKey t.mem = memKey s.mem := by
    funext id
    obtain ⟨device, type, heq⟩ := h.mem id
    rw [memKey, heq, memKey]
  refine ⟨⟨h.avlFsid ▸ hs.nodup, fun id => ?_, fun id => ?_⟩, ?_, fun id => ?_⟩
  · rw [h.avlFsid, hflag, hs.mem_iff]
  · obtain ⟨device, type, heq⟩ := h.mem id
    have hproper := hs.proper id
    rw [heq]
    exact { hproper with }
  · rw [h.avlFsid, hkey]
    exact ho.sorted
  · obtain ⟨device, type, heq⟩ := h.mem id
    rw [heq]
    exact ho.oneMajor id

variable {mem : Nat → PosixFs}

theorem toList_remove_of_perm {l : List Nat} {t : BinTree Nat} (hid : id ∉ l)
    (hperm : t.toList.Perm (id :: l)) (hsorted : t.toList.Pairwise (memKey mem · < memKey mem ·))
    (hl : l.Pairwise (memKey mem · < memKey mem ·)) : (rot.remove id t).toList = l := by
  have hfilter : (id :: l).filter (· ≠ id) = l := by
    rw [List.filter_cons_of_neg (by simp), List.filter_eq_self]
    intro other hother
    simpa using ne_of_mem_of_not_mem hother hid
  refine List.Perm.eq_of_pairwise (fun a b _ _ hab hba => absurd hab (lt_asymm hba))
    (sorted_remove rot hsorted id) hl ?_
  rw [rot.toList_remove]
  exact (hperm.filter _).trans (.of_eq hfilter)

theorem memKey_update_congr {fs fs' : PosixFs} (htype : fs'.fsidType = fs.fsidType)
    (hfsid : fs'.fsid = fs.fsid) : memKey (update mem id fs') = memKey (update mem id fs) := by
  funext other
  by_cases hother : other = id
  · subst hother
    simp only [memKey, update_self, htype, hfsid]
  · rw [memKey_update_of_ne hother, memKey_update_of_ne hother]

variable {info : MountInfo}

theorem posixGetFsid_proper (hdev : info.dev.fits32 = true) (hstatfs : info.statfs.fits32 = true) :
    (posixGetFsid info).1 ≠ .noType ∧ (posixGetFsid info).1 ≠ .oneUint64 ∧
      ((posixGetFsid info).1.is32 = true → (posixGetFsid info).2.fits32 = true) := by
  unfold posixGetFsid
  split
  next => exact ⟨by simp, by simp, fun _ => hdev⟩
  next =>
    split
    next => exact ⟨by simp, by simp, by simp [is32]⟩
    next =>
      refine ⟨by simp, by simp, fun _ => ?_⟩
      split
      next => exact hdev
      next => exact hstatfs

include hs ho in
theorem posixCreateFileSystem_step (hfree : (s.mem id).allocated = false)
    (hdev : info.dev.fits32 = true) (hstatfs : info.statfs.fits32 = true) :
    StepSpec rot s (.create id info) := by
  have hnotIn : id ∉ s.avlFsid.toList := by
    rw [hs.mem_iff, ← (hs.proper id).allocated, hfree]
    simp
  suffices h : Indexed (posixCreateFileSystem rot s id info) ∧
      Ordered (posixCreateFileSystem rot s id info) from
    ⟨0, _, rfl, h.1, iff_of_true trivial ⟨h.2, trivial⟩⟩
  obtain ⟨htyped, hnotOne, hfits⟩ := posixGetFsid_proper hdev hstatfs
  unfold posixCreateFileSystem
  generalize posixGetFsid info = id4 at htyped hnotOne hfits ⊢
  obtain ⟨fsidType, fsid⟩ := id4
  dsimp only at htyped hnotOne hfits ⊢
  set fs := PosixFs.mk true info.device info.type info.dev fsid fsidType false false
  have hsorted := (sorted_update_of_notMem hnotIn fs).2 ho.sorted
  obtain ⟨found, -, -, hins⟩ | ⟨-, t, hins, hperm, hsorted'⟩ := avltreeInsert_cases rot id hsorted
  · rw [hins]
    exact SameIndex.indexed_ordered hs ho ⟨switchDevice_same s.mem found fs, rfl⟩
  · rw [hins]
    have hnodup : t.toList.Nodup := hperm.nodup_iff.2 (List.nodup_cons.2 ⟨hnotIn, hs.nodup⟩)
    dsimp only
    split
    next found avlDev _ =>
      exact SameIndex.indexed_ordered hs ho ⟨switchDevice_same s.mem found fs,
        toList_remove_of_perm rot hnotIn hperm hsorted' hsorted⟩
    next avlDev _ =>
      refine ⟨⟨hnodup, fun other => ?_, ?_⟩, ?_, ?_⟩
      · rw [hperm.mem_iff, List.mem_cons, hs.mem_iff]
        by_cases hother : other = id
        · simp [hother]
        · simp [hother]
      · rw [Function.forall_update_iff s.mem fun _ fs => fs.Proper]
        exact ⟨⟨rfl, fun _ => htyped, fun _ => hfits, fun _ => hdev⟩, fun other _ => hs.proper other⟩
      · have hkey : memKey (update s.mem id
            { fs with inFsidAvl := true, inDevAvl := true }) = memKey (update s.mem id fs) :=
          memKey_update_congr rfl rfl
        exact hkey ▸ hsorted'
      · rw [Function.forall_update_iff s.mem fun _ fs => fs.OneMajor]
        exact ⟨fun _ h => absurd h hnotOne, fun other _ => ho.oneMajor other⟩

include hs ho in
theorem applyFsOp_step {op : FsOp} (hallowed : op.allowed s = true) : StepSpec rot s op := by
  have hindexed : ∀ id, (s.mem id).allocated = true → (s.mem id).inFsidAvl = true := by
    intro id h
    rw [← (hs.proper id).allocated, h]
  cases op with
  | create id info =>
    simp only [FsOp.allowed, Bool.and_eq_true, Bool.not_eq_true'] at hallowed
    exact posixCreateFileSystem_step rot hs ho hallowed.1.1 hallowed.1.2 hallowed.2
  | reIndex id fsidType fsid =>
    simp only [FsOp.allowed, Bool.and_eq_true, Bool.or_eq_true, Bool.not_eq_true'] at hallowed
    obtain ⟨ret, t, hret, hi, hiff, hunchanged, -⟩ :=
      reIndexFsFsid_step rot hs ho (hindexed id hallowed.1) fsidType fsid fun h =>
        hallowed.2.resolve_left (by simp [h])
    exact ⟨ret, t, hret, hi, hiff.symm.trans (iff_self_and.2 fun _ => hunchanged)⟩
  | changeType id fsidType => exact changeFsidType_step rot hs ho (hindexed id hallowed) fsidType
  | remove id => exact removeFs_step rot hs ho (hindexed id hallowed)

end Steps

def fsGuard (σ : FsState) (op : FsOp) : Prop :=
  match σ with
  | .running s => KeepsFindable s op
  | .fatal => False

/-- In every run whose operations meet `KeepsFindable` every indexed file system is found by its
fsid, packed and unpacked or not, and the server goes on. From such a state an operation does what
it promises and keeps everything findable exactly if it meets the condition. -/
theorem fsid_findable_iff {rot : Rotations} {σ : FsState}
    (hσ : (fsMachine rot).ReachableBy fsGuard σ) :
    ∃ s, σ = .running s ∧ Findable s ∧
      ∀ op, op.allowed s = true → ∃ ret t, applyFsOp rot s op = some (ret, t) ∧
        (KeepsFindable s op ↔ Findable t ∧ OpOk s op ret t) := by
  have hinv : ∃ s, σ = .running s ∧ Indexed s ∧ Ordered s := by
    refine hσ.invariant (P := fun σ => ∃ s, σ = .running s ∧ Indexed s ∧ Ordered s) ?_ ?_
    · rintro _ rfl
      refine ⟨_, rfl, ⟨.nil, by simp [BinTree.toList, free], fun _ => ?_⟩, .nil, fun _ => ?_⟩
      · exact ⟨rfl, by simp [free], by simp [free], by simp [free]⟩
      · simp [OneMajor, free]
    · rintro _ op τ ⟨s, rfl, hs, ho⟩ hguard hstep
      simp only [fsMachine] at hstep
      split at hstep
      next hallowed =>
        obtain ⟨ret, t, hret, hi, hiff⟩ := applyFsOp_step rot hs ho hallowed
        rw [hret] at hstep
        cases hstep
        exact ⟨t, rfl, hi, (hiff.1 hguard).1⟩
      next => cases hstep
  obtain ⟨s, rfl, hs, ho⟩ := hinv
  refine ⟨s, rfl, (findable_iff hs).2 ho, fun op hallowed => ?_⟩
  obtain ⟨ret, t, hret, hi, hiff⟩ := applyFsOp_step rot hs ho hallowed
  exact ⟨ret, t, hret, by rw [findable_iff hi]; exact hiff⟩

def plainTrees : Rotations where
  afterInsert := fun t => t
  remove := fun id t => t.filter (· ≠ id)
  toList_afterInsert := fun _ => rfl
  toList_remove := fun id t => BinTree.toList_filter (fun other => decide (other ≠ id)) t

def statfsMount (n : BitVec 64) : MountInfo := ⟨[], [], ⟨8, n⟩, false, none, ⟨n, 0⟩⟩

theorem re_indexed_findable :
    ∃ s, (fsMachine plainTrees).ReachableBy fsGuard (.running s) ∧
      (s.mem 0).fsidType = .major64 ∧ Findable s := by
  have hcreated : (fsMachine plainTrees).ReachableBy fsGuard _ :=
    .step (a := .create 0 (statfsMount 1)) (.init rfl) trivial rfl
  have hreach := hcreated.step (a := .reIndex 0 .major64 ⟨5, 9⟩) (by intro h; cases h) rfl
  obtain ⟨s, hs, hfind, -⟩ := fsid_findable_iff hreach
  cases hs
  exact ⟨_, hreach, rfl, hfind⟩

/-- Of two file systems with ids of two 32-bit numbers the second changes to two 64-bit numbers and
is not found any more. -/
theorem changed_in_place_lost :
    ∃ s, (fsMachine plainTrees).Reachable (.running s) ∧ (s.mem 1).inFsidAvl = true ∧
      lookupFsidLocked s (s.mem 1).fsid (s.mem 1).fsidType = none ∧ ¬ Findable s := by
  have hrun : ∃ s, (fsMachine plainTrees).runFrom
      (.running ⟨fun _ => free, .leaf, .leaf⟩)
      [.create 0 (statfsMount 1), .create 1 (statfsMount 2), .changeType 1 .twoUint64] =
      some (.running s) ∧ (s.mem 1).inFsidAvl = true ∧
      lookupFsidLocked s (s.mem 1).fsid (s.mem 1).fsidType = none := ⟨_, rfl, rfl, rfl⟩
  obtain ⟨s, hrun, hin, hlost⟩ := hrun
  refine ⟨s, Machine.reachable_of_runFrom (.init rfl) _ hrun, hin, hlost, fun hfind => ?_⟩
  have hfound := (hfind 1 hin).1
  rw [hlost] at hfound
  cases hfound

end EdgeComputing.Fsal
