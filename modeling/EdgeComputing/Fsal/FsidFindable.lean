import EdgeComputing.Fsal.FsidIndex
import Mathlib.Data.Prod.Lex
import Mathlib.Order.Nat

/-!
Every indexed file system is found by its fsid, and by the one unpacked from a file handle, as long
as the keys increase along the tree and no `FSID_ONE_UINT64` has a minor number, which is not
packed. Each operation is described by its effect on the memory and on the nodes in order.
-/

namespace EdgeComputing.Fsal

open List Function Library BinTree BitVec

/-- The key that orders the index: the type, the major and, for all types but one, the minor
number. -/
def fsidKey (fsidType : FsidType) (fsid : Fsid) : Nat ×ₗ Nat ×ₗ Nat :=
  toLex (fsidType.toNat, toLex (fsid.major.toNat,
    if fsidType = .major64 then 0 else fsid.minor.toNat))

def memKey (mem : Nat → PosixFs) (id : Nat) : Nat ×ₗ Nat ×ₗ Nat :=
  fsidKey (mem id).fsidType (mem id).fsid

theorem FsidType.toNat_inj {a b : FsidType} (h : a.toNat = b.toNat) : a = b := by
  cases a <;> cases b <;> first | rfl | cases h

theorem fsidKey_lt {ltype rtype : FsidType} {lk rk : Fsid}
    (h : ltype.toNat < rtype.toNat ∨ ltype = rtype ∧ (lk.major < rk.major ∨
      lk.major = rk.major ∧ ltype ≠ .major64 ∧ lk.minor < rk.minor)) :
    fsidKey ltype lk < fsidKey rtype rk := by
  rw [fsidKey, fsidKey, Prod.Lex.toLex_lt_toLex, Prod.Lex.toLex_lt_toLex]
  obtain htype | ⟨rfl, hmajor | ⟨hmajor, hne, hminor⟩⟩ := h
  · exact .inl htype
  · exact .inr ⟨rfl, .inl hmajor⟩
  · refine .inr ⟨rfl, .inr ⟨congrArg BitVec.toNat hmajor, ?_⟩⟩
    rw [if_neg hne, if_neg hne]
    exact hminor

theorem fsalFsCmpfFsid_eq_compare (ltype : FsidType) (lk : Fsid) (rtype : FsidType) (rk : Fsid) :
    fsalFsCmpfFsid ltype lk rtype rk = compare (fsidKey ltype lk) (fsidKey rtype rk) := by
  symm
  unfold fsalFsCmpfFsid
  split_ifs with hlt hgt hmlt hmgt hmajor64 hnlt hngt
  · exact compare_lt_iff_lt.2 (fsidKey_lt (.inl hlt))
  · exact compare_gt_iff_gt.2 (fsidKey_lt (.inl hgt))
  all_goals
    obtain rfl : ltype = rtype := FsidType.toNat_inj (by omega)
  · exact compare_lt_iff_lt.2 (fsidKey_lt (.inr ⟨rfl, .inl hmlt⟩))
  · exact compare_gt_iff_gt.2 (fsidKey_lt (.inr ⟨rfl, .inl hmgt⟩))
  all_goals
    have hmajor : lk.major = rk.major := by
      apply eq_of_toNat_eq
      simp only [gt_iff_lt, lt_def] at hmlt hmgt
      omega
  · simp [fsidKey, hmajor64, hmajor]
  · exact compare_lt_iff_lt.2 (fsidKey_lt (.inr ⟨rfl, .inr ⟨hmajor, hmajor64, hnlt⟩⟩))
  · exact compare_gt_iff_gt.2 (fsidKey_lt (.inr ⟨rfl, .inr ⟨hmajor.symm, hmajor64, hngt⟩⟩))
  · have hminor : lk.minor = rk.minor := by
      apply eq_of_toNat_eq
      simp only [gt_iff_lt, lt_def] at hnlt hngt
      omega
    simp [fsidKey, hmajor, hminor]

theorem cmpFsid_eq_compare (mem : Nat → PosixFs) (lhs rhs : Nat) :
    cmpFsid mem lhs rhs = compare (memKey mem lhs) (memKey mem rhs) :=
  fsalFsCmpfFsid_eq_compare ..

variable {fsidType : FsidType}

structure PosixFs.Proper (fs : PosixFs) : Prop where
  allocated : fs.allocated = fs.inFsidAvl
  typed : fs.inFsidAvl = true → fs.fsidType ≠ .noType
  fits : fs.inFsidAvl = true → fs.fsidType.is32 = true → fs.fsid.fits32 = true
  devFits : fs.inFsidAvl = true → fs.dev.fits32 = true

def PosixFs.OneMajor (fs : PosixFs) : Prop :=
  fs.inFsidAvl = true → fs.fsidType = .oneUint64 → fs.fsid.minor = 0

structure Indexed (s : FileSystems) : Prop where
  nodup : s.avlFsid.toList.Nodup
  mem_iff : ∀ id, id ∈ s.avlFsid.toList ↔ (s.mem id).inFsidAvl = true
  proper : ∀ id, (s.mem id).Proper

structure Ordered (s : FileSystems) : Prop where
  sorted : s.avlFsid.toList.Pairwise (memKey s.mem · < memKey s.mem ·)
  oneMajor : ∀ id, (s.mem id).OneMajor

/-- A file system that is in the index is found by its fsid and type, also after the fsid was packed
and unpacked. -/
def Findable (s : FileSystems) : Prop :=
  ∀ id, (s.mem id).inFsidAvl = true →
    lookupFsidLocked s (s.mem id).fsid (s.mem id).fsidType = some id ∧
    ∀ max, sizeofFsid (s.mem id).fsidType ≤ max →
      ∃ buf fsid, encodeFsid max (s.mem id).fsid (s.mem id).fsidType = some buf ∧
        decodeFsid max buf (s.mem id).fsidType = some fsid ∧
        lookupFsidLocked s fsid (s.mem id).fsidType = some id

theorem readWord_leBytes_append {n : Nat} {v : BitVec 64} (hv : v.toNat < 256 ^ n)
    (rest : List Nat) : readWord n (leBytes n v.toNat ++ rest) = v := by
  rw [readWord, take_leBytes_append, ofLeBytes_leBytes, Nat.mod_eq_of_lt hv, ofNat_toNat,
    setWidth_eq]

theorem readWord_leBytes {n : Nat} {v : BitVec 64} (hv : v.toNat < 256 ^ n) :
    readWord n (leBytes n v.toNat) = v := by
  simpa using readWord_leBytes_append hv []

theorem toNat_lt_256_pow (v : BitVec 64) : v.toNat < 256 ^ 8 := v.isLt

theorem Fsid.fits32_iff (fsid : Fsid) :
    fsid.fits32 = true ↔ fsid.major.toNat < 256 ^ 4 ∧ fsid.minor.toNat < 256 ^ 4 := by
  simp [fits32]

/-- The fsid read from a file handle: the same, but for the minor number that two types do not
pack. -/
theorem decodeFsid_encodeFsid (fsid : Fsid) {max : Nat} (hmax : sizeofFsid fsidType ≤ max)
    (htyped : fsidType ≠ .noType) (hfits : fsidType.is32 = true → fsid.fits32 = true) :
    ∃ buf, encodeFsid max fsid fsidType = some buf ∧
      decodeFsid max buf fsidType = some (if fsidType = .oneUint64 ∨ fsidType = .major64
        then ⟨fsid.major, 0⟩ else fsid) := by
  have hsize : ¬ max < sizeofFsid fsidType := by omega
  have hmajor := toNat_lt_256_pow fsid.major
  have hminor := toNat_lt_256_pow fsid.minor
  simp only [encodeFsid, decodeFsid, if_neg hsize]
  cases fsidType with
  | noType => exact absurd rfl htyped
  | oneUint64 | major64 => exact ⟨_, rfl, by simp [readWord_leBytes hmajor]⟩
  | twoUint64 =>
    refine ⟨_, rfl, ?_⟩
    simp [readWord_leBytes_append hmajor, drop_leBytes_append, readWord_leBytes hminor]
  | twoUint32 | device =>
    obtain ⟨hmajor32, hminor32⟩ := fsid.fits32_iff.1 (hfits rfl)
    refine ⟨_, rfl, ?_⟩
    simp [readWord_leBytes_append hmajor32, drop_leBytes_append, readWord_leBytes hminor32]

variable {id : Nat}

theorem lookupFsidLocked_of_sorted {s : FileSystems} (hs : Indexed s)
    (hsorted : s.avlFsid.toList.Pairwise (memKey s.mem · < memKey s.mem ·))
    (hid : (s.mem id).inFsidAvl = true) {fsid : Fsid}
    (hkey : fsidKey (s.mem id).fsidType fsid = memKey s.mem id) :
    lookupFsidLocked s fsid (s.mem id).fsidType = some id :=
  search_of_sorted (fun _ => fsalFsCmpfFsid_eq_compare ..) hsorted ((hs.mem_iff id).2 hid)
    hkey.symm

theorem findable_iff {s : FileSystems} (hs : Indexed s) : Findable s ↔ Ordered s := by
  constructor
  · intro hfind
    refine ⟨?_, fun id hid hone => ?_⟩
    · refine sorted_of_search (cmpFsid_eq_compare s.mem) hs.nodup fun id hid => ?_
      exact (hfind id ((hs.mem_iff id).1 hid)).1
    · obtain ⟨buf, fsid, hbuf, hfsid, hlookup⟩ := (hfind id hid).2 _ (Nat.le_refl _)
      obtain ⟨buf', hbuf', hdecoded⟩ := decodeFsid_encodeFsid (s.mem id).fsid
        (Nat.le_refl _) ((hs.proper id).typed hid) ((hs.proper id).fits hid)
      obtain rfl : buf = buf' := Option.some.inj (hbuf.symm.trans hbuf')
      rw [hfsid, hone, if_pos (.inl rfl)] at hdecoded
      cases hdecoded
      have hkey := (mem_of_search (fun _ => fsalFsCmpfFsid_eq_compare ..) hlookup).2
      rw [hone, fsidKey, fsidKey, if_neg (by decide), if_neg (by decide)] at hkey
      have hpair := congrArg Prod.snd (toLex.injective hkey)
      exact eq_of_toNat_eq (congrArg Prod.snd (toLex.injective hpair))
  · rintro ⟨hsorted, hone⟩ id hid
    refine ⟨lookupFsidLocked_of_sorted hs hsorted hid rfl, fun max hmax => ?_⟩
    obtain ⟨buf, hbuf, hdecoded⟩ :=
      decodeFsid_encodeFsid _ hmax ((hs.proper id).typed hid) ((hs.proper id).fits hid)
    refine ⟨buf, _, hbuf, hdecoded, lookupFsidLocked_of_sorted hs hsorted hid ?_⟩
    split_ifs with htype
    · rcases htype with htype | htype
      · simp [memKey, fsidKey, htype, hone id hid htype]
      · simp [memKey, fsidKey, htype]
    · rfl

section Operations

variable (rot : Rotations) {s : FileSystems} {mem : Nat → PosixFs} {t : BinTree Nat}

theorem avltreeInsert_cases (id : Nat) (hsorted : t.toList.Pairwise (memKey mem · < memKey mem ·)) :
    (∃ found ∈ t.toList, memKey mem found = memKey mem id ∧
        avltreeInsert rot (cmpFsid mem) id t = (some found, t)) ∨
      (∀ other ∈ t.toList, memKey mem other ≠ memKey mem id) ∧
        ∃ t', avltreeInsert rot (cmpFsid mem) id t = (none, t') ∧
          t'.toList.Perm (id :: t.toList) ∧
          t'.toList.Pairwise (memKey mem · < memKey mem ·) := by
  have hcmp : ∀ y, cmpFsid mem id y = compare (memKey mem id) (memKey mem y) :=
    cmpFsid_eq_compare mem id
  unfold avltreeInsert
  cases hsearch : t.search (cmpFsid mem id) with
  | some found =>
    obtain ⟨hmem, hkey⟩ := mem_of_search hcmp hsearch
    exact .inl ⟨found, hmem, hkey, rfl⟩
  | none =>
    refine .inr ⟨fun other hother hkey => ?_, _, rfl, ?_⟩
    · rw [search_of_sorted hcmp hsorted hother hkey] at hsearch
      cases hsearch
    · obtain ⟨pre, post, ht, hins, hpre, hpost⟩ := toList_insertBy hcmp hsorted hsearch
      rw [ht, pairwise_append] at hsorted
      obtain ⟨hsortedPre, hsortedPost, hacross⟩ := hsorted
      rw [rot.toList_afterInsert, hins, ht]
      refine ⟨perm_middle, pairwise_append.2 ⟨hsortedPre, ?_, ?_⟩⟩
      · exact pairwise_cons.2 ⟨hpost, hsortedPost⟩
      · intro y hy z hz
        obtain rfl | hz := mem_cons.1 hz
        · exact hpre y hy
        · exact hacross y hy z hz

theorem mem_remove {id other : Nat} :
    other ∈ (rot.remove id t).toList ↔ other ∈ t.toList ∧ other ≠ id := by
  rw [rot.toList_remove, mem_filter]
  simp

theorem notMem_remove_self : id ∉ (rot.remove id t).toList :=
  fun h => ((mem_remove rot).1 h).2 rfl

theorem nodup_remove (hnodup : t.toList.Nodup) (id : Nat) : (rot.remove id t).toList.Nodup := by
  rw [rot.toList_remove]
  exact hnodup.filter _

theorem sorted_remove (hsorted : t.toList.Pairwise (memKey mem · < memKey mem ·)) (id : Nat) :
    (rot.remove id t).toList.Pairwise (memKey mem · < memKey mem ·) := by
  rw [rot.toList_remove]
  exact hsorted.filter _

theorem perm_cons_remove (hnodup : t.toList.Nodup) (hid : id ∈ t.toList) :
    (id :: (rot.remove id t).toList).Perm t.toList := by
  have hcons : (id :: (rot.remove id t).toList).Nodup :=
    nodup_cons.2 ⟨notMem_remove_self rot, nodup_remove rot hnodup id⟩
  refine (perm_ext_iff_of_nodup hcons hnodup).2 fun other => ?_
  rw [mem_cons, mem_remove]
  constructor
  · rintro (rfl | ⟨hother, -⟩)
    · exact hid
    · exact hother
  · intro hother
    by_cases heq : other = id
    · exact .inl heq
    · exact .inr ⟨hother, heq⟩

def Taken (s : FileSystems) (id : Nat) (fsidType : FsidType) (fsid : Fsid) : Prop :=
  ∃ other, other ≠ id ∧ (s.mem other).inFsidAvl = true ∧ memKey s.mem other = fsidKey fsidType fsid

structure Unchanged (s t : FileSystems) : Prop where
  mem : t.mem = s.mem
  avlFsid : t.avlFsid.toList = s.avlFsid.toList
  avlDev : t.avlDev = s.avlDev

theorem memKey_update_of_ne {id other : Nat} (hne : other ≠ id) (fs : PosixFs) :
    memKey (update mem id fs) other = memKey mem other := by
  rw [memKey, update_of_ne hne, memKey]

theorem sorted_update_of_notMem {l : List Nat} (hid : id ∉ l) (fs : PosixFs) :
    l.Pairwise (memKey (update mem id fs) · <
      memKey (update mem id fs) ·) ↔ l.Pairwise (memKey mem · < memKey mem ·) := by
  refine List.Pairwise.iff_of_mem fun {a b} ha hb => ?_
  rw [memKey_update_of_ne (ne_of_mem_of_not_mem ha hid),
    memKey_update_of_ne (ne_of_mem_of_not_mem hb hid)]

section

variable (hs : Indexed s) (hsorted : s.avlFsid.toList.Pairwise (memKey s.mem · < memKey s.mem ·))
  {id : Nat} (hid : (s.mem id).inFsidAvl = true)
include hs hsorted hid

theorem avltreeInsert_remove :
    ∃ t, avltreeInsert rot (cmpFsid s.mem) id (rot.remove id s.avlFsid) = (none, t) ∧
      t.toList = s.avlFsid.toList := by
  have hmem := (hs.mem_iff id).2 hid
  have hkeys : (s.avlFsid.toList.map (memKey s.mem)).Nodup :=
    pairwise_map.2 (hsorted.imp ne_of_lt)
  obtain ⟨found, hfound, hkey, -⟩ | ⟨-, t, hins, hperm, hsorted'⟩ :=
    avltreeInsert_cases rot id (sorted_remove rot hsorted id)
  · obtain ⟨hfound, hne⟩ := (mem_remove rot).1 hfound
    exact absurd (inj_on_of_nodup_map hkeys hfound hmem hkey) hne
  · refine ⟨t, hins, ?_⟩
    refine List.Perm.eq_of_pairwise (fun a b _ _ hab hba => absurd hab (lt_asymm hba)) hsorted'
      hsorted ?_
    exact hperm.trans (perm_cons_remove rot hs.nodup hmem)

theorem reIndexFsFsid_cases (htype : fsidType ≠ .noType) (fsid : Fsid) :
    (Taken s id fsidType fsid ∧
        ∃ s', reIndexFsFsid rot s id fsidType fsid = some (negEexist, s') ∧ Unchanged s s') ∨
      ¬ Taken s id fsidType fsid ∧
        ∃ s', reIndexFsFsid rot s id fsidType fsid = some (0, s') ∧
          s'.mem = update s.mem id ((s.mem id).setFsid fsidType fsid) ∧
          s'.avlFsid.toList.Perm s.avlFsid.toList ∧
          s'.avlFsid.toList.Pairwise (memKey s'.mem · < memKey s'.mem ·) := by
  have hnewKey : memKey (update s.mem id ((s.mem id).setFsid fsidType fsid)) id =
      fsidKey fsidType fsid := by simp [memKey, PosixFs.setFsid]
  have hother : ∀ other, other ∈ (rot.remove id s.avlFsid).toList ↔
      (s.mem other).inFsidAvl = true ∧ other ≠ id := by
    intro other
    rw [mem_remove, hs.mem_iff]
  simp only [reIndexFsFsid, if_neg htype, hid, if_true]
  obtain ⟨found, hfound, hkey, hins⟩ | ⟨hfree, t, hins, hperm, hsorted'⟩ :=
    avltreeInsert_cases rot id
      ((sorted_update_of_notMem (notMem_remove_self rot) _).2
        (sorted_remove rot hsorted id))
  · left
    obtain ⟨hindexed, hne⟩ := (hother found).1 hfound
    rw [hnewKey, memKey_update_of_ne hne] at hkey
    refine ⟨⟨found, hne, hindexed, hkey⟩, ?_⟩
    obtain ⟨t, hback, hlist⟩ := avltreeInsert_remove rot hs hsorted hid
    rw [hins]
    simp only [hback]
    exact ⟨_, rfl, rfl, hlist, rfl⟩
  · right
    rw [hnewKey] at hfree
    have hnotTaken : ¬ Taken s id fsidType fsid := by
      rintro ⟨other, hne, hindexed, hkey⟩
      refine hfree other ((hother other).2 ⟨hindexed, hne⟩) ?_
      rw [memKey_update_of_ne hne, hkey]
    have hsame : { (s.mem id).setFsid fsidType fsid with inFsidAvl := true } =
        (s.mem id).setFsid fsidType fsid := by
      rw [← hid]
      rfl
    rw [hins]
    simp only [hsame]
    exact ⟨hnotTaken, _, rfl, rfl, hperm.trans (perm_cons_remove rot hs.nodup ((hs.mem_iff id).2 hid)),
      hsorted'⟩

end

variable {rot}

theorem Unchanged.indexed {s t : FileSystems} (h : Unchanged s t) (hs : Indexed s) : Indexed t := by
  refine ⟨h.avlFsid ▸ hs.nodup, ?_, h.mem ▸ hs.proper⟩
  rw [h.avlFsid, h.mem]
  exact hs.mem_iff

theorem Unchanged.ordered {s t : FileSystems} (h : Unchanged s t) (hs : Ordered s) : Ordered t := by
  refine ⟨?_, h.mem ▸ hs.oneMajor⟩
  rw [h.avlFsid, h.mem]
  exact hs.sorted

theorem PosixFs.Proper.setFsid {fs : PosixFs} (hfs : fs.Proper) {fsid : Fsid}
    (htype : fsidType ≠ .noType) (hfits : fsidType.is32 = true → fsid.fits32 = true) :
    (fs.setFsid fsidType fsid).Proper :=
  ⟨hfs.allocated, fun _ => htype, fun _ => hfits, hfs.devFits⟩

section Update

variable {t : FileSystems} {id : Nat} {fsidType : FsidType} {fsid : Fsid}
  (hid : (s.mem id).inFsidAvl = true)
  (hmem : t.mem = update s.mem id ((s.mem id).setFsid fsidType fsid))
include hmem

theorem Indexed.setFsid (hs : Indexed s) (hperm : t.avlFsid.toList.Perm s.avlFsid.toList)
    (htype : fsidType ≠ .noType) (hfits : fsidType.is32 = true → fsid.fits32 = true) :
    Indexed t := by
  refine ⟨hperm.nodup_iff.2 hs.nodup, fun other => ?_, ?_⟩
  · rw [hperm.mem_iff, hs.mem_iff, hmem]
    by_cases hother : other = id
    · rw [hother, update_self]
      rfl
    · rw [update_of_ne hother]
  · rw [hmem, Function.forall_update_iff s.mem fun _ fs => fs.Proper]
    exact ⟨(hs.proper id).setFsid htype hfits, fun other _ => hs.proper other⟩

include hid

theorem oneMajor_setFsid_iff (hs : Ordered s) :
    (∀ other, (t.mem other).OneMajor) ↔ (fsidType = .oneUint64 → fsid.minor = 0) := by
  rw [hmem, Function.forall_update_iff s.mem fun _ fs => fs.OneMajor]
  constructor
  · rintro ⟨hone, -⟩
    exact hone hid
  · intro hone
    exact ⟨fun _ => hone, fun other _ => hs.oneMajor other⟩

def SamePlace (s : FileSystems) (id : Nat) (key : Nat ×ₗ Nat ×ₗ Nat) : Prop :=
  ∀ other, other ≠ id → (s.mem other).inFsidAvl = true →
    (memKey s.mem other < memKey s.mem id → memKey s.mem other < key) ∧
      (memKey s.mem id < memKey s.mem other → key < memKey s.mem other)

theorem sorted_setFsid_iff (hs : Indexed s)
    (hsorted : s.avlFsid.toList.Pairwise (memKey s.mem · < memKey s.mem ·)) :
    s.avlFsid.toList.Pairwise (memKey t.mem · < memKey t.mem ·) ↔
      SamePlace s id (fsidKey fsidType fsid) := by
  have hkey : memKey t.mem id = fsidKey fsidType fsid := by
    rw [hmem]
    simp [memKey, PosixFs.setFsid]
  have hsame : ∀ other, other ≠ id → memKey t.mem other = memKey s.mem other := by
    intro other hne
    rw [hmem, memKey_update_of_ne hne]
  have hidMem := (hs.mem_iff id).2 hid
  rw [pairwise_lt_iff_of_pairwise_lt hsorted]
  constructor
  · intro h other hne hother
    have hotherMem := (hs.mem_iff other).2 hother
    have hleft := h other hotherMem id hidMem
    have hright := h id hidMem other hotherMem
    rw [hsame other hne, hkey] at hleft hright
    exact ⟨hleft, hright⟩
  · intro hplace a ha b hb hlt
    rw [hs.mem_iff] at ha hb
    by_cases hida : a = id
    · by_cases hidb : b = id
      · rw [hida, hidb] at hlt
        exact absurd hlt (lt_irrefl _)
      · rw [hida] at hlt ⊢
        rw [hkey, hsame b hidb]
        exact (hplace b hidb hb).2 hlt
    · by_cases hidb : b = id
      · rw [hidb] at hlt ⊢
        rw [hkey, hsame a hida]
        exact (hplace a hida ha).1 hlt
      · rwa [hsame a hida, hsame b hidb]

end Update

end Operations

end EdgeComputing.Fsal
