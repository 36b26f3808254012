import EdgeComputing.Idmapper.UserCache
import EdgeComputing.Library.Table

/-!
What the two trees and the array of the id mapping cache agree on. A plain lookup by name stores the
uid node of the entry it finds, even of one that is in no uid tree.
-/

namespace EdgeComputing.Idmapper

open List Option Function Library UserCache

variable {ν : Type} {a : Nat}

/-- Every slot leads to a live entry of the uid tree, the uid tree is part of the name tree, names
and uids are unique, and a uid that is found has the name of its last plain mapping. -/
structure CacheSound (σ : UserCache ν) : Prop where
  slot : ∀ i a, σ.uidCache i = some a → a ∈ σ.uidTree ∧ (σ.users a).isSome
  uidTree : ∀ a ∈ σ.uidTree, a ∈ σ.unameTree
  live : ∀ a ∈ σ.unameTree, (σ.users a).isSome
  names : ∀ a ∈ σ.unameTree, ∀ b ∈ σ.unameTree, ∀ u v, σ.users a = some u → σ.users b = some v →
    u.uname = v.uname → a = b
  uids : ∀ a ∈ σ.uidTree, ∀ b ∈ σ.uidTree, ∀ u v, σ.users a = some u → σ.users b = some v →
    u.uid = v.uid → a = b
  byUid : ∀ clock uid τ user valid, σ.lookupByUid clock uid = some (τ, some (user, valid)) →
    σ.plain uid = some user.uname

structure CacheInv (σ : UserCache ν) : Prop where
  nodup : σ.unameTree.Nodup
  named : ∀ a, a ∈ σ.unameTree ↔ (σ.users a).isSome
  live : ∀ a ∈ σ.uidTree, (σ.users a).isSome
  flag : ∀ a u, σ.users a = some u → (u.inUidtree = true ↔ a ∈ σ.uidTree)
  names : ∀ a b u v, σ.users a = some u → σ.users b = some v → u.uname = v.uname → a = b
  uids : ∀ a ∈ σ.uidTree, ∀ b ∈ σ.uidTree, ∀ u v, σ.users a = some u → σ.users b = some v →
    u.uid = v.uid → a = b
  slot : ∀ i a, σ.uidCache i = some a → a ∈ σ.uidTree ∧
    ∀ u, σ.users a = some u → u.uid % idCacheSize = i
  plain : ∀ a ∈ σ.uidTree, ∀ u, σ.users a = some u → σ.plain u.uid = some u.uname

section Find

variable {σ : UserCache ν} {name : ν} {uid a : Nat}

theorem findName_eq_some [DecidableEq ν] (h : σ.findName name = some a) :
    a ∈ σ.unameTree ∧ ∃ u, σ.users a = some u ∧ u.uname = name := by
  refine ⟨mem_of_find?_eq_some h, ?_⟩
  simpa [Option.any_eq_true] using List.find?_some h

variable {u old : CacheUser ν}

theorem findUid_eq_some (h : σ.findUid uid = some a) :
    a ∈ σ.uidTree ∧ ∃ u, σ.users a = some u ∧ u.uid = uid := by
  refine ⟨mem_of_find?_eq_some h, ?_⟩
  simpa [Option.any_eq_true] using List.find?_some h

end Find

namespace CacheInv

variable {σ : UserCache ν} (hσ : CacheInv σ)

include hσ

theorem remove (c : Nat → Option Nat)
    (hc : ∀ i b, c i = some b → b ≠ a ∧ σ.uidCache i = some b) :
    CacheInv { σ with
      users := update σ.users a none
      unameTree := σ.unameTree.filter (· ≠ a)
      uidTree := σ.uidTree.filter (· ≠ a)
      uidCache := c } := by
  refine ⟨hσ.nodup.filter _, fun b => ?_, fun b hb => ?_, fun b u hb => ?_,
    fun b b' u v hb hb' => ?_,
    fun b hb b' hb' u v hu hv => ?_, fun i b hb => ?_, fun b hb u hu => ?_⟩
  · by_cases hba : b = a
    · simp [hba]
    · simpa [hba] using hσ.named b
  · obtain ⟨hb, hba⟩ : b ∈ σ.uidTree ∧ b ≠ a := by simpa using hb
    simpa [hba] using hσ.live b hb
  · obtain ⟨hba, hb⟩ := of_update_none hb
    simpa [hba] using hσ.flag b u hb
  · exact hσ.names b b' u v (of_update_none hb).2 (of_update_none hb').2
  · exact hσ.uids b ((mem_filter.mp hb).1) b' ((mem_filter.mp hb').1) u v
      (of_update_none hu).2 (of_update_none hv).2
  · obtain ⟨hba, hslot⟩ := hc i b hb
    obtain ⟨hmem, huid⟩ := hσ.slot i b hslot
    refine ⟨by simpa [hba] using hmem, fun u hu => huid u (of_update_none hu).2⟩
  · exact hσ.plain b ((mem_filter.mp hb).1) u (of_update_none hu).2

theorem ne_of_slot {a b i : Nat} (ha : σ.users a = some u)
    (hb : update σ.uidCache (u.uid % idCacheSize) none i = some b) :
    b ≠ a ∧ σ.uidCache i = some b := by
  by_cases hi : i = u.uid % idCacheSize
  · subst hi
    simp at hb
  · rw [update_of_ne hi] at hb
    refine ⟨?_, hb⟩
    rintro rfl
    exact hi ((hσ.slot i b hb).2 u ha).symm

theorem replaceUid (ha : σ.users a = some old) : CacheInv (σ.replaceUid a old) :=
  hσ.remove _ fun _ _ hb => hσ.ne_of_slot ha hb

theorem filter_uidTree (ha : σ.users a = some u) (hflag : u.inUidtree ≠ true) :
    σ.uidTree.filter (· ≠ a) = σ.uidTree := by
  have hnot : a ∉ σ.uidTree := fun hmem => hflag ((hσ.flag a u ha).mpr hmem)
  rw [filter_eq_self]
  intro b hb
  simpa using ne_of_mem_of_not_mem hb hnot

theorem replaceName (ha : σ.users a = some old) : CacheInv (σ.replaceName a old) := by
  unfold UserCache.replaceName
  by_cases hflag : old.inUidtree = true
  · simp only [hflag, if_true]
    exact hσ.remove _ fun _ _ hb => hσ.ne_of_slot ha hb
  · -- the entry is in no slot and not in the uid tree
    have hnot : a ∉ σ.uidTree := fun hmem => hflag ((hσ.flag a old ha).mpr hmem)
    have hrem := hσ.remove (a := a) σ.uidCache fun i b hb =>
      ⟨ne_of_mem_of_not_mem (hσ.slot i b hb).1 hnot, hb⟩
    simp only [hflag]
    rw [hσ.filter_uidTree ha hflag] at hrem
    exact hrem

variable {addr : Nat} {new : CacheUser ν}

omit hσ in
theorem notMem_uidTree (hσ : CacheInv σ) (haddr : σ.users addr = none) : addr ∉ σ.uidTree :=
  fun hmem => by simpa [haddr] using hσ.live addr hmem

theorem insert (haddr : σ.users addr = none)
    (hname : ∀ b u, σ.users b = some u → u.uname ≠ new.uname) (uidTree : List Nat)
    (hmem : ∀ b, b ∈ uidTree ↔ (b = addr ∧ new.inUidtree = true) ∨ b ∈ σ.uidTree)
    (huid : new.inUidtree = true → ∀ b ∈ σ.uidTree, ∀ u, σ.users b = some u → u.uid ≠ new.uid)
    (c : Nat → Option Nat)
    (hc : ∀ i b, c i = some b → (b = addr ∧ new.inUidtree = true ∧ new.uid % idCacheSize = i) ∨
      σ.uidCache i = some b)
    (p : Nat → Option ν) (hp : new.inUidtree = true → p new.uid = some new.uname)
    (hp' : ∀ b ∈ σ.uidTree, ∀ u, σ.users b = some u → p u.uid = some u.uname) :
    CacheInv { σ with
      users := update σ.users addr (some new)
      unameTree := addr :: σ.unameTree
      uidTree := uidTree
      uidCache := c
      plain := p } := by
  have hnot := notMem_uidTree hσ haddr
  have hold : ∀ b ∈ σ.uidTree, ∀ u, update σ.users addr (some new) b = some u →
      σ.users b = some u := fun b hb u hu => by
    rwa [update_of_ne (ne_of_mem_of_not_mem hb hnot)] at hu
  have hself : ∀ u, update σ.users addr (some new) addr = some u → u = new :=
    fun u hu => by simpa using hu.symm
  have hnodup : (addr :: σ.unameTree).Nodup := by
    refine nodup_cons.mpr ⟨fun hmem => ?_, hσ.nodup⟩
    simpa [haddr] using (hσ.named addr).mp hmem
  refine ⟨hnodup, fun b => ?_, fun b hb => ?_, fun b u hu => ?_, fun b b' u v hu hv heq => ?_,
    fun b hb b' hb' u v hu hv heq => ?_, fun i b hb => ?_, fun b hb u hu => ?_⟩
  · by_cases hba : b = addr
    · simp [hba]
    · simpa [hba] using hσ.named b
  · obtain ⟨rfl, -⟩ | hb := (hmem b).mp hb
    · simp
    · simpa [update_of_ne (ne_of_mem_of_not_mem hb hnot)] using hσ.live b hb
  · obtain ⟨rfl, rfl⟩ | ⟨hba, hu⟩ := of_update_some hu
    · simp [hmem, hnot]
    · simpa [hmem, hba] using hσ.flag b u hu
  · obtain ⟨rfl, rfl⟩ | ⟨-, hu'⟩ := of_update_some hu
    · obtain ⟨rfl, -⟩ | ⟨-, hv'⟩ := of_update_some hv
      · rfl
      · exact absurd heq.symm (hname b' v hv')
    · obtain ⟨rfl, rfl⟩ | ⟨-, hv'⟩ := of_update_some hv
      · exact absurd heq (hname b u hu')
      · exact hσ.names b b' u v hu' hv' heq
  · obtain ⟨rfl, hflag⟩ | hold1 := (hmem b).mp hb
    · obtain ⟨rfl, -⟩ | hold2 := (hmem b').mp hb'
      · rfl
      · rw [hself u hu] at heq
        exact absurd heq.symm (huid hflag b' hold2 v (hold b' hold2 v hv))
    · obtain ⟨rfl, hflag⟩ | hold2 := (hmem b').mp hb'
      · rw [hself v hv] at heq
        exact absurd heq (huid hflag b hold1 u (hold b hold1 u hu))
      · exact hσ.uids b hold1 b' hold2 u v (hold b hold1 u hu) (hold b' hold2 v hv) heq
  · obtain ⟨rfl, hflag, hi⟩ | hb := hc i b hb
    · exact ⟨(hmem b).mpr (.inl ⟨rfl, hflag⟩), fun u hu => hself u hu ▸ hi⟩
    · obtain ⟨hb, hi⟩ := hσ.slot i b hb
      exact ⟨(hmem b).mpr (.inr hb), fun u hu => hi u (hold b hb u hu)⟩
  · obtain ⟨rfl, hflag⟩ | hb := (hmem b).mp hb
    · rw [hself u hu]
      exact hp hflag
    · exact hp' b hb u (hold b hb u hu)

theorem setSlot (hu : σ.users a = some u) (ha : a ∈ σ.uidTree) :
    CacheInv (σ.setSlot u.uid (some a)) := by
  refine { hσ with slot := fun i b hb => ?_ }
  by_cases hi : i = u.uid % idCacheSize
  · subst hi
    obtain rfl : a = b := by simpa [UserCache.setSlot] using hb
    refine ⟨ha, fun v hv => ?_⟩
    obtain rfl : u = v := some.inj (hu.symm.trans hv)
    rfl
  · refine hσ.slot i b ?_
    simpa [UserCache.setSlot, hi] using hb

theorem clearUsers {l : List Nat} (hl : σ.unameTree = l) (hslots : ∀ i, σ.uidCache i = none) :
    ∃ τ, σ.clearUsers l = some τ ∧ CacheInv τ ∧ τ.unameTree = [] := by
  induction l generalizing σ with
  | nil => exact ⟨σ, rfl, hσ, hl⟩
  | cons a rest ih =>
    obtain ⟨u, hu⟩ := isSome_iff_exists.mp ((hσ.named a).mp (by simp [hl]))
    have hrest : σ.unameTree.filter (· ≠ a) = rest := by
      have hnot : a ∉ rest := (nodup_cons.mp (hl ▸ hσ.nodup)).1
      rw [hl, filter_cons_of_neg (by simp), filter_eq_self]
      intro b hb
      simpa using ne_of_mem_of_not_mem hb hnot
    have hrem := hσ.remove (a := a) σ.uidCache fun i b hb => by simp [hslots i] at hb
    simp only [clearUsers, hu, bind_some]
    by_cases hflag : u.inUidtree = true
    · simp only [hflag, if_true]
      exact ih hrem hrest hslots
    · rw [hσ.filter_uidTree hu hflag] at hrem
      simp only [hflag]
      exact ih hrem hrest hslots

theorem clearCache : ∃ τ, σ.clearCache = some τ ∧ CacheInv τ := by
  have hcleared : CacheInv { σ with uidCache := fun _ => none } :=
    { hσ with slot := fun i b hb => by simp at hb }
  obtain ⟨τ, hτ, hinv, hnil⟩ := hcleared.clearUsers rfl fun _ => rfl
  have huid : τ.uidTree = [] := by
    refine eq_nil_iff_forall_not_mem.mpr fun a ha => ?_
    have hmem := (hinv.named a).mpr (hinv.live a ha)
    rw [hnil] at hmem
    cases hmem
  refine ⟨τ, ?_, hinv⟩
  simp [UserCache.clearCache, hτ, huid]

section Add

variable (haddr : σ.users addr = none)
  (hname : ∀ b u, σ.users b = some u → u.uname ≠ new.uname)

include haddr hname

variable {p : Nat → Option ν}

theorem insertUid (hflag : new.inUidtree = true)
    (huid : ∀ b ∈ σ.uidTree, ∀ u, σ.users b = some u → u.uid ≠ new.uid)
    (hp : p new.uid = some new.uname) (hp' : ∀ k, k ≠ new.uid → p k = σ.plain k) :
    CacheInv { (σ.insertName addr new).insertUid addr new.uid with plain := p } := by
  refine hσ.insert haddr hname (addr :: σ.uidTree) (fun b => ?_) (fun _ => huid) _ (fun i b hb => ?_)
    p (fun _ => hp) fun b hb u hu => ?_
  · simp [hflag]
  · change update σ.uidCache (new.uid % idCacheSize) (some addr) i = some b at hb
    by_cases hi : i = new.uid % idCacheSize
    · subst hi
      obtain rfl : addr = b := by simpa using hb
      exact .inl ⟨rfl, hflag, rfl⟩
    · rw [update_of_ne hi] at hb
      exact .inr hb
  · rw [hp' u.uid (huid b hb u hu)]
    exact hσ.plain b hb u hu

theorem addUid (hp : new.inUidtree = true → p new.uid = some new.uname)
    (hp' : ∀ k, new.inUidtree = true ∧ k = new.uid ∨ p k = σ.plain k) :
    ∃ τ, (σ.insertName addr new).addUid addr new = some τ ∧ τ.plain = σ.plain ∧
      CacheInv { τ with plain := p } := by
  have hnot := notMem_uidTree hσ haddr
  have hp'' : ∀ k, k ≠ new.uid → p k = σ.plain k := fun k hk =>
    (hp' k).resolve_left fun h => hk h.2
  unfold UserCache.addUid
  by_cases hflag : new.inUidtree = true
  · simp only [hflag, if_true]
    cases hfind : (σ.insertName addr new).findUid new.uid with
    | none =>
      refine ⟨_, rfl, rfl, hσ.insertUid haddr hname hflag (fun b hb u hu => ?_) (hp hflag) hp''⟩
      have hu' : (σ.insertName addr new).users b = some u := by
        simpa [insertName, ne_of_mem_of_not_mem hb hnot] using hu
      simpa [hu'] using find?_eq_none.mp hfind b hb
    | some a =>
      obtain ⟨ha, old, hold, huid⟩ := findUid_eq_some hfind
      have hne : a ≠ addr := ne_of_mem_of_not_mem ha hnot
      have hold' : σ.users a = some old := by simpa [insertName, hne] using hold
      have hcomm : (σ.insertName addr new).replaceUid a old =
          (σ.replaceUid a old).insertName addr new := by
        simp [UserCache.replaceUid, UserCache.insertName, UserCache.setSlot, UserCache.removeUid,
          removeName, free, hne.symm, update_comm hne]
      have husers : (σ.replaceUid a old).users = update σ.users a none := rfl
      refine ⟨((σ.insertName addr new).replaceUid a old).insertUid addr new.uid,
        by simp only [hold, map_some], rfl, ?_⟩
      rw [hcomm]
      refine (hσ.replaceUid hold').insertUid ?_
        (fun b u hu => hname b u (of_update_none (husers ▸ hu)).2) hflag
        (fun b hb u hu heq => ?_) (hp hflag) hp''
      · rw [husers, update_of_ne hne.symm, haddr]
      · obtain ⟨hba, hu⟩ := of_update_none (husers ▸ hu)
        have hb' : b ∈ σ.uidTree := (mem_filter.mp hb).1
        exact hba (hσ.uids b hb' a ha u old hu hold' (heq.trans huid.symm))
  · simp only [hflag]
    refine ⟨_, rfl, rfl, hσ.insert haddr hname σ.uidTree (fun b => ?_) (fun h => absurd h hflag) _
      (fun i b hb => .inr hb) p (fun h => absurd h hflag) fun b hb u hu => ?_⟩
    · simp [hflag]
    · rw [(hp' u.uid).resolve_left fun h => hflag h.1]
      exact hσ.plain b hb u hu

end Add

end CacheInv

section Calls

variable {σ : UserCache ν} (hσ : CacheInv σ)

theorem combine_uname (old new : CacheUser ν) : (UserCache.combine old new).uname = new.uname := by
  unfold combine
  split_ifs <;> rfl

theorem combine_uid (old new : CacheUser ν) : (UserCache.combine old new).uid = new.uid := by
  unfold combine
  split_ifs <;> rfl

theorem combine_inUidtree {new : CacheUser ν} (h : (UserCache.combine old new).inUidtree = true) :
    new.inUidtree = true ∨ old.inUidtree = true ∧ old.uid = new.uid := by
  unfold combine at h
  split_ifs at h with huid
  · exact ((Bool.or_eq_true _ _).mp h).imp_right fun hold => ⟨hold, huid⟩
  · exact .inl h

theorem replaceName_users : (σ.replaceName a old).users = update σ.users a none := by
  unfold replaceName
  by_cases hflag : old.inUidtree = true <;> simp [hflag] <;> rfl

theorem replaceName_plain : (σ.replaceName a old).plain = σ.plain := by
  unfold replaceName
  by_cases hflag : old.inUidtree = true <;> simp [hflag] <;> rfl

include hσ

namespace CacheInv

theorem addUser [DecidableEq ν] {addr : Nat} (haddr : σ.users addr = none) (name : ν)
    (uid : Nat) (gid : Option Nat) (gssPrinc : Bool) (now : Nat) :
    ∃ τ, σ.addUser addr name uid gid gssPrinc now = some τ ∧ CacheInv τ := by
  set new : CacheUser ν := { uname := name, uid, gid, inUidtree := !gssPrinc, epoch := now }
  set p := if gssPrinc then σ.plain else update σ.plain uid (some name) with hpdef
  -- the part of the history the trees depend on
  have hp' : ∀ k, gssPrinc = false ∧ k = uid ∨ p k = σ.plain k := by
    intro k
    cases gssPrinc with
    | true => exact .inr rfl
    | false =>
      by_cases hk : k = uid
      · exact .inl ⟨rfl, hk⟩
      · exact .inr (update_of_ne hk _ _)
  have hplain : gssPrinc = false → p uid = some name := by
    rintro rfl
    simp [hpdef]
  have hfinish : ∀ {added : Option (UserCache ν)}, (∃ τ, added = some τ ∧ τ.plain = σ.plain ∧
      CacheInv { τ with plain := p }) →
      ∃ τ, added.map (fun σ => if gssPrinc then σ else
        { σ with plain := update σ.plain uid (some name) }) = some τ ∧ CacheInv τ := by
    rintro _ ⟨τ, rfl, hτ, hinv⟩
    refine ⟨_, rfl, ?_⟩
    cases gssPrinc with
    | true =>
      have heq : ({ τ with plain := p } : UserCache ν) = τ := by
        rw [hpdef, if_pos rfl, ← hτ]
      exact heq ▸ hinv
    | false =>
      rw [hpdef] at hinv
      simpa [hτ] using hinv
  unfold UserCache.addUser
  refine hfinish ?_
  cases hfind : σ.findName name with
  | none =>
    refine hσ.addUid haddr (fun b u hu => ?_) (fun hflag => ?_) fun k => ?_
    · simpa [hu] using find?_eq_none.mp hfind b ((hσ.named b).mpr (by simp [hu]))
    · exact hplain (by simpa [new] using hflag)
    · exact (hp' k).imp_left fun ⟨hgss, hk⟩ => ⟨by simp [hgss], hk⟩
  | some a =>
    obtain ⟨-, old, hold, holdname⟩ := findName_eq_some hfind
    simp only [hold, bind_some]
    have haa : addr ≠ a := fun h => by simp [h, hold] at haddr
    refine (hσ.replaceName hold).addUid ?_ (fun b u hu => ?_) (fun hflag => ?_) (fun k => ?_)
      |>.imp fun τ hτ => ⟨hτ.1, hτ.2.1.trans replaceName_plain, hτ.2.2⟩
    · rw [replaceName_users, update_of_ne haa, haddr]
    · rw [replaceName_users] at hu
      rw [combine_uname]
      intro heq
      by_cases hba : b = a
      · simp [hba] at hu
      · rw [update_of_ne hba] at hu
        exact hba (hσ.names b a u old hu hold (heq.trans holdname.symm))
    · rw [combine_uid, combine_uname]
      obtain hflag | ⟨hflag, huid⟩ := combine_inUidtree hflag
      · exact hplain (by simpa [new] using hflag)
      · -- the name was the last plain one already
        have hlast := hσ.plain a ((hσ.flag a old hold).mp hflag) old hold
        change p uid = some name
        obtain ⟨hgss, -⟩ | hsame := hp' uid
        · exact hplain hgss
        · rw [hsame, ← holdname, ← hlast]
          exact congrArg σ.plain huid.symm
    · rw [replaceName_plain, combine_uid]
      obtain ⟨hgss, hk⟩ | hsame := hp' k
      · refine .inl ⟨?_, hk⟩
        unfold combine
        split_ifs <;> simp [hgss]
      · exact .inr hsame

theorem lookupByUid (clock : Clock) (uid : Nat) :
    ∃ τ found, σ.lookupByUid clock uid = some (τ, found) ∧ CacheInv τ ∧
      ∀ user valid, found = some (user, valid) →
        ∃ a ∈ σ.uidTree, σ.users a = some user ∧ user.uid = uid := by
  have hinTree : ∀ inTree, (σ.findUid uid = none → inTree = some (σ, none)) →
      (∀ a, σ.findUid uid = some a → inTree = (σ.users a).map fun user =>
        (σ.setSlot uid (some a), some (user, !userExpired clock user))) →
      ∃ τ found, inTree = some (τ, found) ∧ CacheInv τ ∧ ∀ user valid, found = some (user, valid) →
        ∃ a ∈ σ.uidTree, σ.users a = some user ∧ user.uid = uid := by
    intro inTree hnone hsome
    cases hfind : σ.findUid uid with
    | none => exact ⟨σ, none, hnone hfind, hσ, fun _ _ h => by cases h⟩
    | some a =>
      obtain ⟨ha, u, hu, rfl⟩ := findUid_eq_some hfind
      refine ⟨_, some (u, !userExpired clock u), by rw [hsome a hfind, hu]; rfl,
        hσ.setSlot hu ha, ?_⟩
      rintro user valid ⟨⟩
      exact ⟨a, ha, hu, rfl⟩
  unfold UserCache.lookupByUid
  cases hslot : σ.uidCache (uid % idCacheSize) with
  | none => exact hinTree _ (fun h => by rw [h]) fun a h => by rw [h]
  | some a =>
    obtain ⟨ha, -⟩ := hσ.slot _ a hslot
    obtain ⟨u, hu⟩ := isSome_iff_exists.mp (hσ.live a ha)
    simp only [hu, bind_some]
    by_cases huid : u.uid = uid
    · rw [if_pos huid]
      refine ⟨σ, _, rfl, hσ, ?_⟩
      rintro user valid ⟨⟩
      exact ⟨a, ha, hu, huid⟩
    · rw [if_neg huid]
      exact hinTree _ (fun h => by rw [h]) fun a h => by rw [h]

theorem sound : CacheSound σ where
  slot i a h := ⟨(hσ.slot i a h).1, hσ.live a (hσ.slot i a h).1⟩
  uidTree a h := (hσ.named a).mpr (hσ.live a h)
  live a h := (hσ.named a).mp h
  names a _ b _ u v := hσ.names a b u v
  uids := hσ.uids
  byUid clock uid τ user valid h := by
    obtain ⟨τ', found, hlook, -, hfound⟩ := hσ.lookupByUid clock uid
    obtain ⟨-, rfl⟩ := Prod.mk.inj (some.inj (hlook.symm.trans h))
    obtain ⟨a, ha, hu, rfl⟩ := hfound user valid rfl
    exact hσ.plain a ha user hu

end CacheInv

end Calls

section Runs

variable [DecidableEq ν] {σ : UserCache ν}

def FindsPlain (σ : UserCache ν) : UserCall ν → Prop
  | .lookupByUname _ name false => (σ.findName name).all (· ∈ σ.uidTree)
  | _ => True

instance (σ : UserCache ν) (a : UserCall ν) : Decidable (FindsPlain σ a) :=
  match a with
  | .lookupByUname _ _ false => inferInstanceAs (Decidable (_ = true))
  | .lookupByUname _ _ true => .isTrue trivial
  | .addUser .. => .isTrue trivial
  | .lookupByUid .. => .isTrue trivial
  | .clearCache => .isTrue trivial

def Fresh (σ : UserCache ν) : UserCall ν → Prop
  | .addUser addr .. => σ.users addr = none
  | _ => True

theorem CacheInv.lookupByUname (hσ : CacheInv σ) (clock : Clock) (name : ν) (gssPrinc : Bool) :
    ∃ τ found, σ.lookupByUname clock name gssPrinc = some (τ, found) ∧
      (FindsPlain σ (.lookupByUname clock name gssPrinc) → CacheInv τ) ∧
      (CacheSound τ → FindsPlain σ (.lookupByUname clock name gssPrinc)) := by
  unfold UserCache.lookupByUname
  cases hfind : σ.findName name with
  | none =>
    refine ⟨σ, none, rfl, fun _ => hσ, fun _ => ?_⟩
    cases gssPrinc <;> simp [FindsPlain, hfind]
  | some a =>
    obtain ⟨-, u, hu, -⟩ := findName_eq_some hfind
    refine ⟨if gssPrinc then σ else σ.setSlot u.uid (some a), some (u, !userExpired clock u),
      by simp only [hu, map_some], ?_⟩
    cases gssPrinc with
    | true => exact ⟨fun _ => hσ, fun _ => trivial⟩
    | false =>
      refine ⟨fun h => hσ.setSlot hu (by simpa [FindsPlain, hfind] using h), fun h => ?_⟩
      have hslot : (σ.setSlot u.uid (some a)).uidCache (u.uid % idCacheSize) = some a := by
        simp [UserCache.setSlot]
      have hmem : a ∈ σ.uidTree := (h.slot _ a hslot).1
      simpa [FindsPlain, hfind] using hmem

/-- One step: it is possible, and it keeps the cache sound exactly if a plain lookup by name does
not find a GSS principal. -/
theorem userCacheMachine_step (hσ : CacheInv σ) {a : UserCall ν} (hfresh : Fresh σ a) :
    ∃ τ, userCacheMachine.step σ a = some τ ∧ (FindsPlain σ a → CacheInv τ) ∧
      (CacheSound τ → FindsPlain σ a) := by
  cases a with
  | addUser addr name uid gid gssPrinc now =>
    obtain ⟨τ, hτ, hinv⟩ := hσ.addUser hfresh name uid gid gssPrinc now
    refine ⟨τ, ?_, fun _ => hinv, fun _ => trivial⟩
    have haddr : (σ.users addr).isNone := isNone_iff_eq_none.mpr hfresh
    simp only [userCacheMachine, haddr, if_true, hτ]
  | lookupByUname clock name gssPrinc =>
    obtain ⟨τ, found, hτ, hkeep, hbreak⟩ := hσ.lookupByUname clock name gssPrinc
    exact ⟨τ, by simp only [userCacheMachine, hτ, map_some], hkeep, hbreak⟩
  | lookupByUid clock uid =>
    obtain ⟨τ, found, hτ, hinv, -⟩ := hσ.lookupByUid clock uid
    exact ⟨τ, by simp only [userCacheMachine, hτ, map_some], fun _ => hinv, fun _ => trivial⟩
  | clearCache =>
    obtain ⟨τ, hτ, hinv⟩ := hσ.clearCache
    exact ⟨τ, hτ, fun _ => hinv, fun _ => trivial⟩

theorem fresh_of_step {τ : UserCache ν} {a : UserCall ν}
    (h : userCacheMachine.step σ a = some τ) : Fresh σ a := by
  cases a with
  | addUser addr name uid gid gssPrinc now =>
    simp only [userCacheMachine] at h
    split_ifs at h with haddr
    exact isNone_iff_eq_none.mp haddr
  | _ => trivial

theorem cacheInv_of_reachable (hσ : userCacheMachine.ReachableBy FindsPlain σ) : CacheInv σ := by
  refine Machine.ReachableBy.invariant ?_ ?_ hσ
  · rintro s rfl
    refine ⟨by simp [empty], ?_, ?_, ?_, ?_, ?_, ?_, ?_⟩ <;> simp [empty]
  · intro s a t hs hguard hstep
    obtain ⟨τ, hτ, hkeep, -⟩ := userCacheMachine_step hs (fresh_of_step hstep)
    obtain rfl : τ = t := some.inj (hτ.symm.trans hstep)
    exact hkeep hguard

/-- As long as no plain lookup by name finds an entry that is in the name tree only, the cache is
sound and no call reads a freed entry; a step that does find one makes it unsound. -/
theorem user_cache_sound_iff {σ : UserCache ν}
    (hσ : userCacheMachine.ReachableBy FindsPlain σ) :
    CacheSound σ ∧ (∀ a, Fresh σ a → (userCacheMachine.step σ a).isSome) ∧
      ∀ a τ, userCacheMachine.step σ a = some τ → (FindsPlain σ a ↔ CacheSound τ) := by
  have hinv := cacheInv_of_reachable hσ
  refine ⟨hinv.sound, fun a hfresh => ?_, fun a τ hstep => ?_⟩
  · obtain ⟨τ, hτ, -⟩ := userCacheMachine_step hinv hfresh
    simp [hτ]
  · obtain ⟨τ', hτ', hkeep, hbreak⟩ := userCacheMachine_step hinv (fresh_of_step hstep)
    obtain rfl : τ' = τ := some.inj (hτ'.symm.trans hstep)
    exact ⟨fun h => (hkeep h).sound, hbreak⟩

end Runs

/-- A plain mapping, one of a principal, lookups of both by their kind, and the uid moved to another
name. -/
def plainRun : List (UserCall String) :=
  [.addUser 0 "alice" 100 none false 0, .addUser 1 "alice@REALM" 100 (some 5) true 0,
    .lookupByUname ⟨1, 10⟩ "alice" false, .lookupByUname ⟨1, 10⟩ "alice@REALM" true,
    .addUser 2 "bob" 100 none false 1, .lookupByUid ⟨2, 10⟩ 100]

theorem user_cache_sound_plain :
    ∃ σ : UserCache String, userCacheMachine.ReachableBy FindsPlain σ ∧
      σ.uidTree = [2] ∧ CacheSound σ := by
  have hrun : (userCacheMachine.runFromBy FindsPlain .empty plainRun).map uidTree =
      some [2] := by
    decide +kernel
  obtain ⟨σ, hreach, huid⟩ := Machine.exists_reachableBy hrun (.init rfl)
  exact ⟨σ, hreach, huid, (user_cache_sound_iff hreach).1⟩

def principalRun : List (UserCall String) :=
  [.addUser 0 "alice@REALM" 100 (some 5) true 0, .lookupByUname ⟨1, 10⟩ "alice@REALM" false,
    .addUser 1 "alice@REALM" 100 (some 6) true 1]

/-- The slot of the uid leads to the freed entry. -/
theorem principal_slot_dangles :
    ∃ σ : UserCache String, userCacheMachine.Reachable σ ∧ σ.uidCache 100 = some 0 ∧
      σ.users 0 = none ∧ ¬ CacheSound σ := by
  have hrun : (userCacheMachine.runFrom .empty principalRun).map
      (fun σ => (σ.uidCache 100, σ.users 0)) = some (some 0, none) := by
    decide +kernel
  obtain ⟨σ, hreach, hslot⟩ := Machine.exists_reachable hrun (.init rfl)
  obtain ⟨hslot, hfreed⟩ := Prod.mk.inj hslot
  refine ⟨σ, hreach, hslot, hfreed, fun hsound => ?_⟩
  have hlive := (hsound.slot 100 0 hslot).2
  rw [hfreed] at hlive
  cases hlive

end EdgeComputing.Idmapper
