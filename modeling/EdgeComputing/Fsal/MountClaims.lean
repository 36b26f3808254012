import EdgeComputing.Library.PathTree

/-!
The claim of a file system and of those mounted below it for an export, and the release of all. The
mounted file systems are a tree. The export path selects among the children of the root by comparing
strings, not whole components.
-/

namespace EdgeComputing.Fsal

open List Library PathTree

inductive ClaimCall where
  | claim (exp : Nat)
  | unclaim (callback : Nat)
  deriving DecidableEq

structure Filesystem (π : Type) where
  path : List Char
  fsal : Option Nat
  unclaim : Option Nat
  exported : Bool
  privateData : Option π
  calls : List ClaimCall
  deriving DecidableEq

abbrev MountForest (π : Type) := PathTree (Filesystem π)

def einval : Int := 22

def enxio : Int := 6

variable {π : Type}

def unclaimFs (this : Filesystem π) : Filesystem π :=
  { this with
    fsal := none, unclaim := none, exported := false, privateData := none
    calls := this.calls ++ (this.unclaim.map ClaimCall.unclaim).toList }

/-- The claimant: its FSAL and export, and the two callbacks. The claim returns a status and sets
the private data. -/
structure Claimant (π : Type) where
  fsal : Nat
  exp : Nat
  claim : Filesystem π → Nat → Int × Option π
  unclaim : Nat

section ProcessClaim

variable (claimant : Claimant π)

/-- `process_claim` up to its children: the status to return, or `none` to go on with them. -/
def claimThis (path : Option (List Char)) (this : Filesystem π) :
    Option Int × Filesystem π :=
  if this.fsal ≠ none ∧ this.fsal ≠ some claimant.fsal ∧ this.exported then (some einval, this)
  else
    let this := if this.fsal ≠ some claimant.fsal then unclaimFs this else this
    let r := claimant.claim this claimant.exp
    let this := { this with privateData := r.2, calls := this.calls ++ [.claim claimant.exp] }
    if r.1 = enxio then (some (if path.isSome then einval else 0), this)
    else if r.1 ≠ 0 then (some r.1, this)
    else
      (none, { this with
        fsal := some claimant.fsal, unclaim := some claimant.unclaim
        exported := this.exported || path.isSome })

def finishClaim (path : Option (List Char)) (this : Filesystem π) (children : MountForest π)
    (loop : Int × MountForest π) : Int × Filesystem π × MountForest π :=
  match claimThis claimant path this with
  | (some retval, this) => (retval, this, children)
  | (none, this) => (loop.1, this, loop.2)

/-- The children considered: all of them below the first level, there those whose path begins with
the export path. -/
def considered (path : Option (List Char)) (fs : Filesystem π) : Bool :=
  match path with
  | none => true
  | some path => !(fs.path.length < path.length || fs.path.take path.length != path)

def claimChildren (path : Option (List Char)) : MountForest π → Int × MountForest π
  | .nil => (0, .nil)
  | .cons fs sub rest =>
    if !considered path fs || fs.exported then
      let r := claimChildren path rest
      (r.1, .cons fs sub r.2)
    else
      let c := finishClaim claimant none fs sub (claimChildren none sub)
      if c.1 ≠ 0 then (c.1, .cons c.2.1 c.2.2 rest)
      else
        let r := claimChildren path rest
        (r.1, .cons c.2.1 c.2.2 r.2)

def processClaim (path : Option (List Char)) (this : Filesystem π) (children : MountForest π) :
    Int × Filesystem π × MountForest π :=
  finishClaim claimant path this children (claimChildren claimant path children)

end ProcessClaim

def components (path : List Char) : List (List Char) :=
  (path.splitOn '/').filter (· ≠ [])

def Below (export_ path : List Char) : Prop := components export_ <+: components path

instance (export_ path : List Char) : Decidable (Below export_ path) :=
  inferInstanceAs (Decidable (_ <+: _))

def WellMounted (parent : List Char) : MountForest π → Prop
  | .nil => True
  | .cons fs sub rest => Below parent fs.path ∧ WellMounted fs.path sub ∧ WellMounted parent rest

def claimed (claimant : Claimant π) (fs : Filesystem π) : Filesystem π :=
  let fs := if fs.fsal = some claimant.fsal then fs else unclaimFs fs
  { fs with
    fsal := some claimant.fsal, unclaim := some claimant.unclaim
    privateData := (claimant.claim fs claimant.exp).2
    calls := fs.calls ++ [.claim claimant.exp] }

/-- What lies below the export path and is reached without passing an exported file system is
claimed, and nothing else changes. -/
def claimBelow (claimant : Claimant π) (path : List Char) : MountForest π → MountForest π
  | .nil => .nil
  | .cons fs sub rest =>
    if fs.exported then .cons fs sub (claimBelow claimant path rest)
    else .cons (if Below path fs.path then claimed claimant fs else fs)
      (claimBelow claimant path sub) (claimBelow claimant path rest)

def ExportedByOther (claimant : Claimant π) (root : Filesystem π) : Prop :=
  root.fsal ≠ none ∧ root.fsal ≠ some claimant.fsal ∧ root.exported = true

/-- On what is mounted in the root file system and not exported, the comparison of strings agrees
with that of components. -/
def PrefixAgrees (path : List Char) (children : MountForest π) : Prop :=
  ∀ fs ∈ children.names, fs.exported = false → (path <+: fs.path ↔ Below path fs.path)

section Exact

variable {claimant : Claimant π} (hclaim : ∀ fs exp, (claimant.claim fs exp).1 = 0)

theorem considered_some_iff (path : List Char) (fs : Filesystem π) :
    considered (some path) fs = true ↔ path <+: fs.path := by
  rw [prefix_iff_eq_take]
  simp only [considered, Bool.not_eq_true', Bool.or_eq_false_iff, decide_eq_false_iff_not,
    bne_eq_false_iff_eq]
  constructor
  · rintro ⟨-, htake⟩
    exact htake.symm
  · intro htake
    refine ⟨fun hlt => ?_, htake.symm⟩
    have hlen := congrArg List.length htake
    simp only [length_take] at hlen
    omega

include hclaim in
theorem claimThis_eq {this : Filesystem π} (path : Option (List Char))
    (hother : ¬ ExportedByOther claimant this) :
    claimThis claimant path this =
      (none, { claimed claimant this with
        exported := (claimed claimant this).exported || path.isSome }) := by
  have hzero : (0 : Int) ≠ enxio := by decide
  unfold ExportedByOther at hother
  rw [claimThis, if_neg hother]
  simp only [hclaim, hzero, if_false, ne_eq, not_true_eq_false, claimed, ite_not]

include hclaim in
theorem finishClaim_none {fs : Filesystem π} (hfs : fs.exported = false)
    (sub : MountForest π) (loop : Int × MountForest π) :
    finishClaim claimant none fs sub loop = (loop.1, claimed claimant fs, loop.2) := by
  have hother : ¬ ExportedByOther claimant fs := by simp [ExportedByOther, hfs]
  rw [finishClaim, claimThis_eq hclaim none hother]
  simp only [Option.isSome_none, Bool.or_false]

theorem claimChildren_skip {path : Option (List Char)} {fs : Filesystem π}
    (hskip : considered path fs = false ∨ fs.exported = true) (sub rest : MountForest π) :
    claimChildren claimant path (.cons fs sub rest) =
      ((claimChildren claimant path rest).1, .cons fs sub (claimChildren claimant path rest).2) := by
  rw [claimChildren, if_pos]
  rcases hskip with h | h <;> simp [h]

include hclaim in
theorem claimChildren_take {path : Option (List Char)} {fs : Filesystem π}
    (hfs : fs.exported = false) (hcons : considered path fs = true) {sub : MountForest π}
    (hsub : (claimChildren claimant none sub).1 = 0) (rest : MountForest π) :
    claimChildren claimant path (.cons fs sub rest) =
      ((claimChildren claimant path rest).1,
        .cons (claimed claimant fs) (claimChildren claimant none sub).2
          (claimChildren claimant path rest).2) := by
  rw [claimChildren, if_neg (by simp [hfs, hcons]), finishClaim_none hclaim hfs, hsub]
  simp only [ne_eq, not_true_eq_false, if_false]

include hclaim in
theorem claimChildren_none {path parent : List Char} (hbelow : Below path parent)
    {children : MountForest π} (hmount : WellMounted parent children) :
    claimChildren claimant none children = (0, claimBelow claimant path children) := by
  induction children generalizing parent with
  | nil => rfl
  | cons fs sub rest ihsub ihrest =>
    obtain ⟨hfs, hsub, hrest⟩ := hmount
    have hpath : Below path fs.path := hbelow.trans hfs
    cases hexp : fs.exported with
    | true => rw [claimChildren_skip (.inr hexp), ihrest hbelow hrest, claimBelow, if_pos hexp]
    | false =>
      have hzero : (claimChildren claimant none sub).1 = 0 := by rw [ihsub hpath hsub]
      rw [claimChildren_take hclaim hexp rfl hzero, ihsub hpath hsub, ihrest hbelow hrest,
        claimBelow, if_neg (by simp [hexp]), if_pos hpath]

theorem claimBelow_eq_self {path parent : List Char} (hbelow : ¬ Below path parent)
    (habove : ¬ Below parent path) {children : MountForest π}
    (hmount : WellMounted parent children) : claimBelow claimant path children = children := by
  induction children generalizing parent with
  | nil => rfl
  | cons fs sub rest ihsub ihrest =>
    obtain ⟨hfs, hsub, hrest⟩ := hmount
    have hpath : ¬ Below path fs.path := by
      intro h
      exact (List.prefix_or_prefix_of_prefix h hfs).elim hbelow habove
    have hpath' : ¬ Below fs.path path := fun h => habove (hfs.trans h)
    rw [claimBelow, ihsub hpath hpath' hsub, ihrest hbelow habove hrest, if_neg hpath, ite_self]

include hclaim in
theorem claimChildren_fst (path : Option (List Char)) (children : MountForest π) :
    (claimChildren claimant path children).1 = 0 := by
  induction children generalizing path with
  | nil => rfl
  | cons fs sub rest ihsub ihrest =>
    by_cases hskip : considered path fs = false ∨ fs.exported = true
    · rw [claimChildren_skip hskip, ihrest]
    · simp only [not_or, Bool.not_eq_false, Bool.not_eq_true] at hskip
      rw [claimChildren_take hclaim hskip.2 hskip.1 (ihsub none), ihrest]

theorem claimed_ne_self (fs : Filesystem π) : claimed claimant fs ≠ fs := by
  intro heq
  have hcalls := congrArg (fun fs => fs.calls.length) heq
  simp only [claimed, length_append, length_singleton] at hcalls
  split at hcalls
  · omega
  · simp only [unclaimFs, length_append] at hcalls
    omega

include hclaim in
theorem claimChildren_some_iff {path parent : List Char} {children : MountForest π}
    (hmount : WellMounted parent children)
    (hinside : ∀ fs ∈ children.names, ¬ Below fs.path path) :
    (claimChildren claimant (some path) children).2 = claimBelow claimant path children ↔
      PrefixAgrees path children := by
  induction children with
  | nil => exact iff_of_true rfl (by simp [PrefixAgrees, names])
  | cons fs sub rest _ ihrest =>
    obtain ⟨hfs, hsub, hrest⟩ := hmount
    have habove : ¬ Below fs.path path := hinside fs (by simp [names])
    have ih := ihrest hrest fun fs' h => hinside fs' (by simp [names, h])
    have hsplit : PrefixAgrees path (.cons fs sub rest) ↔
        (fs.exported = false → (path <+: fs.path ↔ Below path fs.path)) ∧
          PrefixAgrees path rest := by
      simp [PrefixAgrees, names]
    rw [hsplit, ← ih]
    cases hexp : fs.exported with
    | true =>
      rw [claimChildren_skip (.inr hexp), claimBelow, if_pos hexp]
      simp
    | false =>
      rw [claimBelow, if_neg (by simp [hexp])]
      by_cases hstr : path <+: fs.path
      · have hcons := (considered_some_iff path fs).2 hstr
        rw [claimChildren_take hclaim hexp hcons (claimChildren_fst hclaim none sub)]
        by_cases hbelow : Below path fs.path
        · simp [claimChildren_none hclaim hbelow hsub, hstr, hbelow]
        · simp [hbelow, hstr, claimed_ne_self]
      · have hcons : considered (some path) fs = false := by
          rw [← Bool.not_eq_true, considered_some_iff]
          exact hstr
        rw [claimChildren_skip (.inl hcons)]
        by_cases hbelow : Below path fs.path
        · simp [hbelow, hstr, (claimed_ne_self fs).symm]
        · simp [claimBelow_eq_self hbelow habove hsub, hstr, hbelow]

include hclaim in
/-- The claim of an export path inside a root file system marks exactly the root, as exported, and
what lies below the path, unless another FSAL exports the root or a mount path only continues the
last component of the export path. -/
theorem process_claim_exact_iff {path : List Char} {root : Filesystem π}
    {children : MountForest π} (hmount : WellMounted root.path children)
    (hinside : ∀ fs ∈ children.names, ¬ Below fs.path path) :
    processClaim claimant (some path) root children =
        (0, { claimed claimant root with exported := true }, claimBelow claimant path children) ↔
      ¬ ExportedByOther claimant root ∧ PrefixAgrees path children := by
  by_cases hother : ExportedByOther claimant root
  · have hrefused : claimThis claimant (some path) root = (some einval, root) := if_pos hother
    have hne : einval ≠ 0 := by decide
    simp [processClaim, finishClaim, hrefused, hother, hne]
  · rw [processClaim, finishClaim, claimThis_eq hclaim (some path) hother]
    simp only [claimChildren_fst hclaim, Option.isSome_some, Bool.or_true, Prod.mk.injEq,
      true_and, hother, not_false_eq_true]
    exact claimChildren_some_iff hclaim hmount hinside

end Exact

def willing : Claimant Unit where
  fsal := 1
  exp := 7
  claim := fun _ _ => (0, some ())
  unclaim := 1

def unclaimedFs (path : List Char) : Filesystem Unit := ⟨path, none, none, false, none, []⟩

def otherFs (path : List Char) : Filesystem Unit :=
  ⟨path, some 2, some 2, false, some (), [.claim 5]⟩

theorem process_claim_data :
    processClaim willing (some ['/', 'd']) (unclaimedFs ['/'])
        (.cons (otherFs ['/', 'd', '/', 'm']) .nil (.cons (unclaimedFs ['/', 'x']) .nil .nil)) =
      (0, { claimed willing (unclaimedFs ['/']) with exported := true },
        claimBelow willing ['/', 'd']
          (.cons (otherFs ['/', 'd', '/', 'm']) .nil (.cons (unclaimedFs ['/', 'x']) .nil .nil))) := by
  refine (process_claim_exact_iff (fun _ _ => rfl) ?_ ?_).2 ⟨?_, ?_⟩
  · exact ⟨by decide, trivial, by decide, trivial, trivial⟩
  · decide
  · simp [ExportedByOther, unclaimedFs]
  · unfold PrefixAgrees
    decide

/-- The export of `/d` also claims what is mounted on `/dx`. -/
theorem claims_longer_name :
    WellMounted ['/'] (.cons (unclaimedFs ['/', 'd', 'x']) .nil .nil) ∧
      ¬ Below ['/', 'd', 'x'] ['/', 'd'] ∧ ¬ Below ['/', 'd'] ['/', 'd', 'x'] ∧
      (processClaim willing (some ['/', 'd']) (unclaimedFs ['/'])
        (.cons (unclaimedFs ['/', 'd', 'x']) .nil .nil)).2.2.names.map (·.fsal) = [some 1] ∧
      processClaim willing (some ['/', 'd']) (unclaimedFs ['/'])
          (.cons (unclaimedFs ['/', 'd', 'x']) .nil .nil) ≠
        (0, { claimed willing (unclaimedFs ['/']) with exported := true },
          claimBelow willing ['/', 'd'] (.cons (unclaimedFs ['/', 'd', 'x']) .nil .nil)) := by
  refine ⟨⟨by decide, trivial, trivial⟩, by decide, by decide, by decide, by decide⟩

section Release

variable (mem : Nat → Filesystem π) (posixFileSystems : List Nat)

def nodes : PathTree Nat → List Nat
  | .nil => []
  | .cons fs children siblings => fs :: (nodes children ++ nodes siblings)

/-- `release_posix_file_system` after the loop over the children: the result, and the siblings with
the file system unless it is removed and freed. -/
def finishRelease (fs : Nat) (loop : Bool × PathTree Nat) (siblings : PathTree Nat) :
    Bool × PathTree Nat :=
  if (mem fs).unclaim ≠ none then (true, .cons fs loop.2 siblings)
  else if loop.1 then (true, .cons fs loop.2 siblings)
  else (false, siblings)

def releaseChildren : PathTree Nat → Bool × PathTree Nat
  | .nil => (false, .nil)
  | .cons fs children siblings =>
    let next := releaseChildren siblings
    let child := finishRelease mem fs (releaseChildren children) next.2
    (child.1 || next.1, child.2)

def releasePosixFileSystem (fs : Nat) : PathTree Nat → PathTree Nat
  | .nil => .nil
  | .cons fs' children siblings =>
    if fs' = fs then (finishRelease mem fs (releaseChildren mem children) siblings).2
    else .cons fs' (releasePosixFileSystem fs children) (releasePosixFileSystem fs siblings)

/-- `release_posix_file_systems`, with the list it starts from; a file system leaves the list with
the tree. It is `none` if the loop goes on after `fuel` turns. -/
def releasePosixFileSystems : Nat → PathTree Nat → Option (PathTree Nat)
  | 0, _ => none
  | fuel + 1, t =>
    match posixFileSystems.find? (· ∈ nodes t) with
    | none => some t
    | some fs => releasePosixFileSystems fuel (releasePosixFileSystem mem fs t)

def Needed (x : Nat) : PathTree Nat → Prop
  | .nil => False
  | .cons fs children siblings =>
    (x = fs ∧ ∃ c ∈ fs :: nodes children, (mem c).unclaim ≠ none) ∨
      Needed x children ∨ Needed x siblings

variable {mem posixFileSystems} {t : PathTree Nat} {x : Nat}

section Claimed

variable (hx : x ∈ nodes t) (hclaimed : (mem x).unclaim ≠ none)

include hx hclaimed

theorem releaseChildren_claimed :
    (releaseChildren mem t).1 = true ∧ x ∈ nodes (releaseChildren mem t).2 := by
  induction t with
  | nil => cases hx
  | cons fs children siblings ihchildren ihsiblings =>
    simp only [nodes, mem_cons, mem_append] at hx
    unfold releaseChildren finishRelease
    rcases hx with rfl | hx | hx
    · simp [hclaimed, nodes]
    · split_ifs <;> simp_all [nodes]
    · split_ifs <;> simp [nodes, ihsiblings hx]

theorem releasePosixFileSystem_claimed (fs : Nat) :
    x ∈ nodes (releasePosixFileSystem mem fs t) := by
  induction t with
  | nil => cases hx
  | cons fs' children siblings ihchildren ihsiblings =>
    simp only [nodes, mem_cons, mem_append] at hx
    unfold releasePosixFileSystem finishRelease
    rcases hx with rfl | hx | hx
    · split_ifs <;> simp_all [nodes]
    · have hloop := releaseChildren_claimed hx hclaimed
      split_ifs <;> simp_all [nodes]
    · split_ifs <;> simp [nodes, hx, ihsiblings hx]

theorem release_never_returns (hlist : x ∈ posixFileSystems) (fuel : Nat) :
    releasePosixFileSystems mem posixFileSystems fuel t = none := by
  induction fuel generalizing t with
  | zero => rfl
  | succ fuel ih =>
    unfold releasePosixFileSystems
    cases hfirst : posixFileSystems.find? (· ∈ nodes t) with
    | none => exact absurd hx (by simpa using find?_eq_none.1 hfirst x hlist)
    | some fs => exact ih (releasePosixFileSystem_claimed hx hclaimed fs)

end Claimed

section Unclaimed

variable (hnone : ∀ fs ∈ nodes t, (mem fs).unclaim = none)

include hnone

theorem not_needed (x : Nat) : ¬ Needed mem x t := by
  induction t with
  | nil => exact id
  | cons fs children siblings ihchildren ihsiblings =>
    simp only [nodes, forall_mem_cons, forall_mem_append] at hnone
    rintro (⟨-, c, hc, hclaimed⟩ | hx | hx)
    · rcases mem_cons.1 hc with rfl | hc
      · exact hclaimed hnone.1
      · exact hclaimed (hnone.2.1 c hc)
    · exact ihchildren hnone.2.1 hx
    · exact ihsiblings hnone.2.2 hx

theorem releaseChildren_unclaimed : releaseChildren mem t = (false, .nil) := by
  induction t with
  | nil => rfl
  | cons fs children siblings ihchildren ihsiblings =>
    simp only [nodes, forall_mem_cons, forall_mem_append] at hnone
    simp [releaseChildren, finishRelease, hnone.1, ihchildren hnone.2.1, ihsiblings hnone.2.2]

theorem releasePosixFileSystem_unclaimed (fs : Nat) :
    nodes (releasePosixFileSystem mem fs t) <+ nodes t ∧
      (fs ∈ nodes t → (nodes (releasePosixFileSystem mem fs t)).length < (nodes t).length) := by
  induction t with
  | nil => simp [releasePosixFileSystem, nodes]
  | cons fs' children siblings ihchildren ihsiblings =>
    simp only [nodes, forall_mem_cons, forall_mem_append] at hnone
    obtain ⟨hsub, hlt⟩ := ihchildren hnone.2.1
    obtain ⟨hsub', hlt'⟩ := ihsiblings hnone.2.2
    unfold releasePosixFileSystem
    split_ifs with heq
    · subst heq
      simp only [finishRelease, hnone.1, releaseChildren_unclaimed hnone.2.1, nodes, ne_eq,
        not_true_eq_false, Bool.false_eq_true, if_false]
      refine ⟨(sublist_append_right ..).cons _, fun _ => ?_⟩
      simp only [length_cons, length_append]
      omega
    · have hle := hsub.length_le
      have hle' := hsub'.length_le
      refine ⟨(hsub.append hsub').cons_cons _, ?_⟩
      simp only [nodes, mem_cons, mem_append, length_cons, length_append]
      rintro (hfs | hfs | hfs)
      · exact absurd hfs.symm heq
      · have := hlt hfs
        omega
      · have := hlt' hfs
        omega

theorem release_returns (hlist : ∀ fs ∈ nodes t, fs ∈ posixFileSystems) {fuel : Nat}
    (hfuel : (nodes t).length < fuel) :
    ∃ t', releasePosixFileSystems mem posixFileSystems fuel t = some t' ∧ nodes t' = [] := by
  induction fuel generalizing t with
  | zero => omega
  | succ fuel ih =>
    unfold releasePosixFileSystems
    cases hfirst : posixFileSystems.find? (· ∈ nodes t) with
    | none =>
      refine ⟨t, rfl, eq_nil_iff_forall_not_mem.2 fun fs hfs => ?_⟩
      simpa [hfs] using find?_eq_none.1 hfirst fs (hlist fs hfs)
    | some fs =>
      obtain ⟨hsub, hlt⟩ := releasePosixFileSystem_unclaimed hnone fs
      have hlt := hlt (by simpa using find?_some hfirst)
      exact ih (fun fs hfs => hnone fs (hsub.subset hfs)) (fun fs hfs => hlist fs (hsub.subset hfs))
        (by omega)

end Unclaimed

/-- The release returns, with what is needed left, exactly if no file system is claimed. -/
theorem release_posix_file_systems_iff (hlist : ∀ fs ∈ nodes t, fs ∈ posixFileSystems) :
    (∃ fuel t', releasePosixFileSystems mem posixFileSystems fuel t = some t' ∧
        ∀ x, x ∈ nodes t' ↔ Needed mem x t) ↔
      ∀ fs ∈ nodes t, (mem fs).unclaim = none := by
  constructor
  · rintro ⟨fuel, t', hsome, -⟩ fs hfs
    by_contra hclaimed
    rw [release_never_returns hfs hclaimed (hlist fs hfs)] at hsome
    cases hsome
  · intro hnone
    obtain ⟨t', hsome, hempty⟩ := release_returns hnone hlist (Nat.lt_succ_self _)
    exact ⟨_, t', hsome, fun x => by simp [hempty, not_needed hnone x]⟩

end Release

theorem release_unclaimed :
    ∃ fuel t', releasePosixFileSystems (fun _ => unclaimedFs ['/']) [0] fuel (.cons 0 .nil .nil) =
        some t' ∧ ∀ x, x ∈ nodes t' ↔ Needed (fun _ => unclaimedFs ['/']) x (.cons 0 .nil .nil) :=
  (release_posix_file_systems_iff (by decide)).2 fun _ _ => rfl

/-- One claimed file system, and the loop has no end. -/
theorem release_claimed_forever :
    ¬ ∃ fuel t', releasePosixFileSystems (fun _ => otherFs ['/']) [0] fuel (.cons 0 .nil .nil) =
      some t' := by
  rintro ⟨fuel, t', hsome⟩
  rw [release_never_returns (x := 0) (by decide) (by decide) (by decide)] at hsome
  cases hsome

end EdgeComputing.Fsal
