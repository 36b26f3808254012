import EdgeComputing.Library.PathTree
import Mathlib.Logic.Function.Basic

/-!
The pruning of the pseudo file system after an update of the exports (nfs4_pseudo.c). What is
mounted on an export is a tree of addresses; an export that is unmounted leaves the list it is on
while that list is iterated.
-/

namespace EdgeComputing.Nfs4

open List Library Function

structure MountedExport where
  exportId : Nat
  configGen : Nat
  nfsv4 : Bool
  pseudopath : List Char
  absolute : pseudopath.head? = some '/'
  isPseudo : Bool

structure PruneConfig where
  exp : Nat → MountedExport
  generation : Nat

structure UpdateFlags where
  pruneUnmount : Bool
  remount : Bool

/-- What the pruning changes. Each unmounted export is listed with what was mounted on it then. -/
structure PruneState where
  update : Nat → UpdateFlags
  refs : Nat → Int
  mountWork : List Nat
  unmounted : List (Nat × PathTree Nat)

def PruneState.addRef (s : PruneState) (x : Nat) (n : Int) : PruneState :=
  { s with refs := fun y => s.refs y + if y = x then n else 0 }

section Prune

variable (cfg : PruneConfig)

/-- The clean-up of the nodes of the PseudoFS runs with a reference of its own. -/
def pseudoUnmountExport (x : Nat) (mountedOn : Option Nat) (mounted : PathTree Nat)
    (s : PruneState) : PruneState :=
  match mountedOn with
  | none => s
  | some parent =>
    let s := { s with unmounted := s.unmounted ++ [(x, mounted)] }
    let s := if (cfg.exp parent).isPseudo then (s.addRef parent 1).addRef parent (-1) else s
    s.addRef parent (-1)

def finishPrune (x : Nat) (mountedOn : Option Nat) (defunct : Bool) (mounted : PathTree Nat)
    (s : PruneState) : PruneState :=
  let s := if defunct then pseudoUnmountExport cfg x mountedOn mounted s else s
  -- The flag is set, and cleared after it has been tested.
  let remount := (s.update x).remount ∨ defunct ∧ cfg.generation ≤ (cfg.exp x).configGen ∧
    (cfg.exp x).nfsv4 ∧ (cfg.exp x).exportId ≠ 0 ∧ (cfg.exp x).pseudopath.tail ≠ []
  { s with
    mountWork := if remount then s.mountWork ++ [x] else s.mountWork
    update := update s.update x ⟨false, false⟩ }

def isDefunct (s : PruneState) (ancestorIsDefunct : Bool) (x : Nat) : Bool :=
  ancestorIsDefunct || (cfg.exp x).configGen < cfg.generation || (s.update x).pruneUnmount

def pruneMounted (x : Nat) (defunct : Bool) : PathTree Nat → PruneState → PruneState × PathTree Nat
  | .nil, s => (s, .nil)
  | .cons child mounted rest, s =>
    let childDefunct := isDefunct cfg s defunct child
    let loop := pruneMounted child childDefunct mounted (s.addRef child 1)
    let s := (finishPrune cfg child (some x) childDefunct loop.2 loop.1).addRef child (-1)
    let next := pruneMounted x defunct rest s
    (next.1, if childDefunct then next.2 else .cons child loop.2 next.2)

def prunePseudofsSubtree (root : Nat) (mounted : PathTree Nat) (s : PruneState) :
    PruneState × PathTree Nat :=
  let defunct := isDefunct cfg s false root
  let loop := pruneMounted cfg root defunct mounted (s.addRef root 1)
  ((finishPrune cfg root none defunct loop.2 loop.1).addRef root (-1), loop.2)

end Prune

/-- The exports of a tree with those they are mounted on, the nearest one first; an export comes
after what is mounted on it. -/
def postorder (above : List Nat) : PathTree Nat → List (Nat × List Nat)
  | .nil => []
  | .cons x mounted rest => postorder (x :: above) mounted ++ (x, above) :: postorder above rest

section Spec

variable (cfg : PruneConfig) (σ : PruneState)

def Outdated (x : Nat) : Prop :=
  (cfg.exp x).configGen < cfg.generation ∨ (σ.update x).pruneUnmount

def Gone (v : Nat × List Nat) : Prop := ∃ a ∈ v.1 :: v.2, Outdated cfg σ a

instance : DecidablePred (Gone cfg σ) := fun _ => by unfold Gone Outdated; infer_instance

def Remounted (v : Nat × List Nat) : Prop :=
  (σ.update v.1).remount ∨ Gone cfg σ v ∧ cfg.generation ≤ (cfg.exp v.1).configGen ∧
    (cfg.exp v.1).nfsv4 ∧ (cfg.exp v.1).exportId ≠ 0 ∧ (cfg.exp v.1).pseudopath ≠ ['/']

instance : DecidablePred (Remounted cfg σ) := fun _ => by unfold Remounted; infer_instance

structure Pruned (visits : List (Nat × List Nat)) (s t : PruneState) : Prop where
  unmounted : t.unmounted =
    s.unmounted ++ (visits.filter fun v => v.2 ≠ [] ∧ Gone cfg σ v).map fun v => (v.1, .nil)
  mountWork : t.mountWork = s.mountWork ++ (visits.filter (Remounted cfg σ ·)).map Prod.fst
  update x : t.update x = if x ∈ visits.map Prod.fst then ⟨false, false⟩ else s.update x
  refs x : t.refs x = s.refs x - visits.countP fun v => v.2.head? = some x ∧ Gone cfg σ v

variable {cfg σ} {s t u : PruneState} {vs ws : List (Nat × List Nat)} {x : Nat} {above : List Nat}
  {defunct : Bool} {m : PathTree Nat}

theorem Pruned.trans (hst : Pruned cfg σ vs s t) (htu : Pruned cfg σ ws t u) :
    Pruned cfg σ (vs ++ ws) s u where
  unmounted := by simp [htu.unmounted, hst.unmounted]
  mountWork := by simp [htu.mountWork, hst.mountWork]
  update x := by
    rw [htu.update, hst.update, map_append]
    grind
  refs x := by
    rw [htu.refs, hst.refs, countP_append]
    omega

theorem Pruned.addRef (h : Pruned cfg σ vs (s.addRef x 1) t) :
    Pruned cfg σ vs s (t.addRef x (-1)) where
  unmounted := h.unmounted
  mountWork := h.mountWork
  update := h.update
  refs y := by
    have hy := h.refs y
    simp only [PruneState.addRef] at hy ⊢
    split_ifs at hy ⊢ <;> omega

theorem finishPrune_pruned (hdefunct : defunct = true ↔ Gone cfg σ (x, above))
    (hm : defunct = true → m = .nil) (hflags : s.update x = σ.update x) :
    Pruned cfg σ [(x, above)] s (finishPrune cfg x above.head? defunct m s) := by
  have hpath : (cfg.exp x).pseudopath.tail ≠ [] ↔ (cfg.exp x).pseudopath ≠ ['/'] := by
    have habsolute := (cfg.exp x).absolute
    cases h : (cfg.exp x).pseudopath <;> simp_all
  unfold finishPrune
  simp only [hpath]
  cases defunct with
  | false =>
    have hgone : ¬ Gone cfg σ (x, above) := by simpa using hdefunct
    constructor <;> simp [Remounted, hgone, hflags, filter_cons] <;> grind
  | true =>
    have hgone := hdefunct.1 rfl
    obtain rfl := hm rfl
    cases above with
    | nil =>
      constructor <;> simp [pseudoUnmountExport, Remounted, hgone, hflags, filter_cons] <;> grind
    | cons parent above =>
      cases hpseudo : (cfg.exp parent).isPseudo <;> constructor <;>
        simp [pseudoUnmountExport, PruneState.addRef, Remounted, hgone, hflags, hpseudo,
          filter_cons] <;> grind

theorem isDefunct_iff (hdefunct : defunct = true ↔ ∃ a ∈ above, Outdated cfg σ a)
    (hflags : s.update x = σ.update x) :
    isDefunct cfg s defunct x = true ↔ Gone cfg σ (x, above) := by
  rw [isDefunct, Bool.or_assoc, Bool.or_eq_true, hdefunct, Bool.or_eq_true, hflags, Gone,
    exists_mem_cons_iff, or_comm, Outdated, decide_eq_true_iff]

theorem pruneMounted_defunct (hdefunct : defunct = true) :
    (pruneMounted cfg x defunct m s).2 = .nil := by
  subst hdefunct
  induction m generalizing x s with
  | nil => rfl
  | cons child mounted rest _ ihrest => simp [pruneMounted, isDefunct, ihrest]

theorem pruneMounted_pruned (hx : above.head? = some x)
    (hdefunct : defunct = true ↔ ∃ a ∈ above, Outdated cfg σ a)
    (hnodup : ((postorder above m).map Prod.fst).Nodup)
    (hflags : ∀ y ∈ (postorder above m).map Prod.fst, s.update y = σ.update y) :
    Pruned cfg σ (postorder above m) s (pruneMounted cfg x defunct m s).1 ∧
      postorder above (pruneMounted cfg x defunct m s).2 =
        (postorder above m).filter fun v => ¬ Gone cfg σ v := by
  induction m generalizing x above defunct s with
  | nil => exact ⟨by constructor <;> simp [postorder, pruneMounted], rfl⟩
  | cons child mounted rest ihmounted ihrest =>
    simp only [postorder, map_append, map_cons, forall_mem_append, forall_mem_cons]
      at hnodup hflags ⊢
    obtain ⟨hflagsMounted, hflagsChild, hflagsRest⟩ := hflags
    obtain ⟨hmounted, hrest, hdisj⟩ := nodup_append.1 hnodup
    obtain ⟨hchild, hrest⟩ := nodup_cons.1 hrest
    have hd := isDefunct_iff hdefunct hflagsChild
    simp only [pruneMounted]
    generalize isDefunct cfg s defunct child = d at hd ⊢
    have hd' : d = true ↔ ∃ a ∈ child :: above, Outdated cfg σ a := hd
    have hloop := ihmounted (s := s.addRef child 1) rfl hd' hmounted hflagsMounted
    have hnil : d = true → (pruneMounted cfg child d mounted (s.addRef child 1)).2 = .nil :=
      pruneMounted_defunct
    generalize pruneMounted cfg child d mounted (s.addRef child 1) = loop at hloop hnil ⊢
    obtain ⟨hloop, hleft⟩ := hloop
    -- The loop over what is mounted on the child has not touched the flags of the child.
    have hflag : loop.1.update child = σ.update child := by
      rw [hloop.update, if_neg fun h => hdisj _ h child (by simp) rfl]
      exact hflagsChild
    have hvisit := (hloop.trans (finishPrune_pruned hd hnil hflag)).addRef
    rw [hx] at hvisit
    have hnext := ihrest hx hdefunct hrest (s := _) fun y hy => by
      rw [hvisit.update, ← hflagsRest y hy]
      grind
    refine ⟨by simpa using hvisit.trans hnext.1, ?_⟩
    rw [filter_append, filter_cons, ← hleft, ← hnext.2]
    cases d with
    | true => simp [hnil rfl, postorder, hd.1 rfl]
    | false => simp [postorder, hd.not.1]

/-- Pruning from the root visits every export once, unmounts what has to go, queues what is to be
mounted again, clears the flags and drops the references of what it unmounts; all else stays where
it is mounted. -/
theorem prune_pseudofs_subtree_exact (cfg : PruneConfig) (root : Nat) (mounted : PathTree Nat)
    (s : PruneState)
    (hnodup : ((postorder [] (.cons root mounted .nil)).map Prod.fst).Nodup) :
    Pruned cfg s (postorder [] (.cons root mounted .nil)) s
        (prunePseudofsSubtree cfg root mounted s).1 ∧
      postorder [root] (prunePseudofsSubtree cfg root mounted s).2 =
        (postorder [root] mounted).filter fun v => ¬ Gone cfg s v := by
  simp only [postorder, map_append, nodup_append] at hnodup
  have hroot : root ∉ (postorder [root] mounted).map Prod.fst :=
    fun h => hnodup.2.2 _ h root (by simp) rfl
  have hd : isDefunct cfg s false root = true ↔ Gone cfg s (root, []) := isDefunct_iff (by simp) rfl
  simp only [prunePseudofsSubtree]
  generalize isDefunct cfg s false root = d at hd ⊢
  have hd' : d = true ↔ ∃ a ∈ [root], Outdated cfg s a := hd
  obtain ⟨hloop, hleft⟩ :=
    pruneMounted_pruned (s := s.addRef root 1) rfl hd' hnodup.1 fun _ _ => rfl
  have hflags := hloop.update root
  rw [if_neg hroot] at hflags
  exact ⟨(hloop.trans (finishPrune_pruned hd pruneMounted_defunct hflags)).addRef, hleft⟩

end Spec

def olderExport : PruneConfig :=
  ⟨fun x => ⟨x, if x = 1 then 0 else 1, true, ['/', 'a'], rfl, true⟩, 1⟩

def beforePrune : PruneState := ⟨fun _ => ⟨false, false⟩, fun _ => 1, [], []⟩

/-- Export 2 is mounted on export 1. -/
theorem prune_older_export :
    let prune := prunePseudofsSubtree olderExport 0 (.cons 1 (.cons 2 .nil .nil) .nil) beforePrune
    Pruned olderExport beforePrune [(2, [1, 0]), (1, [0]), (0, [])] beforePrune prune.1 ∧
      postorder [0] prune.2 =
        [(2, [1, 0]), (1, [0])].filter fun v => ¬ Gone olderExport beforePrune v :=
  prune_pseudofs_subtree_exact olderExport 0 (.cons 1 (.cons 2 .nil .nil) .nil) beforePrune
    (by decide)

end EdgeComputing.Nfs4
