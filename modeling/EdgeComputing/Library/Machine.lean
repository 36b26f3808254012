import Mathlib.Tactic.TypeStar

/-!
Guarded, executable transition systems. `step s a` is `none` where the label `a` is not enabled in
`s`; the label carries the nondeterminism of the environment. A run may be restricted to steps that
meet a condition on the label and the state before.
-/

namespace EdgeComputing.Library

open Option

structure Machine (σ : Type*) (α : Type*) where
  init : σ → Prop
  step : σ → α → Option σ

namespace Machine

variable {σ : Type*} {α : Type*} {M : Machine σ α}

inductive ReachableBy (M : Machine σ α) (guard : σ → α → Prop) : σ → Prop
  | init {s : σ} : M.init s → ReachableBy M guard s
  | step {s t : σ} {a : α} :
      ReachableBy M guard s → guard s a → M.step s a = some t → ReachableBy M guard t

def Reachable (M : Machine σ α) : σ → Prop :=
  M.ReachableBy fun _ _ => True

inductive RunBy (M : Machine σ α) (guard : σ → α → Prop) (s : σ) : σ → Prop
  | refl : RunBy M guard s s
  | step {t u : σ} {a : α} : RunBy M guard s t → guard t a → M.step t a = some u → RunBy M guard s u

/-- Replays a list of labels; `none` if one of them is not enabled. -/
def runFrom (M : Machine σ α) : σ → List α → Option σ
  | s, [] => some s
  | s, a :: as => (M.step s a).bind fun t => M.runFrom t as

/-- Replays a list of labels as long as each of them meets the guard. -/
def runFromBy (M : Machine σ α) (guard : σ → α → Prop) [∀ s a, Decidable (guard s a)] :
    σ → List α → Option σ
  | s, [] => some s
  | s, a :: as => if guard s a then (M.step s a).bind fun t => M.runFromBy guard t as else none

variable {guard : σ → α → Prop} {t s : σ}

/-- The invariant rule: what holds initially and is kept by every step that meets
the guard holds in every state such steps reach. -/
theorem ReachableBy.invariant {P : σ → Prop} (hinit : ∀ s, M.init s → P s)
    (hstep : ∀ s a t, P s → guard s a → M.step s a = some t → P t) (h : M.ReachableBy guard t) :
    P t := by
  induction h with
  | init h => exact hinit _ h
  | step _ hguard hs ih => exact hstep _ _ _ ih hguard hs

theorem Reachable.invariant {P : σ → Prop} (hinit : ∀ s, M.init s → P s)
    (hstep : ∀ s a t, P s → M.step s a = some t → P t) (h : M.Reachable t) : P t :=
  ReachableBy.invariant hinit (fun s a t hs _ h => hstep s a t hs h) h

theorem ReachableBy.reachable (h : M.ReachableBy guard s) : M.Reachable s := by
  induction h with
  | init h => exact .init h
  | step _ _ hs ih => exact .step ih trivial hs

theorem RunBy.trans {u : σ} (hst : M.RunBy guard s t) (htu : M.RunBy guard t u) : M.RunBy guard s u := by
  induction htu with
  | refl => exact hst
  | step _ hguard hstep ih => exact .step ih hguard hstep

theorem ReachableBy.run (hs : M.ReachableBy guard s) (h : M.RunBy guard s t) :
    M.ReachableBy guard t := by
  induction h with
  | refl => exact hs
  | step _ hguard hstep ih => exact .step ih hguard hstep

theorem RunBy.reachable (h : M.RunBy guard s t) (hs : M.Reachable s) : M.Reachable t := by
  induction h with
  | refl => exact hs
  | step _ _ hstep ih => exact .step ih trivial hstep

theorem reachable_of_runFrom (hs : M.Reachable s) (as : List α) (h : M.runFrom s as = some t) :
    M.Reachable t := by
  induction as generalizing s with
  | nil =>
    simp only [runFrom, some.injEq] at h
    exact h ▸ hs
  | cons a as ih =>
    simp only [runFrom, bind_eq_some_iff] at h
    obtain ⟨u, hu, hrest⟩ := h
    exact ih (.step hs trivial hu) hrest

theorem reachableBy_of_runFromBy [∀ s a, Decidable (guard s a)] (hs : M.ReachableBy guard s)
    (as : List α) (h : M.runFromBy guard s as = some t) : M.ReachableBy guard t := by
  induction as generalizing s with
  | nil =>
    simp only [runFromBy, some.injEq] at h
    exact h ▸ hs
  | cons a as ih =>
    simp only [runFromBy, ite_none_right_eq_some, bind_eq_some_iff] at h
    obtain ⟨hguard, u, hu, hrest⟩ := h
    exact ih (.step hs hguard hu) hrest

/-- A replayed run ends in a reachable state, of which `f` shows what the replay has shown. -/
theorem exists_reachable {β : Type*} {f : σ → β} {x : β} {as : List α}
    (h : (M.runFrom s as).map f = some x) (hs : M.Reachable s) :
    ∃ t, M.Reachable t ∧ f t = x := by
  obtain ⟨t, ht, hf⟩ := map_eq_some_iff.1 h
  exact ⟨t, reachable_of_runFrom hs as ht, hf⟩

theorem exists_reachableBy [∀ s a, Decidable (guard s a)] {β : Type*} {f : σ → β} {x : β}
    {as : List α} (h : (M.runFromBy guard s as).map f = some x) (hs : M.ReachableBy guard s) :
    ∃ t, M.ReachableBy guard t ∧ f t = x := by
  obtain ⟨t, ht, hf⟩ := map_eq_some_iff.1 h
  exact ⟨t, reachableBy_of_runFromBy hs as ht, hf⟩

end Machine

end EdgeComputing.Library
