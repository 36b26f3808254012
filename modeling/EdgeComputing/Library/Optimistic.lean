import EdgeComputing.Library.Machine
import EdgeComputing.Library.Table

/-!
Optimistic concurrency on one shared object. An operation reads the object and its version, prepares
an update, and hands it over with that version; if that is stale it starts again, with whatever the
failed iteration has left in its state. An update that goes through is applied to the very object it
was prepared from.
-/

namespace EdgeComputing.Library

open List

/-- What an iteration makes of the object it has read: the operation is over, or an update is to
be written; `k` is the state of the loop if it has to be repeated, `d` the result if not. -/
inductive Attempt (κ υ ε δ : Type*)
  | done (r : Except ε δ)
  | write (k : κ) (u : υ) (d : δ)

structure Optimistic (α β κ υ ε δ : Type*) where
  start : α → κ
  attempt : κ → β → Attempt κ υ ε δ
  apply : υ → β → β

inductive Call (κ υ ε δ : Type*)
  | reading (k : κ)
  | writing (k : κ) (ver : Nat) (u : υ) (d : δ)
  | returned (k : κ) (r : Except ε δ)

def Call.loop {κ υ ε δ : Type*} : Call κ υ ε δ → κ
  | .reading k | .writing k _ _ _ | .returned k _ => k

def Call.isReturned {κ υ ε δ : Type*} : Call κ υ ε δ → Bool
  | .reading _ | .writing _ _ _ _ => false
  | .returned _ _ => true

structure Shared (β κ υ ε δ : Type*) where
  obj : β
  ver : Nat
  calls : List (Call κ υ ε δ)

inductive Access (α ε : Type*)
  | invoke (a : α)
  | read (i : Nat)
  | write (i : Nat)
  | fail (i : Nat) (e : ε)

namespace Optimistic

variable {α β κ υ ε δ : Type*} {P : Optimistic α β κ υ ε δ} {created : β → Prop}
variable {σ τ : Shared β κ υ ε δ} {x : Access α ε} {c : Call κ υ ε δ}

def step (P : Optimistic α β κ υ ε δ) (σ : Shared β κ υ ε δ) :
    Access α ε → Option (Shared β κ υ ε δ)
  | .invoke a => some { σ with calls := σ.calls ++ [.reading (P.start a)] }
  | .read i =>
    match σ.calls[i]? with
    | some (.reading k) =>
      match P.attempt k σ.obj with
      | .done r => some { σ with calls := σ.calls.set i (.returned k r) }
      | .write k' u d => some { σ with calls := σ.calls.set i (.writing k' σ.ver u d) }
    | _ => none
  | .write i =>
    match σ.calls[i]? with
    | some (.writing k ver u d) =>
      if ver = σ.ver then
        some ⟨P.apply u σ.obj, σ.ver + 1, σ.calls.set i (.returned k (.ok d))⟩
      else
        some { σ with calls := σ.calls.set i (.reading k) }
    | _ => none
  | .fail i e =>
    match σ.calls[i]? with
    | some c =>
      if c.isReturned then none
      else some { σ with calls := σ.calls.set i (.returned c.loop (.error e)) }
    | none => none

def machine (P : Optimistic α β κ υ ε δ) (created : β → Prop) :
    Machine (Shared β κ υ ε δ) (Access α ε) where
  init σ := created σ.obj ∧ σ.calls = []
  step := P.step

inductive Moves (P : Optimistic α β κ υ ε δ) (σ : Shared β κ υ ε δ) :
    Access α ε → Shared β κ υ ε δ → Prop
  | invoked (a : α) : Moves P σ (.invoke a) { σ with calls := σ.calls ++ [.reading (P.start a)] }
  | answered {i : Nat} {k : κ} {r : Except ε δ} : σ.calls[i]? = some (.reading k) →
      P.attempt k σ.obj = .done r →
      Moves P σ (.read i) { σ with calls := σ.calls.set i (.returned k r) }
  | prepared {i : Nat} {k k' : κ} {u : υ} {d : δ} : σ.calls[i]? = some (.reading k) →
      P.attempt k σ.obj = .write k' u d →
      Moves P σ (.read i) { σ with calls := σ.calls.set i (.writing k' σ.ver u d) }
  | written {i : Nat} {k : κ} {u : υ} {d : δ} : σ.calls[i]? = some (.writing k σ.ver u d) →
      Moves P σ (.write i) ⟨P.apply u σ.obj, σ.ver + 1, σ.calls.set i (.returned k (.ok d))⟩
  | stale {i : Nat} {k : κ} {ver : Nat} {u : υ} {d : δ} :
      σ.calls[i]? = some (.writing k ver u d) → ver ≠ σ.ver →
      Moves P σ (.write i) { σ with calls := σ.calls.set i (.reading k) }
  | failed {i : Nat} {c : Call κ υ ε δ} (e : ε) : σ.calls[i]? = some c → c.isReturned = false →
      Moves P σ (.fail i e) { σ with calls := σ.calls.set i (.returned c.loop (.error e)) }

theorem moves_of_step (h : P.step σ x = some τ) : Moves P σ x τ := by
  cases x with
  | invoke a =>
    cases h
    exact .invoked a
  | read i =>
    simp only [step] at h
    split at h
    · rename_i k hk
      split at h
      · rename_i hdone
        cases h
        exact .answered hk hdone
      · rename_i hwrite
        cases h
        exact .prepared hk hwrite
    · cases h
  | write i =>
    simp only [step] at h
    split at h
    · rename_i k ver u d hk
      split at h
      · rename_i hver
        subst hver
        cases h
        exact .written hk
      · rename_i hver
        cases h
        exact .stale hk hver
    · cases h
  | fail i e =>
    simp only [step] at h
    split at h
    · rename_i c hc
      split at h
      · cases h
      · rename_i hrunning
        cases h
        exact .failed e hc (by simpa using hrunning)
    · cases h

/-- Where a success comes from: it was there before, the operation needed no write, or its write
has just gone through. -/
theorem returned_ok_cases (h : P.step σ x = some τ) {i : Nat} {k : κ} {d : δ}
    (hi : τ.calls[i]? = some (.returned k (.ok d))) :
    σ.calls[i]? = some (.returned k (.ok d)) ∨
      (σ.calls[i]? = some (.reading k) ∧ P.attempt k σ.obj = .done (.ok d) ∧ τ.obj = σ.obj) ∨
      ∃ u, σ.calls[i]? = some (.writing k σ.ver u d) ∧ τ.obj = P.apply u σ.obj := by
  cases moves_of_step h with
  | invoked a =>
    rcases getElem?_append_cases hi with ⟨_, heq⟩ | ⟨_, hi⟩
    · cases heq
    · exact .inl hi
  | answered hk hdone =>
    rcases getElem?_set_cases hi with ⟨rfl, heq⟩ | ⟨_, hi⟩
    · cases heq
      exact .inr (.inl ⟨hk, hdone, rfl⟩)
    · exact .inl hi
  | prepared hk _ =>
    rcases getElem?_set_cases hi with ⟨_, heq⟩ | ⟨_, hi⟩
    · cases heq
    · exact .inl hi
  | written hk =>
    rcases getElem?_set_cases hi with ⟨rfl, heq⟩ | ⟨_, hi⟩
    · cases heq
      exact .inr (.inr ⟨_, hk, rfl⟩)
    · exact .inl hi
  | stale hk _ | failed e hc _ =>
    rcases getElem?_set_cases hi with ⟨_, heq⟩ | ⟨_, hi⟩
    · cases heq
    · exact .inl hi

/-- A call is in order: its loop state meets `I`, and if what it is about to write is still
current then it was prepared from the object as it is now, in an iteration whose reading met `R`. -/
def InOrder (P : Optimistic α β κ υ ε δ) (I : κ → Prop) (R : κ → β → Prop)
    (obj : β) (ver : Nat) : Call κ υ ε δ → Prop
  | .reading k => I k
  | .writing k v u d => I k ∧ v ≤ ver ∧
      (v = ver → ∃ k₀, I k₀ ∧ R k₀ obj ∧ P.attempt k₀ obj = .write k u d)
  | .returned _ _ => True

theorem InOrder.later {I : κ → Prop} {R : κ → β → Prop} {obj obj' : β} {ver ver' : Nat}
    (h : InOrder P I R obj ver c) (hlt : ver < ver') : InOrder P I R obj' ver' c := by
  cases c with
  | reading k => exact h
  | writing k v u d =>
    obtain ⟨hk, hle, -⟩ := h
    exact ⟨hk, by omega, fun heq => by omega⟩
  | returned k r => exact trivial

section Rule

variable {guard : Shared β κ υ ε δ → Access α ε → Prop} {I : κ → Prop} {R : κ → β → Prop}

theorem inOrder_set {obj : β} {ver i : Nat} {calls : List (Call κ υ ε δ)}
    (h : ∀ c ∈ calls, InOrder P I R obj ver c) (hc : InOrder P I R obj ver c) :
    ∀ c' ∈ calls.set i c, InOrder P I R obj ver c' := by
  intro c' hc'
  rcases mem_or_eq_of_mem_set hc' with hmem | rfl
  · exact h c' hmem
  · exact hc

/-- The rule for optimistic loops: what every loop state meets from the start on, and what the
guard grants of each reading, still holds of an update at the moment it goes through. -/
theorem calls_inOrder (hstart : ∀ a, I (P.start a))
    (hattempt : ∀ k obj k' u d, I k → P.attempt k obj = .write k' u d → I k')
    (hread : ∀ σ i k, guard σ (.read i) → σ.calls[i]? = some (.reading k) → R k σ.obj)
    (hσ : (P.machine created).ReachableBy guard σ) :
    ∀ c ∈ σ.calls, InOrder P I R σ.obj σ.ver c := by
  refine hσ.invariant (P := fun σ => ∀ c ∈ σ.calls, InOrder P I R σ.obj σ.ver c) ?_ ?_
  · intro σ hinit c hc
    rw [hinit.2] at hc
    cases hc
  · intro σ x τ ih hguard h
    cases moves_of_step h with
    | invoked a =>
      intro c hc
      rcases mem_append.1 hc with hc | hc
      · exact ih c hc
      · rw [mem_singleton.1 hc]
        exact hstart a
    | answered hk _ => exact inOrder_set ih trivial
    | @prepared i k k' u d hk hwrite =>
      have hI : I k := ih _ (mem_of_getElem? hk)
      exact inOrder_set ih ⟨hattempt k σ.obj k' u d hI hwrite, Nat.le_refl _,
        fun _ => ⟨k, hI, hread σ i k hguard hk, hwrite⟩⟩
    | written hk =>
      apply inOrder_set
      · intro c hc
        exact (ih c hc).later (Nat.lt_succ_self _)
      · exact trivial
    | stale hk _ =>
      have hI := ih _ (mem_of_getElem? hk)
      exact inOrder_set ih hI.1
    | failed _ _ _ => exact inOrder_set ih trivial

theorem obj_cases (horder : ∀ c ∈ σ.calls, InOrder P I R σ.obj σ.ver c)
    (h : P.step σ x = some τ) :
    τ.obj = σ.obj ∨ ∃ i k₀ k u d, x = .write i ∧ σ.calls[i]? = some (.writing k σ.ver u d) ∧
      I k₀ ∧ R k₀ σ.obj ∧ P.attempt k₀ σ.obj = .write k u d ∧ τ.obj = P.apply u σ.obj := by
  cases moves_of_step h with
  | @written i k u d hk =>
    obtain ⟨-, -, hcurrent⟩ := horder _ (mem_of_getElem? hk)
    obtain ⟨k₀, hI, hR, hwrite⟩ := hcurrent rfl
    exact .inr ⟨i, k₀, k, u, d, rfl, hk, hI, hR, hwrite, rfl⟩
  | _ => exact .inl rfl

end Rule

end Optimistic

end EdgeComputing.Library
