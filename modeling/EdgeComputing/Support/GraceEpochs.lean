import EdgeComputing.Support.GraceAttempts

/-!
The epochs of the grace database. They name the recovery databases, so every node that joins a grace
period has to be told the same pair.
-/

namespace EdgeComputing.Support

open Library Library.Optimistic

variable {ν : Type*} [DecidableEq ν] {σ τ : GraceState ν} {x : GraceEvent ν}
variable {obj obj' : GraceObject ν} {k k' : GraceLoop ν} {u : GraceUpdate ν}
variable {d : Option (Nat × Nat)}

inductive EpochChange (obj obj' : GraceObject ν) : Prop
  | same : obj'.curEpoch = obj.curEpoch → obj'.recEpoch = obj.recEpoch →
      obj'.starts = obj.starts → EpochChange obj obj'
  | started : obj.recEpoch = 0 → obj'.curEpoch = (obj.curEpoch + 1) % 2 ^ 64 →
      obj'.recEpoch = obj.curEpoch →
      obj'.starts = (if obj.curEpoch = 0 then obj.starts else obj.starts + 1) →
      EpochChange obj obj'
  | lifted : obj'.curEpoch = obj.curEpoch → obj'.recEpoch = 0 → obj'.starts = obj.starts →
      EpochChange obj obj'

theorem epochChange_of_prepares (h : Prepares obj k k' u d) : EpochChange obj (u.apply obj) := by
  cases h with
  | add => exact .same rfl rfl rfl
  | start _ hrec => exact .started hrec rfl rfl rfl
  | join | toggle => exact .same rfl rfl rfl
  | lift _ _ hepochs =>
    subst hepochs
    split_ifs
    · exact .lifted rfl rfl rfl
    · exact .same rfl rfl rfl

theorem result_of_prepares (h : Prepares obj k k' u d) (hop : k'.op ≠ .add) :
    d = some ((u.apply obj).curEpoch, (u.apply obj).recEpoch) := by
  cases h with
  | add => exact absurd rfl hop
  | start => rfl
  | join => rfl
  | toggle => rfl
  | lift _ _ hepochs =>
    subst hepochs
    split_ifs <;> rfl

theorem result_of_done (h : graceAttempt k obj = .done (.ok d)) (hop : k.op ≠ .add) :
    d = some (obj.curEpoch, obj.recEpoch) := by
  obtain ⟨op, slots⟩ := k
  cases op with
  | add => exact absurd rfl hop
  | joinBulk start =>
    simp only [graceAttempt, radosGraceJoinBulk] at h
    split_ifs at h <;> cases h
    rfl
  | liftBulk remove =>
    simp only [graceAttempt, radosGraceLiftBulk] at h
    split_ifs at h <;> cases h <;> rfl
  | enforcingToggle enable =>
    simp only [graceAttempt, radosGraceEnforcingToggle] at h
    split_ifs at h <;> cases h

section

variable (hσ : (graceMachine ν).Reachable σ)
include hσ

theorem grace_inOrder :
    ∀ c ∈ σ.calls, InOrder (grace ν) (fun _ => True) (fun _ _ => True) σ.obj σ.ver c :=
  calls_inOrder (fun _ => trivial) (fun _ _ _ _ _ _ _ => trivial) (fun _ _ _ _ _ => trivial) hσ

theorem epochChange_of_step (h : (graceMachine ν).step σ x = some τ) : EpochChange σ.obj τ.obj := by
  rcases obj_cases (grace_inOrder hσ) h with hobj | ⟨_, _, _, _, _, _, _, _, _, hwrite, hobj⟩
  · rw [hobj]
    exact .same rfl rfl rfl
  · rw [hobj]
    exact epochChange_of_prepares (prepares_of_attempt hwrite).2

/-- Before the epochs wrap around, the current epoch counts the grace periods, and a grace period
in force reclaims from the epoch before the current one. -/
theorem epochs_of_reachable (hstarts : σ.obj.starts < 2 ^ 64 - 1) :
    σ.obj.curEpoch = σ.obj.starts + 1 ∧
      (σ.obj.recEpoch = 0 ∨ σ.obj.recEpoch + 1 = σ.obj.curEpoch) := by
  induction hσ with
  | init h =>
    rw [← Except.ok.inj h.1]
    exact ⟨rfl, .inl rfl⟩
  | @step σ τ x hσ _ h ih =>
    cases epochChange_of_step hσ h with
    | same hcur hrec hsame =>
      rw [hsame] at hstarts
      rw [hcur, hrec, hsame]
      exact ih hstarts
    | started hrec hcur hrec' hstarted =>
      split_ifs at hstarted with hzero
      · obtain ⟨hpos, _⟩ := ih (by omega)
        omega
      · obtain ⟨hbefore, _⟩ := ih (by omega)
        have hwrap : (σ.obj.curEpoch + 1) % 2 ^ 64 = σ.obj.curEpoch + 1 :=
          Nat.mod_eq_of_lt (by omega)
        rw [hcur, hwrap, hrec', hstarted, hbefore]
        exact ⟨rfl, .inr rfl⟩
    | lifted hcur hrec hsame =>
      rw [hsame] at hstarts
      rw [hcur, hsame]
      exact ⟨(ih hstarts).1, .inl hrec⟩

theorem epochs_during_grace (hrun : (graceMachine ν).RunBy (fun s _ => s.obj.recEpoch ≠ 0) σ τ)
    (hτ : τ.obj.recEpoch ≠ 0) :
    (τ.obj.curEpoch = σ.obj.curEpoch ∧ τ.obj.recEpoch = σ.obj.recEpoch) ∧
      ∀ (i : Nat) k d, τ.calls[i]? = some (.returned k (.ok d)) → k.op ≠ .add →
        (∀ c, σ.calls[i]? = some c → c.isReturned = false) →
        d = some (σ.obj.curEpoch, σ.obj.recEpoch) := by
  induction hrun with
  | refl =>
    refine ⟨⟨rfl, rfl⟩, fun i k d hi _ hrunning => ?_⟩
    cases hrunning _ hi
  | @step τ υ x hrun hrec h ih =>
    obtain ⟨⟨hcur, hrec'⟩, hreturned⟩ := ih hrec
    have hreach : (graceMachine ν).Reachable τ := hrun.reachable hσ
    have hepochs : υ.obj.curEpoch = τ.obj.curEpoch ∧ υ.obj.recEpoch = τ.obj.recEpoch := by
      cases epochChange_of_step hreach h with
      | same hcur hrec _ => exact ⟨hcur, hrec⟩
      | started hzero => exact absurd hzero hrec
      | lifted _ hzero => exact absurd hzero hτ
    refine ⟨⟨hepochs.1.trans hcur, hepochs.2.trans hrec'⟩, fun i k d hi hop hrunning => ?_⟩
    rw [← hcur, ← hrec', ← hepochs.1, ← hepochs.2]
    rcases returned_ok_cases h hi with hbefore | ⟨_, hdone, hobj⟩ | ⟨u, hwriting, hobj⟩
    · rw [hepochs.1, hepochs.2, hcur, hrec']
      exact hreturned i k d hbefore hop hrunning
    · rw [hobj]
      exact result_of_done hdone hop
    · obtain ⟨-, -, hcurrent⟩ := grace_inOrder hreach _ (List.mem_of_getElem? hwriting)
      obtain ⟨k0, -, -, hwrite⟩ := hcurrent rfl
      rw [hobj]
      exact result_of_prepares (prepares_of_attempt hwrite).2 hop

end

end EdgeComputing.Support
