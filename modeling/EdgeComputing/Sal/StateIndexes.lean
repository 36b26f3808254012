import EdgeComputing.Library.Machine
import EdgeComputing.Library.Table
import EdgeComputing.Sal.LockState
import EdgeComputing.Sal.StateTable

/-!
The two hash tables of `nfs4_state_id.c` as finite maps: every state is found by its stateid, and a
LOCK or SHARE state also by its object and owner. A call stops the server where its assertion fails.
-/

namespace EdgeComputing.Sal

open Function Library

variable {OwnerId Obj : Type*}

structure StateT (OwnerId Obj : Type*) where
  addr : Nat
  state : NfsState OwnerId Obj
deriving DecidableEq

namespace StateT

variable (st : StateT OwnerId Obj)

def objKey : Obj × OwnerId := (st.state.stateObj, st.state.stateOwner)

def Indexed : Prop := st.state.type = .lock ∨ st.state.type = .share

instance : Decidable st.Indexed := inferInstanceAs (Decidable (_ ∨ _))

end StateT

structure StateIndexes (OwnerId Obj : Type*) where
  stateId : StateidOther → Option (StateT OwnerId Obj)
  stateObj : Obj × OwnerId → Option (StateT OwnerId Obj)

variable [DecidableEq OwnerId] [DecidableEq Obj] (σ : StateIndexes OwnerId Obj)
  (st : StateT OwnerId Obj)

/-- An insertion is undone if the second one fails. -/
def nfs4StateSet : StateIndexes OwnerId Obj × StateStatus :=
  let other := st.state.stateidOther
  if (σ.stateId other).isSome then (σ, .entryExists)
  else
    let τ := { σ with stateId := update σ.stateId other (some st) }
    if ¬ st.Indexed then (τ, .success)
    else if (τ.stateObj st.objKey).isSome then
      ({ τ with stateId := update τ.stateId other none }, .entryExists)
    else ({ τ with stateObj := update τ.stateObj st.objKey (some st) }, .success)

def nfs4StateDel : Option (StateIndexes OwnerId Obj × Bool) :=
  match σ.stateId st.state.stateidOther with
  | none => some (σ, false)
  | some old =>
    let τ := { σ with stateId := update σ.stateId st.state.stateidOther none }
    if st ≠ old then none
    else if ¬ st.Indexed then some (τ, true)
    else if τ.stateObj st.objKey ≠ some st then some (τ, false)
    else some ({ τ with stateObj := update τ.stateObj st.objKey none }, true)

inductive StateCall (OwnerId Obj : Type*)
  | set (st : StateT OwnerId Obj)
  | del (st : StateT OwnerId Obj)

def indexMachine : Machine (StateIndexes OwnerId Obj) (StateCall OwnerId Obj) where
  init σ := σ = ⟨fun _ => none, fun _ => none⟩
  step σ
    | .set st => some (nfs4StateSet σ st).1
    | .del st => (nfs4StateDel σ st).map Prod.fst

structure IndexInv (σ : StateIndexes OwnerId Obj) : Prop where
  idKey : ∀ other st, σ.stateId other = some st → other = st.state.stateidOther
  objKey : ∀ key st, σ.stateObj key = some st → key = st.objKey
  agree : ∀ st, st.Indexed →
    (σ.stateId st.state.stateidOther = some st ↔ σ.stateObj st.objKey = some st)

section Calls

variable {σ st}

theorem nfs4StateSet_cases (σ : StateIndexes OwnerId Obj) (st : StateT OwnerId Obj) :
    nfs4StateSet σ st = (σ, .entryExists) ∨
      σ.stateId st.state.stateidOther = none ∧ ∃ τ, nfs4StateSet σ st = (τ, .success) ∧
        τ.stateId = update σ.stateId st.state.stateidOther (some st) ∧
        (¬ st.Indexed ∧ τ.stateObj = σ.stateObj ∨ st.Indexed ∧ σ.stateObj st.objKey = none ∧
          τ.stateObj = update σ.stateObj st.objKey (some st)) := by
  unfold nfs4StateSet
  dsimp only
  split_ifs with hid hindexed hobj
  · exact .inl rfl
  all_goals have hnone : σ.stateId st.state.stateidOther = none := by simpa using hid
  · left
    rw [update_idem, ← hnone, update_eq_self]
  · exact .inr ⟨hnone, _, rfl, rfl, .inr ⟨hindexed, by simpa using hobj, rfl⟩⟩
  · exact .inr ⟨hnone, _, rfl, rfl, .inl ⟨hindexed, rfl⟩⟩

variable (hσ : IndexInv σ)
include hσ

theorem IndexInv.set : IndexInv (nfs4StateSet σ st).1 := by
  rcases nfs4StateSet_cases σ st with h | ⟨hid, τ, h, hτid, hτobj⟩
  · rw [h]
    exact hσ
  rw [h]
  have hkey : ∀ other st', τ.stateId other = some st' → other = st'.state.stateidOther := by
    intro other st' h
    rw [hτid, update_some_eq_some_iff hid] at h
    rcases h with h | ⟨rfl, rfl⟩
    · exact hσ.idKey other st' h
    · rfl
  rcases hτobj with ⟨hindexed, hτobj⟩ | ⟨hindexed, hobj, hτobj⟩
  · refine ⟨hkey, hτobj ▸ hσ.objKey, fun st' hst' => ?_⟩
    rw [hτid, hτobj, update_some_eq_some_iff hid, ← hσ.agree st' hst']
    refine or_iff_left ?_
    rintro ⟨rfl, -⟩
    exact hindexed hst'
  · refine ⟨hkey, fun key st' h => ?_, fun st' hst' => ?_⟩
    · rw [hτobj, update_some_eq_some_iff hobj] at h
      rcases h with h | ⟨rfl, rfl⟩
      · exact hσ.objKey key st' h
      · rfl
    · rw [hτid, hτobj, update_some_eq_some_iff hid, update_some_eq_some_iff hobj,
        hσ.agree st' hst']
      refine or_congr_right ⟨?_, ?_⟩
      · rintro ⟨rfl, -⟩
        exact ⟨rfl, rfl⟩
      · rintro ⟨rfl, -⟩
        exact ⟨rfl, rfl⟩

theorem IndexInv.del {τ : StateIndexes OwnerId Obj} {ok : Bool}
    (h : nfs4StateDel σ st = some (τ, ok)) : IndexInv τ := by
  unfold nfs4StateDel at h
  cases hid : σ.stateId st.state.stateidOther with
  | none =>
    rw [hid] at h
    cases h
    exact hσ
  | some old =>
    rw [hid] at h
    dsimp only at h
    split_ifs at h with hold hindexed hobj
    all_goals
      obtain rfl : st = old := not_not.1 hold
      have hgone : ∀ other st', update σ.stateId st.state.stateidOther none other = some st' ↔
          σ.stateId other = some st' ∧ st' ≠ st :=
        fun other st' => update_none_eq_some_iff hid fun other h => hσ.idKey other st h
      cases h
    · exact absurd ((hσ.agree st hindexed).1 hid) hobj
    · have hgone' : ∀ key st', update σ.stateObj st.objKey none key = some st' ↔
          σ.stateObj key = some st' ∧ st' ≠ st :=
        fun key st' => update_none_eq_some_iff (not_not.1 hobj) fun key h => hσ.objKey key st h
      refine ⟨fun other st' h => hσ.idKey other st' ((hgone other st').1 h).1,
        fun key st' h => hσ.objKey key st' ((hgone' key st').1 h).1, fun st' hst' => ?_⟩
      rw [hgone, hgone', hσ.agree st' hst']
    · refine ⟨fun other st' h => hσ.idKey other st' ((hgone other st').1 h).1, hσ.objKey,
        fun st' hst' => ?_⟩
      rw [hgone, hσ.agree st' hst']
      refine and_iff_left ?_
      rintro rfl
      exact hindexed hst'

end Calls

theorem indexInv_of_reachable (hσ : indexMachine.Reachable σ) : IndexInv σ := by
  refine hσ.invariant ?_ ?_
  · rintro σ rfl
    refine ⟨?_, ?_, ?_⟩ <;> simp
  · intro σ a τ hinv hstep
    cases a with
    | set st =>
      cases hstep
      exact hinv.set
    | del st =>
      obtain ⟨⟨τ', ok⟩, hdel, rfl⟩ := Option.map_eq_some_iff.1 hstep
      exact hinv.del hdel

/-- After any calls the two tables agree on the LOCK and SHARE states, each of which is alone
under its stateid and under its object and owner; an insertion that fails changes nothing. -/
theorem state_indexes_agree (hσ : indexMachine.Reachable σ) :
    (∀ st : StateT OwnerId Obj, st.Indexed →
      (σ.stateId st.state.stateidOther = some st ↔ σ.stateObj st.objKey = some st)) ∧
    (∀ st st' : StateT OwnerId Obj, st.Indexed → st'.Indexed →
      σ.stateId st.state.stateidOther = some st → σ.stateId st'.state.stateidOther = some st' →
      st.state.stateidOther = st'.state.stateidOther ∨ st.objKey = st'.objKey → st = st') ∧
    ∀ st, (nfs4StateSet σ st).2 = .entryExists → (nfs4StateSet σ st).1 = σ := by
  have hinv := indexInv_of_reachable σ hσ
  refine ⟨hinv.agree, fun st st' hst hst' hlive hlive' hsame => ?_, fun st h => ?_⟩
  · rcases hsame with hid | hobj
    · rw [hid, hlive'] at hlive
      exact (Option.some.inj hlive).symm
    · have h := (hinv.agree st hst).1 hlive
      rw [hobj, (hinv.agree st' hst').1 hlive'] at h
      exact (Option.some.inj h).symm
  · rcases nfs4StateSet_cases σ st with hset | ⟨-, τ, hset, -⟩
    · rw [hset]
    · rw [hset] at h
      cases h

/-- Two states of one owner on two files; a third for the first pair is refused. -/
theorem state_indexes_agree_two :
    ∃ σ : StateIndexes Nat Nat, indexMachine.Reachable σ ∧
      ∀ st : StateT Nat Nat, st.Indexed →
        (σ.stateId st.state.stateidOther = some st ↔ σ.stateObj st.objKey = some st) := by
  have hinit : indexMachine.Reachable (⟨fun _ => none, fun _ => none⟩ : StateIndexes Nat Nat) :=
    .init rfl
  have hset : ∀ {σ : StateIndexes Nat Nat}, indexMachine.Reachable σ → ∀ st,
      indexMachine.Reachable (nfs4StateSet σ st).1 :=
    fun h st => .step h trivial (a := .set st) rfl
  have hreach := hset (hset (hset hinit
    ⟨1, ⟨1, 1⟩, 1, 7, 3, .lock ⟨1, 9⟩⟩) ⟨2, ⟨1, 2⟩, 1, 7, 4, .lock ⟨1, 9⟩⟩)
    ⟨3, ⟨1, 3⟩, 1, 7, 3, .lock ⟨1, 9⟩⟩
  exact ⟨_, hreach, (state_indexes_agree _ hreach).1⟩

end EdgeComputing.Sal
