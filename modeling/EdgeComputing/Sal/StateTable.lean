import EdgeComputing.Sal.LockEntry

/-!
The NFSv4 states of a server. The `state_data` union is a sum type, whose constructor is the
`state_type`. The table carries what its writers keep true: its stateids are distinct and of this
server instance, and the lock states listed by an open state are lock states of the table.
-/

namespace EdgeComputing.Sal

open List

structure StateidOther where
  clientid : BitVec 64
  counter : BitVec 32
deriving DecidableEq

structure Stateid4 where
  seqid : BitVec 32
  other : StateidOther
deriving DecidableEq

def StateidOther.epoch (other : StateidOther) : BitVec 32 :=
  (other.clientid >>> 32).setWidth 32

inductive StateType
  | share | lock | deleg | layout
deriving DecidableEq

structure StateShare where
  shareLockstates : List StateidOther
  shareAccess : BitVec 32
  shareDeny : BitVec 32
  shareAccessPrev : BitVec 32
  shareDenyPrev : BitVec 32
deriving DecidableEq

inductive StateData
  | share (data : StateShare)
  | lock (openstate : StateidOther)
  | deleg (isWrite : Bool)
  | layout (returnOnClose : Bool)
deriving DecidableEq

def StateData.type : StateData → StateType
  | .share _ => .share
  | .lock _ => .lock
  | .deleg _ => .deleg
  | .layout _ => .layout

structure NfsState (OwnerId Obj : Type*) where
  stateidOther : StateidOther
  stateSeqid : BitVec 32
  stateOwner : OwnerId
  stateObj : Obj
  stateData : StateData
deriving DecidableEq

variable {OwnerId Obj : Type*}

def NfsState.type (st : NfsState OwnerId Obj) : StateType := st.stateData.type

def getState (states : List (NfsState OwnerId Obj)) (other : StateidOther) :
    Option (NfsState OwnerId Obj) :=
  states.find? fun st => st.stateidOther = other

structure StatesWf (epochLow : BitVec 32) (states : List (NfsState OwnerId Obj)) : Prop where
  distinct : (states.map NfsState.stateidOther).Nodup
  epoch : ∀ st ∈ states, st.stateidOther.epoch = epochLow
  lockstates : ∀ st ∈ states, ∀ data, st.stateData = .share data →
    ∀ other ∈ data.shareLockstates, ∃ lk, getState states other = some lk ∧ lk.type = .lock

structure StateTable (OwnerId Obj : Type*) where
  epochLow : BitVec 32
  states : List (NfsState OwnerId Obj)
  wf : StatesWf epochLow states

variable (t : StateTable OwnerId Obj) (other : StateidOther)

def StateData.unlink : StateData → StateData
  | .share data =>
    .share { data with shareLockstates := data.shareLockstates.filter fun j => j ≠ other }
  | data => data

def NfsState.unlink (other : StateidOther) (st : NfsState OwnerId Obj) : NfsState OwnerId Obj :=
  { st with stateData := st.stateData.unlink other }

@[simp] theorem StateData.type_unlink (other : StateidOther) (data : StateData) :
    (data.unlink other).type = data.type := by
  cases data <;> rfl

@[simp] theorem NfsState.type_unlink (other : StateidOther) (st : NfsState OwnerId Obj) :
    (st.unlink other).type = st.type :=
  StateData.type_unlink other st.stateData

/-- `update_stateid`, as far as the state is concerned: the seqid skips 0. -/
def NfsState.updateStateid (st : NfsState OwnerId Obj) : NfsState OwnerId Obj :=
  { st with stateSeqid := if st.stateSeqid + 1 = 0 then 1 else st.stateSeqid + 1 }

def NfsState.stateid (st : NfsState OwnerId Obj) : Stateid4 := ⟨st.stateSeqid, st.stateidOther⟩

def removeState (states : List (NfsState OwnerId Obj)) : List (NfsState OwnerId Obj) :=
  (states.filter fun st => st.stateidOther ≠ other).map (NfsState.unlink other)

def updateState (states : List (NfsState OwnerId Obj)) : List (NfsState OwnerId Obj) :=
  states.map fun st => if st.stateidOther = other then st.updateStateid else st

theorem getState_removeState_of_ne {other j : StateidOther} (h : j ≠ other)
    (states : List (NfsState OwnerId Obj)) :
    getState (removeState other states) j = (getState states j).map (NfsState.unlink other) := by
  have hfind : (states.filter fun st => st.stateidOther ≠ other).find?
      (fun st => st.stateidOther = j) = states.find? (fun st => st.stateidOther = j) := by
    rw [find?_filter]
    congr 1
    funext st
    by_cases hst : st.stateidOther = j
    · simp [hst, h]
    · simp [hst]
  unfold getState removeState
  rw [find?_map, ← hfind]
  rfl

theorem getState_updateState (other j : StateidOther) (states : List (NfsState OwnerId Obj)) :
    getState (updateState other states) j =
      (getState states j).map fun st => if st.stateidOther = other then st.updateStateid else st := by
  unfold getState updateState
  rw [find?_map]
  congr 2
  funext st
  by_cases hst : st.stateidOther = other
  · simp [hst, NfsState.updateStateid]
  · simp [hst]

variable {states : List (NfsState OwnerId Obj)} {st : NfsState OwnerId Obj}

theorem getState_mem {other : StateidOther} (h : getState states other = some st) :
    st ∈ states ∧ st.stateidOther = other :=
  ⟨mem_of_find?_eq_some h, by simpa using find?_some h⟩

theorem getState_removeState_self (other : StateidOther) (states : List (NfsState OwnerId Obj)) :
    getState (removeState other states) other = none := by
  unfold getState removeState
  rw [find?_eq_none]
  intro st hst
  obtain ⟨st', hst', rfl⟩ := mem_map.1 hst
  have hne : st'.stateidOther ≠ other := by simpa using (mem_filter.1 hst').2
  rwa [decide_eq_true_eq]

section

variable {epochLow : BitVec 32} (h : StatesWf epochLow states)
include h

theorem StatesWf.getState_eq_some (hst : st ∈ states) :
    getState states st.stateidOther = some st := by
  have hdistinct := h.distinct
  clear h
  unfold getState
  induction states with
  | nil => cases hst
  | cons first rest ih =>
    obtain ⟨hnot, hrest⟩ := nodup_cons.1 hdistinct
    rcases mem_cons.1 hst with rfl | hst
    · simp
    · have hne : first.stateidOther ≠ st.stateidOther :=
        fun heq => hnot (heq ▸ mem_map_of_mem hst)
      simpa [find?_cons, hne] using ih hst hrest

theorem StatesWf.remove (other : StateidOther) : StatesWf epochLow (removeState other states) where
  distinct := by
    have hmap : (removeState other states).map NfsState.stateidOther =
        (states.filter fun st => st.stateidOther ≠ other).map NfsState.stateidOther := by
      unfold removeState
      rw [map_map]
      rfl
    rw [hmap]
    exact h.distinct.sublist (filter_sublist.map _)
  epoch := by
    intro st hst
    obtain ⟨st', hst', rfl⟩ := mem_map.1 hst
    exact h.epoch st' ((mem_filter.1 hst').1)
  lockstates := by
    intro st hst data hdata j hj
    obtain ⟨st', hst', rfl⟩ := mem_map.1 hst
    -- only an open state is listed, and its list is the old one without `other`
    cases hold : st'.stateData with
    | share old =>
      have hdata' : StateData.share
          { old with shareLockstates := old.shareLockstates.filter fun j => j ≠ other } =
          .share data := by
        rw [← hdata]
        simp [NfsState.unlink, StateData.unlink, hold]
      cases hdata'
      obtain ⟨hjold, hne⟩ := mem_filter.1 hj
      obtain ⟨lk, hlk, htype⟩ := h.lockstates st' ((mem_filter.1 hst').1) old hold j hjold
      refine ⟨lk.unlink other, ?_, by simp [htype]⟩
      rw [getState_removeState_of_ne (by simpa using hne), hlk]
      rfl
    | lock openstate | deleg isWrite | layout returnOnClose =>
      simp [NfsState.unlink, StateData.unlink, hold] at hdata

theorem StatesWf.update (other : StateidOther) : StatesWf epochLow (updateState other states) where
  distinct := by
    have hmap : (updateState other states).map NfsState.stateidOther =
        states.map NfsState.stateidOther := by
      unfold updateState
      rw [map_map]
      apply map_congr_left
      intro st _
      simp only [Function.comp]
      split
      · rfl
      · rfl
    rw [hmap]
    exact h.distinct
  epoch := by
    intro st hst
    obtain ⟨st', hst', rfl⟩ := mem_map.1 hst
    split
    · exact h.epoch st' hst'
    · exact h.epoch st' hst'
  lockstates := by
    intro st hst data hdata j hj
    obtain ⟨st', hst', rfl⟩ := mem_map.1 hst
    have hold : st'.stateData = .share data := by
      split at hdata
      · exact hdata
      · exact hdata
    obtain ⟨lk, hlk, htype⟩ := h.lockstates st' hst' data hold j hj
    refine ⟨if lk.stateidOther = other then lk.updateStateid else lk, ?_, ?_⟩
    · rw [getState_updateState, hlk]
      rfl
    · split
      · exact htype
      · exact htype

end

namespace StateTable

def get : Option (NfsState OwnerId Obj) :=
  getState t.states other

def remove (t : StateTable OwnerId Obj) (other : StateidOther) : StateTable OwnerId Obj :=
  ⟨t.epochLow, removeState other t.states, t.wf.remove other⟩

def update (t : StateTable OwnerId Obj) (other : StateidOther) : StateTable OwnerId Obj :=
  ⟨t.epochLow, updateState other t.states, t.wf.update other⟩

end StateTable

end EdgeComputing.Sal
