import Mathlib.Logic.Basic
import Mathlib.Tactic.SplitIfs
import EdgeComputing.Rpcal.Dupreq

/-!
What a step on a duplicate request cache can do, and what every interleaving keeps.
-/

namespace EdgeComputing.Rpcal

open List Option Library Drc

structure View where
  key : DupreqKey
  state : DupreqState
  phase : Phase

def Request.view (r : Request) : View := ⟨r.entry.key, r.entry.state, r.phase⟩

def Drc.view (s : Drc) (i : Nat) : Option View := s.requests[i]?.map Request.view

variable {param : DrcParam} {s t : Drc} {i j : Nat} {v w : View} {phase : Phase} {u : Drc}
  {key : DupreqKey} {a : DrcAction} {r : Request}

theorem hkOf_eq_view (s : Drc) (e : Nat) : s.hkOf e = (s.view e).map (·.key.hk) := by
  simp only [hkOf, view, Option.map_map]
  rfl

theorem view_modify (s : Drc) (i j : Nat) (f : Request → Request) (g : View → View)
    (hg : ∀ r, (f r).view = g r.view) :
    Drc.view { s with requests := s.requests.modify i f } j =
      (s.view j).map fun v => if i = j then g v else v := by
  simp only [view, getElem?_modify]
  cases s.requests[j]? with
  | none => rfl
  | some r =>
    simp only [Option.map_eq_map, map_some]
    split_ifs
    · rw [hg]
    · rfl

@[simp] theorem view_get (s : Drc) (e j : Nat) : (s.get e).view j = s.view j := by
  refine (view_modify s e j _ id ?_).trans ?_
  · exact fun _ => rfl
  · simp

@[simp] theorem view_put (s : Drc) (e j : Nat) : (s.put e).view j = s.view j := by
  refine (view_modify s e j _ id ?_).trans ?_
  · exact fun _ => rfl
  · simp

@[simp] theorem view_enqueue (s : Drc) (e j : Nat) : (s.enqueue e).view j = s.view j := rfl

@[simp] theorem view_dequeue (s : Drc) (e j : Nat) : (s.dequeue e).view j = s.view j := rfl

theorem view_setPhase (s : Drc) (i j : Nat) (phase : Phase) :
    (s.setPhase i phase).view j =
      (s.view j).map fun v => if i = j then { v with phase := phase } else v :=
  view_modify s i j _ _ fun _ => rfl

theorem view_setState (s : Drc) (i j : Nat) (state : DupreqState) :
    (s.setState i state).view j =
      (s.view j).map fun v => if i = j then { v with state := state } else v :=
  view_modify s i j _ _ fun _ => rfl

structure Changed (s t : Drc) (i : Nat) (v : View) : Prop where
  self : t.view i = some v
  other : ∀ j, j ≠ i → t.view j = s.view j

theorem changed_setPhase (h : s.view i = some v) (hu : ∀ j, u.view j = s.view j) (phase : Phase) :
    Changed s (u.setPhase i phase) i { v with phase := phase } := by
  constructor
  · simp [view_setPhase, hu, h]
  · intro j hj
    rw [view_setPhase, hu]
    simp [Ne.symm hj]

theorem view_of_getElem? (h : s.requests[i]? = some r) : s.view i = some r.view := by
  simp [view, h]

theorem changed_join (r : Request) (hu : ∀ j, u.view j = s.view j)
    (hlength : u.requests.length = s.requests.length) (ht : t.requests = u.requests ++ [r]) :
    Changed s t s.requests.length r.view := by
  constructor
  · simp [view, ht, ← hlength]
  · intro j hj
    rw [← hu j]
    simp only [view, ht, getElem?_append]
    split_ifs with hlt
    · rfl
    · rw [getElem?_eq_none (by simp; omega), getElem?_eq_none (by omega)]

def Drc.viewHolds (param : DrcParam) (s : Drc) (v : View) : Option Nat :=
  match v.phase with
  | .inserted | .found _ => some (partitionOf param v.key.hk)
  | .retiring _ ov => (s.hkOf ov).map (partitionOf param)
  | _ => none

theorem partitionFree_iff {p : Nat} :
    s.partitionFree param p ↔ ∀ j v, s.view j = some v → s.viewHolds param v ≠ some p := by
  simp only [partitionFree, List.all_eq_true, decide_eq_true_eq]
  constructor
  · intro h j v hv
    obtain ⟨r, hr, rfl⟩ := map_eq_some_iff.1 hv
    exact h r (List.mem_of_getElem? hr)
  · intro h r hr
    obtain ⟨j, hj⟩ := getElem?_of_mem hr
    exact h j _ (view_of_getElem? hj)

theorem lookup_eq_none :
    s.lookup param key = none ↔
      ∀ e ∈ s.xt, ∀ v, s.view e = some v → sameKey param.type v.key key = false := by
  simp only [Drc.lookup, find?_eq_none, Bool.not_eq_true]
  constructor
  · intro h e he v hv
    obtain ⟨r, hr, rfl⟩ := map_eq_some_iff.1 hv
    simpa [hr, Request.view] using h e he
  · intro h e he
    cases hr : s.requests[e]? with
    | none => rfl
    | some r => simpa [Request.view] using h e he _ (view_of_getElem? hr)

/-- A phase in which a request neither owns an unfinished entry nor holds a lock nor
has an entry to remove. -/
def Phase.Idle : Phase → Prop
  | .inserted | .found _ | .running | .retiring _ _ | .deleting => False
  | _ => True

inductive DrcStep (param : DrcParam) (s t : Drc) : DrcAction → Prop
  | insert {key : DupreqKey} (hfree : s.partitionFree param (partitionOf param key.hk))
      (hlookup : s.lookup param key = none)
      (hview : Changed s t s.requests.length ⟨key, .start, .inserted⟩)
      (hxt : t.xt = s.requests.length :: s.xt) (hq : t.dupreqQ = s.dupreqQ) :
      DrcStep param s t (.start key)
  | turnAway {key : DupreqKey} {phase : Phase}
      (hfree : s.partitionFree param (partitionOf param key.hk))
      (hphase : phase = .beingProcessed ∨ ∃ dv, phase = .found dv)
      (hview : Changed s t s.requests.length ⟨key, .start, phase⟩)
      (hxt : t.xt = s.xt) (hq : t.dupreqQ = s.dupreqQ) :
      DrcStep param s t (.start key)
  | enqueue {i : Nat} {v : View} (hv : s.view i = some v) (hphase : v.phase = .inserted)
      (hview : Changed s t i { v with phase := .running })
      (hxt : t.xt = s.xt) (hq : t.dupreqQ = s.dupreqQ ++ [i]) : DrcStep param s t (.next i)
  | finish {i : Nat} {v : View} (hv : s.view i = some v) (hphase : v.phase = .running)
      (hview : Changed s t i ⟨v.key, .complete, .completed⟩)
      (hxt : t.xt = s.xt) (hq : t.dupreqQ = s.dupreqQ) : DrcStep param s t (.finish i)
  | unqueue {i : Nat} {v : View} (hv : s.view i = some v) (hphase : v.phase = .running)
      (hview : Changed s t i { v with phase := .deleting })
      (hxt : t.xt = s.xt) (hq : t.dupreqQ = s.dupreqQ.filter (· ≠ i)) :
      DrcStep param s t (.delete i)
  | skip {i : Nat} {v : View} (hv : s.view i = some v) (hphase : v.phase = .running)
      (hqueue : i ∉ s.dupreqQ) (hview : Changed s t i { v with phase := .done })
      (hxt : t.xt = s.xt) (hq : t.dupreqQ = s.dupreqQ) : DrcStep param s t (.delete i)
  | take {i cnt ovHk ov : Nat} {v : View} (hv : s.view i = some v)
      (hphase : v.phase = .retire cnt ovHk)
      (hfree : s.partitionFree param (partitionOf param ovHk))
      (hfirst : s.dupreqQ.head? = some ov) (hhk : s.hkOf ov = some ovHk)
      (hview : Changed s t i { v with phase := .retiring cnt ov })
      (hxt : t.xt = s.xt) (hq : t.dupreqQ = s.dupreqQ.filter (· ≠ ov)) :
      DrcStep param s t (.next i)
  | remove {i cnt ov : Nat} {v : View} {phase : Phase} (hv : s.view i = some v)
      (hphase : v.phase = .retiring cnt ov) (hidle : phase.Idle)
      (hview : Changed s t i { v with phase := phase })
      (hxt : t.xt = s.xt.filter (· ≠ ov)) (hq : t.dupreqQ = s.dupreqQ) :
      DrcStep param s t (.next i)
  | unhash {i : Nat} {v : View} (hv : s.view i = some v) (hphase : v.phase = .deleting)
      (hview : Changed s t i { v with phase := .done })
      (hxt : t.xt = s.xt.filter (· ≠ i)) (hq : t.dupreqQ = s.dupreqQ) :
      DrcStep param s t (.next i)
  | idle {i : Nat} {v : View} {phase : Phase} (hv : s.view i = some v)
      (hphase : v.phase.Idle ∨ ∃ dv, v.phase = .found dv) (hidle : phase.Idle)
      (hview : Changed s t i { v with phase := phase })
      (hxt : t.xt = s.xt) (hq : t.dupreqQ = s.dupreqQ) : DrcStep param s t (.next i)

theorem drcStep_start (hfree : s.partitionFree param (partitionOf param key.hk)) :
    DrcStep param s (nfsDupreqStart param key s) (.start key) := by
  unfold nfsDupreqStart
  cases hlookup : s.lookup param key with
  | none =>
    exact .insert hfree hlookup
      (changed_join ⟨⟨key, .start, 2⟩, .inserted⟩ (fun _ => rfl) rfl rfl) rfl rfl
  | some dv =>
    dsimp only
    split_ifs
    · exact .turnAway hfree (.inr ⟨dv, rfl⟩)
        (changed_join ⟨⟨key, .start, 0⟩, .found dv⟩ (view_get s dv) (by simp [Drc.get]) rfl)
        rfl rfl
    · exact .turnAway hfree (.inl rfl)
        (changed_join ⟨⟨key, .start, 0⟩, .beingProcessed⟩ (fun _ => rfl) rfl rfl) rfl rfl

theorem drcStep_idle (hv : s.view i = some v) (hphase : v.phase.Idle ∨ ∃ dv, v.phase = .found dv)
    (hidle : phase.Idle) (hu : ∀ j, u.view j = s.view j) (hxt : u.xt = s.xt)
    (hq : u.dupreqQ = s.dupreqQ) : DrcStep param s (u.setPhase i phase) (.next i) :=
  .idle hv hphase hidle (changed_setPhase hv hu phase) hxt hq

theorem drcStep_dqAgain {cnt : Nat} (hv : s.view i = some v) (hphase : v.phase.Idle)
    (hu : ∀ j, u.view j = s.view j) (hxt : u.xt = s.xt) (hq : u.dupreqQ = s.dupreqQ) :
    DrcStep param s (dqAgain param i cnt u) (.next i) := by
  unfold dqAgain
  split_ifs
  · split <;> exact drcStep_idle hv (.inl hphase) trivial hu hxt hq
  · exact drcStep_idle hv (.inl hphase) trivial hu hxt hq

theorem drcStep_takeOldest {cnt ovHk : Nat} (hv : s.view i = some v)
    (hphase : v.phase = .retire cnt ovHk)
    (hfree : s.partitionFree param (partitionOf param ovHk)) :
    DrcStep param s (takeOldest i cnt ovHk s) (.next i) := by
  have hidle : v.phase.Idle := by simp [hphase, Phase.Idle]
  unfold takeOldest
  cases hfirst : s.dupreqQ.head? with
  | none => exact drcStep_idle hv (.inl hidle) trivial (fun _ => rfl) rfl rfl
  | some ov =>
    dsimp only
    split_ifs with hhk
    · exact drcStep_idle hv (.inl hidle) trivial (fun _ => rfl) rfl rfl
    · exact .take hv hphase hfree hfirst (not_not.1 hhk)
        (changed_setPhase hv (view_dequeue s ov) _) rfl rfl

theorem drcStep_next (hr : s.requests[i]? = some r) (h : nextSection param s i r = some t) :
    DrcStep param s t (.next i) := by
  have hv := view_of_getElem? hr
  unfold nextSection at h
  have hphase : r.view.phase = r.phase := rfl
  cases hp : r.phase with
  | inserted =>
    simp only [hp, some.injEq] at h
    subst h
    exact .enqueue hv hp (changed_setPhase hv (view_enqueue s i) _) rfl rfl
  | found dv =>
    simp only [hp, some.injEq] at h
    subst h
    exact drcStep_idle hv (.inr ⟨dv, hp⟩) trivial (fun _ => rfl) rfl rfl
  | running => simp [hp] at h
  | hit dv =>
    simp only [hp, some.injEq] at h
    subst h
    exact drcStep_idle hv (.inl (by simp [hphase, hp, Phase.Idle])) trivial (view_put s dv) rfl rfl
  | beingProcessed =>
    simp only [hp, some.injEq] at h
    subst h
    exact drcStep_idle hv (.inl (by simp [hphase, hp, Phase.Idle])) trivial (fun _ => rfl) rfl rfl
  | completed =>
    simp only [hp, some.injEq] at h
    subst h
    exact drcStep_dqAgain hv (by simp [hphase, hp, Phase.Idle]) (fun _ => rfl) rfl rfl
  | retire cnt ovHk =>
    simp only [hp, ite_none_right_eq_some, some.injEq] at h
    obtain ⟨hfree, rfl⟩ := h
    exact drcStep_takeOldest hv hp hfree
  | retiring cnt ov =>
    simp only [hp, some.injEq] at h
    subst h
    refine .remove hv hp ?_ (changed_setPhase hv (view_put (s.remove ov) ov) _) rfl rfl
    split_ifs <;> trivial
  | retired cnt =>
    simp only [hp, some.injEq] at h
    subst h
    exact drcStep_dqAgain hv (by simp [hphase, hp, Phase.Idle]) (fun _ => rfl) rfl rfl
  | deleting =>
    simp only [hp, ite_none_right_eq_some, some.injEq] at h
    obtain ⟨-, rfl⟩ := h
    exact .unhash hv hp (changed_setPhase hv (view_put (s.remove i) i) _) rfl rfl
  | done =>
    simp only [hp, some.injEq] at h
    subst h
    exact drcStep_idle hv (.inl (by simp [hphase, hp, Phase.Idle])) trivial (view_put s i) rfl rfl
  | released => simp [hp] at h

theorem drcStep_of_step (h : (drcMachine param).step s a = some t) : DrcStep param s t a := by
  cases a with
  | start key =>
    simp only [drcMachine, ite_none_right_eq_some, some.injEq] at h
    obtain ⟨hfree, rfl⟩ := h
    exact drcStep_start hfree
  | finish i =>
    simp only [drcMachine, bind_eq_some_iff, ite_none_right_eq_some, some.injEq] at h
    obtain ⟨r, hr, hphase, rfl⟩ := h
    have hv := view_of_getElem? hr
    refine .finish hv hphase ⟨?_, ?_⟩ rfl rfl
    · simp [view_setPhase, view_setState, hv]
    · intro j hj
      simp [view_setPhase, view_setState, Ne.symm hj]
  | delete i =>
    simp only [drcMachine, bind_eq_some_iff, ite_none_right_eq_some, some.injEq] at h
    obtain ⟨r, hr, hphase, rfl⟩ := h
    have hv := view_of_getElem? hr
    unfold nfsDupreqDelete
    split_ifs with hqueue
    · exact .unqueue hv hphase (changed_setPhase hv (view_dequeue s i) _) rfl rfl
    · exact .skip hv hphase hqueue (changed_setPhase hv (fun _ => rfl) _) rfl rfl
  | next i =>
    simp only [drcMachine, bind_eq_some_iff] at h
    obtain ⟨r, hr, hnext⟩ := h
    exact drcStep_next hr hnext

theorem sameKey_comm (type : DrcType) (k l : DupreqKey) : sameKey type k l = sameKey type l k := by
  unfold sameKey
  cases type <;> simp only [eq_comm]

@[simp] theorem sameKey_self (type : DrcType) (k : DupreqKey) : sameKey type k k = true := by
  unfold sameKey
  cases type <;> simp

def Phase.Unfinished : Phase → Prop
  | .inserted | .running => True
  | _ => False

structure DrcInv (param : DrcParam) (s : Drc) : Prop where
  tree : ∀ e ∈ s.xt, ∃ v, s.view e = some v
  distinct : ∀ e ∈ s.xt, ∀ f ∈ s.xt, ∀ v w, s.view e = some v → s.view f = some w →
    sameKey param.type v.key w.key → e = f
  queued : ∀ e ∈ s.dupreqQ, ∃ v, s.view e = some v ∧ (v.phase = .running ∨ v.state = .complete)
  unfinished : ∀ i v, s.view i = some v → v.phase.Unfinished → v.state = .start
  retiring : ∀ i v cnt ov, s.view i = some v → v.phase = .retiring cnt ov → ∃ w, s.view ov = some w
  locks : ∀ i j v w p, s.view i = some v → s.view j = some w →
    s.viewHolds param v = some p → s.viewHolds param w = some p → i = j

theorem drcInv_init (retwnd : Nat) : DrcInv param ⟨[], [], [], 0, retwnd⟩ := by
  constructor <;> simp [view]

theorem Changed.cases (hview : Changed s t i v) (hw : t.view j = some w) :
    j = i ∧ w = v ∨ j ≠ i ∧ s.view j = some w := by
  by_cases hj : j = i
  · subst hj
    exact .inl ⟨rfl, some.inj (hw.symm.trans hview.self)⟩
  · exact .inr ⟨hj, hview.other j hj ▸ hw⟩

theorem viewHolds_changed (hview : Changed s t i v)
    (hkey : ∀ u, s.view i = some u → v.key = u.key)
    (hw : ∀ cnt ov, w.phase = .retiring cnt ov → ∃ u, s.view ov = some u) :
    t.viewHolds param w = s.viewHolds param w := by
  unfold viewHolds
  cases hphase : w.phase with
  | retiring cnt ov =>
    obtain ⟨u, hu⟩ := hw cnt ov hphase
    simp only [hkOf_eq_view]
    by_cases hov : ov = i
    · subst hov
      simp [hview.self, hu, hkey u hu]
    · rw [hview.other ov hov]
  | _ => rfl

/-- One request changes, keeping its key; it may join the dictionary with a key that
is not there, and take a lock that is free. -/
theorem DrcInv.change (hs : DrcInv param s) (hview : Changed s t i v)
    (hkey : ∀ u, s.view i = some u → v.key = u.key)
    (hxt : ∀ e ∈ t.xt, e ∈ s.xt ∨ e = i ∧ s.lookup param v.key = none)
    (hq : ∀ e ∈ t.dupreqQ, e ≠ i → e ∈ s.dupreqQ)
    (hqueued : i ∈ t.dupreqQ → v.phase = .running ∨ v.state = .complete)
    (hstart : v.phase.Unfinished → v.state = .start)
    (hretiring : ∀ cnt ov, v.phase = .retiring cnt ov → ∃ w, s.view ov = some w)
    (hlock : ∀ p, s.viewHolds param v = some p → s.partitionFree param p ∨
      ∃ u, s.view i = some u ∧ s.viewHolds param u = some p) : DrcInv param t := by
  -- a request other than `i` looks the same, and no key changes
  have hforth : ∀ e w, s.view e = some w → ∃ u, t.view e = some u := by
    intro e w hw
    by_cases he : e = i
    · exact ⟨v, he ▸ hview.self⟩
    · exact ⟨w, (hview.other e he).trans hw⟩
  have hkeys : ∀ e w, e ∈ s.xt → t.view e = some w → ∃ u, s.view e = some u ∧ u.key = w.key := by
    intro e w he hw
    rcases hview.cases hw with ⟨rfl, rfl⟩ | ⟨-, hw⟩
    · obtain ⟨u, hu⟩ := hs.tree e he
      exact ⟨u, hu, (hkey u hu).symm⟩
    · exact ⟨w, hw, rfl⟩
  constructor
  · intro e he
    rcases hxt e he with he | ⟨rfl, -⟩
    · obtain ⟨w, hw⟩ := hs.tree e he
      exact hforth e w hw
    · exact ⟨v, hview.self⟩
  · intro e he f hf u w hu hw hsame
    rcases hxt e he with he | ⟨rfl, hlookup⟩
    · obtain ⟨u', hu', hukey⟩ := hkeys e u he hu
      rcases hxt f hf with hf | ⟨rfl, hlookup⟩
      · obtain ⟨w', hw', hwkey⟩ := hkeys f w hf hw
        exact hs.distinct e he f hf u' w' hu' hw' (by rw [hukey, hwkey]; exact hsame)
      · obtain rfl := some.inj (hw.symm.trans hview.self)
        have := lookup_eq_none.1 hlookup e he u' hu'
        simp [hukey, hsame] at this
    · rcases hxt f hf with hf | ⟨rfl, -⟩
      · obtain ⟨w', hw', hwkey⟩ := hkeys f w hf hw
        obtain rfl := some.inj (hu.symm.trans hview.self)
        have := lookup_eq_none.1 hlookup f hf w' hw'
        rw [hwkey, sameKey_comm] at this
        simp [hsame] at this
      · rfl
  · intro e he
    by_cases hei : e = i
    · subst hei
      exact ⟨v, hview.self, hqueued he⟩
    · obtain ⟨w, hw, hphase⟩ := hs.queued e (hq e he hei)
      exact ⟨w, (hview.other e hei).trans hw, hphase⟩
  · intro e w hw hphase
    rcases hview.cases hw with ⟨rfl, rfl⟩ | ⟨-, hw⟩
    · exact hstart hphase
    · exact hs.unfinished e w hw hphase
  · intro e w cnt ov hw hphase
    rcases hview.cases hw with ⟨rfl, rfl⟩ | ⟨-, hw⟩
    · obtain ⟨u, hu⟩ := hretiring cnt ov hphase
      exact hforth ov u hu
    · obtain ⟨u, hu⟩ := hs.retiring e w cnt ov hw hphase
      exact hforth ov u hu
  · -- two holders of one lock are one request
    have hnew : ∀ e w p, e ≠ i → s.view e = some w → s.viewHolds param w = some p →
        s.viewHolds param v ≠ some p := by
      intro e w p hei hw hwp hvp
      rcases hlock p hvp with hfree | ⟨u, hu, hup⟩
      · exact partitionFree_iff.1 hfree e w hw hwp
      · exact hei (hs.locks e i w u p hw hu hwp hup)
    intro e f u w p hu hw hup hwp
    rcases hview.cases hu with ⟨rfl, rfl⟩ | ⟨hei, hu⟩
    · rw [viewHolds_changed hview hkey hretiring] at hup
      rcases hview.cases hw with ⟨rfl, rfl⟩ | ⟨hfi, hw⟩
      · rfl
      · rw [viewHolds_changed hview hkey (hs.retiring f w · · hw)] at hwp
        exact absurd hup (hnew f w p hfi hw hwp)
    · rw [viewHolds_changed hview hkey (hs.retiring e u · · hu)] at hup
      rcases hview.cases hw with ⟨rfl, rfl⟩ | ⟨hfi, hw⟩
      · rw [viewHolds_changed hview hkey hretiring] at hwp
        exact absurd hwp (hnew e u p hei hu hup)
      · rw [viewHolds_changed hview hkey (hs.retiring f w · · hw)] at hwp
        exact hs.locks e f u w p hu hw hup hwp

@[simp] theorem view_length (s : Drc) : s.view s.requests.length = none := by
  simp [view]

theorem viewHolds_of_idle (h : v.phase.Idle) : s.viewHolds param v = none := by
  unfold viewHolds
  cases hphase : v.phase <;> simp_all [Phase.Idle]

theorem not_unfinished_of_idle (h : phase.Idle) : ¬phase.Unfinished := by
  cases phase <;> simp_all [Phase.Idle, Phase.Unfinished]

theorem DrcInv.rest (hs : DrcInv param s) (hv : s.view i = some v)
    (hview : Changed s t i { v with phase := phase }) (hidle : phase.Idle)
    (hphase : v.phase ≠ .running ∨ i ∉ s.dupreqQ) (hxt : ∀ e ∈ t.xt, e ∈ s.xt)
    (hq : t.dupreqQ = s.dupreqQ) : DrcInv param t := by
  apply hs.change hview
  · simp [hv]
  · exact fun e he => .inl (hxt e he)
  · intro e he _
    exact hq ▸ he
  · intro hi
    rw [hq] at hi
    obtain ⟨u, hu, huq⟩ := hs.queued i hi
    obtain rfl := some.inj (hv.symm.trans hu)
    rcases hphase with hphase | hphase
    · exact .inr (huq.resolve_left hphase)
    · exact absurd hi hphase
  · exact fun h => absurd h (not_unfinished_of_idle hidle)
  · intro cnt ov h
    have h' : phase = .retiring cnt ov := h
    simp [h', Phase.Idle] at hidle
  · intro p hp
    rw [viewHolds_of_idle hidle] at hp
    simp at hp

theorem DrcInv.step (hs : DrcInv param s) (h : DrcStep param s t a) : DrcInv param t := by
  cases h with
  | insert hfree hlookup hview hxt hq =>
    apply hs.change hview
    · simp
    · intro e he
      rw [hxt, mem_cons] at he
      exact he.symm.imp id fun h => ⟨h, hlookup⟩
    · exact fun e he _ => hq ▸ he
    · intro hi
      obtain ⟨u, hu, -⟩ := hs.queued _ (hq ▸ hi)
      simp at hu
    · exact fun _ => rfl
    · simp
    · intro p hp
      obtain rfl := some.inj hp
      exact .inl hfree
  | turnAway hfree hphase hview hxt hq =>
    apply hs.change hview
    · simp
    · exact fun e he => .inl (hxt ▸ he)
    · exact fun e he _ => hq ▸ he
    · intro hi
      obtain ⟨u, hu, -⟩ := hs.queued _ (hq ▸ hi)
      simp at hu
    · exact fun _ => rfl
    · rcases hphase with rfl | ⟨dv, rfl⟩ <;> simp
    · intro p hp
      rcases hphase with rfl | ⟨dv, rfl⟩
      · simp [viewHolds] at hp
      · obtain rfl := some.inj hp
        exact .inl hfree
  | enqueue hv hphase hview hxt hq =>
    have hstart := hs.unfinished _ _ hv (by simp [hphase, Phase.Unfinished])
    apply hs.change hview
    · simp [hv]
    · exact fun e he => .inl (hxt ▸ he)
    · intro e he hei
      rw [hq, mem_append, mem_singleton] at he
      exact he.resolve_right hei
    · exact fun _ => .inl rfl
    · exact fun _ => hstart
    · simp
    · simp [viewHolds]
  | finish hv hphase hview hxt hq =>
    apply hs.change hview
    · simp [hv]
    · exact fun e he => .inl (hxt ▸ he)
    · exact fun e he _ => hq ▸ he
    · exact fun _ => .inr rfl
    · simp [Phase.Unfinished]
    · simp
    · simp [viewHolds]
  | unqueue hv hphase hview hxt hq =>
    apply hs.change hview
    · simp [hv]
    · exact fun e he => .inl (hxt ▸ he)
    · intro e he _
      rw [hq] at he
      exact (mem_filter.1 he).1
    · simp [hq]
    · simp [Phase.Unfinished]
    · simp
    · simp [viewHolds]
  | skip hv hphase hqueue hview hxt hq =>
    exact hs.rest hv hview trivial (.inr hqueue) (fun e he => hxt ▸ he) hq
  | @take i cnt ovHk ov v hv hphase hfree hfirst hhk hview hxt hq =>
    have hov : ∃ w, s.view ov = some w := by
      obtain ⟨w, hw, -⟩ := hs.queued ov (mem_of_mem_head? hfirst)
      exact ⟨w, hw⟩
    apply hs.change hview
    · simp [hv]
    · exact fun e he => .inl (hxt ▸ he)
    · intro e he _
      rw [hq] at he
      exact (mem_filter.1 he).1
    · intro hi
      rw [hq] at hi
      obtain ⟨u, hu, huq⟩ := hs.queued i (mem_filter.1 hi).1
      obtain rfl := some.inj (hv.symm.trans hu)
      exact .inr (huq.resolve_left (by simp [hphase]))
    · simp [Phase.Unfinished]
    · rintro _ _ ⟨⟩
      exact hov
    · intro p hp
      simp only [viewHolds, hhk, map_some, some.injEq] at hp
      exact .inl (hp ▸ hfree)
  | remove hv hphase hidle hview hxt hq =>
    refine hs.rest hv hview hidle (.inl (by simp [hphase])) ?_ hq
    intro e he
    rw [hxt] at he
    exact (mem_filter.1 he).1
  | unhash hv hphase hview hxt hq =>
    refine hs.rest hv hview trivial (.inl (by simp [hphase])) ?_ hq
    intro e he
    rw [hxt] at he
    exact (mem_filter.1 he).1
  | idle hv hphase hidle hview hxt hq =>
    refine hs.rest hv hview hidle (.inl ?_) (fun e he => hxt ▸ he) hq
    rintro hrunning
    simp [hrunning, Phase.Idle] at hphase

end EdgeComputing.Rpcal
