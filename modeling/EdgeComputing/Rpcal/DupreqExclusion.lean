import Mathlib.Tactic.ByContra
import EdgeComputing.Rpcal.DupreqSteps

/-!
When the duplicate request cache keeps one request from running twice at the same time. Entries are
retired in the order of the queue, finished or not; a request whose entry is retired unfinished can
be started again.
-/

namespace EdgeComputing.Rpcal

open List Option Library Drc

variable {param : DrcParam} {s t : Drc} {i j : Nat} {v w : View} {cnt ovHk ov : Nat} {a : DrcAction}

def Drc.takes (s : Drc) (i : Nat) : Option Nat :=
  s.requests[i]?.bind fun r =>
    match r.phase with
    | .retire _ ovHk => s.dupreqQ.head?.filter fun ov => s.hkOf ov = some ovHk
    | _ => none

def RetiresFinished (s : Drc) : DrcAction → Prop
  | .next i => ∀ ov ∈ s.takes i, ∀ r ∈ s.requests[ov]?, r.entry.state = .complete
  | _ => True

instance (s : Drc) (a : DrcAction) : Decidable (RetiresFinished s a) :=
  match a with
  | .next i => inferInstanceAs
      (Decidable (∀ ov ∈ s.takes i, ∀ r ∈ s.requests[ov]?, r.entry.state = .complete))
  | .start _ | .finish _ | .delete _ => .isTrue trivial

theorem exists_request (hv : s.view i = some v) :
    ∃ r, s.requests[i]? = some r ∧ r.phase = v.phase := by
  obtain ⟨r, hr, rfl⟩ := map_eq_some_iff.1 hv
  exact ⟨r, hr, rfl⟩

theorem exists_of_takes {ov : Nat} (h : s.takes i = some ov) :
    ∃ r cnt ovHk, s.requests[i]? = some r ∧ r.phase = .retire cnt ovHk ∧
      s.dupreqQ.head? = some ov ∧ s.hkOf ov = some ovHk := by
  simp only [takes, bind_eq_some_iff] at h
  obtain ⟨r, hr, h⟩ := h
  split at h
  · rename_i cnt ovHk hphase
    simp only [filter_eq_some_iff, decide_eq_true_eq] at h
    exact ⟨r, cnt, ovHk, hr, hphase, h.1, h.2⟩
  · simp at h

/-- Two requests with one key are not both between `nfs_dupreq_start` and the end of
the request. -/
def Exclusive (param : DrcParam) (s : Drc) : Prop :=
  ∀ (i j : Nat) (r q : Request), s.requests[i]? = some r → s.requests[j]? = some q →
    r.phase = .running → q.phase = .running → sameKey param.type r.entry.key q.entry.key → i = j

structure DrcKept (s : Drc) : Prop where
  kept : ∀ i v, s.view i = some v → v.phase.Unfinished → i ∈ s.xt
  retired : ∀ i v cnt ov, s.view i = some v → v.phase = .retiring cnt ov →
    ∃ w, s.view ov = some w ∧ w.state = .complete

theorem drcKept_init (retwnd : Nat) : DrcKept ⟨[], [], [], 0, retwnd⟩ := by
  constructor <;> simp [view]

theorem DrcKept.exclusive (hs : DrcKept s) (hinv : DrcInv param s) : Exclusive param s := by
  intro i j r q hr hq hrunning hqrunning hsame
  have hi := view_of_getElem? hr
  have hj := view_of_getElem? hq
  apply hinv.distinct i _ j _ _ _ hi hj hsame
  · exact hs.kept i _ hi (by simp [Request.view, hrunning, Phase.Unfinished])
  · exact hs.kept j _ hj (by simp [Request.view, hqrunning, Phase.Unfinished])

theorem DrcKept.change (hs : DrcKept s) (hview : Changed s t i v)
    (hstate : ∀ u, s.view i = some u → u.state = .complete → v.state = .complete)
    (hself : v.phase.Unfinished → i ∈ t.xt)
    (hothers : ∀ j w, j ≠ i → s.view j = some w → w.phase.Unfinished → j ∈ s.xt → j ∈ t.xt)
    (hretired : ∀ cnt ov, v.phase = .retiring cnt ov →
      ∃ w, s.view ov = some w ∧ w.state = .complete) : DrcKept t := by
  have hcomplete : ∀ ov w, s.view ov = some w → w.state = .complete →
      ∃ u, t.view ov = some u ∧ u.state = .complete := by
    intro ov w hw hwstate
    by_cases hov : ov = i
    · subst hov
      exact ⟨v, hview.self, hstate w hw hwstate⟩
    · exact ⟨w, (hview.other ov hov).trans hw, hwstate⟩
  constructor
  · intro j w hw hphase
    rcases hview.cases hw with ⟨rfl, rfl⟩ | ⟨hj, hw⟩
    · exact hself hphase
    · exact hothers j w hj hw hphase (hs.kept j w hw hphase)
  · intro j w cnt ov hw hphase
    rcases hview.cases hw with ⟨rfl, rfl⟩ | ⟨-, hw⟩
    · obtain ⟨u, hu, hustate⟩ := hretired cnt ov hphase
      exact hcomplete ov u hu hustate
    · obtain ⟨u, hu, hustate⟩ := hs.retired j w cnt ov hw hphase
      exact hcomplete ov u hu hustate

theorem DrcKept.rest {phase : Phase} (hs : DrcKept s) (hv : s.view i = some v)
    (hview : Changed s t i { v with phase := phase }) (hidle : phase.Idle ∨ phase = .deleting)
    (hothers : ∀ j w, j ≠ i → s.view j = some w → w.phase.Unfinished → j ∈ s.xt → j ∈ t.xt) :
    DrcKept t := by
  apply hs.change hview
  · simp [hv]
  · rcases hidle with hidle | rfl
    · exact fun h => absurd h (not_unfinished_of_idle hidle)
    · exact fun h => absurd h id
  · exact hothers
  · intro cnt ov h
    have h' : phase = .retiring cnt ov := h
    simp [h', Phase.Idle] at hidle

theorem DrcKept.step (hs : DrcKept s) (hinv : DrcInv param s) (hguard : RetiresFinished s a)
    (h : DrcStep param s t a) : DrcKept t := by
  cases h with
  | insert hfree hlookup hview hxt hq =>
    apply hs.change hview
    · simp
    · simp [hxt]
    · exact fun j w _ _ _ hj => hxt ▸ mem_cons_of_mem _ hj
    · simp
  | turnAway hfree hphase hview hxt hq =>
    apply hs.change hview
    · simp
    · rcases hphase with rfl | ⟨dv, rfl⟩ <;> simp [Phase.Unfinished]
    · exact fun j w _ _ _ hj => hxt ▸ hj
    · rcases hphase with rfl | ⟨dv, rfl⟩ <;> simp
  | enqueue hv hphase hview hxt hq =>
    have hkept := hs.kept _ _ hv (by simp [hphase, Phase.Unfinished])
    apply hs.change hview
    · simp [hv]
    · exact fun _ => hxt ▸ hkept
    · exact fun j w _ _ _ hj => hxt ▸ hj
    · simp
  | finish hv hphase hview hxt hq =>
    apply hs.change hview
    · simp
    · simp [Phase.Unfinished]
    · exact fun j w _ _ _ hj => hxt ▸ hj
    · simp
  | unqueue hv hphase hview hxt hq =>
    exact hs.rest hv hview (.inr rfl) fun j w _ _ _ hj => hxt ▸ hj
  | skip hv hphase hqueue hview hxt hq =>
    exact hs.rest hv hview (.inl trivial) fun j w _ _ _ hj => hxt ▸ hj
  | take hv hphase hfree hfirst hhk hview hxt hq =>
    obtain ⟨w, hw, -⟩ := hinv.queued _ (mem_of_mem_head? hfirst)
    obtain ⟨r, hr, rfl⟩ := map_eq_some_iff.1 hw
    obtain ⟨r', hr', hphase'⟩ := exists_request hv
    have hfinished := hguard _ (by simp [takes, hr', hphase', hphase, hfirst, hhk]) r hr
    apply hs.change hview
    · simp [hv]
    · simp [Phase.Unfinished]
    · exact fun j w _ _ _ hj => hxt ▸ hj
    · rintro _ _ ⟨⟩
      exact ⟨_, hw, hfinished⟩
  | remove hv hphase hidle hview hxt hq =>
    apply hs.rest hv hview (.inl hidle)
    intro j w _ hw hunfinished hj
    rw [hxt, mem_filter]
    refine ⟨hj, ?_⟩
    -- what is removed is finished, so it is not the entry of `j`
    obtain ⟨u, hu, hustate⟩ := hs.retired _ _ _ _ hv hphase
    have hstart := hinv.unfinished j w hw hunfinished
    rw [decide_eq_true_eq]
    rintro rfl
    obtain rfl := some.inj (hw.symm.trans hu)
    simp [hstart] at hustate
  | unhash hv hphase hview hxt hq =>
    apply hs.rest hv hview (.inl trivial)
    intro j w hji _ _ hj
    rw [hxt, mem_filter]
    exact ⟨hj, by simpa using hji⟩
  | idle hv hphase hidle hview hxt hq =>
    exact hs.rest hv hview (.inl hidle) fun j w _ _ _ hj => hxt ▸ hj

theorem starts_of_lookup_none {key : DupreqKey}
    (hfree : s.partitionFree param (partitionOf param key.hk))
    (hlookup : s.lookup param key = none) :
    ∃ u, (drcMachine param).RunBy RetiresFinished s u ∧
      Changed s u s.requests.length ⟨key, .start, .running⟩ := by
  let t := nfsDupreqStart param key s
  have hstep : (drcMachine param).step s (.start key) = some t := by
    simp [drcMachine, hfree, t]
  have ht : t.requests = s.requests ++ [⟨⟨key, .start, 2⟩, .inserted⟩] := by
    simp only [t, nfsDupreqStart, hlookup]
  have hjoin := changed_join (s := s) ⟨⟨key, .start, 2⟩, .inserted⟩ (fun _ => rfl) rfl ht
  obtain ⟨r, hr, hphase⟩ := exists_request hjoin.self
  dsimp only [Request.view] at hphase
  have hnext : (drcMachine param).step t (.next s.requests.length) =
      some ((t.enqueue s.requests.length).setPhase s.requests.length .running) := by
    simp [drcMachine, hr, nextSection, hphase]
  have hrunning := changed_setPhase hjoin.self (view_enqueue t s.requests.length) .running
  have hguard : RetiresFinished t (.next s.requests.length) := by
    simp [RetiresFinished, takes, hr, hphase]
  refine ⟨_, .step (.step (a := .start key) .refl trivial hstep) hguard hnext, ?_⟩
  constructor
  · exact hrunning.self
  · intro j hj
    rw [hrunning.other j hj, hjoin.other j hj]

theorem runs_twice_of_retiring (hinv : DrcInv param s) (hkept : DrcKept s) (hv : s.view i = some v)
    (hphase : v.phase = .retire cnt ovHk) (hfirst : s.dupreqQ.head? = some ov)
    (hhk : s.hkOf ov = some ovHk) (hw : s.view ov = some w) (hunfinished : w.state ≠ .complete)
    (hview : Changed s t i { v with phase := .retiring cnt ov }) (hxt : t.xt = s.xt)
    (hinvt : DrcInv param t) :
    ∃ u, (drcMachine param).RunBy RetiresFinished t u ∧ ¬Exclusive param u := by
  obtain ⟨w', hw', hqueued⟩ := hinv.queued ov (mem_of_mem_head? hfirst)
  obtain rfl := some.inj (hw.symm.trans hw')
  have hrunning : w.phase = .running := hqueued.resolve_right hunfinished
  have hmem : ov ∈ s.xt := hkept.kept ov w hw (by simp [hrunning, Phase.Unfinished])
  have hovi : ov ≠ i := by
    rintro rfl
    obtain rfl := some.inj (hv.symm.trans hw)
    simp [hphase] at hrunning
  have hwkey : w.key.hk = ovHk := by simpa [hkOf_eq_view, hw] using hhk
  -- the entry leaves the dictionary
  let u := retireEntry i cnt ov t
  obtain ⟨r, hr, hretiring⟩ := exists_request hview.self
  have hstep : (drcMachine param).step t (.next i) = some u := by
    simp [drcMachine, hr, nextSection, hretiring, u]
  have hguard : RetiresFinished t (.next i) := by
    simp [RetiresFinished, takes, hr, hretiring]
  have hremoved : Changed t u i { v with
      phase := if cnt < dupreqMaxRetries then .retired (cnt + 1) else .done } :=
    changed_setPhase hview.self (view_put (t.remove ov) ov) _
  have hwt : t.view ov = some w := (hview.other ov hovi).trans hw
  have hwu : u.view ov = some w := (hremoved.other ov hovi).trans hwt
  have hkeys : ∀ e x, u.view e = some x → ∃ y, t.view e = some y ∧ y.key = x.key := by
    intro e x hx
    rcases hremoved.cases hx with ⟨rfl, rfl⟩ | ⟨-, hx⟩
    · exact ⟨_, hview.self, rfl⟩
    · exact ⟨x, hx, rfl⟩
  have hholder : t.viewHolds param { v with phase := .retiring cnt ov }
      = some (partitionOf param w.key.hk) := by
    simp [viewHolds, hkOf_eq_view, hwt]
  have hopen : u.partitionFree param (partitionOf param w.key.hk) := by
    apply partitionFree_iff.2
    intro j x hx hholds
    rcases hremoved.cases hx with ⟨rfl, rfl⟩ | ⟨hj, hx⟩
    · rw [viewHolds_of_idle (by dsimp only; split_ifs <;> trivial)] at hholds
      simp at hholds
    · have hsame : u.viewHolds param x = t.viewHolds param x :=
        viewHolds_changed hremoved (fun y hy => by rw [← some.inj (hview.self.symm.trans hy)])
          (hinvt.retiring j x · · hx)
      exact hj (hinvt.locks j i _ _ _ hx hview.self (hsame ▸ hholds) hholder)
  have hlookup : u.lookup param w.key = none := by
    apply lookup_eq_none.2
    intro e he x hx
    obtain ⟨y, hy, hyx⟩ := hkeys e x hx
    have he' : e ∈ t.xt.filter (· ≠ ov) := he
    obtain ⟨het, heov⟩ := mem_filter.1 he'
    rw [← hyx, Bool.eq_false_iff]
    intro hsame
    have := hinvt.distinct e het ov (hxt ▸ hmem) y w hy hwt hsame
    simp [this] at heov
  obtain ⟨q, hq, hnew⟩ := starts_of_lookup_none hopen hlookup
  refine ⟨q, .trans (.step .refl hguard hstep) hq, ?_⟩
  intro hexclusive
  have hfresh : ov ≠ u.requests.length := by
    rintro heq
    simp [heq] at hwu
  obtain ⟨r, hr, rfl⟩ := map_eq_some_iff.1 ((hnew.other ov hfresh).trans hwu)
  obtain ⟨r', hr', hrview⟩ := map_eq_some_iff.1 hnew.self
  have hkey : r'.entry.key = r.entry.key := congrArg View.key hrview
  have hphase' : r'.phase = .running := congrArg View.phase hrview
  exact hfresh (hexclusive _ _ r r' hr hr' hrunning hphase' (by rw [hkey, sameKey_self]))

theorem drcInv_of_reachable (h : (drcMachine param).Reachable s) : DrcInv param s := by
  apply h.invariant
  · rintro s ⟨retwnd, rfl⟩
    exact drcInv_init retwnd
  · intro s a t hs hstep
    exact hs.step (drcStep_of_step hstep)

theorem drcKept_of_reachableBy (h : (drcMachine param).ReachableBy RetiresFinished s) :
    DrcKept s := by
  have hboth : DrcInv param s ∧ DrcKept s := by
    apply h.invariant
    · rintro s ⟨retwnd, rfl⟩
      exact ⟨drcInv_init retwnd, drcKept_init retwnd⟩
    · intro s a t hs hguard hstep
      have hdrc := drcStep_of_step hstep
      exact ⟨hs.1.step hdrc, hs.2.step hs.1 hguard hdrc⟩
  exact hboth.2

theorem runs_twice_of_not_retiresFinished (hinv : DrcInv param s) (hkept : DrcKept s)
    (hstep : (drcMachine param).step s a = some t) (hguard : ¬RetiresFinished s a) :
    ∃ u, (drcMachine param).RunBy RetiresFinished t u ∧ ¬Exclusive param u := by
  have hinvt := hinv.step (drcStep_of_step hstep)
  cases a with
  | start key | finish i | delete i => exact absurd trivial hguard
  | next i =>
    simp only [RetiresFinished, not_forall] at hguard
    obtain ⟨ov, hov, r, hr, hunfinished⟩ := hguard
    obtain ⟨q, cnt, ovHk, hq, hphase, hfirst, hhk⟩ := exists_of_takes hov
    simp only [drcMachine, hq, bind_some, nextSection, hphase,
      ite_none_right_eq_some, some.injEq, takeOldest, hfirst, hhk, ne_eq,
      not_true_eq_false, if_false] at hstep
    obtain ⟨-, rfl⟩ := hstep
    have hv := view_of_getElem? hq
    exact runs_twice_of_retiring hinv hkept hv hphase hfirst hhk (view_of_getElem? hr)
      hunfinished (changed_setPhase hv (view_dequeue s ov) _) rfl hinvt

/-- In every run that retires only finished entries, requests with one key exclude
each other, and a step keeps that for the rest of the run if and only if it retires
no unfinished entry. -/
theorem dupreq_exclusive_iff (param : DrcParam) (s : Drc)
    (hs : (drcMachine param).ReachableBy RetiresFinished s) :
    Exclusive param s ∧
      ∀ a t, (drcMachine param).step s a = some t →
        (RetiresFinished s a ↔
          ∀ u, (drcMachine param).RunBy RetiresFinished t u → Exclusive param u) := by
  have hkept := drcKept_of_reachableBy hs
  have hinv := drcInv_of_reachable hs.reachable
  refine ⟨hkept.exclusive hinv, fun a t hstep => ⟨?_, ?_⟩⟩
  · intro hguard u hu
    have hreach := (hs.step hguard hstep).run hu
    exact (drcKept_of_reachableBy hreach).exclusive (drcInv_of_reachable hreach.reachable)
  · intro hexclusive
    by_contra hguard
    obtain ⟨u, hu, hwrong⟩ := runs_twice_of_not_retiresFinished hinv hkept hstep hguard
    exact hwrong (hexclusive u hu)

def smallDrc : DrcParam := ⟨.tcpV3, 7, 1024, 1⟩

def Drc.empty : Drc := ⟨[], [], [], 0, 0⟩

theorem drc_init_empty : (drcMachine smallDrc).init empty := ⟨0, rfl⟩

/-- A finished entry is retired and its request is started again while another one is
running. -/
theorem dupreq_exclusive_after_retiring :
    ∃ s, Exclusive smallDrc s ∧
      s.requests.map Request.phase = [.done, .retired 1, .running, .running] := by
  have hrun : ((drcMachine smallDrc).runFromBy RetiresFinished empty
      [.start ⟨1, 10, 100⟩, .next 0, .finish 0, .next 0,
        .start ⟨1, 11, 101⟩, .next 1, .finish 1, .next 1, .next 1, .next 1,
        .start ⟨1, 10, 100⟩, .next 2, .start ⟨1, 12, 100⟩, .next 3]).map
        (fun s => s.requests.map Request.phase)
      = some [.done, .retired 1, .running, .running] := by
    decide +kernel
  obtain ⟨s, hreach, hphases⟩ := Machine.exists_reachableBy hrun (.init drc_init_empty)
  exact ⟨s, (dupreq_exclusive_iff smallDrc s hreach).1, hphases⟩

/-- Request 1 finishes while the older request 0 is still running and retires the entry
of request 0; its retransmission, request 2, is started as well. -/
theorem unfinished_request_runs_twice :
    ∃ s, (drcMachine smallDrc).Reachable s ∧ ∃ r q,
      s.requests[0]? = some r ∧ s.requests[2]? = some q ∧
        r.phase = .running ∧ q.phase = .running ∧ r.entry.state = .start ∧
        r.entry.key = q.entry.key ∧ 0 ∉ s.xt := by
  let r : Request := ⟨⟨⟨1, 10, 100⟩, .start, 1⟩, .running⟩
  let q : Request := ⟨⟨⟨1, 10, 100⟩, .start, 2⟩, .running⟩
  have hrun : ((drcMachine smallDrc).runFrom empty
      [.start ⟨1, 10, 100⟩, .next 0, .start ⟨1, 11, 101⟩, .next 1, .finish 1, .next 1, .next 1,
        .next 1, .start ⟨1, 10, 100⟩, .next 2]).map
        (fun s => (s.requests[0]?, s.requests[2]?, s.xt))
      = some (some r, some q, [2, 1]) := by
    decide +kernel
  obtain ⟨s, hreach, hs⟩ := Machine.exists_reachable hrun (.init drc_init_empty)
  simp only [Prod.mk.injEq] at hs
  obtain ⟨hr, hq, hxt⟩ := hs
  exact ⟨s, hreach, r, q, hr, hq, rfl, rfl, rfl, rfl, by simp [hxt]⟩

def Drc.queue (s : Drc) : List Nat × Nat := (s.dupreqQ, s.size)

inductive QueueStep (s t : Drc) : Prop
  | kept (h : t.queue = s.queue)
  | enqueue {i : Nat} {r : Request} (hr : s.requests[i]? = some r) (hphase : r.phase = .inserted)
      (h : t.queue = (s.enqueue i).queue)
  | dequeue {i : Nat} (hmem : i ∈ s.dupreqQ) (h : t.queue = (s.dequeue i).queue)

theorem queueStep_dqAgain {u : Drc} (h : u.queue = s.queue) :
    QueueStep s (dqAgain param i cnt u) := by
  unfold dqAgain
  repeat' split
  all_goals exact .kept h

theorem queueStep_of_step (h : (drcMachine param).step s a = some t) : QueueStep s t := by
  cases a with
  | start key =>
    simp only [drcMachine, ite_none_right_eq_some, some.injEq] at h
    obtain ⟨_, rfl⟩ := h
    unfold nfsDupreqStart
    repeat' split
    all_goals exact .kept rfl
  | finish i =>
    simp only [drcMachine, bind_eq_some_iff, ite_none_right_eq_some, some.injEq] at h
    obtain ⟨r, _, _, rfl⟩ := h
    exact .kept rfl
  | delete i =>
    simp only [drcMachine, bind_eq_some_iff, ite_none_right_eq_some, some.injEq] at h
    obtain ⟨r, _, _, rfl⟩ := h
    unfold nfsDupreqDelete
    split_ifs with hmem
    · exact .dequeue hmem rfl
    · exact .kept rfl
  | next i =>
    simp only [drcMachine, bind_eq_some_iff] at h
    obtain ⟨r, hr, h⟩ := h
    unfold nextSection at h
    cases hphase : r.phase <;>
      simp only [hphase, ite_none_right_eq_some, some.injEq, reduceCtorEq] at h
    case inserted => exact h ▸ .enqueue hr hphase rfl
    case completed | retired => exact h ▸ queueStep_dqAgain rfl
    case retire cnt ovHk =>
      obtain ⟨_, rfl⟩ := h
      unfold takeOldest
      split
      · exact .kept rfl
      · rename_i ov hfirst
        split_ifs
        · exact .kept rfl
        · exact .dequeue (mem_of_mem_head? hfirst) rfl
    case deleting => exact h.2 ▸ .kept rfl
    all_goals exact h ▸ .kept rfl

/-- No entry is queued twice, and the counter is that of the queue. -/
structure QueueCounted (q : List Nat × Nat) : Prop where
  nodup : q.1.Nodup
  size : q.2 = q.1.length % 2 ^ 32

theorem not_queued_of_inserted (hinv : DrcInv param s) {r : Request} (hr : s.requests[i]? = some r)
    (hphase : r.phase = .inserted) : i ∉ s.dupreqQ := by
  intro hmem
  have hv := view_of_getElem? hr
  have hstart := hinv.unfinished i _ hv (by simp [Request.view, hphase, Phase.Unfinished])
  obtain ⟨v, hv', hdone⟩ := hinv.queued i hmem
  cases hv.symm.trans hv'
  simp_all [Request.view]

theorem QueueCounted.step (hs : QueueCounted s.queue) (hinv : DrcInv param s) (h : QueueStep s t) :
    QueueCounted t.queue := by
  have hnodup : s.dupreqQ.Nodup := hs.nodup
  have hsize : s.size = s.dupreqQ.length % 2 ^ 32 := hs.size
  cases h with
  | kept h => exact h ▸ hs
  | @enqueue i r hr hphase h =>
    have hnot := not_queued_of_inserted hinv hr hphase
    rw [h]
    constructor
    · exact nodup_append.2 ⟨hnodup, by simp, by grind⟩
    · simp only [queue, Drc.enqueue, hsize, length_append, length_singleton]
      omega
  | @dequeue i hmem h =>
    have herase : (s.dequeue i).dupreqQ = s.dupreqQ.erase i := by
      simp only [hnodup.erase_eq_filter, Drc.dequeue, ne_eq, decide_not]
      rfl
    have hpos := length_pos_of_mem hmem
    rw [h, queue, herase]
    constructor
    · exact hnodup.erase i
    · simp only [Drc.dequeue, hsize, length_erase_of_mem hmem]
      omega

/-- In every interleaving of requests, no entry is queued twice and `drc->size`, by which the cache
decides to retire entries, is the length of the queue. -/
theorem drc_queue_counted (param : DrcParam) (s : Drc) (hs : (drcMachine param).Reachable s) :
    s.dupreqQ.Nodup ∧ s.size = s.dupreqQ.length % 2 ^ 32 := by
  have hboth : DrcInv param s ∧ QueueCounted s.queue := by
    apply hs.invariant
    · rintro s ⟨retwnd, rfl⟩
      exact ⟨drcInv_init retwnd, nodup_nil, rfl⟩
    · intro s a t ⟨hinv, hq⟩ hstep
      exact ⟨hinv.step (drcStep_of_step hstep), hq.step hinv (queueStep_of_step hstep)⟩
  exact ⟨hboth.2.nodup, hboth.2.size⟩

theorem drc_queue_counted_two : ∃ s : Drc, s.dupreqQ = [0, 1] ∧ s.size = 2 := by
  have hrun : ((drcMachine smallDrc).runFrom empty
      [.start ⟨1, 10, 100⟩, .next 0, .start ⟨1, 11, 101⟩, .next 1]).map dupreqQ = some [0, 1] := by
    decide +kernel
  obtain ⟨s, hs, hq⟩ := Machine.exists_reachable hrun (.init drc_init_empty)
  exact ⟨s, hq, by rw [(drc_queue_counted smallDrc s hs).2, hq]; rfl⟩

end EdgeComputing.Rpcal
