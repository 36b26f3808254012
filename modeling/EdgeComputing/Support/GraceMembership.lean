import EdgeComputing.Support.GraceEpochs

/-!
Membership in the cluster is changed by adding and removing nodes only. A join and a toggle are to
refuse a node that is not a member; but `match` is never cleared in the loop, so a repeated
iteration takes a node for a member that an earlier one has seen.
-/

namespace EdgeComputing.Support

open List Option Library Library.Optimistic

variable {ν : Type*} [DecidableEq ν] {σ τ : GraceState ν} {x : GraceEvent ν}
variable {obj : GraceObject ν} {k k' : GraceLoop ν} {u : GraceUpdate ν} {d : Option (Nat × Nat)}

def GraceOp.ofMembers : GraceOp → Bool
  | .joinBulk _ | .enforcingToggle _ => true
  | .add | .liftBulk _ => false

/-- What a step of a join or a toggle has to do: a write creates no key, and an iteration that does
not find one of its nodes ends the operation with -ENOKEY. -/
structure MembershipKept (σ : GraceState ν) (x : GraceEvent ν) (τ : GraceState ν) : Prop where
  write : ∀ (i : Nat) k ver u d, x = .write i → σ.calls[i]? = some (.writing k ver u d) →
    k.op.ofMembers = true → ∀ n ∈ τ.obj.omap, n ∈ σ.obj.omap
  read : ∀ (i : Nat) k, x = .read i → σ.calls[i]? = some (.reading k) → k.op.ofMembers = true →
    σ.obj.omap.more = false → (∃ n ∈ k.nodeids, n ∉ σ.obj.omap) →
    τ.calls[i]? = some (.returned k (.error .enokey))

def StillMembers (k : GraceLoop ν) (obj : GraceObject ν) : Prop :=
  k.op.ofMembers = true → obj.omap.more = false →
    ∀ s ∈ k.slots, s.matched = true → s.nodeid ∈ obj.omap

def membershipGuard (σ : GraceState ν) : GraceEvent ν → Prop
  | .read i =>
    match σ.calls[i]? with
    | some (.reading k) => StillMembers k σ.obj
    | _ => True
  | _ => True

instance (k : GraceLoop ν) (obj : GraceObject ν) : Decidable (StillMembers k obj) :=
  inferInstanceAs (Decidable (_ = _ → _ = _ → ∀ s ∈ k.slots, s.matched = true → _))

instance (σ : GraceState ν) (x : GraceEvent ν) : Decidable (membershipGuard σ x) := by
  unfold membershipGuard
  split
  · split <;> infer_instance
  · infer_instance

def AllOrNone (k : GraceLoop ν) : Prop :=
  k.op.ofMembers = true → AllMatched k.slots ∨ ∀ s ∈ k.slots, s.matched = false

section

variable (h : Prepares obj k k' u d) (hop : k'.op.ofMembers = true)
include h hop

theorem allMatched_of_prepares : AllMatched k'.slots := by
  cases h with
  | add => cases hop
  | lift => cases hop
  | start hall => exact hall
  | join hall => exact hall
  | toggle hall => exact hall

theorem change_of_prepares : u.change = .set (kvPairs k'.slots) := by
  cases h with
  | add => cases hop
  | lift => cases hop
  | start => rfl
  | join => rfl
  | toggle => rfl

theorem mem_of_prepares (hk : ∀ s ∈ k.slots, s.matched = true → s.nodeid ∈ obj.omap) :
    ∀ s ∈ k'.slots, s.nodeid ∈ obj.omap := by
  intro s hs
  have hmatched := allMatched_of_prepares h hop s hs
  cases h with
  | add => cases hop
  | lift => cases hop
  | start | join =>
    rcases mem_walk joinSlot_nodeid hs with hs | hs
    · obtain ⟨s0, hs0, rfl⟩ := mem_map.1 hs
      exact hk s0 hs0 hmatched
    · exact hs
  | toggle =>
    rcases mem_walk (toggleSlot_nodeid _) hs with hs | hs
    · exact hk s hs hmatched
    · exact hs

end

theorem omap_of_set {kvs : List (ν × BitVec 8)} (h : u.change = .set kvs) :
    (u.apply obj).omap = obj.omap.set kvs := by
  obtain ⟨epochs, change⟩ := u
  cases h
  cases epochs <;> rfl

theorem attempt_enokey (hop : k.op.ofMembers = true) (hmore : obj.omap.more = false)
    {s : NodeSlot ν} (hs : s ∈ k.slots) (hmatched : s.matched = false) (hnot : s.nodeid ∉ obj.omap) :
    graceAttempt k obj = .done (.error .enokey) := by
  obtain ⟨op, slots⟩ := k
  cases op with
  | add => cases hop
  | liftBulk => cases hop
  | joinBulk start =>
    have hleft : (joinSlots slots obj.omap).any (fun s => !s.matched) = true := by
      refine any_eq_true.2 ⟨_, mem_walk_of_not_mem (mem_map_of_mem hs) hnot, ?_⟩
      simp [hmatched]
    simp only [graceAttempt, radosGraceJoinBulk, hmore, hleft, if_true, Bool.false_eq_true,
      if_false]
  | enforcingToggle enable =>
    have hleft : (walk (toggleSlot enable) obj.omap.entries slots).any (fun s => !s.matched) =
        true :=
      any_eq_true.2 ⟨s, mem_walk_of_not_mem hs hnot, by simp [hmatched]⟩
    simp only [graceAttempt, radosGraceEnforcingToggle, hmore, hleft, if_true,
      Bool.false_eq_true, if_false]

theorem attempt_ne_enokey (hop : k.op.ofMembers = true) (hall : AllMatched k.slots) :
    graceAttempt k obj ≠ .done (.error .enokey) := by
  intro h
  obtain ⟨op, slots⟩ := k
  cases op with
  | add => cases hop
  | liftBulk => cases hop
  | joinBulk start =>
    have hwalk : AllMatched (joinSlots slots obj.omap) := by
      refine forall_mem_walk (f := joinSlot) (fun _ _ _ => rfl) ?_
      intro s hs
      obtain ⟨s0, hs0, rfl⟩ := mem_map.1 hs
      exact hall s0 hs0
    simp only [graceAttempt, radosGraceJoinBulk] at h
    split_ifs at h with hmore hmatch
    · cases h
    · exact (allMatched_iff _).2 hwalk hmatch
    · cases h
  | enforcingToggle enable =>
    have hwalk : AllMatched (walk (toggleSlot enable) obj.omap.entries slots) :=
      forall_mem_walk (f := toggleSlot enable) (fun _ _ _ => rfl) hall
    simp only [graceAttempt, radosGraceEnforcingToggle] at h
    split_ifs at h with hmore hmatch
    · cases h
    · exact (allMatched_iff _).2 hwalk hmatch

section

variable (hσ : (graceMachine ν).ReachableBy membershipGuard σ)
include hσ

theorem grace_allOrNone :
    ∀ c ∈ σ.calls, InOrder (grace ν) AllOrNone StillMembers σ.obj σ.ver c := by
  refine calls_inOrder ?_ ?_ ?_ hσ
  · rintro ⟨op, nodeids⟩ _
    right
    intro s hs
    obtain ⟨_, _, rfl⟩ := mem_map.1 hs
    rfl
  · intro k obj k' u d _ hwrite hop
    exact .inl (allMatched_of_prepares (prepares_of_attempt hwrite).2 hop)
  · intro σ i k hguard hk
    simpa only [membershipGuard, hk] using hguard

theorem write_keeps_members {i : Nat} (hk : σ.calls[i]? = some (.writing k σ.ver u d))
    (hop : k.op.ofMembers = true) : ∀ n ∈ (u.apply σ.obj).omap, n ∈ σ.obj.omap := by
  obtain ⟨-, -, hcurrent⟩ := grace_allOrNone hσ _ (mem_of_getElem? hk)
  obtain ⟨k0, -, hstill, hwrite⟩ := hcurrent rfl
  obtain ⟨hmore, hprepares⟩ := prepares_of_attempt hwrite
  have hop0 : k0.op = k.op := by cases hprepares <;> rfl
  have hmembers := mem_of_prepares hprepares hop (hstill (hop0 ▸ hop) hmore)
  intro n hn
  rw [omap_of_set (change_of_prepares hprepares hop), Omap.mem_set] at hn
  rcases hn with hn | hn
  · obtain ⟨s, hs, rfl⟩ : ∃ s ∈ k.slots, s.nodeid = n := by simpa [kvPairs] using hn
    exact hmembers s hs
  · exact hn

theorem read_iff {i : Nat} (hk : σ.calls[i]? = some (.reading k))
    (h : (graceMachine ν).step σ (.read i) = some τ) :
    StillMembers k σ.obj ↔ MembershipKept σ (.read i) τ := by
  constructor
  · intro hstill
    refine ⟨fun _ _ _ _ _ hx => ?_, fun j k' hx hk' hop hmore hnot => ?_⟩
    · cases hx
    · cases hx
      rw [hk] at hk'
      cases hk'
      obtain ⟨n, hn, hout⟩ := hnot
      obtain ⟨s, hs, rfl⟩ := mem_map.1 hn
      have hunmatched : s.matched = false := by
        by_contra hmatched
        exact hout (hstill hop hmore s hs (by simpa using hmatched))
      have hdone := attempt_enokey hop hmore hs hunmatched hout
      have hlt : i < σ.calls.length := (List.getElem?_eq_some_iff.1 hk).1
      cases graceMachine_moves h with
      | answered hk' hdone' =>
        rw [hk] at hk'
        cases hk'
        cases hdone.symm.trans hdone'
        exact getElem?_set_self hlt
      | prepared hk' hwrite =>
        rw [hk] at hk'
        cases hk'
        cases hdone.symm.trans hwrite
  · intro hkept hop hmore s hs hmatched
    by_contra hout
    have hreturned := hkept.read i k rfl hk hop hmore ⟨s.nodeid, mem_map_of_mem hs, hout⟩
    have hall : AllMatched k.slots := by
      rcases grace_allOrNone hσ _ (mem_of_getElem? hk) hop with hall | hnone
      · exact hall
      · rw [hnone s hs] at hmatched
        cases hmatched
    have hlt : i < σ.calls.length := (List.getElem?_eq_some_iff.1 hk).1
    cases graceMachine_moves h with
    | answered hk' hdone =>
      rw [hk] at hk'
      cases hk'
      rw [getElem?_set_self hlt] at hreturned
      cases hreturned
      exact attempt_ne_enokey hop hall hdone
    | prepared hk' hwrite =>
      rw [getElem?_set_self hlt] at hreturned
      cases hreturned

/-- In every run in which repeated iterations still find their nodes, a join or a toggle creates no
key and answers a missing node with -ENOKEY; the first iteration that does not find a node it has
matched before breaks this. -/
theorem membership_kept_iff (h : (graceMachine ν).step σ x = some τ) :
    membershipGuard σ x ↔ MembershipKept σ x τ := by
  cases graceMachine_moves h with
  | invoked | failed => exact iff_of_true trivial ⟨by simp, by simp⟩
  | answered hk | prepared hk =>
    simp only [membershipGuard, hk]
    exact read_iff hσ hk h
  | @written i k u d hk =>
    refine iff_of_true trivial ⟨fun j k' ver u' d' hx hk' hop => ?_, by simp⟩
    cases hx
    rw [hk] at hk'
    cases hk'
    exact write_keeps_members hσ hk hop
  | stale => exact iff_of_true trivial ⟨fun _ _ _ _ _ _ _ _ _ hn => hn, by simp⟩

end

/-- Two nodes join at the same time. The write of the first is stale, its repeated iteration still
finds it, and its write creates no key. -/
theorem membership_kept_two_joins :
    ∃ σ τ : GraceState Nat, (graceMachine Nat).ReachableBy membershipGuard σ ∧
      (graceMachine Nat).step σ (.write 1) = some τ ∧ MembershipKept σ (.write 1) τ := by
  have hrun : (((graceMachine Nat).runFromBy membershipGuard (graceCreated Nat)
      [.invoke (.add, [0, 1]), .read 0, .write 0, .invoke (.joinBulk true, [0]), .read 1,
        .invoke (.joinBulk true, [1]), .read 2, .write 2, .write 1, .read 1]).bind
      fun σ => (graceMachine Nat).step σ (.write 1)).isSome = true := by
    decide +kernel
  obtain ⟨τ, hτ⟩ := isSome_iff_exists.1 hrun
  obtain ⟨σ, hσ, hstep⟩ := bind_eq_some_iff.1 hτ
  have hreach := Machine.reachableBy_of_runFromBy reachable_graceCreated _ hσ
  exact ⟨σ, τ, hreach, hstep, (membership_kept_iff hreach hstep).1 trivial⟩

/-- A join of a node is under way when the node is removed. Its write is stale; the repeated
iteration takes the node for a member, and its write makes it one again. -/
theorem join_recreates_removed_node :
    ∃ σ τ : GraceState Nat, (graceMachine Nat).Reachable σ ∧
      (∃ k ver u d, σ.calls[1]? = some (.writing k ver u d) ∧ k.op = .joinBulk true) ∧
      (graceMachine Nat).step σ (.write 1) = some τ ∧ 0 ∉ σ.obj.omap ∧ 0 ∈ τ.obj.omap := by
  have hrun : (((graceMachine Nat).runFrom (graceCreated Nat)
      [.invoke (.add, [0, 1]), .read 0, .write 0, .invoke (.joinBulk true, [0]), .read 1,
        .invoke (.liftBulk true, [0]), .read 2, .write 2, .write 1, .read 1]).bind
      fun σ => ((graceMachine Nat).step σ (.write 1)).map fun τ =>
        (decide (0 ∈ σ.obj.omap), decide (0 ∈ τ.obj.omap), (σ.calls[1]?).map fun c => c.loop.op)) =
      some (false, true, some (.joinBulk true)) := by
    decide +kernel
  obtain ⟨σ, hσ, hrest⟩ := bind_eq_some_iff.1 hrun
  obtain ⟨τ, hstep, hfacts⟩ := map_eq_some_iff.1 hrest
  obtain ⟨hbefore, hafter, hop⟩ : 0 ∉ σ.obj.omap ∧ 0 ∈ τ.obj.omap ∧
      (σ.calls[1]?).map (fun c => c.loop.op) = some (.joinBulk true) := by
    simpa only [Prod.mk.injEq, decide_eq_true_eq, decide_eq_false_iff_not] using hfacts
  have hreach := Machine.reachable_of_runFrom reachable_graceCreated _ hσ
  refine ⟨σ, τ, hreach, ?_, hstep, hbefore, hafter⟩
  obtain ⟨c, hc, hop⟩ := map_eq_some_iff.1 hop
  cases graceMachine_moves hstep with
  | written hk | stale hk =>
    rw [hk] at hc
    cases hc
    exact ⟨_, _, _, _, hk, hop⟩

end EdgeComputing.Support
