import EdgeComputing.Support.GraceEpochs

/-!
Is the grace period in force exactly while some node needs it? A lift with removal compares the
number of nodes it removes, whether they need grace or not, with the number of nodes that do; and a
repeated toggle writes back the flags of a removed node.
-/

namespace EdgeComputing.Support

open List Option Library Library.Optimistic NodeSlot GraceUpdate Omap

variable {ν : Type*} [DecidableEq ν] {σ τ : GraceState ν} {x : GraceEvent ν}
variable {obj : GraceObject ν} {omap : Omap ν} {k k' : GraceLoop ν} {u : GraceUpdate ν}
variable {d : Option (Nat × Nat)} {slots : List (NodeSlot ν)} {kvs : List (ν × BitVec 8)}
  {remove : Bool}

def SomeNeed (omap : Omap ν) : Prop := ∃ kv ∈ omap.entries, needGrace kv.2 = true

def InForce (obj : GraceObject ν) : Prop := obj.recEpoch ≠ 0 ↔ SomeNeed obj.omap

instance : Decidable (SomeNeed omap) :=
  inferInstanceAs (Decidable (∃ kv ∈ omap.entries, needGrace kv.2 = true))

instance : Decidable (InForce obj) :=
  inferInstanceAs (Decidable (obj.recEpoch ≠ 0 ↔ SomeNeed obj.omap))

theorem someNeed_iff : SomeNeed omap ↔ ∃ n val, omap.lookup n = some val ∧ needGrace val = true := by
  constructor
  · rintro ⟨⟨n, val⟩, hentry, hneed⟩
    exact ⟨n, val, mem_entries_iff.1 hentry, hneed⟩
  · rintro ⟨n, val, hlookup, hneed⟩
    exact ⟨⟨n, val⟩, mem_entries_iff.2 hlookup, hneed⟩

theorem someNeed_set_of_need (omap : Omap ν) (hkvs : ∀ kv ∈ kvs, needGrace kv.2 = true) :
    SomeNeed (omap.set kvs) ↔ kvs ≠ [] ∨ SomeNeed omap := by
  cases kvs with
  | nil => simp [Omap.set]
  | cons kv kvs =>
    have hmem : kv.1 ∈ (kv :: kvs).map Prod.fst := by simp
    obtain ⟨val, hval, hlookup⟩ := exists_lookup_set omap hmem
    have hafter : SomeNeed (omap.set (kv :: kvs)) :=
      someNeed_iff.2 ⟨kv.1, val, hlookup, hkvs _ hval⟩
    simp [hafter]

theorem someNeed_set_of_not_need (hkvs : ∀ kv ∈ kvs, needGrace kv.2 = false) :
    SomeNeed (omap.set kvs) ↔
      ∃ n val, omap.lookup n = some val ∧ needGrace val = true ∧ n ∉ kvs.map Prod.fst := by
  rw [someNeed_iff]
  constructor
  · rintro ⟨n, val, hlookup, hneed⟩
    rcases lookup_set_eq_some hlookup with hin | ⟨hnot, hbefore⟩
    · rw [hkvs _ hin] at hneed
      cases hneed
    · exact ⟨n, val, hbefore, hneed, hnot⟩
  · rintro ⟨n, val, hlookup, hneed, hnot⟩
    exact ⟨n, val, (lookup_set_of_not_mem hnot).trans hlookup, hneed⟩

theorem someNeed_rmKeys (keys : List ν) :
    SomeNeed (omap.rmKeys keys) ↔
      ∃ n val, omap.lookup n = some val ∧ needGrace val = true ∧ n ∉ keys := by
  simp only [someNeed_iff, lookup_rmKeys, ite_none_left_eq_some]
  constructor
  · rintro ⟨n, val, ⟨hnot, hlookup⟩, hneed⟩
    exact ⟨n, val, hlookup, hneed, hnot⟩
  · rintro ⟨n, val, hlookup, hneed, hnot⟩
    exact ⟨n, val, ⟨hnot, hlookup⟩, hneed⟩

omit [DecidableEq ν] in
theorem mem_kvPairs {n : ν} {val : BitVec 8} :
    (n, val) ∈ kvPairs slots ↔ ∃ s ∈ slots, s.nodeid = n ∧ s.flags = val := by
  simp [kvPairs]

theorem joinSlots_need (slots : List (NodeSlot ν)) (omap : Omap ν) :
    ∀ kv ∈ kvPairs (joinSlots slots omap), needGrace kv.2 = true := by
  have hslots : ∀ s ∈ joinSlots slots omap,
      ∃ val, s.flags = needGraceFlag ||| enforcingFlag ||| val := by
    refine forall_mem_walk ?_ ?_
    · rintro val s ⟨val0, hflags⟩
      exact ⟨val0 ||| val, by rw [joinSlot, hflags, BitVec.or_assoc]⟩
    · intro s hs
      obtain ⟨s0, _, rfl⟩ := mem_map.1 hs
      exact ⟨0, by simp⟩
  rintro ⟨n, val⟩ hkv
  obtain ⟨s, hs, -, rfl⟩ := mem_kvPairs.1 hkv
  obtain ⟨val0, hflags⟩ := hslots s hs
  rw [hflags]
  exact needGrace_or_join val0

/-- The flags that a toggle writes back keep the need for grace of the members, so only nodes that
are no longer members can bring one in. -/
theorem someNeed_toggle (omap : Omap ν) {enable : Bool} {slots slots' : List (NodeSlot ν)}
    (hslots' : slots' = walk (toggleSlot enable) omap.entries slots)
    (hnodup : (slots'.map nodeid).Nodup) :
    SomeNeed (omap.set (kvPairs slots')) ↔
      SomeNeed omap ∨ ∃ s ∈ slots', needGrace s.flags = true ∧ s.nodeid ∉ omap := by
  have hnodup0 : (slots.map nodeid).Nodup := by
    rw [← walk_nodeid (toggleSlot_nodeid enable) omap.entries, ← hslots']
    exact hnodup
  have hmember : ∀ s ∈ slots', ∀ val, omap.lookup s.nodeid = some val →
      needGrace s.flags = needGrace val := by
    intro s hs val hval
    obtain ⟨s0, hs0⟩ := walk_refreshes (toggleSlot_nodeid enable) omap.keys_nodup hnodup0
      (hslots' ▸ hs) (mem_entries_iff.2 hval)
    rw [hs0]
    cases enable <;> simp [toggleSlot]
  constructor
  · intro hafter
    obtain ⟨n, val, hlookup, hneed⟩ := someNeed_iff.1 hafter
    rcases lookup_set_eq_some hlookup with hin | ⟨-, hbefore⟩
    · obtain ⟨s, hs, rfl, rfl⟩ := mem_kvPairs.1 hin
      by_cases hmem : s.nodeid ∈ omap
      · obtain ⟨val, hval⟩ := isSome_iff_exists.1 (AList.lookup_isSome.2 hmem)
        exact .inl (someNeed_iff.2 ⟨s.nodeid, val, hval, hmember s hs val hval ▸ hneed⟩)
      · exact .inr ⟨s, hs, hneed, hmem⟩
    · exact .inl (someNeed_iff.2 ⟨n, val, hbefore, hneed⟩)
  · rintro (hbefore | ⟨s, hs, hneed, -⟩)
    · obtain ⟨n, val, hlookup, hneed⟩ := someNeed_iff.1 hbefore
      by_cases hn : n ∈ (kvPairs slots').map Prod.fst
      · obtain ⟨val', hin, hafter⟩ := exists_lookup_set omap hn
        obtain ⟨s, hs, rfl, rfl⟩ := mem_kvPairs.1 hin
        exact someNeed_iff.2 ⟨s.nodeid, s.flags, hafter, hmember s hs val hlookup ▸ hneed⟩
      · exact someNeed_iff.2 ⟨n, val, (lookup_set_of_not_mem hn).trans hlookup, hneed⟩
    · have hn : s.nodeid ∈ (kvPairs slots').map Prod.fst := by
        simpa [kvPairs] using mem_map_of_mem hs
      obtain ⟨val', hin, hafter⟩ := exists_lookup_set omap hn
      obtain ⟨s', hs', hnode, rfl⟩ := mem_kvPairs.1 hin
      have hsame : s' = s := inj_on_of_nodup_map hnodup hs' hs hnode
      exact someNeed_iff.2 ⟨s.nodeid, s'.flags, hafter, hsame ▸ hneed⟩

theorem mem_liftKeys {nodeids : List ν} {n : ν} :
    n ∈ (liftKeys remove nodeids omap.entries).map Prod.fst ↔
      n ∈ nodeids ∧ ∃ val, omap.lookup n = some val ∧ (remove = true ∨ needGrace val = true) := by
  simp only [liftKeys, List.map_map, List.mem_map, mem_filter, Function.comp,
    Bool.and_eq_true, decide_eq_true_eq, Bool.or_eq_true]
  constructor
  · rintro ⟨⟨n, val⟩, ⟨hentry, hn, hval⟩, rfl⟩
    exact ⟨hn, val, mem_entries_iff.1 hentry, hval⟩
  · rintro ⟨hn, val, hlookup, hval⟩
    exact ⟨⟨n, val⟩, ⟨mem_entries_iff.2 hlookup, hn, hval⟩, rfl⟩

theorem someNeed_lift (obj : GraceObject ν) (remove : Bool) (nodeids : List ν) (epochs : Option (Nat × Nat))
    (hu : u = ⟨epochs, liftChange remove (liftKeys remove nodeids obj.omap.entries)⟩) :
    SomeNeed (u.apply obj).omap ↔
      ¬ ∀ kv ∈ obj.omap.entries, needGrace kv.2 = true → kv.1 ∈ nodeids := by
  have hleft : SomeNeed (u.apply obj).omap ↔ ∃ n val, obj.omap.lookup n = some val ∧
      needGrace val = true ∧ n ∉ (liftKeys remove nodeids obj.omap.entries).map Prod.fst := by
    subst hu
    cases remove with
    | true => cases epochs <;> exact someNeed_rmKeys _
    | false =>
      have hclear : ∀ kv ∈ liftKeys false nodeids obj.omap.entries, needGrace kv.2 = false := by
        intro kv hkv
        obtain ⟨_, _, rfl⟩ := mem_map.1 hkv
        exact needGrace_and_not_needGrace _
      cases epochs <;> exact someNeed_set_of_not_need hclear
  rw [hleft]
  constructor
  · rintro ⟨n, val, hlookup, hneed, hnot⟩ hall
    exact hnot (mem_liftKeys.2
      ⟨hall ⟨n, val⟩ (mem_entries_iff.2 hlookup) hneed, val, hlookup, .inr hneed⟩)
  · intro hall
    simp only [not_forall] at hall
    obtain ⟨⟨n, val⟩, hentry, hneed, hnot⟩ := hall
    exact ⟨n, val, mem_entries_iff.1 hentry, hneed, fun hmem => hnot (mem_liftKeys.1 hmem).1⟩

theorem countP_eq_length_liftKeys (nodeids : List ν) (entries : List (Σ _ : ν, BitVec 8)) :
    entries.countP (fun kv => needGrace kv.2) = (liftKeys false nodeids entries).length ↔
      ∀ kv ∈ entries, needGrace kv.2 = true → kv.1 ∈ nodeids := by
  have hlength : (liftKeys false nodeids entries).length =
      (entries.filter fun kv => needGrace kv.2).countP fun kv => decide (kv.1 ∈ nodeids) := by
    rw [countP_filter, countP_eq_length_filter]
    simp [liftKeys]
  rw [hlength, countP_eq_length_filter, eq_comm, countP_eq_length]
  simp only [mem_filter, decide_eq_true_eq, and_imp]

/-- What a write has to meet to keep grace in force exactly while it is needed; `k` is the state of
the writing operation, `obj` the object it overwrites. -/
def KeepsGrace (k : GraceLoop ν) (obj : GraceObject ν) : Prop :=
  match k.op with
  | .add | .liftBulk false => True
  | .joinBulk _ => obj.recEpoch = 0 → (k.slots ≠ [] ↔ obj.curEpoch ≠ 0)
  | .liftBulk true => obj.recEpoch ≠ 0 →
      (obj.omap.entries.countP (fun kv => needGrace kv.2) =
          obj.omap.entries.countP (fun kv => decide (kv.1 ∈ k.nodeids)) ↔
        ∀ kv ∈ obj.omap.entries, needGrace kv.2 = true → kv.1 ∈ k.nodeids)
  | .enforcingToggle _ => obj.recEpoch = 0 →
      ∀ s ∈ k.slots, needGrace s.flags = true → s.nodeid ∈ obj.omap

instance (k : GraceLoop ν) (obj : GraceObject ν) : Decidable (KeepsGrace k obj) := by
  unfold KeepsGrace
  split <;> infer_instance

theorem inForce_join (hobj : InForce obj) {start : Bool}
    (h : Prepares obj ⟨.joinBulk start, slots⟩ k' u d) :
    KeepsGrace k' obj ↔ InForce (u.apply obj) := by
  have hneed := someNeed_set_of_need obj.omap (joinSlots_need slots obj.omap)
  have hempty : kvPairs (joinSlots slots obj.omap) ≠ [] ↔ joinSlots slots obj.omap ≠ [] := by
    simp [kvPairs]
  cases h with
  | start _ hrec =>
    have hafter : InForce (apply ⟨some ((obj.curEpoch + 1) % 2 ^ 64, obj.curEpoch),
        .set (kvPairs (joinSlots slots obj.omap))⟩ obj) ↔
        (obj.curEpoch ≠ 0 ↔ joinSlots slots obj.omap ≠ [] ∨ SomeNeed obj.omap) := by
      rw [← hempty, ← hneed]
      rfl
    have hnone : ¬ SomeNeed obj.omap := fun h => hobj.2 h hrec
    rw [hafter]
    simp only [KeepsGrace, hrec, hnone, or_false, true_implies]
    exact iff_comm
  | join _ hrec =>
    have hsome : SomeNeed obj.omap := hobj.1 hrec
    have hafter : InForce (apply ⟨none,
        .set (kvPairs (joinSlots slots obj.omap))⟩ obj) :=
      iff_of_true hrec (hneed.2 (.inr hsome))
    exact iff_of_true (fun hzero => absurd hzero hrec) hafter

theorem inForce_lift (hobj : InForce obj) (h : Prepares obj ⟨.liftBulk remove, slots⟩ k' u d) :
    KeepsGrace k' obj ↔ InForce (u.apply obj) := by
  cases h with
  | @lift _ _ epochs keys hkeys hne hepochs =>
    subst hkeys
    have hneed := someNeed_lift obj remove (slots.map nodeid) epochs rfl
    have hrec : (apply ⟨epochs, liftChange remove
        (liftKeys remove (slots.map nodeid) obj.omap.entries)⟩ obj).recEpoch =
        if obj.omap.entries.countP (fun kv => needGrace kv.2) =
          (liftKeys remove (slots.map nodeid) obj.omap.entries).length then 0
        else obj.recEpoch := by
      subst hepochs
      split_ifs <;> rfl
    have hnodeids : (walk (fun _ => markMatched) obj.omap.entries slots).map nodeid =
        slots.map nodeid := walk_nodeid (fun _ => markMatched_nodeid) _ _
    by_cases hzero : obj.recEpoch = 0
    · -- outside a grace period nobody needs one, so nothing is lifted
      have hnone : ∀ kv ∈ obj.omap.entries, ¬ needGrace kv.2 = true :=
        fun kv hkv h => hobj.2 ⟨kv, hkv, h⟩ hzero
      have hafter : ¬ SomeNeed (apply ⟨epochs, liftChange remove
          (liftKeys remove (slots.map nodeid) obj.omap.entries)⟩ obj).omap :=
        fun h => hneed.1 h fun kv hkv h => absurd h (hnone kv hkv)
      rw [hzero, ite_self] at hrec
      apply iff_of_true
      · cases remove with
        | false => exact trivial
        | true => exact fun h => absurd hzero h
      · exact iff_of_false (fun h => h hrec) hafter
    · have hafter : InForce (apply ⟨epochs, liftChange remove
          (liftKeys remove (slots.map nodeid) obj.omap.entries)⟩ obj) ↔
          (obj.omap.entries.countP (fun kv => needGrace kv.2) =
              (liftKeys remove (slots.map nodeid) obj.omap.entries).length ↔
            ∀ kv ∈ obj.omap.entries, needGrace kv.2 = true → kv.1 ∈ slots.map nodeid) := by
        rw [InForce, hneed, hrec, ne_eq, not_iff_not, ite_eq_left_iff]
        simp only [hzero, imp_false, not_not]
      rw [hafter]
      cases remove with
      | false => exact iff_of_true trivial (countP_eq_length_liftKeys _ _)
      | true =>
        simp only [liftKeys, length_map, ← countP_eq_length_filter, Bool.true_or, Bool.and_true]
        simp only [KeepsGrace, GraceLoop.nodeids, hnodeids, ne_eq, hzero, not_false_eq_true,
          true_implies]

theorem matchedFirst_of_prepares (hk : MatchedFirst k.slots) (h : Prepares obj k k' u d) :
    MatchedFirst k'.slots := by
  cases h with
  | add => exact hk
  | start | join => exact MatchedFirst.walk joinSlot_nodeid (pairwise_map.2 hk)
  | toggle => exact MatchedFirst.walk (toggleSlot_nodeid _) hk
  | lift => exact MatchedFirst.walk (fun _ => markMatched_nodeid) hk

theorem inForce_of_prepares (hobj : InForce obj) (hk : MatchedFirst k.slots)
    (h : Prepares obj k k' u d) : KeepsGrace k' obj ↔ InForce (u.apply obj) := by
  have hk' := matchedFirst_of_prepares hk h
  obtain ⟨op, slots⟩ := k
  cases op with
  | joinBulk start => exact inForce_join hobj h
  | liftBulk remove => exact inForce_lift hobj h
  | add =>
    cases h with
    | add hnew =>
      have hnot : ∀ kv ∈ slots.map fun s => (s.nodeid, enforcingFlag), needGrace kv.2 = false := by
        intro kv hkv
        obtain ⟨_, _, rfl⟩ := mem_map.1 hkv
        exact needGrace_enforcing
      have hneed : SomeNeed (obj.omap.set (slots.map fun s => (s.nodeid, enforcingFlag))) ↔
          SomeNeed obj.omap := by
        rw [someNeed_set_of_not_need hnot, someNeed_iff]
        constructor
        · rintro ⟨n, val, hlookup, hneed, -⟩
          exact ⟨n, val, hlookup, hneed⟩
        · rintro ⟨n, val, hlookup, hneed⟩
          refine ⟨n, val, hlookup, hneed, fun hin => ?_⟩
          obtain ⟨s, hs, rfl⟩ : ∃ s ∈ slots, s.nodeid = n := by simpa using hin
          exact hnew s hs (AList.lookup_isSome.1 (by rw [hlookup]; rfl))
      exact iff_of_true trivial (hobj.trans hneed.symm)
  | enforcingToggle enable =>
    cases h with
    | toggle hall =>
      have hneed := someNeed_toggle obj.omap rfl (hk'.nodup hall)
      have hafter : InForce (apply ⟨none,
          .set (kvPairs (walk (toggleSlot enable) obj.omap.entries slots))⟩ obj) ↔
          (obj.recEpoch ≠ 0 ↔ SomeNeed obj.omap ∨
            ∃ s ∈ walk (toggleSlot enable) obj.omap.entries slots,
              needGrace s.flags = true ∧ s.nodeid ∉ obj.omap) := by
        rw [← hneed]
        rfl
      rw [hafter]
      by_cases hzero : obj.recEpoch = 0
      · have hnone : ¬ SomeNeed obj.omap := fun h => hobj.2 h hzero
        simp [KeepsGrace, hzero, hnone]
      · have hsome : SomeNeed obj.omap := hobj.1 hzero
        simp [KeepsGrace, hzero, hsome]

def graceGuard (σ : GraceState ν) : GraceEvent ν → Prop
  | .write i =>
    match σ.calls[i]? with
    | some (.writing k ver _ _) => ver = σ.ver → KeepsGrace k σ.obj
    | _ => True
  | _ => True

instance (σ : GraceState ν) : ∀ x : GraceEvent ν, Decidable (graceGuard σ x)
  | .write i => by
    dsimp only [graceGuard]
    generalize σ.calls[i]? = call
    rcases call with _ | _ | _ | _ <;> dsimp only <;> infer_instance
  | .invoke _ | .read _ | .fail _ _ => instDecidableTrue

theorem grace_matchedFirst {guard : GraceState ν → GraceEvent ν → Prop}
    (hσ : (graceMachine ν).ReachableBy guard σ) :
    ∀ c ∈ σ.calls,
      InOrder (grace ν) (fun k => MatchedFirst k.slots) (fun _ _ => True) σ.obj σ.ver c := by
  refine calls_inOrder ?_ ?_ (fun _ _ _ _ _ => trivial) hσ
  · rintro ⟨op, nodeids⟩
    refine pairwise_map.2 (pairwise_of_forall fun _ _ h => ?_)
    cases h
  · intro k obj k' u d hk hwrite
    exact matchedFirst_of_prepares hk (prepares_of_attempt hwrite).2

theorem inForce_iff_of_step (hσ : (graceMachine ν).ReachableBy graceGuard σ) (hobj : InForce σ.obj)
    (h : (graceMachine ν).step σ x = some τ) : graceGuard σ x ↔ InForce τ.obj := by
  cases graceMachine_moves h with
  | @written i k u d hk =>
    obtain ⟨-, -, hcurrent⟩ := grace_matchedFirst hσ _ (mem_of_getElem? hk)
    obtain ⟨k0, hk0, -, hwrite⟩ := hcurrent rfl
    have hstep := inForce_of_prepares hobj hk0 (prepares_of_attempt hwrite).2
    simp only [graceGuard, hk, true_implies]
    exact hstep
  | @stale i k ver u d hk hver =>
    refine iff_of_true ?_ hobj
    simp only [graceGuard, hk]
    exact fun h => absurd h hver
  | invoked | answered | prepared | failed => exact iff_of_true trivial hobj

end EdgeComputing.Support
