import EdgeComputing.Support.RadosGrace

/-!
What one iteration of a grace operation does: the omap after a write, the arrays after the walk
over the kv pairs, and the epochs it writes and returns.
-/

namespace EdgeComputing.Support

open List Library NodeSlot AList

variable {ν : Type*} [DecidableEq ν]

@[simp] theorem needGrace_or_join (val : BitVec 8) :
    needGrace (needGraceFlag ||| enforcingFlag ||| val) = true := by
  revert val
  decide +kernel

@[simp] theorem needGrace_or_enforcing (val : BitVec 8) :
    needGrace (val ||| enforcingFlag) = needGrace val := by
  revert val
  decide +kernel

@[simp] theorem needGrace_and_not_enforcing (val : BitVec 8) :
    needGrace (val &&& ~~~enforcingFlag) = needGrace val := by
  revert val
  decide +kernel

@[simp] theorem needGrace_and_not_needGrace (val : BitVec 8) :
    needGrace (val &&& ~~~needGraceFlag) = false := by
  revert val
  decide +kernel

@[simp] theorem needGrace_enforcing : needGrace enforcingFlag = false := by
  decide

namespace Omap

variable {omap : Omap ν} {n : ν} {val : BitVec 8} {kvs : List (ν × BitVec 8)}

theorem set_cons (kv : ν × BitVec 8) (kvs : List (ν × BitVec 8)) :
    omap.set (kv :: kvs) = set (omap.insert kv.1 kv.2) kvs := rfl

theorem mem_set (kvs : List (ν × BitVec 8)) :
    n ∈ omap.set kvs ↔ n ∈ kvs.map Prod.fst ∨ n ∈ omap := by
  induction kvs generalizing omap with
  | nil => simp [set]
  | cons kv kvs ih =>
    rw [set_cons, ih, mem_insert, map_cons, mem_cons]
    tauto

theorem lookup_set_of_not_mem (h : n ∉ kvs.map Prod.fst) :
    (omap.set kvs).lookup n = omap.lookup n := by
  induction kvs generalizing omap with
  | nil => rfl
  | cons kv kvs ih =>
    rw [map_cons, mem_cons, not_or] at h
    rw [set_cons, ih h.2, lookup_insert_ne h.1]

theorem lookup_set_eq_some (h : (omap.set kvs).lookup n = some val) :
    (n, val) ∈ kvs ∨ n ∉ kvs.map Prod.fst ∧ omap.lookup n = some val := by
  by_cases hn : n ∈ kvs.map Prod.fst
  · left
    induction kvs generalizing omap with
    | nil => cases hn
    | cons kv kvs ih =>
      rw [set_cons] at h
      by_cases htail : n ∈ kvs.map Prod.fst
      · exact mem_cons_of_mem _ (ih h htail)
      · have hhead : n = kv.1 := by
          rw [map_cons, mem_cons] at hn
          exact hn.resolve_right htail
        subst hhead
        rw [lookup_set_of_not_mem htail, lookup_insert] at h
        cases h
        exact mem_cons_self
  · exact .inr ⟨hn, lookup_set_of_not_mem hn ▸ h⟩

theorem exists_lookup_set (omap : Omap ν) (h : n ∈ kvs.map Prod.fst) :
    ∃ val, (n, val) ∈ kvs ∧ (omap.set kvs).lookup n = some val := by
  have hmem : n ∈ omap.set kvs := (mem_set kvs).2 (.inl h)
  obtain ⟨val, hval⟩ := Option.isSome_iff_exists.1 (lookup_isSome.2 hmem)
  rcases lookup_set_eq_some hval with hin | ⟨hnot, _⟩
  · exact ⟨val, hin, hval⟩
  · exact absurd h hnot

theorem lookup_rmKeys (keys : List ν) :
    (omap.rmKeys keys).lookup n = if n ∈ keys then none else omap.lookup n := by
  induction keys generalizing omap with
  | nil => rfl
  | cons key keys ih =>
    rw [rmKeys, foldl_cons, ← rmKeys, ih]
    by_cases hkey : n = key
    · subst hkey
      simp
    · rw [lookup_erase_ne hkey]
      simp [hkey]

theorem mem_entries_iff : (⟨n, val⟩ : Σ _ : ν, BitVec 8) ∈ omap.entries ↔ omap.lookup n = some val :=
  mem_lookup_iff.symm

theorem mem_iff_exists_entry : n ∈ omap ↔ ∃ val, (⟨n, val⟩ : Σ _ : ν, BitVec 8) ∈ omap.entries := by
  rw [← lookup_isSome, Option.isSome_iff_exists]
  simp only [mem_entries_iff]

end Omap

section Slots

omit [DecidableEq ν]

theorem joinSlot_nodeid (val : BitVec 8) (s : NodeSlot ν) :
    (joinSlot val s).nodeid = s.nodeid := rfl

theorem toggleSlot_nodeid (enable : Bool) (val : BitVec 8) (s : NodeSlot ν) :
    (toggleSlot enable val s).nodeid = s.nodeid := rfl

theorem markMatched_nodeid (s : NodeSlot ν) : (markMatched s).nodeid = s.nodeid := rfl

end Slots

section Walk

variable {f : BitVec 8 → NodeSlot ν → NodeSlot ν}

theorem walk_cons (kv : Σ _ : ν, BitVec 8) (entries : List (Σ _ : ν, BitVec 8))
    (slots : List (NodeSlot ν)) :
    walk f (kv :: entries) slots = walk f entries (visit kv.1 (f kv.2) slots) := rfl

variable {key : ν} {g : NodeSlot ν → NodeSlot ν}

theorem visit_nodeid (hg : ∀ s, (g s).nodeid = s.nodeid) (slots : List (NodeSlot ν)) :
    (visit key g slots).map nodeid = slots.map nodeid := by
  induction slots with
  | nil => rfl
  | cons s slots ih =>
    simp only [visit]
    split
    · simp [hg]
    · simp [ih]

theorem walk_nodeid (hf : ∀ val s, (f val s).nodeid = s.nodeid)
    (entries : List (Σ _ : ν, BitVec 8)) (slots : List (NodeSlot ν)) :
    (walk f entries slots).map nodeid = slots.map nodeid := by
  induction entries generalizing slots with
  | nil => rfl
  | cons kv entries ih =>
    rw [walk_cons, ih, visit_nodeid (hf kv.2)]

variable {slots : List (NodeSlot ν)} {s : NodeSlot ν}

theorem mem_visit (h : s ∈ visit key g slots) : s ∈ slots ∨ ∃ s0 ∈ slots, s0.nodeid = key ∧ s = g s0 := by
  induction slots with
  | nil => cases h
  | cons s1 slots ih =>
    simp only [visit] at h
    split at h
    · rename_i hkey
      rcases mem_cons.1 h with rfl | h
      · exact .inr ⟨s1, mem_cons_self, hkey.symm, rfl⟩
      · exact .inl (mem_cons_of_mem _ h)
    · rcases mem_cons.1 h with rfl | h
      · exact .inl mem_cons_self
      · rcases ih h with h | ⟨s0, hs0, hkey, rfl⟩
        · exact .inl (mem_cons_of_mem _ h)
        · exact .inr ⟨s0, mem_cons_of_mem _ hs0, hkey, rfl⟩

theorem mem_visit_of_ne (h : s ∈ slots) (hne : s.nodeid ≠ key) : s ∈ visit key g slots := by
  induction slots with
  | nil => cases h
  | cons s1 slots ih =>
    simp only [visit]
    rcases mem_cons.1 h with rfl | h
    · rw [if_neg (Ne.symm hne)]
      exact mem_cons_self
    · split
      · exact mem_cons_of_mem _ h
      · exact mem_cons_of_mem _ (ih h)

variable {entries : List (Σ _ : ν, BitVec 8)}

theorem mem_walk_of_not_mem (h : s ∈ slots) (hs : s.nodeid ∉ entries.map Sigma.fst) :
    s ∈ walk f entries slots := by
  induction entries generalizing slots with
  | nil => exact h
  | cons kv entries ih =>
    rw [map_cons, mem_cons, not_or] at hs
    exact ih (mem_visit_of_ne h hs.1) hs.2

theorem mem_walk (hf : ∀ val s, (f val s).nodeid = s.nodeid) (h : s ∈ walk f entries slots) :
    s ∈ slots ∨ s.nodeid ∈ entries.map Sigma.fst := by
  induction entries generalizing slots with
  | nil => exact .inl h
  | cons kv entries ih =>
    rw [walk_cons] at h
    rcases ih h with h | h
    · rcases mem_visit h with h | ⟨s0, _, hkey, rfl⟩
      · exact .inl h
      · right
        rw [hf, hkey, map_cons]
        exact mem_cons_self
    · exact .inr (mem_cons_of_mem _ h)

theorem forall_mem_walk {p : NodeSlot ν → Prop} (hf : ∀ val s, p s → p (f val s))
    (h : ∀ s ∈ slots, p s) : ∀ s ∈ walk f entries slots, p s := by
  induction entries generalizing slots with
  | nil => exact h
  | cons kv entries ih =>
    rw [walk_cons]
    apply ih
    intro s hs
    rcases mem_visit hs with hs | ⟨s0, hs0, _, rfl⟩
    · exact h s hs
    · exact hf _ _ (h s0 hs0)

def MatchedFirst (slots : List (NodeSlot ν)) : Prop :=
  slots.Pairwise fun s t => t.matched = true → s.nodeid ≠ t.nodeid

theorem MatchedFirst.visit (hg : ∀ s, (g s).nodeid = s.nodeid) (h : MatchedFirst slots) :
    MatchedFirst (visit key g slots) := by
  induction slots with
  | nil => exact h
  | cons s slots ih =>
    obtain ⟨hs, hslots⟩ := pairwise_cons.1 h
    simp only [Support.visit]
    split
    · exact pairwise_cons.2 ⟨fun t ht hmatched => hg s ▸ hs t ht hmatched, hslots⟩
    · rename_i hkey
      refine pairwise_cons.2 ⟨fun t ht hmatched => ?_, ih hslots⟩
      rcases mem_visit ht with ht | ⟨t0, _, ht0, rfl⟩
      · exact hs t ht hmatched
      · rw [hg, ht0]
        exact fun heq => hkey heq.symm

theorem MatchedFirst.walk (hf : ∀ val s, (f val s).nodeid = s.nodeid) (h : MatchedFirst slots) :
    MatchedFirst (walk f entries slots) := by
  induction entries generalizing slots with
  | nil => exact h
  | cons kv entries ih =>
    rw [walk_cons]
    exact ih (h.visit (hf kv.2))

omit [DecidableEq ν] in
theorem MatchedFirst.nodup (h : MatchedFirst slots) (hall : ∀ s ∈ slots, s.matched = true) :
    (slots.map nodeid).Nodup := by
  refine pairwise_map.2 ?_
  exact List.Pairwise.imp_of_mem (fun _ ht hst => hst (hall _ ht)) h

theorem eq_of_mem_visit (hnodup : (slots.map nodeid).Nodup) (h : s ∈ visit key g slots)
    (hkey : s.nodeid = key) : ∃ s0, s = g s0 := by
  induction slots with
  | nil => cases h
  | cons s1 slots ih =>
    obtain ⟨hs1, hslots⟩ := nodup_cons.1 hnodup
    simp only [visit] at h
    split at h
    · rename_i hfirst
      rcases mem_cons.1 h with rfl | h
      · exact ⟨s1, rfl⟩
      · exact absurd (hkey.trans hfirst ▸ mem_map_of_mem h) hs1
    · rename_i hfirst
      rcases mem_cons.1 h with rfl | h
      · exact absurd hkey.symm hfirst
      · exact ih hslots h

theorem walk_refreshes (hf : ∀ val s, (f val s).nodeid = s.nodeid)
    (hkeys : (entries.map Sigma.fst).Nodup) (hnodup : (slots.map nodeid).Nodup)
    (h : s ∈ walk f entries slots) {val : BitVec 8} (hval : ⟨s.nodeid, val⟩ ∈ entries) :
    ∃ s0, s = f val s0 := by
  induction entries generalizing slots with
  | nil => cases hval
  | cons kv entries ih =>
    obtain ⟨hkv, hkeys⟩ := nodup_cons.1 hkeys
    rw [walk_cons] at h
    rcases mem_cons.1 hval with rfl | hval
    · rcases mem_walk hf h with h | h
      · exact eq_of_mem_visit hnodup h rfl
      · exact absurd h hkv
    · refine ih hkeys ?_ h hval
      rw [visit_nodeid (hf kv.2)]
      exact hnodup

end Walk

theorem any_nodeid_eq (slots : List (NodeSlot ν)) (n : ν) :
    (slots.any fun s => s.nodeid = n) = decide (n ∈ slots.map nodeid) := by
  rw [Bool.eq_iff_iff]
  simp [any_eq_true]

def liftKeys (remove : Bool) (nodeids : List ν) (entries : List (Σ _ : ν, BitVec 8)) :
    List (ν × BitVec 8) :=
  (entries.filter fun kv => decide (kv.1 ∈ nodeids) && (remove || needGrace kv.2)).map
    fun kv => (kv.1, kv.2 &&& ~~~needGraceFlag)

theorem foldl_liftVisit (remove : Bool) (entries : List (Σ _ : ν, BitVec 8)) (acc : LiftScan ν) :
    entries.foldl (liftVisit remove) acc =
      { need := acc.need + entries.countP fun kv => needGrace kv.2
        enforcing := acc.enforcing && entries.all fun kv => enforcing kv.2
        keys := acc.keys ++ liftKeys remove (acc.slots.map nodeid) entries
        slots := walk (fun _ => markMatched) entries acc.slots } := by
  induction entries generalizing acc with
  | nil => simp [liftKeys, walk]
  | cons kv entries ih =>
    rw [foldl_cons, ih]
    simp only [liftVisit, any_nodeid_eq, LiftScan.mk.injEq]
    refine ⟨?_, ?_, ?_, rfl⟩
    · rw [countP_cons]
      split <;> omega
    · rw [all_cons, Bool.and_assoc]
    · rw [visit_nodeid markMatched_nodeid]
      simp only [liftKeys, filter_cons]
      split <;> simp

def AllMatched (slots : List (NodeSlot ν)) : Prop := ∀ s ∈ slots, s.matched = true

omit [DecidableEq ν] in
theorem allMatched_iff (slots : List (NodeSlot ν)) :
    ¬ (slots.any fun s => !s.matched) = true ↔ AllMatched slots := by
  simp [AllMatched]

inductive Prepares (obj : GraceObject ν) :
    GraceLoop ν → GraceLoop ν → GraceUpdate ν → Option (Nat × Nat) → Prop
  | add {slots : List (NodeSlot ν)} : (∀ s ∈ slots, s.nodeid ∉ obj.omap) →
      Prepares obj ⟨.add, slots⟩ ⟨.add, slots⟩
        ⟨none, .set (slots.map fun s => (s.nodeid, enforcingFlag))⟩ none
  | start {start : Bool} {slots : List (NodeSlot ν)} : AllMatched (joinSlots slots obj.omap) →
      obj.recEpoch = 0 →
      Prepares obj ⟨.joinBulk start, slots⟩ ⟨.joinBulk start, joinSlots slots obj.omap⟩
        ⟨some ((obj.curEpoch + 1) % 2 ^ 64, obj.curEpoch),
          .set (kvPairs (joinSlots slots obj.omap))⟩
        (some ((obj.curEpoch + 1) % 2 ^ 64, obj.curEpoch))
  | join {start : Bool} {slots : List (NodeSlot ν)} : AllMatched (joinSlots slots obj.omap) →
      obj.recEpoch ≠ 0 →
      Prepares obj ⟨.joinBulk start, slots⟩ ⟨.joinBulk start, joinSlots slots obj.omap⟩
        ⟨none, .set (kvPairs (joinSlots slots obj.omap))⟩ (some (obj.curEpoch, obj.recEpoch))
  | toggle {enable : Bool} {slots : List (NodeSlot ν)} :
      AllMatched (walk (toggleSlot enable) obj.omap.entries slots) →
      Prepares obj ⟨.enforcingToggle enable, slots⟩
        ⟨.enforcingToggle enable, walk (toggleSlot enable) obj.omap.entries slots⟩
        ⟨none, .set (kvPairs (walk (toggleSlot enable) obj.omap.entries slots))⟩
        (some (obj.curEpoch, obj.recEpoch))
  | lift {remove : Bool} {slots : List (NodeSlot ν)} {epochs : Option (Nat × Nat)}
      {keys : List (ν × BitVec 8)} :
      keys = liftKeys remove (slots.map nodeid) obj.omap.entries → keys ≠ [] →
      epochs = (if obj.omap.entries.countP (fun kv => needGrace kv.2) = keys.length then
        some (obj.curEpoch, 0) else none) →
      Prepares obj ⟨.liftBulk remove, slots⟩
        ⟨.liftBulk remove, walk (fun _ => markMatched) obj.omap.entries slots⟩
        ⟨epochs, liftChange remove keys⟩
        (some (epochs.getD (obj.curEpoch, obj.recEpoch)))

theorem prepares_of_attempt {k k' : GraceLoop ν} {obj : GraceObject ν} {u : GraceUpdate ν}
    {d : Option (Nat × Nat)} (h : graceAttempt k obj = .write k' u d) :
    obj.omap.more = false ∧ Prepares obj k k' u d := by
  obtain ⟨op, slots⟩ := k
  cases op with
  | add =>
    simp only [graceAttempt, radosGraceAdd] at h
    split_ifs at h with hmore hany
    cases h
    refine ⟨by simpa using hmore, .add fun s hs hmem => hany ?_⟩
    obtain ⟨val, hval⟩ := Omap.mem_iff_exists_entry.1 hmem
    exact any_eq_true.2 ⟨_, hval, any_eq_true.2 ⟨s, hs, by simp⟩⟩
  | joinBulk start =>
    simp only [graceAttempt, radosGraceJoinBulk] at h
    split_ifs at h with hmore hmatch hbreak hrec
    · cases h
      exact ⟨by simpa using hmore, .start ((allMatched_iff _).1 hmatch) hrec⟩
    · cases h
      exact ⟨by simpa using hmore, .join ((allMatched_iff _).1 hmatch) hrec⟩
  | liftBulk remove =>
    simp only [graceAttempt, radosGraceLiftBulk, liftScan, foldl_liftVisit, Nat.zero_add,
      Bool.true_and, nil_append] at h
    split_ifs at h with hmore henforcing hmatch hkeys hneed
    · cases h
      exact ⟨by simpa using hmore, .lift rfl hkeys (by rw [if_pos hneed])⟩
    · cases h
      exact ⟨by simpa using hmore, .lift rfl hkeys (by rw [if_neg hneed])⟩
  | enforcingToggle enable =>
    simp only [graceAttempt, radosGraceEnforcingToggle] at h
    split_ifs at h with hmore hmatch
    cases h
    exact ⟨by simpa using hmore, .toggle ((allMatched_iff _).1 hmatch)⟩

end EdgeComputing.Support
