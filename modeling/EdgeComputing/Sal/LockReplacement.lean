import EdgeComputing.Sal.LockCoverage

/-!
The effect of `merge_lock_entry` on the bytes of an owner. Which entries it finds depends on the
64-bit comparisons; `mergeSafe` says exactly when it finds all.
-/

namespace EdgeComputing.Sal

open List LockParam

variable {Owner : Type*}

def growBy (req : LockParam) (grown : ByteRange) (e : LockEntry Owner) : ByteRange :=
  if e.sleLock.lockType = req.lockType ∧ grown.Touches e.sleLock.range ∧
      grown.Reaches e.sleLock.range then
    grown.hull e.sleLock.range
  else grown

variable {e : LockEntry Owner}

theorem growBy_of_not_meets {req lock : LockParam} (h : ¬ Meets lock e.sleLock) :
    growBy req lock.range e = lock.range :=
  if_neg fun hgrow => h hgrow.2

variable {grown : ByteRange} {req : LockParam}

theorem growBy_of_type_ne (h : e.sleLock.lockType ≠ req.lockType) : growBy req grown e = grown :=
  if_neg fun hgrow => h hgrow.1

theorem growBy_of_absorb {req lock grown : LockParam} (hmeets : Meets lock e.sleLock)
    (hlockType : lock.lockType = req.lockType)
    (htype : e.sleLock.lockType = lock.lockType ∨
      lock.lockStart ≤ e.sleLock.lockStart ∧ lockEnd e.sleLock ≤ lockEnd lock)
    (hstart : grown.lockStart = min lock.lockStart e.sleLock.lockStart)
    (hend : lockEnd grown = max (lockEnd lock) (lockEnd e.sleLock)) :
    growBy req lock.range e = grown.range := by
  have hhull : lock.range.hull e.sleLock.range = grown.range := by
    simp only [ByteRange.hull, LockParam.range, hstart, hend]
  by_cases heq : e.sleLock.lockType = req.lockType
  · rw [growBy, if_pos ⟨heq, hmeets⟩, hhull]
  · rw [growBy_of_type_ne heq, ← hhull]
    have hinside := htype.resolve_left (by rwa [hlockType])
    simp only [ByteRange.hull, LockParam.range, ByteRange.mk.injEq]
    omega

variable [DecidableEq Owner]

/-- Every granted entry of the owner that overlaps the request is reached from the
range the request has grown to when the list comes to it: an entry that ends at
`UINT64_MAX` from a range that starts at zero, and any entry from a range that
ends at `UINT64_MAX` only if the entry starts at zero. -/
def mergeSafe (owner : Owner) (req : LockParam) : ByteRange → List (LockEntry Owner) → Prop
  | _, [] => True
  | grown, e :: rest =>
    if e.GrantedTo owner then
      (e.sleLock.overlaps req = true → grown.Reaches e.sleLock.range) ∧
        mergeSafe owner req (growBy req grown e) rest
    else mergeSafe owner req grown rest

instance decidableMergeSafe (owner : Owner) (req : LockParam) :
    (grown : ByteRange) → (l : List (LockEntry Owner)) → Decidable (mergeSafe owner req grown l)
  | _, [] => .isTrue trivial
  | grown, e :: rest => by
    have := decidableMergeSafe owner req (growBy req grown e) rest
    have := decidableMergeSafe owner req grown rest
    unfold mergeSafe
    infer_instance

section

variable {owner : Owner} {req : LockParam} {rest : List (LockEntry Owner)}

theorem mergeSafe_cons_granted (h : e.GrantedTo owner) :
    mergeSafe owner req grown (e :: rest) ↔
      (e.sleLock.overlaps req = true → grown.Reaches e.sleLock.range) ∧
        mergeSafe owner req (growBy req grown e) rest := by
  rw [mergeSafe, if_pos h]

theorem mergeSafe_cons_other (h : ¬ e.GrantedTo owner) :
    mergeSafe owner req grown (e :: rest) ↔ mergeSafe owner req grown rest := by
  rw [mergeSafe, if_neg h]

theorem mergeSafe_append_left {l l' : List (LockEntry Owner)}
    (h : mergeSafe owner req grown (l ++ l')) : mergeSafe owner req grown l := by
  induction l generalizing grown with
  | nil => trivial
  | cons e rest ih =>
    simp only [cons_append, mergeSafe] at h ⊢
    split_ifs at h ⊢ with hgranted
    · exact ⟨h.1, ih h.2⟩
    · exact ih h

theorem mergeSafe_append_singleton {l : List (LockEntry Owner)} (h : mergeSafe owner req grown l)
    (he : e.sleLock.overlaps req = false) : mergeSafe owner req grown (l ++ [e]) := by
  induction l generalizing grown with
  | nil => simp [mergeSafe, he]
  | cons f rest ih =>
    simp only [cons_append, mergeSafe] at h ⊢
    split_ifs at h ⊢ with hgranted
    · exact ⟨h.1, ih h.2⟩
    · exact ih h

end

/-- What holds of the list and the merged lock between two visits: the lock has grown only
over bytes that the request or removed entries of its mode covered, and reading the list
with the lock laid over it gives what the request asks for. -/
structure MergeCore (owner : Owner) (lockId : Nat) (req : LockParam)
    (before work : List (LockEntry Owner)) (lock : LockParam) (nextId : Nat) : Prop where
  lock_admitted : lock.Admitted
  lock_type : lock.lockType = req.lockType
  covers_request : ∀ b, req.Covers b → lock.Covers b
  admitted : ∀ e ∈ work, e.sleLock.Admitted
  fresh : ∀ e ∈ work, e.sleId ≠ lockId ∧ e.sleId < nextId
  id_lt : lockId < nextId
  apart : work.Pairwise Apart
  inside : ∀ e ∈ work, e.GrantedTo owner → ∀ b, e.sleLock.Covers b → lock.Covers b → req.Covers b
  held : ∀ o b t,
    (if o = owner ∧ lock.Covers b then t = req.lockType else HeldAs work o b t) ↔
      (if o = owner ∧ req.Covers b then t = req.lockType else HeldAs before o b t)

namespace MergeCore

variable {owner : Owner} {lockId nextId : Nat} {req lock : LockParam}
  {before work : List (LockEntry Owner)} {c : LockEntry Owner}

theorem perm {work' : List (LockEntry Owner)} (h : work.Perm work')
    (hcore : MergeCore owner lockId req before work lock nextId) :
    MergeCore owner lockId req before work' lock nextId where
  lock_admitted := hcore.lock_admitted
  lock_type := hcore.lock_type
  covers_request := hcore.covers_request
  admitted e he := hcore.admitted e (h.mem_iff.2 he)
  fresh e he := hcore.fresh e (h.mem_iff.2 he)
  id_lt := hcore.id_lt
  apart := pairwise_apart_perm h hcore.apart
  inside e he := hcore.inside e (h.mem_iff.2 he)
  held o b t := by
    rw [← hcore.held o b t, heldAs_perm h]

theorem cut {pieces : List (LockEntry Owner)} {nextId' : Nat}
    (hcore : MergeCore owner lockId req before (c :: work) lock nextId)
    (hpieces : Remains c lock pieces) (hc : c.GrantedTo owner)
    (hle : nextId ≤ nextId')
    (hfresh : ∀ p ∈ pieces, p.sleId ≠ lockId ∧ p.sleId < nextId') :
    MergeCore owner lockId req before (pieces ++ work) lock nextId' where
  lock_admitted := hcore.lock_admitted
  lock_type := hcore.lock_type
  covers_request := hcore.covers_request
  admitted e he := by
    rcases mem_append.1 he with he | he
    · exact hpieces.admitted e he
    · exact hcore.admitted e (by simp [he])
  fresh e he := by
    rcases mem_append.1 he with he | he
    · exact hfresh e he
    · have hold := hcore.fresh e (by simp [he])
      exact ⟨hold.1, by omega⟩
  id_lt := by
    have hid := hcore.id_lt
    omega
  apart := hpieces.pairwise hcore.apart
  inside e he hgranted b heb hlb := by
    rcases mem_append.1 he with he | he
    · exact absurd hlb (hpieces.covers_of_mem he heb).2
    · exact hcore.inside e (by simp [he]) hgranted b heb hlb
  held o b t := by
    rw [← hcore.held o b t, heldAs_append, hpieces.heldAs, heldAs_cons]
    by_cases ho : o = owner ∧ lock.Covers b
    · rw [if_pos ho, if_pos ho]
    · rw [if_neg ho, if_neg ho]
      -- a byte of `c` outside the lock is a byte of the pieces
      have hcut : c.GrantedTo o → ¬ lock.Covers b := fun hco hlb =>
        ho ⟨hco.1.symm.trans hc.1, hlb⟩
      tauto

theorem absorb {grown : LockParam}
    (hcore : MergeCore owner lockId req before (c :: work) lock nextId)
    (hc : c.GrantedTo owner) (hgrown : grown.Admitted)
    (htype : grown.lockType = lock.lockType)
    (hsame : c.sleLock.lockType = lock.lockType ∨ ∀ b, c.sleLock.Covers b → lock.Covers b)
    (hcovers : ∀ b, grown.Covers b ↔ lock.Covers b ∨ c.sleLock.Covers b) :
    MergeCore owner lockId req before work grown nextId where
  lock_admitted := hgrown
  lock_type := htype.trans hcore.lock_type
  covers_request b hb := (hcovers b).2 (.inl (hcore.covers_request b hb))
  admitted e he := hcore.admitted e (by simp [he])
  fresh e he := hcore.fresh e (by simp [he])
  id_lt := hcore.id_lt
  apart := (pairwise_cons.1 hcore.apart).2
  inside e he hgranted b heb hgb := by
    rcases (hcovers b).1 hgb with hlb | hcb
    · exact hcore.inside e (by simp [he]) hgranted b heb hlb
    · exact absurd heb ((pairwise_cons.1 hcore.apart).1 e he owner b hc hgranted hcb)
  held o b t := by
    rw [← hcore.held o b t, heldAs_cons]
    by_cases ho : o = owner
    · subst ho
      simp only [true_and]
      by_cases hlb : lock.Covers b
      · rw [if_pos ((hcovers b).2 (.inl hlb)), if_pos hlb]
      · by_cases hcb : c.sleLock.Covers b
        · -- only `c` holds the byte, and it has the mode of the lock
          have hcType : c.sleLock.lockType = req.lockType :=
            (hsame.resolve_right fun h => hlb (h b hcb)).trans hcore.lock_type
          have hothers : ¬ HeldAs work o b t := by
            rintro ⟨e, he, heo, heb, -⟩
            exact (pairwise_cons.1 hcore.apart).1 e he o b hc heo hcb heb
          rw [if_pos ((hcovers b).2 (.inr hcb)), if_neg hlb]
          simp only [hc, hcb, hcType, hothers, true_and, or_false, eq_comm]
        · have hgb : ¬ grown.Covers b := fun h => ((hcovers b).1 h).elim hlb hcb
          rw [if_neg hgb, if_neg hlb]
          simp only [hcb, false_and, and_false, false_or]
    · have hco : ¬ c.GrantedTo o := fun h => ho (h.1.symm.trans hc.1)
      simp only [ho, hco, false_and, if_false, false_or]

end MergeCore

/-- The invariant of the merge loop. The entries already visited have no byte in
common with the lock, and the condition still holds for those to come. -/
structure MergeInv (owner : Owner) (lockId : Nat) (req : LockParam)
    (before : List (LockEntry Owner)) (m : Merge Owner) (todo : List (LockEntry Owner)) :
    Prop where
  core : MergeCore owner lockId req before (m.list ++ todo) m.lock m.nextId
  req_admitted : req.Admitted
  done_apart : ∀ e ∈ m.list, e.GrantedTo owner → ∀ b, e.sleLock.Covers b → ¬ m.lock.Covers b
  safe : mergeSafe owner req m.lock.range todo

namespace MergeInv

variable {owner : Owner} {lockId : Nat} {req : LockParam} {before : List (LockEntry Owner)}
  {m : Merge Owner} {check : LockEntry Owner} {todo : List (LockEntry Owner)}
  (h : MergeInv owner lockId req before m (check :: todo))

include h

theorem candidate_iff : mergeCandidate owner lockId check = true ↔ check.GrantedTo owner := by
  have hid := (h.core.fresh check (by simp)).1
  simp [mergeCandidate, LockEntry.GrantedTo, hid]

theorem safe_granted (hgranted : check.GrantedTo owner) :
    (check.sleLock.overlaps req = true → m.lock.range.Reaches check.sleLock.range) ∧
      mergeSafe owner req (growBy req m.lock.range check) todo :=
  (mergeSafe_cons_granted hgranted).1 h.safe

theorem core_front :
    MergeCore owner lockId req before (check :: (m.list ++ todo)) m.lock m.nextId :=
  h.core.perm perm_middle

theorem skip
    (hskip : mergeCandidate owner lockId check = true → ¬ Meets m.lock check.sleLock) :
    MergeInv owner lockId req before { m with list := m.list ++ [check] } todo := by
  have hnotMeets : check.GrantedTo owner → ¬ Meets m.lock check.sleLock :=
    fun hgranted => hskip (h.candidate_iff.2 hgranted)
  refine ⟨by simpa using h.core, h.req_admitted, ?_, ?_⟩
  · intro e he hgranted b heb hlb
    rcases mem_append.1 he with he | he
    · exact h.done_apart e he hgranted b heb hlb
    · -- a byte in common would lie in the request, and the condition excludes that
      rw [mem_singleton] at he
      subst he
      have hreq := h.core.inside e (by simp) hgranted b heb hlb
      have hoverlaps := (overlaps_iff (h.core.admitted e (by simp)) h.req_admitted).2 ⟨b, heb, hreq⟩
      have hreaches := (h.safe_granted hgranted).1 hoverlaps
      refine hnotMeets hgranted ⟨⟨?_, ?_⟩, hreaches⟩
      · exact Nat.le_succ_of_le (Nat.le_trans hlb.1 heb.2)
      · exact Nat.le_succ_of_le (Nat.le_trans heb.1 hlb.2)
  · by_cases hgranted : check.GrantedTo owner
    · have hsafe := (h.safe_granted hgranted).2
      rwa [growBy_of_not_meets (hnotMeets hgranted)] at hsafe
    · exact (mergeSafe_cons_other hgranted).1 h.safe

theorem cut (left right : List (LockEntry Owner)) {nextId : Nat}
    (hgranted : check.GrantedTo owner) (htype : check.sleLock.lockType ≠ m.lock.lockType)
    (hremains : Remains check m.lock (left ++ right)) (hle : m.nextId ≤ nextId)
    (hfresh : ∀ p ∈ left ++ right, p.sleId ≠ lockId ∧ p.sleId < nextId)
    (hsafe : mergeSafe owner req m.lock.range todo →
      mergeSafe owner req m.lock.range (todo ++ right)) :
    MergeInv owner lockId req before ⟨m.list ++ left, m.lock, nextId⟩ (todo ++ right) := by
  have hperm : (left ++ right ++ (m.list ++ todo)).Perm (m.list ++ left ++ (todo ++ right)) := by
    refine perm_iff_count.2 fun e => ?_
    simp only [count_append]
    omega
  refine ⟨(h.core_front.cut hremains hgranted hle hfresh).perm hperm, h.req_admitted, ?_, ?_⟩
  · intro e he hto b heb hlb
    rcases mem_append.1 he with he | he
    · exact h.done_apart e he hto b heb hlb
    · exact (hremains.covers_of_mem (mem_append_left _ he) heb).2 hlb
  · have hrest := (h.safe_granted hgranted).2
    rw [growBy_of_type_ne (h.core.lock_type ▸ htype)] at hrest
    exact hsafe hrest

theorem absorb {grown : LockParam} (hgranted : check.GrantedTo owner) (hmeets : Meets m.lock check.sleLock)
    (hgrown : grown.Admitted) (hgrownType : grown.lockType = m.lock.lockType)
    (htype : check.sleLock.lockType = m.lock.lockType ∨
      m.lock.lockStart ≤ check.sleLock.lockStart ∧ lockEnd check.sleLock ≤ lockEnd m.lock)
    (hstart : grown.lockStart = min m.lock.lockStart check.sleLock.lockStart)
    (hend : lockEnd grown = max (lockEnd m.lock) (lockEnd check.sleLock))
    (hcovers : ∀ b, grown.Covers b ↔ m.lock.Covers b ∨ check.sleLock.Covers b) :
    MergeInv owner lockId req before { m with lock := grown } todo := by
  have hsame : check.sleLock.lockType = m.lock.lockType ∨
      ∀ b, check.sleLock.Covers b → m.lock.Covers b :=
    htype.imp id fun hinside b hb =>
      ⟨Nat.le_trans hinside.1 hb.1, Nat.le_trans hb.2 hinside.2⟩
  refine ⟨h.core_front.absorb hgranted hgrown hgrownType hsame hcovers, h.req_admitted, ?_, ?_⟩
  · intro e he hto b heb hgb
    rcases (hcovers b).1 hgb with hlb | hcb
    · exact h.done_apart e he hto b heb hlb
    · have hapart := (pairwise_cons.1 h.core_front.apart).1 e (mem_append_left _ he)
      exact hapart owner b hgranted hto hcb heb
  · have hrest := (h.safe_granted hgranted).2
    rwa [growBy_of_absorb hmeets h.core.lock_type htype hstart hend] at hrest

theorem fresh_pair {left right : LockParam} :
    ∀ p ∈ [{ check with sleLock := left }, check.dup m.nextId right],
      p.sleId ≠ lockId ∧ p.sleId < m.nextId + 1 := by
  have hfresh := h.core.fresh check (by simp)
  have hid := h.core.id_lt
  intro p hp
  simp only [mem_cons, not_mem_nil, or_false] at hp
  rcases hp with rfl | rfl
  · exact ⟨hfresh.1, Nat.lt_succ_of_lt hfresh.2⟩
  · simp only [LockEntry.dup]
    omega

end MergeInv

omit [DecidableEq Owner] in
theorem remains_pair {c : LockEntry Owner} {cut left right : LockParam} {id : Nat}
    (hleft : left.Admitted) (hright : right.Admitted)
    (hleftType : left.lockType = c.sleLock.lockType)
    (hrightType : right.lockType = c.sleLock.lockType)
    (hcovers : ∀ b, left.Covers b ∨ right.Covers b ↔ c.sleLock.Covers b ∧ ¬ cut.Covers b)
    (hdisjoint : ∀ b, left.Covers b → ¬ right.Covers b) :
    Remains c cut [{ c with sleLock := left }, c.dup id right] where
  same p hp := by
    simp only [mem_cons, not_mem_nil, or_false] at hp
    rcases hp with rfl | rfl <;> exact ⟨rfl, rfl⟩
  admitted p hp := by
    simp only [mem_cons, not_mem_nil, or_false] at hp
    rcases hp with rfl | rfl
    · exact hleft
    · exact hright
  type_eq p hp := by
    simp only [mem_cons, not_mem_nil, or_false] at hp
    rcases hp with rfl | rfl
    · exact hleftType
    · exact hrightType
  covers b := by simpa [LockEntry.dup] using hcovers b
  apart := by
    refine pairwise_pair.2 fun o b _ _ hl hr => ?_
    exact hdisjoint b hl hr

variable {r : Merge Owner} {m : Merge Owner} {owner : Owner} {lockId : Nat}

theorem MergeRun.inv {before todo : List (LockEntry Owner)} (hrun : MergeRun owner lockId m todo r)
    (h : MergeInv owner lockId req before m todo) : MergeInv owner lockId req before r [] := by
  induction hrun with
  | done => exact h
  | skip hskip _ ih => exact ih (h.skip hskip)
  | @shrink m r check todo piece hcand hspec _ ih =>
    cases hspec with
    | shrink _ hadm htype hpiece hcovers =>
      have hremains : Remains check m.lock [{ check with sleLock := piece }] :=
        ⟨by simp, by simpa using hadm, by simpa using hpiece, by simpa using hcovers,
          pairwise_singleton _ _⟩
      have hcut := h.cut [{ check with sleLock := piece }] [] (h.candidate_iff.1 hcand) htype
        hremains (Nat.le_refl _) (by simpa using h.core.fresh check (by simp)) (by simp)
      exact ih (by simpa using hcut)
  | @split m r check todo left right hcand hspec _ ih =>
    cases hspec with
    | split _ hleft hright htype hleftType hrightType hcovers hdisjoint =>
      -- the right piece has no byte of the request, so it is no obstacle later
      have hoverlaps : right.overlaps req = false := by
        rw [Bool.eq_false_iff]
        intro hov
        obtain ⟨b, hrb, hreq⟩ := (overlaps_iff hright h.req_admitted).1 hov
        exact ((hcovers b).1 (.inr hrb)).2 (h.core.covers_request b hreq)
      exact ih (h.cut [{ check with sleLock := left }] [check.dup m.nextId right]
        (h.candidate_iff.1 hcand) htype
        (remains_pair hleft hright hleftType hrightType hcovers hdisjoint)
        (Nat.le_succ _) h.fresh_pair
        fun hsafe => mergeSafe_append_singleton hsafe hoverlaps)
  | @splitLast m check left right hcand hspec =>
    cases hspec with
    | split _ hleft hright htype hleftType hrightType hcovers hdisjoint =>
      have hcut := h.cut [{ check with sleLock := left }, check.dup m.nextId right] []
        (h.candidate_iff.1 hcand) htype
        (remains_pair hleft hright hleftType hrightType hcovers hdisjoint)
        (Nat.le_succ _) h.fresh_pair (by simp)
      simpa using hcut
  | absorb hcand hspec _ ih =>
    cases hspec with
    | absorb hmeets hadm hgrown htype hstart hend hcovers =>
      exact ih (h.absorb (h.candidate_iff.1 hcand) hmeets hadm hgrown htype hstart hend
        hcovers)

section

variable {owner : Owner} {lockId : Nat} {todo : List (LockEntry Owner)} {m : Merge Owner}
  (hrun : MergeRun owner lockId m todo r)
include hrun

theorem MergeRun.mem_list (he : e ∈ m.list) : e ∈ r.list := by
  induction hrun with
  | done => exact he
  | splitLast => exact mem_append_left _ he
  | skip _ _ ih | shrink _ _ _ ih | split _ _ _ ih =>
    apply ih
    exact mem_append_left _ he
  | absorb _ _ _ ih => exact ih he

theorem MergeRun.lock_covers {b : Nat} (hb : m.lock.Covers b) : r.lock.Covers b := by
  induction hrun with
  | done | splitLast => exact hb
  | skip _ _ ih | shrink _ _ _ ih | split _ _ _ ih => exact ih hb
  | absorb _ hspec _ ih =>
    cases hspec with
    | absorb _ _ _ _ _ _ hcovers => exact ih ((hcovers b).2 (.inl hb))

end

theorem MergeRun.missed {todo : List (LockEntry Owner)} (hrun : MergeRun owner lockId m todo r)
    (htype : m.lock.lockType = req.lockType) (hcovers : ∀ b, req.Covers b → m.lock.Covers b)
    (hreq : req.Admitted) (htodo : ∀ e ∈ todo, e.sleLock.Admitted ∧ e.sleId ≠ lockId)
    (hid : lockId < m.nextId) (hmissed : ¬ mergeSafe owner req m.lock.range todo) :
    ∃ e ∈ r.list, e.GrantedTo owner ∧ e.sleId ≠ lockId ∧
      ∃ b, e.sleLock.Covers b ∧ req.Covers b := by
  induction hrun with
  | done => exact absurd trivial hmissed
  | @skip m r check todo hskip hrest ih =>
    have hrestTodo : ∀ e ∈ todo, e.sleLock.Admitted ∧ e.sleId ≠ lockId :=
      fun e he => htodo e (by simp [he])
    obtain ⟨hadm, hne⟩ := htodo check (by simp)
    by_cases hgranted : check.GrantedTo owner
    · by_cases hov : check.sleLock.overlaps req = true
      · have hcommon := (overlaps_iff hadm hreq).1 hov
        exact ⟨check, hrest.mem_list (by simp), hgranted, hne, hcommon⟩
      · have hnotMeets := hskip (by simp [mergeCandidate, hgranted.1, hgranted.2, hne])
        rw [mergeSafe_cons_granted hgranted, growBy_of_not_meets hnotMeets] at hmissed
        exact ih htype hcovers hrestTodo hid fun hsafe => hmissed ⟨fun h => absurd h hov, hsafe⟩
    · rw [mergeSafe_cons_other hgranted] at hmissed
      exact ih htype hcovers hrestTodo hid hmissed
  | @shrink m r check todo piece hcand hspec _ ih =>
    cases hspec with
    | shrink hmeets _ hne _ _ =>
      have hgranted := granted_of_mergeCandidate hcand
      rw [mergeSafe_cons_granted hgranted, growBy_of_type_ne (htype ▸ hne)] at hmissed
      exact ih htype hcovers (fun e he => htodo e (by simp [he])) hid
        fun hsafe => hmissed ⟨fun _ => hmeets.2, hsafe⟩
  | @split m r check todo left right hcand hspec _ ih =>
    cases hspec with
    | split hmeets _ hright hne _ _ _ _ =>
      have hgranted := granted_of_mergeCandidate hcand
      rw [mergeSafe_cons_granted hgranted, growBy_of_type_ne (htype ▸ hne)] at hmissed
      refine ih htype hcovers ?_ (Nat.lt_succ_of_lt hid) ?_
      · intro e he
        rcases mem_append.1 he with he | he
        · exact htodo e (by simp [he])
        · rw [mem_singleton] at he
          subst he
          exact ⟨hright, Nat.ne_of_gt hid⟩
      · intro hsafe
        exact hmissed ⟨fun _ => hmeets.2, mergeSafe_append_left hsafe⟩
  | @splitLast m check left right hcand hspec =>
    cases hspec with
    | split hmeets _ _ _ _ _ _ _ =>
      have hgranted := granted_of_mergeCandidate hcand
      rw [mergeSafe_cons_granted hgranted] at hmissed
      exact absurd ⟨fun _ => hmeets.2, trivial⟩ hmissed
  | @absorb m r check todo grown hcand hspec _ ih =>
    cases hspec with
    | absorb hmeets _ hgrown hsame hstart hend hunion =>
      have hgranted := granted_of_mergeCandidate hcand
      rw [mergeSafe_cons_granted hgranted,
        growBy_of_absorb hmeets htype hsame hstart hend] at hmissed
      refine ih (hgrown.trans htype) (fun b hb => (hunion b).2 (.inl (hcovers b hb)))
        (fun e he => htodo e (by simp [he])) hid fun hsafe => hmissed ⟨fun _ => hmeets.2, hsafe⟩

end EdgeComputing.Sal
