import EdgeComputing.Sal.GraceStatus
import Mathlib.Data.Nat.Bitwise

/-!
References pin the grace status: a requested change stops new references, so there are none from the
moment the holder of the mutex finds none until it clears the bits.
-/

namespace EdgeComputing.Sal

open Option Library BitVec GraceStatus

namespace GraceWord

variable (word : BitVec 32)

theorem active_eq_getLsbD : active word = word.getLsbD 0 := by
  have htwoPow : graceStatusActive = twoPow 32 0 := rfl
  rw [active, htwoPow, and_twoPow]
  cases word.getLsbD 0 <;> decide

theorem changeReq_eq_getLsbD : changeReq word = word.getLsbD 1 := by
  have htwoPow : graceStatusChangeReq = twoPow 32 1 := rfl
  rw [changeReq, htwoPow, and_twoPow]
  cases word.getLsbD 1 <;> decide

theorem active_eq : active word = decide (word.toNat % 2 = 1) := by
  rw [active_eq_getLsbD, getLsbD, Nat.testBit_zero]

theorem changeReq_eq : changeReq word = decide (word.toNat / 2 % 2 = 1) := by
  rw [changeReq_eq_getLsbD, getLsbD, Nat.testBit_succ, Nat.testBit_zero]

theorem count_eq : count word = word.toNat / 4 := by
  rw [count, toNat_ushiftRight, Nat.shiftRight_eq_div_pow]

theorem count_or {flag : BitVec 32} (h : flag >>> 2 = 0#32) : count (word ||| flag) = count word := by
  rw [count, ushiftRight_or_distrib, h, or_zero, count]

theorem count_and {mask : BitVec 32} (h : mask >>> 2 = allOnes 32 >>> 2) :
    count (word &&& mask) = count word := by
  rw [count, ushiftRight_and_distrib, h, ← ushiftRight_and_distrib,
    and_allOnes, count]

theorem and_countMask_eq_zero : word &&& graceStatusCountMask = 0 ↔ count word = 0 := by
  have hcount : count (word &&& graceStatusCountMask) = count word := count_and word (by decide)
  have hactive : active (word &&& graceStatusCountMask) = false := by
    rw [active_eq_getLsbD, getLsbD_and]
    simp [graceStatusCountMask]
  have hchange : changeReq (word &&& graceStatusCountMask) = false := by
    rw [changeReq_eq_getLsbD, getLsbD_and]
    simp [graceStatusCountMask]
  rw [active_eq, decide_eq_false_iff_not] at hactive
  rw [changeReq_eq, decide_eq_false_iff_not] at hchange
  have hzero : (0 : BitVec 32).toNat = 0 := rfl
  rw [← hcount, count_eq, ← toNat_inj, hzero]
  omega

structure Fields (word : BitVec 32) (isActive isChangeReq : Bool) (n : Nat) : Prop where
  active : active word = isActive
  changeReq : changeReq word = isChangeReq
  count : count word = n

theorem fields_changeReq :
    Fields (word ||| graceStatusChangeReq) (active word) true (count word) where
  active := by
    rw [active_eq_getLsbD, active_eq_getLsbD, getLsbD_or]
    simp [graceStatusChangeReq]
  changeReq := by
    rw [changeReq_eq_getLsbD, getLsbD_or]
    simp [graceStatusChangeReq]
  count := count_or word (by decide)

theorem fields_lifted : Fields (lifted word) false false (count word) where
  active := by
    rw [active_eq_getLsbD, lifted, getLsbD_and]
    simp [graceStatusActive]
  changeReq := by
    rw [changeReq_eq_getLsbD, lifted, getLsbD_and]
    simp [graceStatusChangeReq]
  count := count_and word (by decide)

theorem fields_started_of_count (h : count word ≠ 0) :
    Fields (started word) (active word) true (count word) := by
  have hmask : word &&& graceStatusCountMask ≠ 0 := fun hzero => h ((and_countMask_eq_zero word).1 hzero)
  rw [started, if_pos hmask]
  exact fields_changeReq word

theorem fields_started_of_zero (h : count word = 0) : Fields (started word) true false 0 := by
  have hmask : ¬ word &&& graceStatusCountMask ≠ 0 := not_not.2 ((and_countMask_eq_zero word).2 h)
  rw [started, if_neg hmask]
  constructor
  · rw [active_eq_getLsbD, getLsbD_and, getLsbD_or]
    simp [graceStatusActive, graceStatusChangeReq]
  · rw [changeReq_eq_getLsbD, getLsbD_and]
    simp [graceStatusChangeReq]
  · rw [count_and _ (by decide), count_or _ (by decide), h]

theorem fields_of_toNat {word' : BitVec 32} {n : Nat} (hlow : word'.toNat % 4 = word.toNat % 4)
    (hcount : word'.toNat / 4 = n) : Fields word' (active word) (changeReq word) n := by
  constructor
  · rw [active_eq, active_eq, decide_eq_decide]
    omega
  · rw [changeReq_eq, changeReq_eq, decide_eq_decide]
    omega
  · rw [count_eq, hcount]

theorem fields_increment (h : count word + 1 < 2 ^ 30) :
    Fields (word + graceStatusRefIncrement) (active word) (changeReq word) (count word + 1) := by
  rw [count_eq] at h ⊢
  have hnat : (word + graceStatusRefIncrement).toNat = word.toNat + 4 := by
    rw [toNat_add]
    exact Nat.mod_eq_of_lt (by simp [graceStatusRefIncrement]; omega)
  apply fields_of_toNat <;> omega

theorem fields_decrement (h : 0 < count word) :
    Fields (word - graceStatusRefIncrement) (active word) (changeReq word) (count word - 1) := by
  rw [count_eq] at h ⊢
  have hnat : (word - graceStatusRefIncrement).toNat = word.toNat - 4 := by
    rw [toNat_sub_of_le]
    · rfl
    · rw [le_def]
      simp [graceStatusRefIncrement]
      omega
  apply fields_of_toNat <;> omega

end GraceWord

open GraceWord

variable {graceless : Bool} {s t : GraceStatus} {x : GraceAccess} {sec : GraceSection} {want : Bool}

structure Quiesced (s : GraceStatus) : Prop where
  refs : s.refs = []
  changeReq : changeReq s.word = true

def SectionOk (graceless : Bool) (s : GraceStatus) : GraceSection → Prop
  | .startFetch => graceless = false
  | .startCas old pro => graceless = false ∧ active old = false ∧ pro = started old
  | .tryLiftGrace | .endGrace => Quiesced s
  | .inGrace => Quiesced s ∨ graceless = true
  | .liftFetch | .liftCas _ | .unlock _ => True

structure GraceInv (graceless : Bool) (s : GraceStatus) : Prop where
  counted : count s.word = s.refs.length
  pinned : ∀ want ∈ s.refs, active s.word = want
  checked : ∀ g ∈ s.getters, active g.cur = g.want ∧ changeReq g.cur = false
  inactive : graceless = true → active s.word = false
  holder : ∀ sec, s.holder = some sec → SectionOk graceless s sec
  assertion : s.assertFailed = false

theorem SectionOk.mono (h : SectionOk graceless s sec) (hquiesced : Quiesced s → Quiesced t) :
    SectionOk graceless t sec := by
  cases sec with
  | tryLiftGrace | endGrace => exact hquiesced h
  | inGrace => exact h.imp_left hquiesced
  | _ => exact h

theorem getBody_eq_some {cur : BitVec 32} {g : Getter} (h : getBody want cur = some g) :
    active g.cur = g.want ∧ changeReq g.cur = false := by
  simp only [getBody] at h
  split_ifs at h with hwant hchange
  cases h
  exact ⟨(not_not.1 hwant).symm, by simpa using hchange⟩

theorem GraceInv.get (hs : GraceInv graceless s) (want : Bool) : GraceInv graceless (s.get want) where
  counted := hs.counted
  pinned := hs.pinned
  checked g hg := by
    rcases List.mem_append.1 hg with hg | hg
    · exact hs.checked g hg
    · exact getBody_eq_some (mem_toList.1 hg)
  inactive := hs.inactive
  holder sec hsec := (hs.holder sec hsec).mono fun h => ⟨h.refs, h.changeReq⟩
  assertion := hs.assertion

/-- A compare-and-swap that succeeds finds the status as it was checked, so no change is requested
and nobody relies on there being no references. -/
theorem GraceInv.getCas {i : Nat} (hs : GraceInv graceless s) (h : s.getCas i = some t)
    (hfew : t.refs.length < 2 ^ 30) : GraceInv graceless t := by
  obtain ⟨g, hg, rfl⟩ := map_eq_some_iff.1 h
  obtain ⟨hwant, hchange⟩ := hs.checked g (List.mem_of_getElem? hg)
  by_cases hword : s.word = g.cur
  · rw [if_pos hword] at hfew ⊢
    have hcount : count g.cur = s.refs.length := hword ▸ hs.counted
    have hfields := fields_increment g.cur (by simpa [hcount] using hfew)
    exact
      { counted := by simp [hfields.count, hcount]
        pinned := by
          intro want hmem
          rw [hfields.active]
          rcases List.mem_cons.1 hmem with rfl | hmem
          · exact hwant
          · exact hword ▸ hs.pinned want hmem
        checked := fun g' hg' => hs.checked g' (List.mem_of_mem_eraseIdx hg')
        inactive := fun hgraceless => by
          rw [hfields.active, ← hword]
          exact hs.inactive hgraceless
        holder := fun sec hsec => (hs.holder sec hsec).mono fun hquiesced => by
          have hset := hquiesced.changeReq
          rw [hword, hchange] at hset
          cases hset
        assertion := hs.assertion }
  · rw [if_neg hword]
    exact
      { counted := hs.counted
        pinned := hs.pinned
        checked := by
          intro g' hg'
          rcases List.mem_append.1 hg' with hg' | hg'
          · exact hs.checked g' (List.mem_of_mem_eraseIdx hg')
          · exact getBody_eq_some (mem_toList.1 hg')
        inactive := hs.inactive
        holder := fun sec hsec => (hs.holder sec hsec).mono fun h => ⟨h.refs, h.changeReq⟩
        assertion := hs.assertion }

theorem GraceInv.put (hs : GraceInv graceless s) (h : s.put want = some t) :
    GraceInv graceless t := by
  simp only [GraceStatus.put] at h
  split_ifs at h with hmem
  cases h
  have hpos : 0 < s.refs.length := List.length_pos_of_mem hmem
  have hfields := fields_decrement s.word (by rw [hs.counted]; exact hpos)
  exact
    { counted := by rw [hfields.count, hs.counted, List.length_erase_of_mem hmem]
      pinned := fun want' h => by
        rw [hfields.active]
        exact hs.pinned want' (List.mem_of_mem_erase h)
      checked := hs.checked
      inactive := fun hgraceless => hfields.active.trans (hs.inactive hgraceless)
      holder := fun sec hsec => (hs.holder sec hsec).mono fun hquiesced => by
        rw [hquiesced.refs] at hmem
        cases hmem
      assertion := hs.assertion }

theorem GraceInv.setHolder (hs : GraceInv graceless s) (sec : GraceSection) {lifters : Nat}
    (hsec : SectionOk graceless s sec) :
    GraceInv graceless { s with holder := some sec, lifters := lifters } where
  counted := hs.counted
  pinned := hs.pinned
  checked := hs.checked
  inactive := hs.inactive
  holder sec' h := by
    cases h
    exact hsec.mono fun h => ⟨h.refs, h.changeReq⟩
  assertion := hs.assertion

theorem startBody_ok (hgraceless : graceless = false) (s : GraceStatus) :
    SectionOk graceless s (startBody s.word) := by
  simp only [startBody]
  split_ifs with hactive
  · exact trivial
  · exact trivial
  · exact ⟨hgraceless, by simpa using hactive, rfl⟩

theorem afterRequest_ok {old : BitVec 32} (hs : GraceInv graceless s)
    (hcount : count s.word = count old) (hchange : changeReq s.word = true) :
    SectionOk graceless s (afterRequest old) := by
  simp only [afterRequest]
  split_ifs with hzero
  · have hrefs : s.refs.length = 0 := by
      rw [← hs.counted, hcount]
      exact (and_countMask_eq_zero old).1 hzero
    exact ⟨List.length_eq_zero_iff.1 hrefs, hchange⟩
  · exact trivial

theorem liftBody_ok (hs : GraceInv graceless s) : SectionOk graceless s (liftBody s.word) := by
  simp only [liftBody]
  split_ifs with hactive hsame
  · have hchange := (fields_changeReq s.word).changeReq
    rw [hsame] at hchange
    exact afterRequest_ok hs rfl hchange
  · exact trivial
  · exact trivial

theorem GraceInv.setWord (hs : GraceInv graceless s) {word : BitVec 32} {isActive isChangeReq : Bool}
    (hfields : Fields word isActive isChangeReq (count s.word))
    (hactive : isActive = active s.word ∨ s.refs = [])
    (hinactive : graceless = true → isActive = false) (holder : Option GraceSection)
    (hsec : ∀ sec, holder = some sec → SectionOk graceless { s with word := word } sec) :
    GraceInv graceless { s with word := word, holder := holder } where
  counted := hfields.count.trans hs.counted
  pinned want hmem := by
    rw [hfields.active]
    rcases hactive with hactive | hempty
    · exact hactive.trans (hs.pinned want hmem)
    · rw [hempty] at hmem
      cases hmem
  checked := hs.checked
  inactive hgraceless := hfields.active.trans (hinactive hgraceless)
  holder sec h := (hsec sec h).mono fun h => ⟨h.refs, h.changeReq⟩
  assertion := hs.assertion

theorem GraceInv.advance (hs : GraceInv graceless s) (hsec : s.holder = some sec) (answer : Bool) :
    GraceInv graceless (s.advance answer sec) := by
  have hok := hs.holder sec hsec
  cases sec with
  | startFetch => exact hs.setHolder _ (startBody_ok hok s)
  | startCas old pro =>
    obtain ⟨hgraceless, hinactive, rfl⟩ := hok
    simp only [advance]
    split_ifs with hword
    · subst hword
      by_cases hcount : count s.word = 0
      · have hrefs : s.refs = [] := List.length_eq_zero_iff.1 (hs.counted ▸ hcount)
        refine hs.setWord (hcount.symm ▸ fields_started_of_zero s.word hcount) (.inr hrefs) ?_ _ ?_
        · intro h
          rw [hgraceless] at h
          cases h
        · intro sec h
          cases h
          exact trivial
      · refine hs.setWord (fields_started_of_count s.word hcount) (.inl rfl) hs.inactive _ ?_
        intro sec h
        cases h
        exact trivial
    · exact hs.setHolder _ (startBody_ok hgraceless s)
  | liftFetch => exact hs.setHolder _ (liftBody_ok hs)
  | liftCas old =>
    simp only [advance]
    split_ifs with hword
    · subst hword
      have hfields := fields_changeReq s.word
      have hword' := hs.setWord hfields (.inl rfl) hs.inactive none (by simp)
      refine hs.setWord hfields (.inl rfl) hs.inactive _ fun sec h => ?_
      cases h
      exact (afterRequest_ok hword' hfields.count hfields.changeReq).mono
        fun h => ⟨h.refs, h.changeReq⟩
    · exact hs.setHolder _ (liftBody_ok hs)
  | tryLiftGrace =>
    simp only [advance]
    cases answer with
    | true => exact hs.setHolder .inGrace (.inl hok)
    | false => exact hs.setHolder (.unlock false) trivial
  | inGrace =>
    simp only [advance]
    split_ifs with hactive
    · rcases hok with hquiesced | hgraceless
      · exact hs.setHolder .endGrace hquiesced
      · rw [hs.inactive hgraceless] at hactive
        cases hactive
    · exact hs.setHolder (.unlock false) trivial
  | endGrace =>
    have hfields := fields_lifted s.word
    have hcount : count (lifted s.word) = 0 := by
      rw [hfields.count, hs.counted, hok.refs, List.length_nil]
    have hassert : (lifted s.word &&& graceStatusCountMask != 0) = false := by
      simpa using (and_countMask_eq_zero _).2 hcount
    simp only [advance, hassert, Bool.or_false]
    refine hs.setWord hfields (.inr hok.refs) (fun _ => rfl) _ fun sec h => ?_
    cases h
    exact trivial
  | unlock eagain =>
    exact
      { counted := hs.counted
        pinned := hs.pinned
        checked := hs.checked
        inactive := hs.inactive
        holder := fun sec h => by cases h
        assertion := hs.assertion }

theorem GraceInv.step (hs : GraceInv graceless s) (h : s.step graceless x = some t)
    (hfew : t.refs.length < 2 ^ 30) : GraceInv graceless t := by
  cases x with
  | get want =>
    cases h
    exact hs.get want
  | getCas i => exact hs.getCas h hfew
  | put want => exact hs.put h
  | startGrace =>
    simp only [step] at h
    split_ifs at h with hfree hgraceless
    · cases h
      exact hs.setHolder .inGrace (.inr hgraceless)
    · cases h
      exact hs.setHolder .startFetch (Bool.eq_false_iff.2 hgraceless)
  | tryLift =>
    simp only [step] at h
    split_ifs at h with hactive
    · cases h
      exact ⟨hs.counted, hs.pinned, hs.checked, hs.inactive,
        fun sec hsec => (hs.holder sec hsec).mono fun h => ⟨h.refs, h.changeReq⟩, hs.assertion⟩
    · cases h
      exact hs
  | tryLiftLock inGrace =>
    simp only [step] at h
    split_ifs at h with hfree hin
    · cases h
      exact hs.setHolder (.unlock false) trivial
    · cases h
      exact hs.setHolder .liftFetch trivial
  | advance answer =>
    obtain ⟨sec, hsec, rfl⟩ := map_eq_some_iff.1 h
    exact hs.advance hsec answer

def fewReferences (graceless : Bool) (s : GraceStatus) (x : GraceAccess) : Prop :=
  ∀ t ∈ s.step graceless x, t.refs.length < 2 ^ 30

instance (s : GraceStatus) (x : GraceAccess) : Decidable (fewReferences graceless s x) :=
  inferInstanceAs (Decidable (∀ t ∈ s.step graceless x, t.refs.length < 2 ^ 30))

theorem graceInv_of_reachable
    (hs : (graceStatusMachine graceless).ReachableBy (fewReferences graceless) s) :
    GraceInv graceless s := by
  refine hs.invariant (P := GraceInv graceless) ?_ ?_
  · rintro s rfl
    refine ⟨rfl, ?_, ?_, fun _ => by decide, ?_, rfl⟩ <;> simp
  · intro s x t ih hfew h
    exact ih.step h (hfew t h)

/-- References pin the grace status: in every interleaving, while a reference is outstanding the
active bit is what the reference was taken for, the counter is the number of references, and the
assertion of `nfs_lift_grace_locked` holds. -/
theorem grace_references_pin
    (hs : (graceStatusMachine graceless).ReachableBy (fewReferences graceless) s) :
    (∀ want ∈ s.refs, active s.word = want) ∧ count s.word = s.refs.length ∧
      s.assertFailed = false := by
  have hinv := graceInv_of_reachable hs
  exact ⟨hinv.pinned, hinv.counted, hinv.assertion⟩

/-- A reference is taken in grace, and the grace period is to be lifted: the change is requested,
and the reference still sees the grace period. -/
theorem grace_references_pin_requested :
    ∃ s, (graceStatusMachine false).ReachableBy (fewReferences false) s ∧ s.refs = [true] ∧
      changeReq s.word = true ∧ active s.word = true ∧ count s.word = 1 := by
  have hrun : ((graceStatusMachine false).runFromBy (fewReferences false) ⟨0, [], [], 0, none, false⟩
      [.startGrace, .advance true, .advance true, .advance true, .get true, .getCas 0,
        .tryLift, .tryLiftLock false, .advance true, .advance true]).map
      (fun s => (s.refs, changeReq s.word)) = some ([true], true) := by
    decide +kernel
  obtain ⟨s, hreach, hstatus⟩ := Machine.exists_reachableBy hrun (.init rfl)
  obtain ⟨hrefs, hchange⟩ := Prod.mk.inj hstatus
  obtain ⟨hpinned, hcount, _⟩ := grace_references_pin hreach
  refine ⟨s, hreach, hrefs, hchange, hpinned true ?_, ?_⟩
  · rw [hrefs]
    exact List.mem_singleton_self true
  · rw [hcount, hrefs, List.length_singleton]

end EdgeComputing.Sal
