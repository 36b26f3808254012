import EdgeComputing.Fsal.FsalShare
import EdgeComputing.Library.Machine

/-!
Share reservations on one file of the VFS layer, one step for each section under the object lock. An
open by handle takes its reservation before it opens the file, an open by name on a handle of its
own, which is merged into the file's; a reopen changes the counters first, and back if it fails.
-/

namespace EdgeComputing.Fsal

open List Option Library FsalShare

/-- What a state is in the middle of. A handle opened by name carries counters of its own until it
is merged, or is released. -/
inductive Pending where
  | idle
  | opening (openflags : OpenFlags)
  | reopening (openflags oldOpenflags : OpenFlags)
  | merging (openflags : OpenFlags) (dupe : FsalShare)
  | refused (openflags : OpenFlags) (dupe : FsalShare)
  | closing (dupe : Option FsalShare)

/-- A `vfs_state_fd` of a share state: the flags of its descriptor, and those of its reservation in
the counters of the file. -/
structure ShareState where
  openflags : OpenFlags
  reservation : OpenFlags
  pending : Pending

structure ShareFile where
  share : FsalShare
  states : List ShareState

/-- How an open by name ends: before the descriptor is stored in the state, after that, or with a
new handle. -/
inductive OpenByName where
  | failed
  | failedOpen
  | opened

inductive ShareAction where
  | allocState
  | openByHandle (i : Nat) (openflags : OpenFlags)
  | openByName (i : Nat) (openflags : OpenFlags) (result : OpenByName)
  | merge (i : Nat)
  | reopen (i : Nat) (openflags : OpenFlags)
  | opened (i : Nat) (success : Bool)
  | close (i : Nat)
  | closed (i : Nat)

namespace ShareFile

def set (σ : ShareFile) (share : FsalShare) (i : Nat) (s : ShareState) : ShareFile :=
  ⟨share, σ.states.set i s⟩

variable (σ : ShareFile) (i : Nat) (s : ShareState)

def openByHandle (openflags : OpenFlags) : ShareFile :=
  if checkShareConflict σ.share openflags false = .noError then
    σ.set (updateShareCounters σ.share fsalOClosed openflags) i
      { s with reservation := openflags, pending := .opening openflags }
  else σ

def openByName (openflags : OpenFlags) : OpenByName → ShareFile
  | .failed => σ
  | .failedOpen => σ.set σ.share i { s with openflags := fsalONfsFlags openflags }
  | .opened =>
    σ.set σ.share i
      { s with
        openflags := fsalONfsFlags openflags
        pending :=
          .merging openflags (updateShareCounters empty fsalOClosed openflags) }

/-- `vfs_merge`. The first handle of a file is merged with empty counters. -/
def merge (openflags : OpenFlags) (dupe : FsalShare) : ShareFile :=
  match mergeShare σ.share dupe with
  | some share => σ.set share i { s with reservation := openflags, pending := .idle }
  | none => σ.set σ.share i { s with pending := .refused openflags dupe }

def reopen (openflags : OpenFlags) : ShareFile :=
  if checkShareConflict σ.share openflags false = .noError then
    σ.set (updateShareCounters σ.share s.openflags openflags) i
      { s with reservation := openflags, pending := .reopening openflags s.openflags }
  else σ

def opened : Pending → Bool → Option ShareFile
  | .opening openflags, true =>
    some (σ.set σ.share i { s with openflags := fsalONfsFlags openflags, pending := .idle })
  | .opening openflags, false =>
    some (σ.set (updateShareCounters σ.share openflags fsalOClosed) i
      ⟨fsalOClosed, fsalOClosed, .idle⟩)
  | .reopening openflags _, true =>
    some (σ.set σ.share i { s with openflags := fsalONfsFlags openflags, pending := .idle })
  | .reopening openflags oldOpenflags, false =>
    some (σ.set (updateShareCounters σ.share openflags oldOpenflags) i
      { s with reservation := oldOpenflags, pending := .idle })
  | _, _ => none

/-- The section of `vfs_close2` under the object lock: of the file's handle, or of a handle whose
merge was refused. -/
def close : Pending → Option ShareFile
  | .idle =>
    some (σ.set (updateShareCounters σ.share s.openflags fsalOClosed) i
      { s with reservation := fsalOClosed, pending := .closing none })
  | .refused _ dupe =>
    some (σ.set σ.share i
      { s with pending := .closing (some (updateShareCounters dupe s.openflags fsalOClosed)) })
  | _ => none

def idleState : Option ShareState :=
  (σ.states[i]?).bind fun s =>
    match s.pending with
    | .idle => some s
    | _ => none

end ShareFile

def shareMachine : Machine ShareFile ShareAction where
  init σ := σ = ⟨empty, []⟩
  step σ
    | .allocState => some { σ with states := σ.states ++ [⟨fsalOClosed, fsalOClosed, .idle⟩] }
    | .openByHandle i openflags => (σ.idleState i).map fun s => σ.openByHandle i s openflags
    | .openByName i openflags result =>
      (σ.idleState i).map fun s => σ.openByName i s openflags result
    | .merge i =>
      (σ.states[i]?).bind fun s =>
        match s.pending with
        | .merging openflags dupe => some (σ.merge i s openflags dupe)
        | _ => none
    | .reopen i openflags => (σ.idleState i).map fun s => σ.reopen i s openflags
    | .opened i success => (σ.states[i]?).bind fun s => σ.opened i s s.pending success
    | .close i => (σ.states[i]?).bind fun s => σ.close i s s.pending
    | .closed i =>
      (σ.states[i]?).bind fun s =>
        match s.pending with
        | .closing _ => some (σ.set σ.share i { s with openflags := fsalOClosed, pending := .idle })
        | _ => none

def DupeCounts : Pending → Prop
  | .merging openflags dupe | .refused openflags dupe => CountsOnly dupe openflags
  | .closing (some dupe) => ∀ k, dupe.get k = 0
  | _ => True

/-- The counters are the sums over the reservations held, and no state holds an access that another
denies. -/
structure SharesSound (σ : ShareFile) : Prop where
  counts : Counts σ.share (σ.states.map (·.reservation))
  nonneg : ∀ k, 0 ≤ σ.share.get k
  dupes : ∀ s ∈ σ.states, DupeCounts s.pending
  compatible : ∀ (i j : Nat) (s t : ShareState), i ≠ j → σ.states[i]? = some s → σ.states[j]? = some t →
    ¬ DeniedBy s.reservation t.reservation

/-- A state in the middle of an open holds the reservation it asked for, and one opened by name has
its descriptor. -/
def PendingOk (s : ShareState) : Prop :=
  match s.pending with
  | .opening openflags | .reopening openflags _ => s.reservation = openflags
  | .merging openflags _ | .refused openflags _ => s.openflags = fsalONfsFlags openflags
  | _ => True

def OthersAllow (σ : ShareFile) (i : Nat) (flags : OpenFlags) : Prop :=
  ∀ j < σ.states.length, j ≠ i → ∀ t ∈ σ.states[j]?, Compatible flags t.reservation

instance (σ : ShareFile) (i : Nat) (flags : OpenFlags) : Decidable (OthersAllow σ i flags) :=
  inferInstanceAs (Decidable (∀ j < _, _ → ∀ t ∈ _, _))

namespace SharesSound

variable {σ : ShareFile} {i : Nat} {s s' : ShareState}

theorem othersAllow_of_compatible {flags : OpenFlags}
    (h : ∀ held ∈ σ.states.map (·.reservation), Compatible flags held) : OthersAllow σ i flags :=
  fun _ _ _ _ ht => h _ (mem_map_of_mem (mem_of_getElem? ht))

theorem othersAllow_closed (σ : ShareFile) (i : Nat) : OthersAllow σ i fsalOClosed :=
  fun _ _ _ _ _ => compatible_closed _

section

variable (hσ : SharesSound σ) (hs : σ.states[i]? = some s)
include hσ hs

theorem set_iff {share : FsalShare} (old : OpenFlags)
    (hshare : ∀ k, share.get k = σ.share.get k + shareWeight s'.reservation k - shareWeight old k)
    (hdupe : DupeCounts s'.pending) :
    SharesSound (σ.set share i s') ↔
      SameShare old s.reservation ∧ OthersAllow σ i s'.reservation := by
  have hsum : ∀ k, (((σ.states.set i s').map (·.reservation)).map (shareWeight · k)).sum +
      shareWeight s.reservation k =
        ((σ.states.map (·.reservation)).map (shareWeight · k)).sum +
          shareWeight s'.reservation k := by
    intro k
    simp only [List.map_map, Function.comp_def]
    exact sum_map_set (fun t : ShareState => shareWeight t.reservation k) hs
  constructor
  · intro h
    refine ⟨fun k => ?_, fun j _ hne t ht => ?_⟩
    · have hbefore := hσ.counts k
      have hafter : share.get k = _ := h.counts k
      have hk := hsum k
      rw [hshare k] at hafter
      simp only [ShareFile.set] at hafter
      omega
    · have hi : (σ.set share i s').states[i]? = some s' := getElem?_set_of_some hs
      have hj : (σ.set share i s').states[j]? = some t :=
        (getElem?_set_ne hne.symm).trans ht
      exact ⟨h.compatible i j s' t hne.symm hi hj, h.compatible j i t s' hne hj hi⟩
  · rintro ⟨hsame, hallow⟩
    have hcounts : Counts share ((σ.states.set i s').map (·.reservation)) := by
      intro k
      have hbefore := hσ.counts k
      have hk := hsum k
      have hold := hsame k
      rw [hshare k]
      omega
    refine ⟨hcounts, fun k => ?_, fun t ht => ?_, ?_⟩
    · have hk : share.get k = _ := hcounts k
      exact hk ▸ Int.natCast_nonneg _
    · rcases mem_or_eq_of_mem_set ht with ht | rfl
      · exact hσ.dupes t ht
      · exact hdupe
    · intro a b t u hne ht hu
      have hlt : ∀ {j : Nat} {v : ShareState}, σ.states[j]? = some v → j < σ.states.length :=
        fun hv => (List.getElem?_eq_some_iff.1 hv).1
      rcases getElem?_set_cases ht with ⟨rfl, rfl⟩ | ⟨hai, hta⟩
      · rcases getElem?_set_cases hu with ⟨hba, -⟩ | ⟨hbi, hub⟩
        · exact absurd hba.symm hne
        · exact (hallow b (hlt hub) hbi u hub).1
      · rcases getElem?_set_cases hu with ⟨rfl, rfl⟩ | ⟨hbi, hub⟩
        · exact (hallow a (hlt hta) hai t hta).2
        · exact hσ.compatible a b t u hne hta hub

theorem update_iff (old : OpenFlags) (new : ShareState) (hdupe : DupeCounts new.pending) :
    SharesSound (σ.set (updateShareCounters σ.share old new.reservation) i new) ↔
      SameShare old s.reservation ∧ OthersAllow σ i new.reservation :=
  hσ.set_iff hs old (fun k => updateShareCounters_get σ.share old new.reservation k) hdupe

theorem set_keep (hkeep : s'.reservation = s.reservation) (hdupe : DupeCounts s'.pending) :
    SharesSound (σ.set σ.share i s') := by
  refine (hσ.set_iff hs s.reservation (fun k => ?_) hdupe).2 ⟨fun _ => rfl, ?_⟩
  · rw [hkeep]
    omega
  · rw [hkeep]
    exact fun j _ hne t ht => ⟨hσ.compatible i j s t hne.symm hs ht, hσ.compatible j i t s hne ht hs⟩

end

end SharesSound

theorem idleState_some {σ : ShareFile} {i : Nat} {s : ShareState} (h : σ.idleState i = some s) :
    σ.states[i]? = some s ∧ s.pending = .idle := by
  obtain ⟨t, ht, hidle⟩ := bind_eq_some_iff.1 h
  cases hp : t.pending with
  | idle =>
    simp only [hp, some.injEq] at hidle
    exact ⟨hidle ▸ ht, hidle ▸ hp⟩
  | _ => simp [hp] at hidle

/-- The step subtracts from the counters what the state has in them, and a reopen that fails finds
nothing that denies its old flags. -/
def ReservationKept (σ : ShareFile) : ShareAction → Prop
  | .openByHandle i openflags =>
    ∀ s ∈ σ.states[i]?, checkShareConflict σ.share openflags false = .noError →
      SameShare fsalOClosed s.reservation
  | .merge i =>
    ∀ s ∈ σ.states[i]?,
      match s.pending with
      | .merging _ dupe => mergeShare σ.share dupe ≠ none → SameShare fsalOClosed s.reservation
      | _ => True
  | .reopen i openflags =>
    ∀ s ∈ σ.states[i]?, checkShareConflict σ.share openflags false = .noError →
      SameShare s.openflags s.reservation
  | .opened i success =>
    ∀ s ∈ σ.states[i]?,
      match s.pending with
      | .reopening _ oldOpenflags => success = false → OthersAllow σ i oldOpenflags
      | _ => True
  | .close i =>
    ∀ s ∈ σ.states[i]?,
      match s.pending with
      | .idle => SameShare s.openflags s.reservation
      | _ => True
  | _ => True

instance (σ : ShareFile) (a : ShareAction) : Decidable (ReservationKept σ a) := by
  unfold ReservationKept
  split
  case h_2 | h_4 | h_5 =>
    exact @Option.decidableForallMem _ _ (fun s => by cases s.pending <;> infer_instance) _
  all_goals infer_instance

structure ShareInv (σ : ShareFile) : Prop where
  sound : SharesSound σ
  pending : ∀ s ∈ σ.states, PendingOk s

theorem pendingOk_set {σ : ShareFile} (hσ : ∀ s ∈ σ.states, PendingOk s) (share : FsalShare)
    (i : Nat) {s : ShareState} (hs : PendingOk s) : ∀ t ∈ (σ.set share i s).states, PendingOk t := by
  intro t ht
  rcases mem_or_eq_of_mem_set ht with ht | rfl
  · exact hσ t ht
  · exact hs

section Steps

variable {σ τ : ShareFile} {i : Nat} {s : ShareState}

theorem forall_mem_of_some {p : ShareState → Prop} (hs : σ.states[i]? = some s) :
    (∀ t ∈ σ.states[i]?, p t) ↔ p s := by
  rw [hs]
  simp

section

variable (hσ : ShareInv σ) (hs : σ.states[i]? = some s)
include hσ hs

variable {openflags : OpenFlags}

theorem reserve_iff (hcheck : checkShareConflict σ.share openflags false = .noError)
    (old : OpenFlags) {new : ShareState} (hnew : new.reservation = openflags)
    (hpending : PendingOk new) (hdupe : DupeCounts new.pending) :
    (∀ t ∈ (σ.set (updateShareCounters σ.share old openflags) i new).states, PendingOk t) ∧
      ((checkShareConflict σ.share openflags false = .noError → SameShare old s.reservation) ↔
        SharesSound (σ.set (updateShareCounters σ.share old openflags) i new)) := by
  subst hnew
  refine ⟨pendingOk_set hσ.pending _ i hpending,
    Iff.trans ?_ (hσ.sound.update_iff hs old new hdupe).symm⟩
  have hallow : OthersAllow σ i new.reservation :=
    SharesSound.othersAllow_of_compatible (hσ.sound.counts.check hcheck)
  exact ⟨fun h => ⟨h hcheck, hallow⟩, fun h _ => h.1⟩

theorem openByHandle_iff (openflags : OpenFlags) :
    (∀ t ∈ (σ.openByHandle i s openflags).states, PendingOk t) ∧
      (ReservationKept σ (.openByHandle i openflags) ↔
        SharesSound (σ.openByHandle i s openflags)) := by
  rw [ReservationKept, forall_mem_of_some hs]
  unfold ShareFile.openByHandle
  split_ifs with hcheck
  · exact reserve_iff hσ hs hcheck fsalOClosed rfl rfl trivial
  · exact ⟨hσ.pending, fun _ => hσ.sound, fun _ h => absurd h hcheck⟩

theorem reopen_iff (openflags : OpenFlags) :
    (∀ t ∈ (σ.reopen i s openflags).states, PendingOk t) ∧
      (ReservationKept σ (.reopen i openflags) ↔ SharesSound (σ.reopen i s openflags)) := by
  rw [ReservationKept, forall_mem_of_some hs]
  unfold ShareFile.reopen
  split_ifs with hcheck
  · exact reserve_iff hσ hs hcheck s.openflags rfl rfl trivial
  · exact ⟨hσ.pending, fun _ => hσ.sound, fun _ h => absurd h hcheck⟩

theorem openByName_sound (hidle : s.pending = .idle) (openflags : OpenFlags) (result : OpenByName) :
    ShareInv (σ.openByName i s openflags result) := by
  cases result with
  | failed => exact hσ
  | failedOpen =>
    refine ⟨hσ.sound.set_keep hs rfl ?_, pendingOk_set hσ.pending _ i ?_⟩
    · rw [hidle]
      trivial
    · simp only [PendingOk, hidle]
  | opened =>
    exact ⟨hσ.sound.set_keep hs rfl (CountsOnly.update openflags), pendingOk_set hσ.pending _ i rfl⟩

theorem merge_iff {dupe : FsalShare} (hp : s.pending = .merging openflags dupe) :
    (∀ t ∈ (σ.merge i s openflags dupe).states, PendingOk t) ∧
      (ReservationKept σ (.merge i) ↔ SharesSound (σ.merge i s openflags dupe)) := by
  have hdupe : CountsOnly dupe openflags := by
    have h := hσ.sound.dupes s (mem_of_getElem? hs)
    rwa [hp] at h
  have hfd : s.openflags = fsalONfsFlags openflags := by
    have h := hσ.pending s (mem_of_getElem? hs)
    rwa [PendingOk, hp] at h
  rw [ReservationKept, forall_mem_of_some hs, hp]
  unfold ShareFile.merge
  cases hmerge : mergeShare σ.share dupe with
  | none =>
    refine ⟨pendingOk_set hσ.pending _ i hfd, fun _ => ?_, fun _ h => absurd hmerge h⟩
    exact hσ.sound.set_keep hs rfl hdupe
  | some merged =>
    obtain ⟨hallow, hget⟩ := hσ.sound.counts.merge hdupe hmerge
    have hiff : SharesSound (σ.set merged i { s with reservation := openflags, pending := .idle }) ↔
        SameShare fsalOClosed s.reservation ∧ OthersAllow σ i openflags :=
      hσ.sound.set_iff hs fsalOClosed hget trivial
    refine ⟨pendingOk_set hσ.pending _ i trivial, Iff.trans ?_ hiff.symm⟩
    have hmerged : mergeShare σ.share dupe ≠ none := by
      rw [hmerge]
      simp
    exact ⟨fun h => ⟨h hmerged, SharesSound.othersAllow_of_compatible hallow⟩, fun h _ => h.1⟩

/-- The counters are changed back from the flags the state holds, so only the old flags of a reopen
can be refused. -/
theorem opened_iff {success : Bool} (h : σ.opened i s s.pending success = some τ) :
    (∀ t ∈ τ.states, PendingOk t) ∧ (ReservationKept σ (.opened i success) ↔ SharesSound τ) := by
  have hpending := hσ.pending s (mem_of_getElem? hs)
  rw [ReservationKept, forall_mem_of_some hs]
  rw [PendingOk] at hpending
  cases hp : s.pending with
  | opening openflags =>
    rw [hp] at h hpending
    cases success with
    | true =>
      cases h
      exact ⟨pendingOk_set hσ.pending _ i trivial,
        fun _ => hσ.sound.set_keep hs rfl trivial, fun _ => trivial⟩
    | false =>
      cases h
      refine ⟨pendingOk_set hσ.pending _ i trivial, fun _ => ?_, fun _ => trivial⟩
      refine (hσ.sound.update_iff hs openflags ⟨fsalOClosed, fsalOClosed, .idle⟩ trivial).2 ?_
      exact ⟨fun k => by rw [hpending], SharesSound.othersAllow_closed σ i⟩
  | reopening openflags oldOpenflags =>
    rw [hp] at h hpending
    cases success with
    | true =>
      cases h
      exact ⟨pendingOk_set hσ.pending _ i trivial,
        fun _ => hσ.sound.set_keep hs rfl trivial, fun _ h => by cases h⟩
    | false =>
      cases h
      have hiff := hσ.sound.update_iff hs openflags
        { s with reservation := oldOpenflags, pending := .idle } trivial
      refine ⟨pendingOk_set hσ.pending _ i trivial, Iff.trans ?_ hiff.symm⟩
      exact ⟨fun hallow => ⟨fun k => by rw [hpending], hallow rfl⟩, fun hboth _ => hboth.2⟩
  | _ =>
    rw [hp] at h
    cases h

theorem close_iff (h : σ.close i s s.pending = some τ) :
    (∀ t ∈ τ.states, PendingOk t) ∧ (ReservationKept σ (.close i) ↔ SharesSound τ) := by
  rw [ReservationKept, forall_mem_of_some hs]
  cases hp : s.pending with
  | idle =>
    rw [hp] at h
    cases h
    have hiff := hσ.sound.update_iff hs s.openflags
      { s with reservation := fsalOClosed, pending := .closing none } trivial
    refine ⟨pendingOk_set hσ.pending _ i trivial, Iff.trans ?_ hiff.symm⟩
    exact ⟨fun hsame => ⟨hsame, SharesSound.othersAllow_closed σ i⟩, fun hboth => hboth.1⟩
  | refused openflags dupe =>
    have hdupe := hσ.sound.dupes s (mem_of_getElem? hs)
    have hfd := hσ.pending s (mem_of_getElem? hs)
    rw [PendingOk, hp] at hfd
    rw [hp] at h hdupe
    cases h
    refine ⟨pendingOk_set hσ.pending _ i trivial, fun _ => ?_, fun _ => trivial⟩
    refine hσ.sound.set_keep hs rfl (CountsOnly.close fun k => ?_)
    rw [hfd, shareWeight_nfsFlags]
    exact hdupe k
  | _ =>
    rw [hp] at h
    cases h

end

theorem allocState_sound (hσ : ShareInv σ) :
    ShareInv { σ with states := σ.states ++ [⟨fsalOClosed, fsalOClosed, .idle⟩] } := by
  refine ⟨⟨fun k => ?_, hσ.sound.nonneg, fun s hs => ?_, ?_⟩, fun s hs => ?_⟩
  · rw [hσ.sound.counts k]
    simp
  · rcases mem_append.1 hs with hs | hs
    · exact hσ.sound.dupes s hs
    · rw [mem_singleton.1 hs]
      trivial
  · intro a b s t hne hs ht
    rcases getElem?_append_cases hs with ⟨-, rfl⟩ | ⟨-, hs⟩
    · exact (compatible_closed _).1
    · rcases getElem?_append_cases ht with ⟨-, rfl⟩ | ⟨-, ht⟩
      · exact (compatible_closed _).2
      · exact hσ.sound.compatible a b s t hne hs ht
  · rcases mem_append.1 hs with hs | hs
    · exact hσ.pending s hs
    · rw [mem_singleton.1 hs]
      trivial

end Steps

theorem shareMachine_step {σ τ : ShareFile} {a : ShareAction} (hσ : ShareInv σ)
    (h : shareMachine.step σ a = some τ) :
    (∀ s ∈ τ.states, PendingOk s) ∧ (ReservationKept σ a ↔ SharesSound τ) := by
  have hinv : ShareInv τ → (∀ s ∈ τ.states, PendingOk s) ∧ (True ↔ SharesSound τ) :=
    fun hτ => ⟨hτ.pending, fun _ => hτ.sound, fun _ => trivial⟩
  cases a with
  | allocState =>
    cases h
    exact hinv (allocState_sound hσ)
  | openByHandle i openflags =>
    obtain ⟨s, hs, rfl⟩ := map_eq_some_iff.1 h
    exact openByHandle_iff hσ (idleState_some hs).1 openflags
  | openByName i openflags result =>
    obtain ⟨s, hs, rfl⟩ := map_eq_some_iff.1 h
    obtain ⟨hget, hidle⟩ := idleState_some hs
    exact hinv (openByName_sound hσ hget hidle openflags result)
  | merge i =>
    obtain ⟨s, hs, hmerge⟩ := bind_eq_some_iff.1 h
    cases hp : s.pending with
    | merging openflags dupe =>
      simp only [hp, some.injEq] at hmerge
      subst hmerge
      exact merge_iff hσ hs hp
    | _ => simp [hp] at hmerge
  | reopen i openflags =>
    obtain ⟨s, hs, rfl⟩ := map_eq_some_iff.1 h
    exact reopen_iff hσ (idleState_some hs).1 openflags
  | opened i success =>
    obtain ⟨s, hs, hopened⟩ := bind_eq_some_iff.1 h
    exact opened_iff hσ hs hopened
  | close i =>
    obtain ⟨s, hs, hclose⟩ := bind_eq_some_iff.1 h
    exact close_iff hσ hs hclose
  | closed i =>
    obtain ⟨s, hs, hclosed⟩ := bind_eq_some_iff.1 h
    cases hp : s.pending with
    | closing dupe =>
      simp only [hp, some.injEq] at hclosed
      subst hclosed
      exact hinv ⟨hσ.sound.set_keep hs rfl trivial, pendingOk_set hσ.pending _ i trivial⟩
    | _ => simp [hp] at hclosed

/-- In a run whose steps keep reservations, the counters are the sums over the reservations held and
no two of them conflict; a step that does not keep them breaks this. -/
theorem shares_sound_iff {σ : ShareFile} (hσ : shareMachine.ReachableBy ReservationKept σ) :
    SharesSound σ ∧ ∀ a τ, shareMachine.step σ a = some τ →
      (ReservationKept σ a ↔ SharesSound τ) := by
  have hinv : ShareInv σ := by
    refine Machine.ReachableBy.invariant ?_ ?_ hσ
    · rintro s rfl
      refine ⟨⟨?_, ?_, by simp, by simp⟩, by simp⟩
      · intro k
        cases k <;> rfl
      · intro k
        cases k <;> decide
    · intro s a t hs hguard hstep
      obtain ⟨hpending, hiff⟩ := shareMachine_step hs hstep
      exact ⟨hiff.1 hguard, hpending⟩
  exact ⟨hinv.sound, fun a τ hstep => (shareMachine_step hinv hstep).2⟩

def downgradeRun : List ShareAction :=
  [.allocState, .openByHandle 0 fsalORdwr, .opened 0 true,
    .allocState, .openByName 1 fsalORead .opened, .merge 1,
    .reopen 0 fsalORead, .opened 0 true]

theorem shares_sound_downgraded :
    ∃ σ : ShareFile, shareMachine.ReachableBy ReservationKept σ ∧
      σ.share = ⟨2, 0, 0, 0, 0⟩ ∧ SharesSound σ := by
  have hrun : (shareMachine.runFromBy ReservationKept ⟨empty, []⟩ downgradeRun).map
      (·.share) = some ⟨2, 0, 0, 0, 0⟩ := by
    decide +kernel
  obtain ⟨σ, hreach, hshare⟩ := Machine.exists_reachableBy hrun (.init rfl)
  exact ⟨σ, hreach, hshare, (shares_sound_iff hreach).1⟩

/-- While the first state is being downgraded to reading, the second opens the file and denies
writing; the reopen of the first then fails. -/
def failedDowngradeRun : List ShareAction :=
  [.allocState, .openByHandle 0 fsalORdwr, .opened 0 true, .reopen 0 fsalORead,
    .allocState, .openByHandle 1 (fsalORead ||| fsalODenyWrite), .opened 1 true,
    .opened 0 false]

/-- The first state may write again, and the second denies it. -/
theorem failed_downgrade_conflicts :
    ∃ σ : ShareFile, shareMachine.Reachable σ ∧ ¬ SharesSound σ := by
  have hrun : (shareMachine.runFrom ⟨empty, []⟩ failedDowngradeRun).map
      (fun σ => σ.states.map (·.reservation)) = some [fsalORdwr, fsalORead ||| fsalODenyWrite] := by
    decide +kernel
  obtain ⟨σ, hreach, hstates⟩ := Machine.exists_reachable hrun (.init rfl)
  refine ⟨σ, hreach, fun hsound => ?_⟩
  have hget : ∀ {i : Nat} {flags : OpenFlags},
      [fsalORdwr, fsalORead ||| fsalODenyWrite][i]? = some flags →
        ∃ s, σ.states[i]? = some s ∧ s.reservation = flags := by
    intro i flags h
    rw [← hstates, getElem?_map] at h
    exact map_eq_some_iff.1 h
  obtain ⟨s, hs, hsflags⟩ := hget (i := 0) rfl
  obtain ⟨t, ht, htflags⟩ := hget (i := 1) rfl
  have hdenied := hsound.compatible 0 1 s t (by decide) hs ht
  rw [hsflags, htflags] at hdenied
  exact hdenied (by decide)

end EdgeComputing.Fsal
