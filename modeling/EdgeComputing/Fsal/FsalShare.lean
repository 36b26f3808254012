import EdgeComputing.Fsal.FsalErr
import EdgeComputing.Library.Table

/-!
The share counters of an object handle. They are integers, so that a decrement below zero shows;
every reservation has its own descriptor, which keeps them far below the source's width.
-/

namespace EdgeComputing.Fsal

open Library

abbrev OpenFlags := BitVec 16

def fsalOClosed : OpenFlags := 0x0000#16
def fsalORead : OpenFlags := 0x0001#16
def fsalOWrite : OpenFlags := 0x0002#16
def fsalORdwr : OpenFlags := fsalORead ||| fsalOWrite
def fsalODenyRead : OpenFlags := 0x0100#16
def fsalODenyWrite : OpenFlags := 0x0200#16
def fsalODenyWriteMand : OpenFlags := 0x0400#16

def fsalOOpenflags : OpenFlags :=
  fsalORdwr ||| fsalODenyRead ||| fsalODenyWrite ||| fsalODenyWriteMand

def fsalONfsFlags (flags : OpenFlags) : OpenFlags := flags &&& fsalOOpenflags

def OpenFlags.has (flags bit : OpenFlags) : Bool := flags &&& bit != 0

structure FsalShare where
  shareAccessRead : Int
  shareAccessWrite : Int
  shareDenyRead : Int
  shareDenyWrite : Int
  shareDenyWriteMand : Int
  deriving DecidableEq

def FsalShare.empty : FsalShare := ⟨0, 0, 0, 0, 0⟩

def shareInc (bit oldOpenflags newOpenflags : OpenFlags) : Int :=
  (newOpenflags.has bit).toInt - (oldOpenflags.has bit).toInt

def updateShareCounters (share : FsalShare) (oldOpenflags newOpenflags : OpenFlags) :
    FsalShare where
  shareAccessRead := share.shareAccessRead + shareInc fsalORead oldOpenflags newOpenflags
  shareAccessWrite := share.shareAccessWrite + shareInc fsalOWrite oldOpenflags newOpenflags
  shareDenyRead := share.shareDenyRead + shareInc fsalODenyRead oldOpenflags newOpenflags
  shareDenyWrite := share.shareDenyWrite + (shareInc fsalODenyWrite oldOpenflags newOpenflags
    + shareInc fsalODenyWriteMand oldOpenflags newOpenflags)
  shareDenyWriteMand :=
    share.shareDenyWriteMand + shareInc fsalODenyWriteMand oldOpenflags newOpenflags

def checkShareConflict (share : FsalShare) (openflags : OpenFlags) (bypass : Bool) : FsalErr :=
  if openflags.has fsalORead ∧ share.shareDenyRead > 0 ∧ !bypass then .shareDenied
  else if openflags.has fsalOWrite
      ∧ (share.shareDenyWriteMand > 0 ∨ !bypass ∧ share.shareDenyWrite > 0) then .shareDenied
  else if openflags.has fsalODenyRead ∧ share.shareAccessRead > 0 then .shareDenied
  else if (openflags.has fsalODenyWrite ∨ openflags.has fsalODenyWriteMand)
      ∧ share.shareAccessWrite > 0 then .shareDenied
  else .noError

/-- `merge_share`: `none` for a conflict, otherwise the counters of the original. -/
def mergeShare (origShare dupeShare : FsalShare) : Option FsalShare :=
  if dupeShare.shareAccessRead > 0 ∧ origShare.shareDenyRead > 0 then none
  else if dupeShare.shareDenyRead > 0 ∧ origShare.shareAccessRead > 0 then none
  else if dupeShare.shareAccessWrite > 0 ∧ origShare.shareDenyWrite > 0 then none
  else if dupeShare.shareDenyWrite > 0 ∧ origShare.shareAccessWrite > 0 then none
  else some
    { shareAccessRead := origShare.shareAccessRead + dupeShare.shareAccessRead
      shareAccessWrite := origShare.shareAccessWrite + dupeShare.shareAccessWrite
      shareDenyRead := origShare.shareDenyRead + dupeShare.shareDenyRead
      shareDenyWrite := origShare.shareDenyWrite + dupeShare.shareDenyWrite
      shareDenyWriteMand := origShare.shareDenyWriteMand + dupeShare.shareDenyWriteMand }

inductive ShareCounter where
  | accessRead
  | accessWrite
  | denyRead
  | denyWrite
  | denyWriteMand
  deriving DecidableEq

def ShareCounter.all : List ShareCounter :=
  [.accessRead, .accessWrite, .denyRead, .denyWrite, .denyWriteMand]

theorem ShareCounter.mem_all (k : ShareCounter) : k ∈ ShareCounter.all := by
  cases k <;> decide

def FsalShare.get (share : FsalShare) : ShareCounter → Int
  | .accessRead => share.shareAccessRead
  | .accessWrite => share.shareAccessWrite
  | .denyRead => share.shareDenyRead
  | .denyWrite => share.shareDenyWrite
  | .denyWriteMand => share.shareDenyWriteMand

/-- How much a reservation adds to a counter. Both ways to deny writing count for the fourth. -/
def shareWeight (flags : OpenFlags) : ShareCounter → Nat
  | .accessRead => (flags.has fsalORead).toNat
  | .accessWrite => (flags.has fsalOWrite).toNat
  | .denyRead => (flags.has fsalODenyRead).toNat
  | .denyWrite => (flags.has fsalODenyWrite).toNat + (flags.has fsalODenyWriteMand).toNat
  | .denyWriteMand => (flags.has fsalODenyWriteMand).toNat

def CountsOnly (share : FsalShare) (flags : OpenFlags) : Prop :=
  ∀ k, share.get k = shareWeight flags k

def SameShare (flags flags' : OpenFlags) : Prop :=
  ∀ k, shareWeight flags k = shareWeight flags' k

instance (flags flags' : OpenFlags) : Decidable (SameShare flags flags') :=
  decidable_of_iff (∀ k ∈ ShareCounter.all, shareWeight flags k = shareWeight flags' k)
    ⟨fun h k => h k k.mem_all, fun h k _ => h k⟩

def DeniedBy (flags flags' : OpenFlags) : Prop :=
  (flags.has fsalORead ∧ flags'.has fsalODenyRead) ∨
    (flags.has fsalOWrite ∧ (flags'.has fsalODenyWrite ∨ flags'.has fsalODenyWriteMand))

def Compatible (flags flags' : OpenFlags) : Prop :=
  ¬ DeniedBy flags flags' ∧ ¬ DeniedBy flags' flags

instance (flags flags' : OpenFlags) : Decidable (DeniedBy flags flags') :=
  inferInstanceAs (Decidable (_ ∧ _ ∨ _ ∧ (_ ∨ _)))

instance (flags flags' : OpenFlags) : Decidable (Compatible flags flags') :=
  inferInstanceAs (Decidable (_ ∧ _))

@[simp] theorem has_closed (bit : OpenFlags) : fsalOClosed.has bit = false := by
  simp [OpenFlags.has, fsalOClosed]

@[simp] theorem shareWeight_closed (k : ShareCounter) : shareWeight fsalOClosed k = 0 := by
  cases k <;> simp [shareWeight]

theorem compatible_closed (flags : OpenFlags) : Compatible fsalOClosed flags := by
  simp [Compatible, DeniedBy]

theorem shareWeight_nfsFlags (flags : OpenFlags) (k : ShareCounter) :
    shareWeight (fsalONfsFlags flags) k = shareWeight flags k := by
  have hhas : ∀ bit, fsalOOpenflags &&& bit = bit →
      (fsalONfsFlags flags).has bit = flags.has bit := by
    intro bit hbit
    rw [OpenFlags.has, fsalONfsFlags, BitVec.and_assoc, hbit, OpenFlags.has]
  cases k <;> simp only [shareWeight] <;> (repeat rw [hhas _ (by decide)])

theorem updateShareCounters_get (share : FsalShare) (old new : OpenFlags) (k : ShareCounter) :
    (updateShareCounters share old new).get k =
      share.get k + shareWeight new k - shareWeight old k := by
  have hbit : ∀ b : Bool, b.toInt = (b.toNat : Int) := by decide
  cases k <;>
    simp only [FsalShare.get, updateShareCounters, shareInc, shareWeight, hbit] <;>
    omega

theorem CountsOnly.update (flags : OpenFlags) :
    CountsOnly (updateShareCounters .empty fsalOClosed flags) flags := by
  intro k
  rw [updateShareCounters_get, shareWeight_closed]
  cases k <;> simp [FsalShare.get, FsalShare.empty]

variable {share : FsalShare} {flags : OpenFlags}

theorem CountsOnly.close (h : CountsOnly share flags) (k : ShareCounter) :
    (updateShareCounters share flags fsalOClosed).get k = 0 := by
  rw [updateShareCounters_get, h k, shareWeight_closed]
  omega

def Counts (share : FsalShare) (reservations : List OpenFlags) : Prop :=
  ∀ k, share.get k = ((reservations.map (shareWeight · k)).sum : Nat)

variable {reservations : List OpenFlags}

theorem Counts.weight_zero (h : Counts share reservations) {k : ShareCounter}
    (hk : ¬ share.get k > 0) (hflags : flags ∈ reservations) : shareWeight flags k = 0 := by
  obtain ⟨i, hi⟩ := List.getElem?_of_mem hflags
  have hle := le_sum_map (shareWeight · k) hi
  have hsum := h k
  omega

theorem not_has_of_toNat {b : Bool} (h : b.toNat = 0) : ¬ b = true := by
  cases b
  · simp
  · cases h

theorem Counts.compatible {share : FsalShare} {reservations : List OpenFlags}
    (h : Counts share reservations) {flags : OpenFlags}
    (hread : flags.has fsalORead → ¬ share.shareDenyRead > 0)
    (hwrite : flags.has fsalOWrite → ¬ share.shareDenyWrite > 0)
    (hdenyRead : flags.has fsalODenyRead → ¬ share.shareAccessRead > 0)
    (hdenyWrite : (flags.has fsalODenyWrite ∨ flags.has fsalODenyWriteMand) →
      ¬ share.shareAccessWrite > 0) :
    ∀ held ∈ reservations, Compatible flags held := by
  intro held hheld
  constructor
  · rintro (⟨hf, hg⟩ | ⟨hf, hg⟩)
    · exact not_has_of_toNat (h.weight_zero (k := .denyRead) (hread hf) hheld) hg
    · have hzero := h.weight_zero (k := .denyWrite) (hwrite hf) hheld
      simp only [shareWeight, Nat.add_eq_zero_iff] at hzero
      exact hg.elim (not_has_of_toNat hzero.1) (not_has_of_toNat hzero.2)
  · rintro (⟨hf, hg⟩ | ⟨hf, hg⟩)
    · exact not_has_of_toNat (h.weight_zero (k := .accessRead) (hdenyRead hg) hheld) hf
    · exact not_has_of_toNat (h.weight_zero (k := .accessWrite) (hdenyWrite hg) hheld) hf

theorem Counts.check (h : Counts share reservations)
    (hcheck : checkShareConflict share flags false = .noError) :
    ∀ held ∈ reservations, Compatible flags held := by
  simp only [checkShareConflict, Bool.not_false, and_true, true_and] at hcheck
  split_ifs at hcheck with hread hwrite hdenyRead hdenyWrite
  refine h.compatible ?_ ?_ ?_ ?_
  · exact fun hf hpos => hread ⟨hf, hpos⟩
  · exact fun hf hpos => hwrite ⟨hf, .inr hpos⟩
  · exact fun hf hpos => hdenyRead ⟨hf, hpos⟩
  · exact fun hf hpos => hdenyWrite ⟨hf, hpos⟩

theorem CountsOnly.pos (h : CountsOnly share flags) {k : ShareCounter}
    (hk : 0 < shareWeight flags k) : share.get k > 0 := by
  rw [h k]
  omega

theorem Counts.merge {dupe merged : FsalShare} (h : Counts share reservations)
    (hdupe : CountsOnly dupe flags) (hmerge : mergeShare share dupe = some merged) :
    (∀ held ∈ reservations, Compatible flags held) ∧
      ∀ k, merged.get k = share.get k + shareWeight flags k - shareWeight fsalOClosed k := by
  have hpos : ∀ {b : Bool}, b = true → 0 < b.toNat := by decide
  unfold mergeShare at hmerge
  split_ifs at hmerge with hread hdenyRead hwrite hdenyWrite
  cases hmerge
  constructor
  · refine h.compatible ?_ ?_ ?_ ?_
    · exact fun hf hshare => hread ⟨hdupe.pos (k := .accessRead) (hpos hf), hshare⟩
    · exact fun hf hshare => hwrite ⟨hdupe.pos (k := .accessWrite) (hpos hf), hshare⟩
    · exact fun hf hshare => hdenyRead ⟨hdupe.pos (k := .denyRead) (hpos hf), hshare⟩
    · intro hf hshare
      refine hdenyWrite ⟨hdupe.pos (k := .denyWrite) ?_, hshare⟩
      rcases hf with hf | hf
      · exact Nat.add_pos_left (hpos hf) _
      · exact Nat.add_pos_right _ (hpos hf)
  · intro k
    have hk := hdupe k
    cases k <;> simp only [FsalShare.get, shareWeight_closed] at hk ⊢ <;> omega

end EdgeComputing.Fsal
