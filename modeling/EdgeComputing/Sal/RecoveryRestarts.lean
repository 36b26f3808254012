import EdgeComputing.Sal.RecoveryRoundTrip
import Mathlib.Logic.Function.Iterate

/-!
What restarts in a row load from the store. A restart loads the clients of both directories, removes
those of the old one and moves those of the current one to their place, without their markers, which
are moved to the directory above.
-/

namespace EdgeComputing.Sal

open List Library PathTree Written

/-- The contents that the operations of the store lead to from empty directories. Entries may be
listed in any order, and a takeover reads the directory of another node. -/
inductive StoreReached (recovDirLen : Nat) : RecovDirs → Prop
  | empty : StoreReached recovDirLen ⟨.nil, .nil⟩
  | relist {s t : RecovDirs} : StoreReached recovDirLen s → t.old.paths.Perm s.old.paths →
      t.recov.paths.Perm s.recov.paths → StoreReached recovDirLen t
  | addClid {s : RecovDirs} {c : RecovClient} {recov : Dir} : StoreReached recovDirLen s →
      fsAddClid recovDirLen s.recov c = some recov → StoreReached recovDirLen { s with recov }
  | addRevokeFh {s : RecovDirs} {c : RecovClient} {tag rhdlstr : Text} {recov : Dir} :
      StoreReached recovDirLen s → fsCreateClidName c = some tag →
      fsAddRevokeFh recovDirLen s.recov tag rhdlstr = some recov →
      StoreReached recovDirLen { s with recov }
  | rmClid {s : RecovDirs} {c : RecovClient} {tag : Text} : StoreReached recovDirLen s →
      fsCreateClidName c = some tag →
      StoreReached recovDirLen { s with recov := fsRmClidImpl s.recov (recovPath tag) }
  | recover {s : RecovDirs} : StoreReached recovDirLen s →
      StoreReached recovDirLen (fsReadRecovClidsRecover s).2
  | takeover {s node : RecovDirs} : StoreReached recovDirLen s → StoreReached recovDirLen node →
      StoreReached recovDirLen (fsReadRecovClidsTakeover node.recov s).2
  | cleanOld {s : RecovDirs} : StoreReached recovDirLen s →
      StoreReached recovDirLen { s with old := fsCleanOldRecovDirImpl s.old }

variable {t : Dir}

theorem Written.sublist {t' : Dir} (h : Written t) (hsub : t'.paths.Sublist t.paths) : Written t' :=
  ⟨hsub.nodup h.nodup, fun q hq => h.mem q (hsub.subset hq)⟩

theorem Written.made {q : List FileName} (h : Written t)
   
    (hq : ∃ (c : RecovClient) (p : List FileName), p <+: recovPath (recovTag c) ∧
      (q = p ∨ ∃ handle, q = p ++ [revokedName handle])) :
    Written (made t q) := by
  rw [made_eq_ensure, ensure]
  have hspec := insert_spec h.nodup q
  generalize t.insert q = result at hspec
  match result, hspec with
  | .ok t', ⟨hnot, hperm⟩ =>
    refine ⟨hperm.nodup_iff.2 (nodup_cons.2 ⟨hnot, h.nodup⟩), fun r hr => ?_⟩
    rcases mem_cons.1 (hperm.mem_iff.1 hr) with rfl | hr
    · exact hq
    · exact h.mem r hr
  | .error _, _ => exact h

theorem fsRmClidImpl_sublist (t : Dir) (path : List FileName) :
    (fsRmClidImpl t path).paths.Sublist t.paths := by
  induction t generalizing path with
  | nil =>
    cases path with
    | nil => exact filterTop_paths_sublist _ _
    | cons head tail => exact List.Sublist.refl _
  | cons name sub rest ihsub ihrest =>
    cases path with
    | nil => exact filterTop_paths_sublist _ _
    | cons head tail =>
      simp only [fsRmClidImpl]
      split_ifs
      · exact (sublist_append_right _ _).cons _
      · exact (((ihsub tail).map _).append (List.Sublist.refl _)).cons_cons _
      · exact ((List.Sublist.refl _).append (ihrest _)).cons_cons _

theorem fsCleanOldRecovDirImpl_eq (t : Dir) : fsCleanOldRecovDirImpl t = .nil := by
  induction t with
  | nil => rfl
  | cons name sub rest ihsub ihrest =>
    simp only [fsCleanOldRecovDirImpl, ihsub, ihrest, if_true, ite_self]

theorem Written.left (h : Written t) (takeover : Bool) (tgtdir : Option (List FileName))
    (target : Dir) : Written (fsReadRecovClidsImpl takeover [] tgtdir t target).left :=
  h.sublist (read_left_sublist t [] tgtdir target)

theorem Written.target {target : Dir} (h : Written t) (htarget : Written target) (takeover : Bool) :
    Written (fsReadRecovClidsImpl takeover [] (some []) t target).target := by
  obtain ⟨hnodup, hmem⟩ := read_target takeover t [] htarget.nodup
    (.inl rfl : InTarget [] target)
  refine ⟨hnodup, fun q hq => ?_⟩
  rcases (hmem q).1 hq with hq | ⟨p, hp, hvisible, rfl⟩ | ⟨r, hr, handle, -, rfl⟩
  · exact htarget.mem q hq
  · obtain ⟨c, hc⟩ := h.of_visible hp hvisible
    exact ⟨c, q, hc, .inl rfl⟩
  · have hends := (records_sound h.nodup hr).1
    obtain ⟨c, hc⟩ := h.of_visible hends.mem hends.visible
    exact ⟨c, r.1.dropLast, (List.dropLast_prefix _).trans hc, .inr ⟨handle, rfl⟩⟩

structure StoreWritten (s : RecovDirs) : Prop where
  old : Written s.old
  recov : Written s.recov

variable {s : RecovDirs} {l l' : List ClidEntry} {name handle : Text}

theorem StoreWritten.recover (h : StoreWritten s) : StoreWritten (fsReadRecovClidsRecover s).2 :=
  ⟨h.recov.target (h.old.left false none .nil) false, h.recov.left false _ _⟩

theorem StoreReached.written {recovDirLen : Nat} (h : StoreReached recovDirLen s) : StoreWritten s := by
  induction h with
  | empty => exact ⟨nil, nil⟩
  | relist _ hold hrecov ih => exact ⟨ih.old.perm hold, ih.recov.perm hrecov⟩
  | addClid _ hadd ih => exact ⟨ih.old, (fsAddClid_paths ih.recov hadd).1⟩
  | @addRevokeFh s c tag rhdlstr recov _ htag hadd ih =>
    refine ⟨ih.old, ?_⟩
    unfold fsAddRevokeFh at hadd
    dsimp only at hadd
    split_ifs at hadd
    cases hadd
    obtain rfl := fsCreateClidName_eq htag
    exact ih.recov.made ⟨c, _, prefix_refl _, .inr ⟨rhdlstr, rfl⟩⟩
  | rmClid _ _ ih => exact ⟨ih.old, ih.recov.sublist (fsRmClidImpl_sublist _ _)⟩
  | recover _ ih => exact ih.recover
  | takeover _ _ ih ihnode => exact ⟨ihnode.recov.target ih.old true, ih.recov⟩
  | cleanOld _ ih =>
    refine ⟨?_, ih.recov⟩
    rw [fsCleanOldRecovDirImpl_eq]
    exact nil

def Recorded (t : Dir) (name : Text) : Prop :=
  ∃ p ∈ t.paths, Visible p ∧ clidFormat p.flatten = .complete ∧ p.flatten = name

def RecordedHandle (t : Dir) (name handle : Text) : Prop :=
  ∃ p ∈ t.paths, Visible p ∧ clidFormat p.flatten = .complete ∧ p.flatten = name ∧
    p ++ [revokedName handle] ∈ t.paths

theorem RecordedHandle.recorded (h : RecordedHandle t name handle) : Recorded t name := by
  obtain ⟨p, hp, hvisible, hcomplete, hname, -⟩ := h
  exact ⟨p, hp, hvisible, hcomplete, hname⟩

def LoadsName (l : List ClidEntry) (name : Text) : Prop := ∃ e ∈ l, e.clName = name

def LoadsHandle (l : List ClidEntry) (name handle : Text) : Prop :=
  ∃ e ∈ l, e.clName = name ∧ handle ∈ e.clRfhList

theorem loadsName_append {name : Text} :
    LoadsName (l ++ l') name ↔ LoadsName l name ∨ LoadsName l' name := by
  simp only [LoadsName, mem_append, or_and_right, exists_or]

theorem loadsHandle_append :
    LoadsHandle (l ++ l') name handle ↔ LoadsHandle l name handle ∨ LoadsHandle l' name handle := by
  simp only [LoadsHandle, mem_append, or_and_right, exists_or]

theorem Written.loads (h : Written t) (takeover : Bool) (tgtdir : Option (List FileName))
    (target : Dir) :
    (∀ name, LoadsName (fsReadRecovClidsImpl takeover [] tgtdir t target).calls name ↔
      Recorded t name) ∧
    ∀ name handle, LoadsHandle (fsReadRecovClidsImpl takeover [] tgtdir t target).calls name handle ↔
      RecordedHandle t name handle := by
  rw [read_calls]
  constructor
  · intro name
    constructor
    · rintro ⟨e, he, rfl⟩
      obtain ⟨r, hr, rfl⟩ := mem_map.1 he
      obtain ⟨hmem, hvisible, hcomplete⟩ := h.ends_iff.1 (records_sound h.nodup hr).1
      exact ⟨r.1, hmem, hvisible, hcomplete, rfl⟩
    · rintro ⟨p, hp, hvisible, hcomplete, rfl⟩
      obtain ⟨hs, hr⟩ := records_complete h.nodup (h.ends_iff.2 ⟨hp, hvisible, hcomplete⟩)
      exact ⟨_, mem_map_of_mem hr, rfl⟩
  · intro name handle
    constructor
    · rintro ⟨e, he, rfl, hhandle⟩
      obtain ⟨r, hr, rfl⟩ := mem_map.1 he
      obtain ⟨hends, hhandles⟩ := records_sound h.nodup hr
      obtain ⟨hmem, hvisible, hcomplete⟩ := h.ends_iff.1 hends
      exact ⟨r.1, hmem, hvisible, hcomplete, rfl, (hhandles handle).1 hhandle⟩
    · rintro ⟨p, hp, hvisible, hcomplete, rfl, hmarker⟩
      obtain ⟨hs, hr⟩ := records_complete h.nodup (h.ends_iff.2 ⟨hp, hvisible, hcomplete⟩)
      exact ⟨_, mem_map_of_mem hr, rfl, ((records_sound h.nodup hr).2 handle).2 hmarker⟩

theorem Written.not_recorded_left (h : Written t) (tgtdir : Option (List FileName)) (target : Dir)
    (name : Text) : ¬ Recorded (fsReadRecovClidsImpl false [] tgtdir t target).left name := by
  rintro ⟨p, hp, hvisible, hcomplete, -⟩
  have hmem := (read_left_sublist t [] tgtdir target).subset hp
  exact read_left_not_ends h.nodup h.onlyMarkersHidden [] tgtdir target
    (h.ends_iff.2 ⟨hmem, hvisible, hcomplete⟩) hp

theorem StoreWritten.loads (h : StoreWritten s) :
    (∀ name, LoadsName (fsReadRecovClidsRecover s).1 name ↔
      Recorded s.old name ∨ Recorded s.recov name) ∧
    ∀ name handle, LoadsHandle (fsReadRecovClidsRecover s).1 name handle ↔
      RecordedHandle s.old name handle ∨ RecordedHandle s.recov name handle := by
  obtain ⟨hold, hold'⟩ := h.old.loads false none .nil
  obtain ⟨hrecov, hrecov'⟩ := h.recov.loads false (some [])
    (fsReadRecovClidsImpl false [] none s.old .nil).left
  refine ⟨fun name => ?_, fun name handle => ?_⟩
  · exact loadsName_append.trans (or_congr (hold name) (hrecov name))
  · exact loadsHandle_append.trans (or_congr (hold' name handle) (hrecov' name handle))

/-- After a restart the old directory holds the clients that the current one held before, without
their handles, and the current one holds none. -/
theorem StoreWritten.after (h : StoreWritten s) :
    (∀ name, Recorded (fsReadRecovClidsRecover s).2.old name ↔ Recorded s.recov name) ∧
    (∀ name handle, ¬ RecordedHandle (fsReadRecovClidsRecover s).2.old name handle) ∧
    ∀ name, ¬ Recorded (fsReadRecovClidsRecover s).2.recov name := by
  have hleft := h.old.left false none .nil
  have hnone := h.old.not_recorded_left none .nil
  have hmem := (read_target false s.recov [] hleft.nodup
    (.inl rfl : InTarget [] _)).2
  refine ⟨fun name => ⟨?_, ?_⟩, ?_, h.recov.not_recorded_left _ _⟩
  · rintro ⟨p, hp, hvisible, hcomplete, rfl⟩
    rcases (hmem p).1 hp with hp | ⟨q, hq, -, rfl⟩ | ⟨r, -, handle, -, rfl⟩
    · exact absurd ⟨p, hp, hvisible, hcomplete, rfl⟩ (hnone p.flatten)
    · exact ⟨p, hq, hvisible, hcomplete, rfl⟩
    · exact absurd hvisible (not_visible_marker _ handle)
  · rintro ⟨p, hp, hvisible, hcomplete, rfl⟩
    exact ⟨p, (hmem p).2 (.inr (.inl ⟨p, hp, hvisible, rfl⟩)), hvisible, hcomplete, rfl⟩
  · rintro name handle ⟨p, hp, hvisible, hcomplete, -, hmarker⟩
    have hne := ne_nil_of_mem_paths hp
    rcases (hmem _).1 hmarker with hmarker | ⟨q, -, hqvisible, heq⟩ | ⟨r, hr, handle', -, heq⟩
    · exact hnone p.flatten ⟨p, mem_paths_of_append hne hmarker, hvisible, hcomplete, rfl⟩
    · rw [nil_append] at heq
      exact not_visible_marker p handle (heq ▸ hqvisible)
    · -- the marker is next to the last directory of a client, which no complete name leads on to
      rw [nil_append] at heq
      have hparent : p = r.1.dropLast := (append_inj' heq rfl).1
      obtain ⟨c, hc⟩ := h.recov.ends_path (records_sound h.recov.nodup hr).1
      have hpre : p <+: recovPath (recovTag c) := by
        rw [hparent, ← hc]
        exact List.dropLast_prefix _
      have hlength := congrArg List.length (recovPath_of_complete hcomplete hpre)
      rw [← hc, hparent, length_dropLast] at hlength
      have hpos := length_pos_iff.2 (hc ▸ recovPath_ne_nil c)
      omega

def afterRestarts (s : RecovDirs) (k : Nat) : RecovDirs :=
  (fun s => (fsReadRecovClidsRecover s).2)^[k] s

def restartLoads (s : RecovDirs) (k : Nat) : List ClidEntry :=
  (fsReadRecovClidsRecover (afterRestarts s k)).1

def SameLoads (l l' : List ClidEntry) : Prop :=
  (∀ name, LoadsName l name ↔ LoadsName l' name) ∧
    ∀ name handle, LoadsHandle l name handle ↔ LoadsHandle l' name handle

theorem afterRestarts_succ (s : RecovDirs) (k : Nat) :
    afterRestarts s (k + 1) = (fsReadRecovClidsRecover (afterRestarts s k)).2 :=
  Function.iterate_succ_apply' _ k s

theorem StoreWritten.afterRestarts (h : StoreWritten s) (k : Nat) : StoreWritten (afterRestarts s k) := by
  induction k with
  | zero => exact h
  | succ k ih =>
    rw [afterRestarts_succ]
    exact ih.recover

theorem StoreWritten.not_recorded_recov (h : StoreWritten s) (k : Nat) (name : Text) :
    ¬ Recorded (Sal.afterRestarts s (k + 1)).recov name := by
  rw [afterRestarts_succ]
  exact (h.afterRestarts k).after.2.2 name

theorem StoreWritten.second_loads (h : StoreWritten s) :
    (∀ name, LoadsName (restartLoads s 1) name ↔ Recorded s.recov name) ∧
      ∀ name handle, ¬ LoadsHandle (restartLoads s 1) name handle := by
  obtain ⟨hloads, hhandles⟩ := (h.afterRestarts 1).loads
  obtain ⟨hold, hnohandles, -⟩ := h.after
  refine ⟨fun name => (hloads name).trans ?_, fun name handle hload => ?_⟩
  · rw [or_iff_left (h.not_recorded_recov 0 name)]
    exact hold name
  · rcases (hhandles name handle).1 hload with hload | hload
    · exact hnohandles name handle hload
    · exact h.not_recorded_recov 0 name hload.recorded

theorem StoreWritten.later_loads (h : StoreWritten s) (k : Nat) :
    (∀ name, ¬ LoadsName (restartLoads s (k + 2)) name) ∧
      ∀ name handle, ¬ LoadsHandle (restartLoads s (k + 2)) name handle := by
  obtain ⟨hloads, hhandles⟩ := (h.afterRestarts (k + 2)).loads
  have hold : ∀ name, ¬ Recorded (Sal.afterRestarts s (k + 2)).old name := by
    intro name hname
    rw [afterRestarts_succ, (h.afterRestarts (k + 1)).after.1] at hname
    exact h.not_recorded_recov k name hname
  refine ⟨fun name hload => ?_, fun name handle hload => ?_⟩
  · rcases (hloads name).1 hload with hload | hload
    · exact hold name hload
    · exact h.not_recorded_recov (k + 1) name hload
  · rcases (hhandles name handle).1 hload with hload | hload
    · exact hold name hload.recorded
    · exact h.not_recorded_recov (k + 1) name hload.recorded

/-- There is one restart only, or no client, or two restarts with no handle and with no client in the
old directory alone. -/
def RestartsKeep (s : RecovDirs) (n : Nat) : Prop :=
  n ≤ 1 ∨ (∀ name, ¬ Recorded s.old name ∧ ¬ Recorded s.recov name) ∨
    n = 2 ∧ (∀ name, Recorded s.old name → Recorded s.recov name) ∧
      ∀ name handle, ¬ RecordedHandle s.old name handle ∧ ¬ RecordedHandle s.recov name handle

def shortClient : RecovClient where
  gshClient := some localAddr
  clientVal := ⟨[ascii 'a'], cons_ne_nil _ _⟩

def storeWith (markers : Dir) : RecovDirs := ⟨.nil, .cons (recovTag shortClient) markers .nil⟩

theorem storeWith_reached : StoreReached 30 (storeWith .nil) := by
  have hadd : fsAddClid 30 .nil shortClient = some (storeWith .nil).recov := by
    decide +kernel
  exact .addClid .empty hadd

end EdgeComputing.Sal
