import EdgeComputing.DeviceSdk.DeviceJson
import EdgeComputing.Library.Machine

/-!
Provision watchers. A watcher is stored with the compiled expressions of its identifiers; one that
does not compile is left out, and a watcher that replaces another is stored with none. Removing
watchers from the head of the list brings out every other one.
-/

namespace EdgeComputing.DeviceSdk

open List Option Library

structure BlockList where
  name : String
  values : List String

structure Watcher where
  id : String
  name : String
  identifiers : List NvPair
  blockingIdentifiers : List BlockList
  profile : String
  adminstate : AdminState

structure RegexLib (ρ : Type) where
  regcomp : String → Option ρ
  regexec : ρ → String → Bool

structure ListedWatcher (ρ : Type) where
  watcher : Watcher
  regs : List (String × ρ)

abbrev Watchlist (ρ : Type) := List (ListedWatcher ρ)

def nvpairsValue (ids : List NvPair) (name : String) : Option String :=
  (ids.find? (·.name = name)).map NvPair.value

variable {ρ : Type} (lib : RegexLib ρ) (wl : Watchlist ρ)

/-- The copy that `add_locked` makes: each compiled expression goes to the head of the list. -/
def compiled (w : Watcher) : ListedWatcher ρ where
  watcher := w
  regs := (w.identifiers.filterMap fun i => (lib.regcomp i.value).map (i.name, ·)).reverse

def addLocked (w : Watcher) : Watchlist ρ := compiled lib w :: wl

def listed (id : String) : Bool := wl.any (·.watcher.id = id)

def removeWatcher (id : String) : Watchlist ρ := wl.eraseP (·.watcher.id = id)

def replaceFound (updated : Watcher) : Watchlist ρ → Watchlist ρ
  | [] => []
  | e :: wl =>
    if e.watcher.id = updated.id then ⟨updated, []⟩ :: wl else e :: replaceFound updated wl

def updateWatcher (updated : Watcher) : Watchlist ρ :=
  if listed wl updated.id then replaceFound updated wl else addLocked lib wl updated

def populateWatchers (newlist : List Watcher) : Watchlist ρ :=
  newlist.foldl (fun wl w => if listed wl w.id then wl else addLocked lib wl w) wl

def matchpw (pw : ListedWatcher ρ) (ids : List NvPair) : Bool :=
  (pw.regs.all fun r => (nvpairsValue ids r.1).any (lib.regexec r.2)) &&
    pw.watcher.blockingIdentifiers.all fun blocked =>
      (nvpairsValue ids blocked.name).all (· ∉ blocked.values)

def watchlistMatch (ids : List NvPair) : Option Watcher :=
  (wl.find? (matchpw lib · ids)).map ListedWatcher.watcher

inductive WatchCall where
  | populate (newlist : List Watcher)
  | update (updated : Watcher)
  | remove (id : String)

def WatchCall.run : WatchCall → Watchlist ρ
  | .populate newlist => populateWatchers lib wl newlist
  | .update updated => updateWatcher lib wl updated
  | .remove id => removeWatcher wl id

def watchMachine : Machine (Watchlist ρ) WatchCall where
  init wl := wl = []
  step wl call := some (call.run lib wl)

variable (ids : List NvPair)

def IdMatches (i : NvPair) : Prop :=
  ∃ preg v, lib.regcomp i.value = some preg ∧ nvpairsValue ids i.name = some v ∧
    lib.regexec preg v = true

def NotBlocked (w : Watcher) : Prop :=
  ∀ blocked ∈ w.blockingIdentifiers, ∀ v, nvpairsValue ids blocked.name = some v →
    v ∉ blocked.values

def Admits (w : Watcher) : Prop := (∀ i ∈ w.identifiers, IdMatches lib ids i) ∧ NotBlocked ids w

/-- A match is a watcher of the list that admits the properties, and there is one if there is such
a watcher. -/
def MatchesRight : Prop :=
  ∀ ids, (∀ w, watchlistMatch lib wl ids = some w →
      (∃ pw ∈ wl, pw.watcher = w) ∧ Admits lib ids w) ∧
    ((∃ pw ∈ wl, Admits lib ids pw.watcher) → watchlistMatch lib wl ids ≠ none)

def StaysRight : Prop := ∀ removed : List String, MatchesRight lib (removed.foldl removeWatcher wl)

/-- All expressions of the watcher compile, or nothing that it does not block matches those that
do. -/
def CompiledSuffice (w : Watcher) : Prop :=
  (∀ i ∈ w.identifiers, lib.regcomp i.value ≠ none) ∨
    ¬ ∃ ids, (∀ i ∈ w.identifiers, lib.regcomp i.value ≠ none → IdMatches lib ids i) ∧
      NotBlocked ids w

def newWatchers : List String → List Watcher → List Watcher
  | _, [] => []
  | known, w :: newlist =>
    if w.id ∈ known then newWatchers known newlist
    else w :: newWatchers (w.id :: known) newlist

def watcherIds : List String := wl.map (·.watcher.id)

def SafeCall : WatchCall → Prop
  | .populate newlist => ∀ w ∈ newWatchers (watcherIds wl) newlist, CompiledSuffice lib w
  | .update w => if w.id ∈ watcherIds wl then w.identifiers = [] else CompiledSuffice lib w
  | .remove _ => True

variable {lib wl ids} {pw : ListedWatcher ρ} {w : Watcher} {P : ListedWatcher ρ → Prop}

theorem matchpw_iff : matchpw lib pw ids = true ↔
    (∀ r ∈ pw.regs, ∃ v, nvpairsValue ids r.1 = some v ∧ lib.regexec r.2 v = true) ∧
      NotBlocked ids pw.watcher := by
  simp [matchpw, NotBlocked, Option.any_eq_true, Option.all_eq_true]

def OwnRegs (lib : RegexLib ρ) (pw : ListedWatcher ρ) : Prop :=
  ∀ r ∈ pw.regs, ∃ i ∈ pw.watcher.identifiers, i.name = r.1 ∧ lib.regcomp i.value = some r.2

theorem mem_regs_compiled {r : String × ρ} : r ∈ (compiled lib w).regs ↔
    ∃ i ∈ w.identifiers, i.name = r.1 ∧ lib.regcomp i.value = some r.2 := by
  obtain ⟨name, preg⟩ := r
  simp [compiled, and_comm]

theorem OwnRegs.matchpw_of_admits (h : OwnRegs lib pw) (hadmits : Admits lib ids pw.watcher) :
    matchpw lib pw ids = true := by
  refine matchpw_iff.2 ⟨fun r hr => ?_, hadmits.2⟩
  obtain ⟨i, hi, hname, hcomp⟩ := h r hr
  obtain ⟨preg, v, hpreg, hv, hexec⟩ := hadmits.1 i hi
  cases hcomp.symm.trans hpreg
  exact ⟨v, hname ▸ hv, hexec⟩

def SoundWatcher (lib : RegexLib ρ) (pw : ListedWatcher ρ) : Prop :=
  ∀ ids, matchpw lib pw ids = true → Admits lib ids pw.watcher

theorem sound_compiled_iff : SoundWatcher lib (compiled lib w) ↔ CompiledSuffice lib w := by
  have hmatch : ∀ ids, matchpw lib (compiled lib w) ids = true ↔
      (∀ i ∈ w.identifiers, lib.regcomp i.value ≠ none → IdMatches lib ids i) ∧
        NotBlocked ids w := by
    intro ids
    rw [matchpw_iff]
    refine and_congr_left fun _ => ⟨fun h i hi hcomp => ?_, fun h r hr => ?_⟩
    · obtain ⟨preg, hpreg⟩ := Option.ne_none_iff_exists'.1 hcomp
      obtain ⟨v, hv, hexec⟩ := h (i.name, preg) (mem_regs_compiled.2 ⟨i, hi, rfl, hpreg⟩)
      exact ⟨preg, v, hpreg, hv, hexec⟩
    · obtain ⟨i, hi, hname, hcomp⟩ := mem_regs_compiled.1 hr
      obtain ⟨preg, v, hpreg, hv, hexec⟩ := h i hi (by simp [hcomp])
      cases hcomp.symm.trans hpreg
      exact ⟨v, hname ▸ hv, hexec⟩
  simp only [SoundWatcher, hmatch]
  constructor
  · intro h
    by_cases hex : ∃ ids, (∀ i ∈ w.identifiers, lib.regcomp i.value ≠ none → IdMatches lib ids i) ∧
        NotBlocked ids w
    · obtain ⟨ids, hids⟩ := hex
      refine .inl fun i hi => ?_
      obtain ⟨preg, _, hpreg, _⟩ := (h ids hids).1 i hi
      simp [hpreg]
    · exact .inr hex
  · rintro (hall | hnone) ids hids
    · exact ⟨fun i hi => hids.1 i hi (hall i hi), hids.2⟩
    · exact absurd ⟨ids, hids⟩ hnone

theorem sound_unchecked_iff : SoundWatcher lib ⟨w, []⟩ ↔ w.identifiers = [] := by
  constructor
  · intro h
    have hmatch : matchpw lib ⟨w, []⟩ [] = true := matchpw_iff.2 ⟨nofun, fun _ _ _ => nofun⟩
    refine eq_nil_iff_forall_not_mem.2 fun i hi => ?_
    obtain ⟨_, _, _, hv, _⟩ := (h [] hmatch).1 i hi
    cases hv
  · intro h ids hmatch
    exact ⟨by simp [h], (matchpw_iff.1 hmatch).2⟩

theorem removed_sublist (removed : List String) : (removed.foldl removeWatcher wl).Sublist wl := by
  induction removed generalizing wl with
  | nil => exact .refl _
  | cons id removed ih => exact ih.trans eraseP_sublist

theorem remove_front (l rest : Watchlist ρ) :
    (watcherIds l).foldl removeWatcher (l ++ rest) = rest := by
  induction l with
  | nil => rfl
  | cons pw l ih =>
    have hhead : removeWatcher (pw :: l ++ rest) pw.watcher.id = l ++ rest := by
      simp [removeWatcher]
    rw [watcherIds, map_cons, foldl_cons, hhead]
    exact ih

theorem staysRight_iff (hown : ∀ pw ∈ wl, OwnRegs lib pw) :
    StaysRight lib wl ↔ ∀ pw ∈ wl, SoundWatcher lib pw := by
  constructor
  · intro h pw hpw ids hmatch
    -- Once those before it are gone, the watcher is the first that is looked at.
    obtain ⟨l, rest, rfl⟩ := append_of_mem hpw
    have hright := h (watcherIds l) ids
    rw [remove_front] at hright
    refine (hright.1 pw.watcher ?_).2
    simp [watchlistMatch, hmatch]
  · intro h removed ids
    have hsub : (removed.foldl removeWatcher wl).Sublist wl := removed_sublist removed
    refine ⟨fun w hw => ?_, fun hex hnone => ?_⟩
    · obtain ⟨pw, hpw, rfl⟩ := map_eq_some_iff.1 hw
      have hmem := mem_of_find?_eq_some hpw
      have hmatch : matchpw lib pw ids = true := by simpa using List.find?_some hpw
      exact ⟨⟨pw, hmem, rfl⟩, h pw (hsub.subset hmem) ids hmatch⟩
    · obtain ⟨pw, hpw, hadmits⟩ := hex
      have hfind := find?_eq_none.1 (map_eq_none_iff.1 hnone) pw hpw
      exact hfind ((hown pw (hsub.subset hpw)).matchpw_of_admits hadmits)

theorem listed_iff {id : String} : listed wl id = true ↔ id ∈ watcherIds wl := by
  simp [listed, watcherIds]

theorem forall_replaceFound_iff (h : ∀ pw ∈ wl, P pw) (hw : listed wl w.id = true) :
    (∀ pw ∈ replaceFound w wl, P pw) ↔ P ⟨w, []⟩ := by
  induction wl with
  | nil => cases hw
  | cons pw wl ih =>
    rw [forall_mem_cons] at h
    unfold replaceFound
    split_ifs with hid
    · rw [forall_mem_cons]
      exact and_iff_left h.2
    · rw [forall_mem_cons, ih h.2 (by simpa [listed, hid] using hw)]
      exact and_iff_right h.1

theorem forall_populate_iff (newlist : List Watcher) :
    (∀ pw ∈ populateWatchers lib wl newlist, P pw) ↔
      (∀ pw ∈ wl, P pw) ∧ ∀ w ∈ newWatchers (watcherIds wl) newlist, P (compiled lib w) := by
  induction newlist generalizing wl with
  | nil => simp [populateWatchers, newWatchers]
  | cons w newlist ih =>
    rw [populateWatchers, foldl_cons, newWatchers]
    by_cases hw : listed wl w.id = true
    · rw [if_pos hw, if_pos (listed_iff.1 hw)]
      exact ih
    · rw [if_neg hw, if_neg (mt listed_iff.2 hw), forall_mem_cons, and_left_comm, ← and_assoc]
      exact ih.trans (and_congr_left' forall_mem_cons)

theorem forall_run_iff (h : ∀ pw ∈ wl, P pw) (call : WatchCall) :
    (∀ pw ∈ call.run lib wl, P pw) ↔
      match call with
      | .populate newlist => ∀ w ∈ newWatchers (watcherIds wl) newlist, P (compiled lib w)
      | .update w => if w.id ∈ watcherIds wl then P ⟨w, []⟩ else P (compiled lib w)
      | .remove _ => True := by
  cases call with
  | populate newlist => exact (forall_populate_iff newlist).trans (and_iff_right h)
  | update w =>
    unfold WatchCall.run updateWatcher
    dsimp only
    by_cases hw : listed wl w.id = true
    · rw [if_pos hw, if_pos (listed_iff.1 hw)]
      exact forall_replaceFound_iff h hw
    · rw [if_neg hw, if_neg (mt listed_iff.2 hw)]
      exact forall_mem_cons.trans (and_iff_left h)
  | remove id => exact iff_true_intro fun pw hpw => h pw (eraseP_sublist.subset hpw)

theorem own_run (h : ∀ pw ∈ wl, OwnRegs lib pw) (call : WatchCall) :
    ∀ pw ∈ call.run lib wl, OwnRegs lib pw := by
  have hnew : ∀ w, OwnRegs lib (compiled lib w) := fun w r => mem_regs_compiled.1
  rw [forall_run_iff h]
  cases call with
  | populate newlist => exact fun w _ => hnew w
  | update w =>
    dsimp only
    split_ifs
    · exact nofun
    · exact hnew w
  | remove id => trivial

theorem sound_run_iff (h : ∀ pw ∈ wl, SoundWatcher lib pw) (call : WatchCall) :
    (∀ pw ∈ call.run lib wl, SoundWatcher lib pw) ↔ SafeCall lib wl call := by
  rw [forall_run_iff h]
  cases call with
  | populate newlist => simp only [sound_compiled_iff, SafeCall]
  | update w => simp only [sound_compiled_iff, sound_unchecked_iff, SafeCall]
  | remove id => rfl

/-- As long as what is added has expressions that suffice and what replaces a watcher has no
identifiers, matches are right whatever is removed; the first call that is otherwise ends that. -/
theorem watchlist_match_iff (h : (watchMachine lib).ReachableBy (SafeCall lib) wl) :
    StaysRight lib wl ∧ ∀ call after, (watchMachine lib).step wl call = some after →
      (SafeCall lib wl call ↔ StaysRight lib after) := by
  have hinv : (∀ pw ∈ wl, OwnRegs lib pw) ∧ ∀ pw ∈ wl, SoundWatcher lib pw := by
    refine h.invariant
      (P := fun wl => (∀ pw ∈ wl, OwnRegs lib pw) ∧ ∀ pw ∈ wl, SoundWatcher lib pw)
      (fun wl hinit => ?_) fun wl call after hwl hsafe hstep => ?_
    · rw [hinit]
      exact ⟨nofun, nofun⟩
    · cases hstep
      exact ⟨own_run hwl.1 call, (sound_run_iff hwl.2 call).2 hsafe⟩
  refine ⟨(staysRight_iff hinv.1).2 hinv.2, fun call after hstep => ?_⟩
  cases hstep
  rw [staysRight_iff (own_run hinv.1 call), sound_run_iff hinv.2]

def plainRegex : RegexLib String where
  regcomp value := if value = "[" then none else some value
  regexec preg v := preg = v

def cameraWatcher (pattern : String) : Watcher where
  id := "w1"
  name := "cameras"
  identifiers := [⟨"kind", pattern⟩]
  blockingIdentifiers := [⟨"serial", ["13"]⟩]
  profile := "camera"
  adminstate := .unlocked

/-- After the watcher has been added, matches are right. -/
theorem watchlist_match_camera :
    StaysRight plainRegex (populateWatchers plainRegex [] [cameraWatcher "camera"]) := by
  have hnew : (watchMachine plainRegex).ReachableBy (SafeCall plainRegex) [] := .init rfl
  refine ((watchlist_match_iff hnew).2 (.populate [cameraWatcher "camera"]) _ rfl).1 fun w hw => ?_
  obtain rfl := mem_singleton.1 hw
  refine .inl fun i hi => ?_
  obtain rfl := mem_singleton.1 hi
  simp [plainRegex]

/-- Once it has been updated, it takes a device of which nothing is known. -/
theorem updated_watcher_matches_all :
    ∃ wl, (watchMachine plainRegex).Reachable wl ∧
      watchlistMatch plainRegex wl [] = some (cameraWatcher "camera") ∧
      ¬ Admits plainRegex [] (cameraWatcher "camera") := by
  have hrun : (watchMachine plainRegex).runFrom []
      [.populate [cameraWatcher "camera"], .update (cameraWatcher "camera")] =
      some [⟨cameraWatcher "camera", []⟩] := by
    simp [Machine.runFrom, watchMachine, WatchCall.run, populateWatchers, updateWatcher, listed,
      addLocked, compiled, replaceFound]
  refine ⟨_, Machine.reachable_of_runFrom (.init rfl) _ hrun, rfl, fun h => ?_⟩
  obtain ⟨_, _, _, hv, _⟩ := h.1 ⟨"kind", "camera"⟩ (.head _)
  cases hv

end EdgeComputing.DeviceSdk
