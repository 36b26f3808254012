import EdgeComputing.Sal.RecoveryReader

/-!
The clients that are stored are the clients that are read. The directories of a name may be shared,
but only the last one of each ends a complete name.
-/

namespace EdgeComputing.Sal

open List Library PathTree

structure Written (t : Dir) : Prop where
  nodup : t.paths.Nodup
  mem : ∀ q ∈ t.paths, ∃ (c : RecovClient) (p : List FileName), p <+: recovPath (recovTag c) ∧
    (q = p ∨ ∃ handle, q = p ++ [revokedName handle])

variable {p : List FileName} {c : RecovClient}

theorem visible_along (h : p <+: recovPath (recovTag c)) : Visible p :=
  fun _ hname => recovPath_visible (h.subset hname)

theorem not_visible_marker (p : List FileName) (handle : Text) :
    ¬ Visible (p ++ [revokedName handle]) := by
  intro h
  have hname := h (revokedName handle) (by simp)
  simp [isHidden, isRevoked, revokedName] at hname

variable {t : Dir}

theorem Written.onlyMarkersHidden (h : Written t) : OnlyMarkersHidden t := by
  intro q hq name hname hhidden
  obtain ⟨c, p, hp, rfl | ⟨handle, rfl⟩⟩ := h.mem q hq
  · rw [visible_along hp name hname] at hhidden
    cases hhidden
  · rcases mem_append.1 hname with hname | hname
    · rw [visible_along hp name hname] at hhidden
      cases hhidden
    · rw [mem_singleton.1 hname]
      rfl

theorem Written.of_visible (h : Written t) {q : List FileName} (hq : q ∈ t.paths)
    (hvisible : Visible q) : ∃ c : RecovClient, q <+: recovPath (recovTag c) := by
  obtain ⟨c, p, hp, rfl | ⟨handle, rfl⟩⟩ := h.mem q hq
  · exact ⟨c, hp⟩
  · exact absurd hvisible (not_visible_marker p handle)

theorem Written.ends_iff (h : Written t) :
    Ends [] t p ↔ p ∈ t.paths ∧ Visible p ∧ clidFormat p.flatten = .complete := by
  constructor
  · exact fun hends => ⟨hends.mem, hends.visible, hends.complete⟩
  · rintro ⟨hmem, hvisible, hcomplete⟩
    refine ⟨hmem, hvisible, hcomplete, fun q hq hqvisible hpq => ?_⟩
    obtain ⟨c, hqc⟩ := h.of_visible hq hqvisible
    have hp := recovPath_of_complete hcomplete (hpq.trans hqc)
    rw [hp] at hpq ⊢
    exact hqc.eq_of_length_le hpq.length_le

theorem Written.ends_path (h : Written t) (hends : Ends [] t p) :
    ∃ c : RecovClient, p = recovPath (recovTag c) := by
  obtain ⟨c, hp⟩ := h.of_visible hends.mem hends.visible
  exact ⟨c, recovPath_of_complete hends.complete hp⟩

theorem Written.perm {t t' : Dir} (h : Written t) (hperm : t'.paths.Perm t.paths) : Written t' :=
  ⟨hperm.nodup_iff.2 h.nodup, fun q hq => h.mem q (hperm.mem_iff.1 hq)⟩

variable {path : List FileName} {fs : Dir}

theorem mkdir_cases (hnodup : fs.paths.Nodup) (hpath : InTarget path fs) (name : FileName) :
    mkdir fs (path ++ [name]) = .ok (made fs (path ++ [name])) ∨
      mkdir fs (path ++ [name]) = .error .eexist ∧ made fs (path ++ [name]) = fs := by
  have hspec := insert_spec hnodup (path ++ [name])
  unfold made mkdir
  cases hinsert : fs.insert (path ++ [name]) with
  | ok fs' => exact .inl rfl
  | error e =>
    cases e with
    | present => exact .inr ⟨rfl, rfl⟩
    | noParent =>
      rw [hinsert] at hspec
      obtain ⟨hne, hnot⟩ := hspec
      rw [dropLast_concat] at hne hnot
      exact absurd (hpath.resolve_left hne) hnot

def Along (path segs q : List FileName) : Prop := ∃ s, s ≠ [] ∧ s <+: segs ∧ q = path ++ s

theorem not_along_nil {path q : List FileName} : ¬ Along path [] q := by
  rintro ⟨s, hs, hpre, -⟩
  exact hs (prefix_nil.1 hpre)

theorem along_cons {path segs q : List FileName} {seg : FileName} :
    Along path (seg :: segs) q ↔ q = path ++ [seg] ∨ Along (path ++ [seg]) segs q := by
  constructor
  · rintro ⟨s, hs, hpre, rfl⟩
    rcases prefix_cons_iff.1 hpre with rfl | ⟨s', rfl, hs'⟩
    · exact absurd rfl hs
    · by_cases hempty : s' = []
      · exact .inl (by rw [hempty])
      · exact .inr ⟨s', hempty, hs', by simp⟩
  · rintro (rfl | ⟨s, hs, hpre, rfl⟩)
    · exact ⟨[seg], by simp, cons_prefix_cons.2 ⟨rfl, nil_prefix⟩, rfl⟩
    · exact ⟨seg :: s, by simp, cons_prefix_cons.2 ⟨rfl, hpre⟩, by simp⟩

theorem addClidLoop_paths (fuel : Nat) (pathpos : Nat) (rest : Text) (hnodup : fs.paths.Nodup)
    (hpath : InTarget path fs) :
    ∃ segs, segs <+: segments fuel rest ∧
      (pathpos + (segments fuel rest).length + rest.length < pathMax → segs = segments fuel rest) ∧
      (addClidLoop fuel fs path pathpos rest).paths.Nodup ∧
      ∀ q, q ∈ (addClidLoop fuel fs path pathpos rest).paths ↔
        q ∈ fs.paths ∨ Along path segs q := by
  have hstay : ∀ {fs : Dir} {path : List FileName} (q : List FileName),
      q ∈ fs.paths ↔ q ∈ fs.paths ∨ Along path [] q :=
    fun q => (or_iff_left not_along_nil).symm
  induction fuel generalizing fs path pathpos rest with
  | zero => exact ⟨[], nil_prefix, fun _ => rfl, hnodup, hstay⟩
  | succ fuel ih =>
    unfold addClidLoop segments
    by_cases hnil : rest = []
    · rw [if_pos hnil, if_pos hnil]
      exact ⟨[], nil_prefix, fun _ => rfl, hnodup, hstay⟩
    rw [if_neg hnil, if_neg hnil]
    dsimp only
    by_cases hfull : pathpos + 1 + rest.length ≥ pathMax
    · rw [if_pos hfull]
      refine ⟨[], nil_prefix, fun hfits => ?_, hnodup, hstay⟩
      exfalso
      split_ifs at hfits
      · simp only [length_singleton] at hfits
        omega
      · simp only [length_cons] at hfits
        omega
    rw [if_neg hfull]
    by_cases hshort : rest.length ≤ nameMax
    · rw [if_pos hshort, if_pos hshort]
      obtain ⟨hnodup', hmem⟩ := made_paths hnodup hpath rest
      refine ⟨[rest], prefix_refl _, fun _ => rfl, hnodup', fun q => ?_⟩
      rw [hmem, along_cons, or_iff_left not_along_nil]
    · rw [if_neg hshort, if_neg hshort]
      obtain ⟨hnodup', hmem⟩ := made_paths hnodup hpath (rest.take nameMax)
      have hinto : InTarget (path ++ [rest.take nameMax])
          (made fs (path ++ [rest.take nameMax])) := .inr ((hmem _).2 (.inr rfl))
      obtain ⟨segs, hpre, hall, hnodup'', hmem'⟩ :=
        ih (pathpos + 1 + nameMax) (rest.drop nameMax) hnodup' hinto
      refine ⟨rest.take nameMax :: segs, cons_prefix_cons.2 ⟨rfl, hpre⟩, fun hfits => ?_, ?_⟩
      · rw [hall]
        rw [length_cons] at hfits
        rw [length_drop]
        omega
      · simp only [hmem, or_assoc, ← along_cons] at hmem'
        rcases mkdir_cases hnodup hpath (rest.take nameMax) with hmade | ⟨hmade, hsame⟩
        · rw [hmade]
          exact ⟨hnodup'', hmem'⟩
        · rw [hsame] at hnodup'' hmem'
          rw [hmade]
          exact ⟨hnodup'', hmem'⟩

theorem Written.nil : Written .nil := ⟨nodup_nil, fun q hq => by cases hq⟩

variable {recovDirLen : Nat}

theorem fsAddClid_paths {fs fs' : Dir} (hfs : Written fs)
    (h : fsAddClid recovDirLen fs c = some fs') :
    Written fs' ∧ (∀ q ∈ fs.paths, q ∈ fs'.paths) ∧
      (recovDirLen + (recovPath (recovTag c)).length + (recovTag c).length < pathMax →
        ∀ q, q ∈ fs'.paths ↔ q ∈ fs.paths ∨ Along [] (recovPath (recovTag c)) q) := by
  obtain ⟨tag, htag, rfl⟩ := Option.map_eq_some_iff.1 h
  obtain rfl := fsCreateClidName_eq htag
  obtain ⟨segs, hpre, hall, hnodup, hmem⟩ := addClidLoop_paths (recovTag c).length recovDirLen
    (recovTag c) hfs.nodup (.inl rfl : InTarget [] fs)
  refine ⟨⟨hnodup, fun q hq => ?_⟩, fun q hq => (hmem q).2 (.inl hq), fun hfits q => ?_⟩
  · rcases (hmem q).1 hq with hq | ⟨s, -, hs, rfl⟩
    · exact hfs.mem q hq
    · exact ⟨c, q, hs.trans hpre, .inl rfl⟩
  · rw [hmem, hall hfits]
    rfl

def FitsPathMax (recovDirLen : Nat) (c : RecovClient) : Prop :=
  recovDirLen + (recovPath (recovTag c)).length + (recovTag c).length < pathMax

instance (recovDirLen : Nat) (c : RecovClient) : Decidable (FitsPathMax recovDirLen c) :=
  inferInstanceAs (Decidable (_ < _))

theorem fsCreateClidName_of_fitsPathMax (h : FitsPathMax recovDirLen c) :
    fsCreateClidName c = some (recovTag c) := by
  apply fsCreateClidName_of_fits
  unfold FitsPathMax at h
  omega

theorem store_paths (clients : List RecovClient) (hfits : ∀ c ∈ clients, FitsPathMax recovDirLen c)
    (hfs : Written fs) :
    ∃ stored, clients.foldlM (fsAddClid recovDirLen) fs = some stored ∧ Written stored ∧
      ∀ q, q ∈ stored.paths ↔
        q ∈ fs.paths ∨ ∃ c ∈ clients, Along [] (recovPath (recovTag c)) q := by
  induction clients generalizing fs with
  | nil => exact ⟨fs, rfl, hfs, fun q => by simp⟩
  | cons c clients ih =>
    have hc := hfits c mem_cons_self
    have hadd : fsAddClid recovDirLen fs c = some (addClidLoop (recovTag c).length fs []
        recovDirLen (recovTag c)) := by
      rw [fsAddClid, fsCreateClidName_of_fitsPathMax hc]
      rfl
    obtain ⟨hwritten, -, hmem⟩ := fsAddClid_paths hfs hadd
    obtain ⟨stored, hstored, hwritten', hmem'⟩ :=
      ih (fun d hd => hfits d (mem_cons_of_mem c hd)) hwritten
    refine ⟨stored, ?_, hwritten', fun q => ?_⟩
    · rw [foldlM_cons, hadd]
      exact hstored
    · rw [hmem', hmem hc, or_assoc, exists_mem_cons_iff]

/-- What is stored is read back: each name once, and no other. -/
theorem recovery_store_round_trip (recovDirLen : Nat) (clients : List RecovClient)
    (haddr : ∀ c ∈ clients, ascii '(' ∉ c.strClientAddr)
    (hfits : ∀ c ∈ clients, FitsPathMax recovDirLen c) :
    ∃ stored, clients.foldlM (fsAddClid recovDirLen) .nil = some stored ∧
      ∀ listing : Dir, listing.paths.Perm stored.paths → ∀ takeover tgtdir target,
        let names := (fsReadRecovClidsImpl takeover [] tgtdir listing target).calls.map (·.clName)
        names.Nodup ∧ ∀ tag, tag ∈ names ↔ ∃ c ∈ clients, fsCreateClidName c = some tag := by
  obtain ⟨stored, hstored, hwritten, hmem⟩ := store_paths clients hfits Written.nil
  refine ⟨stored, hstored, fun listing hperm takeover tgtdir target => ?_⟩
  have hlisting := hwritten.perm hperm
  have hnames : (fsReadRecovClidsImpl takeover [] tgtdir listing target).calls.map (·.clName) =
      ((records [] listing).map Prod.fst).map List.flatten := by
    rw [read_calls, map_map, map_map]
    rfl
  have hends : ∀ p, p ∈ (records [] listing).map Prod.fst ↔ Ends [] listing p := by
    intro p
    constructor
    · intro hp
      obtain ⟨r, hr, rfl⟩ := mem_map.1 hp
      exact (records_sound hlisting.nodup hr).1
    · intro hp
      obtain ⟨hs, hr⟩ := records_complete hlisting.nodup hp
      exact mem_map_of_mem hr
  have hpath : ∀ p, Ends [] listing p → p = recovPath p.flatten := by
    intro p hp
    obtain ⟨c, rfl⟩ := hlisting.ends_path hp
    rw [recovPath_flatten]
  dsimp only
  rw [hnames]
  constructor
  · apply List.Nodup.map_on
    · intro p hp q hq heq
      rw [hpath p ((hends p).1 hp), hpath q ((hends q).1 hq), heq]
    · exact (records_paths_sublist listing []).nodup hlisting.nodup
  · intro tag
    rw [mem_map]
    constructor
    · rintro ⟨p, hp, rfl⟩
      have hp' := (hends p).1 hp
      have hstored' := (hmem p).1 (hperm.mem_iff.1 hp'.mem)
      obtain ⟨c, hc, s, -, hs, rfl⟩ := hstored'.resolve_left (by simp [paths])
      refine ⟨c, hc, ?_⟩
      rw [fsCreateClidName_of_fitsPathMax (hfits c hc), recovPath_of_complete hp'.complete hs,
        recovPath_flatten]
    · rintro ⟨c, hc, htag⟩
      obtain rfl := fsCreateClidName_eq htag
      refine ⟨recovPath (recovTag c), ?_, recovPath_flatten _⟩
      have hin : recovPath (recovTag c) ∈ listing.paths := hperm.mem_iff.2 ((hmem _).2
        (.inr ⟨c, hc, recovPath (recovTag c), recovPath_ne_nil c, prefix_refl _, rfl⟩))
      rw [hends, hlisting.ends_iff, recovPath_flatten]
      refine ⟨hin, visible_along (prefix_refl _), clidName_complete (haddr c hc) ?_⟩
      have hlength := hfits c hc
      have hpos := length_pos_iff.2 (recovPath_ne_nil c)
      unfold FitsPathMax recovTag at hlength
      unfold recovTag at hpos
      omega

/-- A client whose name is cut in two; the first component does not depend on the last byte. -/
def longClient (last : UInt8) : RecovClient where
  gshClient := some localAddr
  clientVal := ⟨List.replicate 300 (ascii 'a') ++ [last],
    append_ne_nil_of_right_ne_nil _ (cons_ne_nil _ _)⟩

theorem recovery_store_round_trip_shared :
    (recovPath (recovTag (longClient 98))).length = 2 ∧
      (recovPath (recovTag (longClient 98))).head? = (recovPath (recovTag (longClient 99))).head? ∧
      ∃ stored, [longClient 98, longClient 99].foldlM (fsAddClid 30) .nil = some stored ∧
        let names := (fsReadRecovClidsImpl false [] none stored .nil).calls.map (·.clName)
        names.Nodup ∧ ∀ tag, tag ∈ names ↔
          ∃ c ∈ [longClient 98, longClient 99], fsCreateClidName c = some tag := by
  refine ⟨by decide +kernel, by decide +kernel, ?_⟩
  obtain ⟨stored, hstored, hread⟩ := recovery_store_round_trip 30 [longClient 98, longClient 99]
    (by decide +kernel) (by decide +kernel)
  exact ⟨stored, hstored, hread stored (List.Perm.refl _) false none .nil⟩

end EdgeComputing.Sal
