import EdgeComputing.Sal.RecoveryTag

/-!
What `fs_read_recov_clids_impl` does with a hierarchy, in terms of its paths. None of this depends
on the order of the entries.
-/

namespace EdgeComputing.Sal

open List Library PathTree PathTree List.Sublist

def Visible (p : List FileName) : Prop := ∀ name ∈ p, isHidden name = false

variable {p dir q : List FileName}

theorem visible_cons {name : FileName} : Visible (name :: p) ↔ isHidden name = false ∧ Visible p :=
  forall_mem_cons

def visibleCount : Dir → Nat
  | .nil => 0
  | .cons name _ rest => if isHidden name then visibleCount rest else visibleCount rest + 1

variable {t : Dir}

theorem visibleCount_eq_zero : visibleCount t = 0 ↔ ∀ p ∈ t.paths, ¬ Visible p := by
  induction t with
  | nil => simp [visibleCount, paths]
  | cons name sub rest _ ihrest =>
    unfold visibleCount
    split_ifs with hhidden
    · rw [ihrest]
      constructor
      · intro hrest p hp hvisible
        rcases mem_paths_cons.1 hp with rfl | ⟨q, -, rfl⟩ | hp
        · simp [hvisible name] at hhidden
        · simp [hvisible name] at hhidden
        · exact hrest p hp hvisible
      · exact fun h p hp => h p (mem_paths_cons.2 (.inr (.inr hp)))
    · refine iff_of_false (by simp) fun h => h [name] (mem_paths_cons.2 (.inl rfl)) ?_
      intro name' hname'
      rw [mem_singleton.1 hname']
      exact Bool.eq_false_iff.2 hhidden

def records : Text → Dir → List (List FileName × List Text)
  | _, .nil => []
  | clidStr, .cons name sub rest =>
    if isHidden name then records clidStr rest
    else
      (if visibleCount sub = 0 then
        if clidFormat (clidStr ++ name) = .complete then [([name], revokedHandles sub)] else []
      else (records (clidStr ++ name) sub).map fun r => (name :: r.1, r.2)) ++ records clidStr rest

section Read

variable {takeover : Bool} {clidStr : Text} {tgtdir : Option (List FileName)}
  {name : FileName} {sub rest target : Dir}

def enterTarget (tgtdir : Option (List FileName)) (name : FileName) (target : Dir) : Dir :=
  (tgtdir.map (· ++ [name])).elim target (made target)

def copyHandles (tgtdir : Option (List FileName)) (handles : List Text) (target : Dir) : Dir :=
  tgtdir.elim target fun dir =>
    handles.foldl (fun target handle => made target (dir ++ [revokedName handle])) target

theorem read_num (t : Dir) (clidStr : Text) (tgtdir : Option (List FileName)) (target : Dir) :
    (fsReadRecovClidsImpl takeover clidStr tgtdir t target).num = visibleCount t := by
  induction t generalizing clidStr tgtdir target with
  | nil => rfl
  | cons name sub rest _ ihrest =>
    unfold fsReadRecovClidsImpl visibleCount
    split_ifs
    · exact ihrest clidStr tgtdir target
    · exact congrArg (· + 1) (ihrest _ _ _)

theorem read_cons_hidden (hname : isHidden name = true) :
    fsReadRecovClidsImpl takeover clidStr tgtdir (.cons name sub rest) target =
      let next := fsReadRecovClidsImpl takeover clidStr tgtdir rest target
      { next with left := .cons name sub next.left } := by
  rw [fsReadRecovClidsImpl, if_pos hname]

theorem read_of_hidden (h : visibleCount t = 0) :
    fsReadRecovClidsImpl takeover clidStr tgtdir t target = ⟨0, [], t, target⟩ := by
  induction t with
  | nil => rfl
  | cons name sub rest _ ihrest =>
    unfold visibleCount at h
    split_ifs at h with hname
    rw [read_cons_hidden hname, ihrest h]

theorem elim_enterTarget :
    (tgtdir.map (· ++ [name])).elim target (made target) = enterTarget tgtdir name target :=
  rfl

theorem read_cons_interior (hname : isHidden name = false) (hsub : visibleCount sub ≠ 0) :
    fsReadRecovClidsImpl takeover clidStr tgtdir (.cons name sub rest) target =
      let inner := fsReadRecovClidsImpl takeover (clidStr ++ name) (tgtdir.map (· ++ [name])) sub
        (enterTarget tgtdir name target)
      let next := fsReadRecovClidsImpl takeover clidStr tgtdir rest inner.target
      { num := next.num + 1
        calls := inner.calls ++ next.calls
        left := if takeover || inner.left ≠ .nil then .cons name inner.left next.left else next.left
        target := next.target } := by
  have hnum : (fsReadRecovClidsImpl takeover (clidStr ++ name) (tgtdir.map (· ++ [name])) sub
      (enterTarget tgtdir name target)).num ≠ 0 := by
    rwa [read_num]
  simp only [fsReadRecovClidsImpl, hname, Bool.false_eq_true, if_false]
  rw [elim_enterTarget]
  generalize fsReadRecovClidsImpl takeover (clidStr ++ name) (tgtdir.map (· ++ [name])) sub
    (enterTarget tgtdir name target) = inner at hnum ⊢
  cases tgtdir <;> simp [hnum]

theorem read_cons_complete (hname : isHidden name = false) (hsub : visibleCount sub = 0)
    (hformat : clidFormat (clidStr ++ name) = .complete) :
    fsReadRecovClidsImpl takeover clidStr tgtdir (.cons name sub rest) target =
      let next := fsReadRecovClidsImpl takeover clidStr tgtdir rest
        (copyHandles tgtdir (revokedHandles sub) (enterTarget tgtdir name target))
      let left := if takeover then sub else sub.filterTop fun name => !isRevoked name
      { num := next.num + 1
        calls := ⟨clidStr ++ name, revokedHandles sub⟩ :: next.calls
        left := if takeover || left ≠ .nil then .cons name left next.left else next.left
        target := next.target } := by
  simp only [fsReadRecovClidsImpl, hname, Bool.false_eq_true, if_false]
  rw [elim_enterTarget]
  rw [read_of_hidden hsub]
  cases takeover <;> cases tgtdir <;> simp [hformat, copyHandles]

theorem read_cons_other (hname : isHidden name = false) (hsub : visibleCount sub = 0)
    (hformat : clidFormat (clidStr ++ name) ≠ .complete) :
    fsReadRecovClidsImpl takeover clidStr tgtdir (.cons name sub rest) target =
      let next := fsReadRecovClidsImpl takeover clidStr tgtdir rest (enterTarget tgtdir name target)
      { num := next.num + 1
        calls := next.calls
        left :=
          if takeover || clidFormat (clidStr ++ name) = .invalid || sub ≠ .nil then
            .cons name sub next.left
          else next.left
        target := next.target } := by
  simp only [fsReadRecovClidsImpl, hname, Bool.false_eq_true, if_false]
  rw [elim_enterTarget]
  rw [read_of_hidden hsub]
  cases tgtdir <;> simp [hformat]

theorem records_cons_visible (hname : isHidden name = false) :
    records clidStr (.cons name sub rest) =
      (if visibleCount sub = 0 then
        if clidFormat (clidStr ++ name) = .complete then [([name], revokedHandles sub)] else []
      else (records (clidStr ++ name) sub).map fun r => (name :: r.1, r.2)) ++
        records clidStr rest := by
  rw [records, if_neg (by rw [hname]; simp)]

theorem read_calls (t : Dir) (clidStr : Text) (tgtdir : Option (List FileName)) (target : Dir) :
    (fsReadRecovClidsImpl takeover clidStr tgtdir t target).calls =
      (records clidStr t).map fun r => ⟨clidStr ++ r.1.flatten, r.2⟩ := by
  induction t generalizing clidStr tgtdir target with
  | nil => rfl
  | cons name sub rest ihsub ihrest =>
    by_cases hname : isHidden name = true
    · rw [read_cons_hidden hname, records, if_pos hname]
      exact ihrest clidStr tgtdir target
    · have hvisible := Bool.eq_false_iff.2 hname
      rw [records_cons_visible hvisible]
      by_cases hsub : visibleCount sub = 0
      · rw [if_pos hsub]
        by_cases hformat : clidFormat (clidStr ++ name) = .complete
        · rw [read_cons_complete hvisible hsub hformat, if_pos hformat]
          simp [ihrest]
        · rw [read_cons_other hvisible hsub hformat, if_neg hformat]
          exact ihrest clidStr tgtdir _
      · rw [read_cons_interior hvisible hsub, if_neg hsub]
        simp [ihsub, ihrest]

theorem records_paths_sublist (t : Dir) (clidStr : Text) :
    ((records clidStr t).map Prod.fst).Sublist t.paths := by
  induction t generalizing clidStr with
  | nil => exact refl _
  | cons name sub rest ihsub ihrest =>
    by_cases hname : isHidden name = true
    · rw [records, if_pos hname]
      exact ((ihrest clidStr).trans (sublist_append_right _ _)).cons _
    · rw [records_cons_visible (Bool.eq_false_iff.2 hname), map_append]
      split_ifs
      · exact ((ihrest clidStr).trans (sublist_append_right _ _)).cons_cons _
      · exact ((ihrest clidStr).trans (sublist_append_right _ _)).cons _
      · have hsub := (ihsub (clidStr ++ name)).map (name :: ·)
        rw [map_map] at hsub ⊢
        exact (hsub.append (ihrest clidStr)).cons _

theorem mem_revokedHandles {h : Text} : h ∈ revokedHandles t ↔ [revokedName h] ∈ t.paths := by
  unfold revokedHandles
  simp only [mem_map, mem_filter, mem_names_iff]
  constructor
  · rintro ⟨name, ⟨hname, hrevoked⟩, rfl⟩
    cases name with
    | nil => cases hrevoked
    | cons b rest =>
      simp only [isRevoked, head?_cons, Option.some.injEq, decide_eq_true_eq] at hrevoked
      subst hrevoked
      exact hname
  · exact fun hname => ⟨revokedName h, ⟨hname, rfl⟩, rfl⟩

/-- A path is taken if it is visible, its name is complete and no visible path goes on from it. -/
structure Ends (clidStr : Text) (t : Dir) (p : List FileName) : Prop where
  mem : p ∈ t.paths
  visible : Visible p
  complete : clidFormat (clidStr ++ p.flatten) = .complete
  last : ∀ q ∈ t.paths, Visible q → p <+: q → q = p

section

variable (hnodup : (cons name sub rest).paths.Nodup)
include hnodup

theorem ends_of_rest :
    p ∈ rest.paths → (Ends clidStr rest p ↔ Ends clidStr (.cons name sub rest) p) := by
  intro hp
  constructor
  · intro h
    refine ⟨mem_paths_cons.2 (.inr (.inr hp)), h.visible, h.complete, fun q hq hvisible hpq => ?_⟩
    have hhead : ∀ r, q ≠ name :: r := by
      rintro r rfl
      obtain ⟨head, tail, rfl⟩ := exists_cons_of_ne_nil (ne_nil_of_mem_paths hp)
      obtain rfl := (cons_prefix_cons.1 hpq).1
      exact notMem_rest_of_nodup hnodup hp
    rcases mem_paths_cons.1 hq with rfl | ⟨r, -, rfl⟩ | hq
    · exact absurd rfl (hhead [])
    · exact absurd rfl (hhead r)
    · exact h.last q hq hvisible hpq
  · intro h
    exact ⟨hp, h.visible, h.complete, fun q hq => h.last q (mem_paths_cons.2 (.inr (.inr hq)))⟩

theorem ends_of_sub (hname : isHidden name = false) (hp : p ≠ []) :
    Ends (clidStr ++ name) sub p ↔ Ends clidStr (.cons name sub rest) (name :: p) := by
  have hflat : clidStr ++ name ++ p.flatten = clidStr ++ (name :: p).flatten := by
    simp
  constructor
  · intro h
    refine ⟨(cons_mem_paths_iff hnodup hp).2 h.mem, visible_cons.2 ⟨hname, h.visible⟩,
      hflat ▸ h.complete, fun q hq hvisible hpq => ?_⟩
    obtain ⟨r, rfl⟩ := hpq
    have hr : p ++ r ∈ sub.paths := (cons_mem_paths_iff hnodup (by simp [hp])).1 hq
    rw [cons_append, h.last _ hr (visible_cons.1 hvisible).2 (prefix_append p r)]
  · intro h
    refine ⟨(cons_mem_paths_iff hnodup hp).1 h.mem, (visible_cons.1 h.visible).2,
      hflat ▸ h.complete, fun q hq hvisible hpq => ?_⟩
    have hq' : name :: q ∈ (cons name sub rest).paths :=
      mem_paths_cons.2 (.inr (.inl ⟨q, hq, rfl⟩))
    have heq := h.last (name :: q) hq' (visible_cons.2 ⟨hname, hvisible⟩)
      (cons_prefix_cons.2 ⟨rfl, hpq⟩)
    exact (List.cons.inj heq).2

theorem ends_single (hname : isHidden name = false) :
    Ends clidStr (.cons name sub rest) [name] ↔
      visibleCount sub = 0 ∧ clidFormat (clidStr ++ name) = .complete := by
  have hflat : clidStr ++ [name].flatten = clidStr ++ name := by simp
  have hvisible : Visible [name] := visible_cons.2 ⟨hname, by simp [Visible]⟩
  rw [visibleCount_eq_zero]
  constructor
  · intro h
    refine ⟨fun p hp hp' => ?_, hflat ▸ h.complete⟩
    have heq := h.last (name :: p) (mem_paths_cons.2 (.inr (.inl ⟨p, hp, rfl⟩)))
      (visible_cons.2 ⟨hname, hp'⟩) (cons_prefix_cons.2 ⟨rfl, nil_prefix⟩)
    exact ne_nil_of_mem_paths hp (List.cons.inj heq).2
  · rintro ⟨hsub, hcomplete⟩
    refine ⟨mem_paths_cons.2 (.inl rfl), hvisible, hflat ▸ hcomplete, fun q hq hq' hpq => ?_⟩
    obtain ⟨r, rfl⟩ := hpq
    by_cases hr : r = []
    · rw [hr, append_nil]
    · exact absurd (visible_cons.1 hq').2
        (hsub r ((cons_mem_paths_iff (q := r) hnodup hr).1 hq))

end

theorem ends_hidden (hname : isHidden name = true) (h : Ends clidStr (.cons name sub rest) p) :
    p ∈ rest.paths := by
  have hhead : ∀ q, p ≠ name :: q := by
    rintro q rfl
    rw [(visible_cons.1 h.visible).1] at hname
    cases hname
  rcases mem_paths_cons.1 h.mem with rfl | ⟨q, -, rfl⟩ | hp
  · exact absurd rfl (hhead [])
  · exact absurd rfl (hhead q)
  · exact hp

theorem records_sound (hnodup : t.paths.Nodup) {clidStr : Text} {r : List FileName × List Text}
    (h : r ∈ records clidStr t) :
    Ends clidStr t r.1 ∧ ∀ handle, handle ∈ r.2 ↔ r.1 ++ [revokedName handle] ∈ t.paths := by
  induction t generalizing clidStr r with
  | nil => cases h
  | cons name sub rest ihsub ihrest =>
    obtain ⟨hnodupSub, hnodupRest, -⟩ := nodup_paths_cons.1 hnodup
    have hrest : r ∈ records clidStr rest → Ends clidStr (.cons name sub rest) r.1 ∧
        ∀ handle, handle ∈ r.2 ↔
          r.1 ++ [revokedName handle] ∈ (cons name sub rest).paths := by
      intro hr
      obtain ⟨hends, hhandles⟩ := ihrest hnodupRest hr
      refine ⟨(ends_of_rest hnodup hends.mem).1 hends, fun handle => (hhandles handle).trans ?_⟩
      refine ⟨fun hmem => mem_paths_cons.2 (.inr (.inr hmem)), fun hmem => ?_⟩
      obtain ⟨head, tail, heq⟩ := exists_cons_of_ne_nil (ne_nil_of_mem_paths hends.mem)
      rcases mem_paths_cons.1 hmem with hmem | ⟨q, -, hmem⟩ | hmem
      · simp [heq] at hmem
      · rw [heq, cons_append] at hmem
        obtain rfl := (List.cons.inj hmem).1
        exact absurd (heq ▸ hends.mem) (notMem_rest_of_nodup hnodup)
      · exact hmem
    by_cases hname : isHidden name = true
    · rw [records, if_pos hname] at h
      exact hrest h
    · have hvisible := Bool.eq_false_iff.2 hname
      rw [records_cons_visible hvisible, mem_append] at h
      rcases h with h | h
      · split_ifs at h with hsub hformat
        · obtain rfl := mem_singleton.1 h
          refine ⟨(ends_single hnodup hvisible).2 ⟨hsub, hformat⟩, fun handle => ?_⟩
          rw [mem_revokedHandles]
          exact (cons_mem_paths_iff hnodup (by simp)).symm
        · cases h
        · obtain ⟨r', hr', rfl⟩ := mem_map.1 h
          obtain ⟨hends, hhandles⟩ := ihsub hnodupSub hr'
          refine ⟨(ends_of_sub hnodup hvisible (ne_nil_of_mem_paths hends.mem)).1 hends,
            fun handle => (hhandles handle).trans ?_⟩
          exact (cons_mem_paths_iff hnodup (by simp)).symm
      · exact hrest h

theorem records_complete (hnodup : t.paths.Nodup) {clidStr : Text} (h : Ends clidStr t p) :
    ∃ hs, (p, hs) ∈ records clidStr t := by
  induction t generalizing clidStr p with
  | nil => cases h.mem
  | cons name sub rest ihsub ihrest =>
    obtain ⟨hnodupSub, hnodupRest, -⟩ := nodup_paths_cons.1 hnodup
    by_cases hname : isHidden name = true
    · rw [records, if_pos hname]
      exact ihrest hnodupRest ((ends_of_rest hnodup (ends_hidden hname h)).2 h)
    · have hvisible := Bool.eq_false_iff.2 hname
      rw [records_cons_visible hvisible]
      rcases mem_paths_cons.1 h.mem with rfl | ⟨q, hq, rfl⟩ | hp
      · obtain ⟨hsub, hformat⟩ := (ends_single hnodup hvisible).1 h
        exact ⟨revokedHandles sub, by simp [hsub, hformat]⟩
      · have hends := (ends_of_sub hnodup hvisible (ne_nil_of_mem_paths hq)).2 h
        have hsub : visibleCount sub ≠ 0 := fun hzero =>
          visibleCount_eq_zero.1 hzero q hq hends.visible
        obtain ⟨hs, hr⟩ := ihsub hnodupSub hends
        refine ⟨hs, mem_append_left _ ?_⟩
        rw [if_neg hsub]
        exact mem_map.2 ⟨(q, hs), hr, rfl⟩
      · obtain ⟨hs, hr⟩ := ihrest hnodupRest ((ends_of_rest hnodup hp).2 h)
        exact ⟨hs, mem_append_right _ hr⟩

theorem ite_cons_paths_sublist {c : Prop} [Decidable c] {sub' rest' : Dir}
    (hsub : sub'.paths.Sublist sub.paths) (hrest : rest'.paths.Sublist rest.paths) :
    (if c then cons name sub' rest' else rest').paths.Sublist
      (cons name sub rest).paths := by
  split_ifs
  · exact ((hsub.map _).append hrest).cons_cons _
  · exact (hrest.trans (sublist_append_right _ _)).cons _

theorem read_left_sublist (t : Dir) (clidStr : Text) (tgtdir : Option (List FileName))
    (target : Dir) :
    (fsReadRecovClidsImpl takeover clidStr tgtdir t target).left.paths.Sublist t.paths := by
  induction t generalizing clidStr tgtdir target with
  | nil => exact refl _
  | cons name sub rest ihsub ihrest =>
    by_cases hname : isHidden name = true
    · rw [read_cons_hidden hname]
      exact ((refl _).append (ihrest clidStr tgtdir target)).cons_cons _
    · have hvisible := Bool.eq_false_iff.2 hname
      by_cases hsub : visibleCount sub = 0
      · by_cases hformat : clidFormat (clidStr ++ name) = .complete
        · rw [read_cons_complete hvisible hsub hformat]
          refine ite_cons_paths_sublist ?_ (ihrest _ _ _)
          split_ifs
          · exact refl _
          · exact filterTop_paths_sublist _ sub
        · rw [read_cons_other hvisible hsub hformat]
          exact ite_cons_paths_sublist (refl _) (ihrest _ _ _)
      · rw [read_cons_interior hvisible hsub]
        exact ite_cons_paths_sublist (ihsub _ _ _) (ihrest _ _ _)

def OnlyMarkersHidden (t : Dir) : Prop :=
  ∀ p ∈ t.paths, ∀ name ∈ p, isHidden name = true → isRevoked name = true

theorem OnlyMarkersHidden.of_sub (h : OnlyMarkersHidden (.cons name sub rest)) :
    OnlyMarkersHidden sub := by
  intro p hp name' hname'
  exact h (name :: p) (mem_paths_cons.2 (.inr (.inl ⟨p, hp, rfl⟩))) name'
    (mem_cons_of_mem name hname')

theorem OnlyMarkersHidden.of_rest (h : OnlyMarkersHidden (.cons name sub rest)) :
    OnlyMarkersHidden rest :=
  fun p hp => h p (mem_paths_cons.2 (.inr (.inr hp)))

theorem filterTop_markers (hmarkers : OnlyMarkersHidden t) (h : visibleCount t = 0) :
    t.filterTop (fun name => !isRevoked name) = .nil := by
  induction t with
  | nil => rfl
  | cons name sub rest _ ihrest =>
    unfold visibleCount at h
    split_ifs at h with hname
    have hrevoked : isRevoked name = true :=
      hmarkers [name] (mem_paths_cons.2 (.inl rfl)) name mem_cons_self hname
    unfold filterTop
    rw [if_neg (by simp [hrevoked])]
    exact ihrest hmarkers.of_rest h

theorem mem_ite_cons {c : Prop} [Decidable c] {sub' rest' : Dir}
    (h : p ∈ (if c then cons name sub' rest' else rest').paths) :
    p = [name] ∨ (∃ q ∈ sub'.paths, p = name :: q) ∨ p ∈ rest'.paths := by
  split_ifs at h
  · exact mem_paths_cons.1 h
  · exact .inr (.inr h)

theorem read_left_not_ends (hnodup : t.paths.Nodup) (hmarkers : OnlyMarkersHidden t)
    (clidStr : Text) (tgtdir : Option (List FileName)) (target : Dir) (hends : Ends clidStr t p) :
    p ∉ (fsReadRecovClidsImpl false clidStr tgtdir t target).left.paths := by
  induction t generalizing clidStr tgtdir target p with
  | nil => simp [fsReadRecovClidsImpl, paths]
  | cons name sub rest ihsub ihrest =>
    obtain ⟨hnodupSub, hnodupRest, -⟩ := nodup_paths_cons.1 hnodup
    have hrest : ∀ target',
        p ∉ (fsReadRecovClidsImpl false clidStr tgtdir rest target').left.paths := by
      intro target' hleft
      have hmem := (read_left_sublist rest clidStr tgtdir target').subset hleft
      exact ihrest hnodupRest hmarkers.of_rest clidStr tgtdir target'
        ((ends_of_rest hnodup hmem).2 hends) hleft
    by_cases hname : isHidden name = true
    · rw [read_cons_hidden hname]
      intro hp
      have hmem := ends_hidden hname hends
      rcases mem_paths_cons.1 hp with rfl | ⟨q, -, rfl⟩ | hp
      · exact notMem_rest_of_nodup hnodup hmem
      · exact notMem_rest_of_nodup hnodup hmem
      · exact hrest _ hp
    · have hvisible := Bool.eq_false_iff.2 hname
      by_cases hsub : visibleCount sub = 0
      · by_cases hformat : clidFormat (clidStr ++ name) = .complete
        · rw [read_cons_complete hvisible hsub hformat]
          simp only [Bool.false_eq_true, if_false, filterTop_markers hmarkers.of_sub hsub]
          exact hrest _
        · rw [read_cons_other hvisible hsub hformat]
          intro hp
          rcases mem_ite_cons hp with rfl | ⟨q, hq, rfl⟩ | hp
          · exact hformat ((ends_single hnodup hvisible).1 hends).2
          · exact visibleCount_eq_zero.1 hsub q hq (visible_cons.1 hends.visible).2
          · exact hrest _ hp
      · rw [read_cons_interior hvisible hsub]
        intro hp
        rcases mem_ite_cons hp with rfl | ⟨q, hq, rfl⟩ | hp
        · exact hsub ((ends_single hnodup hvisible).1 hends).1
        · exact ihsub hnodupSub hmarkers.of_sub _ _ _
            ((ends_of_sub hnodup hvisible (ne_nil_of_mem_paths hq)).2 hends) hq
        · exact hrest _ hp

theorem made_eq_ensure (fs : Dir) (path : List FileName) : made fs path = fs.ensure path := by
  unfold made mkdir ensure
  cases fs.insert path with
  | ok fs => rfl
  | error e => cases e <;> rfl

def InTarget (dir : List FileName) (target : Dir) : Prop := dir = [] ∨ dir ∈ target.paths

theorem made_paths {target : Dir} (hnodup : target.paths.Nodup) (hdir : InTarget dir target)
    (name : FileName) :
    (made target (dir ++ [name])).paths.Nodup ∧
      ∀ q, q ∈ (made target (dir ++ [name])).paths ↔ q ∈ target.paths ∨ q = dir ++ [name] := by
  rw [made_eq_ensure]
  apply ensure_paths hnodup (by simp)
  rwa [dropLast_concat]

theorem copyHandles_paths {target : Dir} (hnodup : target.paths.Nodup) (hdir : InTarget dir target)
    (handles : List Text) :
    (copyHandles (some dir) handles target).paths.Nodup ∧
      ∀ q, q ∈ (copyHandles (some dir) handles target).paths ↔
        q ∈ target.paths ∨ ∃ handle ∈ handles, q = dir ++ [revokedName handle] := by
  induction handles generalizing target with
  | nil => exact ⟨hnodup, fun q => by simp [copyHandles]⟩
  | cons handle handles ih =>
    obtain ⟨hnodup', hmem⟩ := made_paths hnodup hdir (revokedName handle)
    have hdir' : InTarget dir (made target (dir ++ [revokedName handle])) :=
      hdir.imp_right fun h => (hmem dir).2 (.inl h)
    obtain ⟨hnodup'', hmem'⟩ := ih hnodup' hdir'
    refine ⟨hnodup'', fun q => (hmem' q).trans ?_⟩
    rw [hmem, or_assoc, exists_mem_cons_iff]

/-- The paths made below `dir`: every visible directory, and the markers of each client next to its
last one. -/
def CopiedTo (clidStr : Text) (t : Dir) (dir q : List FileName) : Prop :=
  (∃ p ∈ t.paths, Visible p ∧ q = dir ++ p) ∨
    ∃ r ∈ records clidStr t, ∃ handle ∈ r.2, q = dir ++ r.1.dropLast ++ [revokedName handle]

theorem copiedTo_nil : ¬ CopiedTo clidStr .nil dir q := by
  rintro (⟨p, hp, -⟩ | ⟨r, hr, -⟩)
  · cases hp
  · cases hr

theorem visible_paths_cons {P : List FileName → Prop} :
    (∃ p ∈ (cons name sub rest).paths, Visible p ∧ P p) ↔
      (isHidden name = false ∧ (P [name] ∨ ∃ p ∈ sub.paths, Visible p ∧ P (name :: p))) ∨
        ∃ p ∈ rest.paths, Visible p ∧ P p := by
  constructor
  · rintro ⟨p, hp, hvisible, hP⟩
    rcases mem_paths_cons.1 hp with rfl | ⟨q, hq, rfl⟩ | hp
    · exact .inl ⟨(visible_cons.1 hvisible).1, .inl hP⟩
    · exact .inl ⟨(visible_cons.1 hvisible).1, .inr ⟨q, hq, (visible_cons.1 hvisible).2, hP⟩⟩
    · exact .inr ⟨p, hp, hvisible, hP⟩
  · rintro (⟨hname, hP | ⟨q, hq, hvisible, hP⟩⟩ | ⟨p, hp, hvisible, hP⟩)
    · exact ⟨[name], mem_paths_cons.2 (.inl rfl), visible_cons.2 ⟨hname, by simp [Visible]⟩, hP⟩
    · exact ⟨name :: q, mem_paths_cons.2 (.inr (.inl ⟨q, hq, rfl⟩)),
        visible_cons.2 ⟨hname, hvisible⟩, hP⟩
    · exact ⟨p, mem_paths_cons.2 (.inr (.inr hp)), hvisible, hP⟩

theorem copiedTo_interior (hname : isHidden name = false) (hsub : visibleCount sub ≠ 0) :
    CopiedTo clidStr (.cons name sub rest) dir q ↔
      (q = dir ++ [name] ∨ CopiedTo (clidStr ++ name) sub (dir ++ [name]) q) ∨
        CopiedTo clidStr rest dir q := by
  have hdropLast : ∀ r ∈ records (clidStr ++ name) sub,
      dir ++ (name :: r.1).dropLast = dir ++ [name] ++ r.1.dropLast := by
    intro r hr
    have hpath := (records_paths_sublist sub (clidStr ++ name)).subset (mem_map_of_mem hr)
    rw [dropLast_cons_of_ne_nil (ne_nil_of_mem_paths hpath)]
    simp
  have hrecords : (∃ r ∈ records clidStr (.cons name sub rest), ∃ handle ∈ r.2,
      q = dir ++ r.1.dropLast ++ [revokedName handle]) ↔
      (∃ r ∈ records (clidStr ++ name) sub, ∃ handle ∈ r.2,
        q = dir ++ [name] ++ r.1.dropLast ++ [revokedName handle]) ∨
      ∃ r ∈ records clidStr rest, ∃ handle ∈ r.2,
        q = dir ++ r.1.dropLast ++ [revokedName handle] := by
    rw [records_cons_visible hname, if_neg hsub]
    constructor
    · rintro ⟨r, hr, handle, hhandle, hq⟩
      rcases mem_append.1 hr with hr | hr
      · obtain ⟨r', hr', rfl⟩ := mem_map.1 hr
        exact .inl ⟨r', hr', handle, hhandle, by rw [← hdropLast r' hr', hq]⟩
      · exact .inr ⟨r, hr, handle, hhandle, hq⟩
    · rintro (⟨r, hr, handle, hhandle, hq⟩ | ⟨r, hr, handle, hhandle, hq⟩)
      · refine ⟨(name :: r.1, r.2), mem_append_left _ (mem_map.2 ⟨r, hr, rfl⟩), handle,
          hhandle, ?_⟩
        rw [hq, hdropLast r hr]
      · exact ⟨r, mem_append_right _ hr, handle, hhandle, hq⟩
  unfold CopiedTo
  rw [visible_paths_cons, hrecords]
  simp only [hname, true_and, append_assoc, cons_append, nil_append]
  rw [or_or_or_comm]
  exact or_congr_left or_assoc

theorem copiedTo_end (hname : isHidden name = false) (hsub : visibleCount sub = 0) :
    CopiedTo clidStr (.cons name sub rest) dir q ↔
      (q = dir ++ [name] ∨ (clidFormat (clidStr ++ name) = .complete ∧
        ∃ handle ∈ revokedHandles sub, q = dir ++ [revokedName handle])) ∨
        CopiedTo clidStr rest dir q := by
  have hnone : ¬ ∃ p ∈ sub.paths, Visible p ∧ q = dir ++ name :: p := by
    rintro ⟨p, hp, hvisible, -⟩
    exact visibleCount_eq_zero.1 hsub p hp hvisible
  unfold CopiedTo
  rw [visible_paths_cons, records_cons_visible hname, if_pos hsub]
  split_ifs with hformat
  · simp only [hname, hformat, true_and, hnone, or_false, cons_append, nil_append,
      exists_mem_cons_iff, dropLast_singleton, append_nil]
    exact or_or_or_comm
  · simp only [hname, hformat, true_and, hnone, or_false, nil_append, false_and]
    exact or_assoc

theorem read_target (takeover : Bool) (t : Dir) (clidStr : Text) {target : Dir}
    (hnodup : target.paths.Nodup) (hdir : InTarget dir target) :
    (fsReadRecovClidsImpl takeover clidStr (some dir) t target).target.paths.Nodup ∧
      ∀ q, q ∈ (fsReadRecovClidsImpl takeover clidStr (some dir) t target).target.paths ↔
        q ∈ target.paths ∨ CopiedTo clidStr t dir q := by
  induction t generalizing clidStr dir target with
  | nil => exact ⟨hnodup, fun q => by simp [fsReadRecovClidsImpl, copiedTo_nil]⟩
  | cons name sub rest ihsub ihrest =>
    by_cases hname : isHidden name = true
    · rw [read_cons_hidden hname]
      obtain ⟨hnodup', hmem⟩ := ihrest clidStr hnodup hdir
      refine ⟨hnodup', fun q => ?_⟩
      rw [CopiedTo, visible_paths_cons, records, if_pos hname, hname]
      simpa [CopiedTo] using hmem q
    · have hvisible := Bool.eq_false_iff.2 hname
      obtain ⟨hnodup1, hmem1⟩ := made_paths hnodup hdir name
      have hdir1 : InTarget dir (made target (dir ++ [name])) :=
        hdir.imp_right fun h => (hmem1 dir).2 (.inl h)
      by_cases hsub : visibleCount sub = 0
      · have hend : ∀ q, CopiedTo clidStr (.cons name sub rest) dir q ↔ _ :=
          fun q => copiedTo_end hvisible hsub
        by_cases hformat : clidFormat (clidStr ++ name) = .complete
        · rw [read_cons_complete hvisible hsub hformat]
          obtain ⟨hnodup2, hmem2⟩ := copyHandles_paths hnodup1 hdir1 (revokedHandles sub)
          have hdir2 : InTarget dir (copyHandles (some dir) (revokedHandles sub)
              (made target (dir ++ [name]))) :=
            hdir1.imp_right fun h => (hmem2 dir).2 (.inl h)
          obtain ⟨hnodup3, hmem3⟩ := ihrest clidStr hnodup2 hdir2
          refine ⟨hnodup3, fun q => (hmem3 q).trans ?_⟩
          rw [hmem2, hmem1, hend, and_iff_right hformat, or_assoc, or_assoc, or_assoc]
        · rw [read_cons_other hvisible hsub hformat]
          obtain ⟨hnodup2, hmem2⟩ := ihrest clidStr hnodup1 hdir1
          refine ⟨hnodup2, fun q => (hmem2 q).trans ?_⟩
          rw [hmem1, hend, or_assoc]
          simp [hformat]
      · rw [read_cons_interior hvisible hsub]
        have hinto : InTarget (dir ++ [name]) (made target (dir ++ [name])) :=
          .inr ((hmem1 _).2 (.inr rfl))
        obtain ⟨hnodup2, hmem2⟩ := ihsub (clidStr ++ name) hnodup1 hinto
        have hdir2 := hdir1.imp_right fun h => (hmem2 dir).2 (.inl h)
        obtain ⟨hnodup3, hmem3⟩ := ihrest clidStr hnodup2 hdir2
        refine ⟨hnodup3, fun q => (hmem3 q).trans ?_⟩
        rw [hmem2, hmem1, copiedTo_interior hvisible hsub, or_assoc, or_assoc, or_assoc]

end Read

end EdgeComputing.Sal
