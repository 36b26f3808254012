import Mathlib.Data.List.Nodup

/-!
Hierarchies of names, as a directory listing shows them. A path is a non-empty list of names that
leads to an entry. Trees whose paths are permutations of one another list the same hierarchy.
-/

namespace EdgeComputing.Library

open List

inductive PathTree (α : Type*)
  | nil
  | cons (name : α) (sub rest : PathTree α)
deriving DecidableEq

inductive InsertError
  | present
  | noParent
deriving DecidableEq

namespace PathTree

variable {α : Type*}

def paths : PathTree α → List (List α)
  | nil => []
  | cons name sub rest => [name] :: (sub.paths.map (name :: ·) ++ rest.paths)

def names : PathTree α → List α
  | nil => []
  | cons name _ rest => name :: rest.names

def filterTop (p : α → Bool) : PathTree α → PathTree α
  | nil => nil
  | cons name sub rest => if p name then cons name sub (rest.filterTop p) else rest.filterTop p

def insert [DecidableEq α] : PathTree α → List α → Except InsertError (PathTree α)
  | _, [] => .error .present
  | nil, [name] => .ok (cons name nil nil)
  | nil, _ :: _ :: _ => .error .noParent
  | cons name sub rest, head :: tail =>
    if name = head then (sub.insert tail).map fun sub => cons name sub rest
    else (rest.insert (head :: tail)).map fun rest => cons name sub rest

def ensure [DecidableEq α] (t : PathTree α) (path : List α) : PathTree α :=
  match t.insert path with
  | .ok t => t
  | .error _ => t

variable {name : α} {sub rest t : PathTree α} {p : List α} {q : List α}

theorem mem_paths_cons :
    p ∈ (cons name sub rest).paths ↔
      p = [name] ∨ (∃ q ∈ sub.paths, p = name :: q) ∨ p ∈ rest.paths := by
  simp only [paths, mem_cons, mem_append, mem_map, eq_comm]

theorem nil_notMem_paths (t : PathTree α) : [] ∉ t.paths := by
  induction t with
  | nil => simp [paths]
  | cons name sub rest _ ihrest =>
    rw [mem_paths_cons]
    rintro (h | ⟨q, -, h⟩ | h)
    · cases h
    · cases h
    · exact ihrest h

theorem ne_nil_of_mem_paths (h : p ∈ t.paths) : p ≠ [] := by
  rintro rfl
  exact nil_notMem_paths t h

theorem mem_paths_of_append (hp : p ≠ []) (h : p ++ q ∈ t.paths) : p ∈ t.paths := by
  induction t generalizing p with
  | nil => cases h
  | cons name sub rest ihsub ihrest =>
    obtain ⟨head, tail, rfl⟩ := exists_cons_of_ne_nil hp
    rw [mem_paths_cons] at h ⊢
    rcases h with h | ⟨r, hr, h⟩ | h
    · simp only [cons_append, List.cons.injEq, append_eq_nil_iff] at h
      exact .inl (by rw [h.1, h.2.1])
    · simp only [cons_append, List.cons.injEq] at h
      obtain ⟨rfl, rfl⟩ := h
      by_cases htail : tail = []
      · exact .inl (by rw [htail])
      · exact .inr (.inl ⟨tail, ihsub htail hr, rfl⟩)
    · exact .inr (.inr (ihrest (by simp) h))

theorem mem_names_iff : name ∈ t.names ↔ [name] ∈ t.paths := by
  induction t with
  | nil => simp [names, paths]
  | cons head sub rest _ ihrest =>
    rw [names, mem_cons, mem_paths_cons, ihrest]
    constructor
    · rintro (rfl | h)
      · exact .inl rfl
      · exact .inr (.inr h)
    · rintro (h | ⟨q, hq, h⟩ | h)
      · cases h
        exact .inl rfl
      · cases h
        exact absurd hq (nil_notMem_paths sub)
      · exact .inr h

theorem nodup_paths_cons :
    (cons name sub rest).paths.Nodup ↔
      sub.paths.Nodup ∧ rest.paths.Nodup ∧ [name] ∉ rest.paths := by
  rw [paths, nodup_cons, nodup_append', mem_append, not_or, nodup_map_iff (cons_injective)]
  constructor
  · rintro ⟨⟨-, hname⟩, hsub, hrest, -⟩
    exact ⟨hsub, hrest, hname⟩
  · rintro ⟨hsub, hrest, hname⟩
    refine ⟨⟨?_, hname⟩, hsub, hrest, ?_⟩
    · rintro h
      obtain ⟨q, hq, h⟩ := mem_map.1 h
      cases h
      exact nil_notMem_paths sub hq
    · intro p hp hprest
      obtain ⟨q, -, rfl⟩ := mem_map.1 hp
      exact hname (mem_paths_of_append (p := [name]) (by simp) hprest)

theorem notMem_rest_of_nodup (h : (cons name sub rest).paths.Nodup) : name :: q ∉ rest.paths := by
  intro hq
  exact (nodup_paths_cons.1 h).2.2 (mem_paths_of_append (p := [name]) (by simp) hq)

theorem cons_mem_paths_iff (h : (cons name sub rest).paths.Nodup) (hq : q ≠ []) :
    name :: q ∈ (cons name sub rest).paths ↔ q ∈ sub.paths := by
  rw [mem_paths_cons]
  constructor
  · rintro (heq | ⟨r, hr, heq⟩ | hrest)
    · cases heq
      exact absurd rfl hq
    · cases heq
      exact hr
    · exact absurd hrest (notMem_rest_of_nodup h)
  · exact fun hsub => .inr (.inl ⟨q, hsub, rfl⟩)

theorem filterTop_paths_sublist (p : α → Bool) (t : PathTree α) :
    (t.filterTop p).paths.Sublist t.paths := by
  induction t with
  | nil => exact List.Sublist.refl _
  | cons name sub rest _ ihrest =>
    unfold filterTop
    split_ifs
    · exact ((List.Sublist.refl _).append ihrest).cons_cons _
    · exact (ihrest.trans (sublist_append_right _ _)).cons _

section Insert

variable [DecidableEq α]

def InsertSpec (t : PathTree α) (p : List α) : Except InsertError (PathTree α) → Prop
  | .ok t' => p ∉ t.paths ∧ t'.paths.Perm (p :: t.paths)
  | .error .present => p = [] ∨ p ∈ t.paths
  | .error .noParent => p.dropLast ≠ [] ∧ p.dropLast ∉ t.paths

theorem insert_spec (h : t.paths.Nodup) (p : List α) : InsertSpec t p (t.insert p) := by
  induction t generalizing p with
  | nil =>
    match p with
    | [] => exact .inl rfl
    | [name] => exact ⟨by simp [paths], by simp [paths]⟩
    | head :: next :: tail => exact ⟨by simp, by simp [paths]⟩
  | cons name sub rest ihsub ihrest =>
    obtain ⟨hsub, hrest, hname⟩ := nodup_paths_cons.1 h
    match p with
    | [] => exact .inl rfl
    | head :: tail =>
      by_cases heq : name = head
      · subst heq
        have hinsert : (cons name sub rest).insert (name :: tail) =
            (sub.insert tail).map fun sub => cons name sub rest := by
          rw [insert, if_pos rfl]
        rw [hinsert]
        have hspec := ihsub hsub tail
        revert hspec
        generalize sub.insert tail = result
        intro hspec
        match result, hspec with
        | .ok sub', ⟨hnot, hperm⟩ =>
          have htail : tail ≠ [] :=
            ne_nil_of_mem_paths (hperm.mem_iff.2 mem_cons_self)
          refine ⟨fun hmem => hnot ((cons_mem_paths_iff h htail).1 hmem), ?_⟩
          have hmap := (hperm.map (name :: ·)).append_right rest.paths
          exact (hmap.cons [name]).trans (List.Perm.swap _ _ _)
        | .error .present, hmem =>
          rcases hmem with rfl | hmem
          · exact .inr (mem_paths_cons.2 (.inl rfl))
          · exact .inr (mem_paths_cons.2 (.inr (.inl ⟨tail, hmem, rfl⟩)))
        | .error .noParent, ⟨hne, hnot⟩ =>
          have htail : tail ≠ [] := by
            rintro rfl
            exact hne rfl
          have hlast : (name :: tail).dropLast = name :: tail.dropLast :=
            dropLast_cons_of_ne_nil htail
          refine ⟨by rw [hlast]; simp, ?_⟩
          rw [hlast]
          exact fun hmem => hnot ((cons_mem_paths_iff h hne).1 hmem)
      · have hinsert : (cons name sub rest).insert (head :: tail) =
            (rest.insert (head :: tail)).map fun rest => cons name sub rest := by
          rw [insert, if_neg heq]
        have hmem : ∀ {q : List α}, head :: q ∈ (cons name sub rest).paths →
            head :: q ∈ rest.paths := by
          intro q hq
          rcases mem_paths_cons.1 hq with hq | ⟨r, -, hq⟩ | hq
          · cases hq
            exact absurd rfl heq
          · cases hq
            exact absurd rfl heq
          · exact hq
        rw [hinsert]
        have hspec := ihrest hrest (head :: tail)
        revert hspec
        generalize rest.insert (head :: tail) = result
        intro hspec
        match result, hspec with
        | .ok rest', ⟨hnot, hperm⟩ =>
          refine ⟨fun hq => hnot (hmem hq), ?_⟩
          have happend := (hperm.append_left (sub.paths.map (name :: ·))).trans
            perm_middle
          exact (happend.cons [name]).trans (List.Perm.swap _ _ _)
        | .error .present, hq =>
          exact .inr (mem_paths_cons.2 (.inr (.inr (hq.resolve_left (by simp)))))
        | .error .noParent, ⟨hne, hnot⟩ =>
          refine ⟨hne, fun hq => hnot ?_⟩
          cases tail with
          | nil => exact absurd rfl hne
          | cons next tail =>
            rw [dropLast_cons_of_ne_nil (by simp)] at hq ⊢
            exact hmem hq

theorem ensure_paths (h : t.paths.Nodup) (hp : p ≠ [])
    (hparent : p.dropLast = [] ∨ p.dropLast ∈ t.paths) :
    (t.ensure p).paths.Nodup ∧ ∀ q, q ∈ (t.ensure p).paths ↔ q ∈ t.paths ∨ q = p := by
  have hspec := insert_spec h p
  unfold ensure
  generalize t.insert p = result at hspec ⊢
  match result, hspec with
  | .ok t', ⟨hnot, hperm⟩ =>
    refine ⟨hperm.nodup_iff.2 (nodup_cons.2 ⟨hnot, h⟩), fun q => ?_⟩
    rw [hperm.mem_iff, mem_cons, or_comm]
  | .error .present, hmem =>
    have hmem' : p ∈ t.paths := hmem.resolve_left hp
    refine ⟨h, fun q => ⟨.inl, ?_⟩⟩
    rintro (hq | rfl)
    · exact hq
    · exact hmem'
  | .error .noParent, ⟨hne, hnot⟩ =>
    rcases hparent with hparent | hparent
    · exact absurd hparent hne
    · exact absurd hparent hnot

end Insert

end PathTree

end EdgeComputing.Library
