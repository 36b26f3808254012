import Mathlib.Data.List.Basic

/-!
The search for an export by its path or pseudo path. One loop keeps the longest match so far. It
takes a reference on the path string of every export it looks at.
-/

namespace EdgeComputing.Support

open List Function

/-- A `gsh_refstr`, by its address; its characters without the terminator. -/
structure Refstr where
  addr : Nat
  grVal : List Char
  deriving DecidableEq

structure GshExport where
  exportId : Nat
  fullpath : Refstr
  pseudopath : Option Refstr
  deriving DecidableEq

@[ext]
structure ExportRefs where
  strings : Nat → Nat
  exports : Nat → Nat

namespace ExportRefs

def getStr (refs : ExportRefs) (str : Refstr) : ExportRefs :=
  { refs with strings := update refs.strings str.addr (refs.strings str.addr + 1) }

def putStr (refs : ExportRefs) (str : Refstr) : ExportRefs :=
  { refs with strings := update refs.strings str.addr (refs.strings str.addr - 1) }

def getExport (refs : ExportRefs) (e : GshExport) : ExportRefs :=
  { refs with exports := update refs.exports e.exportId (refs.exports e.exportId + 1) }

theorem putStr_getStr (refs : ExportRefs) (str : Refstr) : (refs.getStr str).putStr str = refs := by
  simp [getStr, putStr]

end ExportRefs

def lenPath (path : List Char) : Nat :=
  if 1 < path.length ∧ path.getLast? = some '/' then path.length - 1 else path.length

structure LookupState where
  refs : ExportRefs
  retExp : Option GshExport := none
  lenRet : Nat := 0

/-- The loop over the export list. `pathOf` is the path the search is for; an export without one is
skipped. The terminator of the path is the end of the list. -/
def lookupLoop (pathOf : GshExport → Option Refstr) (path : List Char) (exactMatch : Bool) :
    List GshExport → LookupState → LookupState
  | [], s => s
  | e :: rest, s =>
    match pathOf e with
    | none => lookupLoop pathOf path exactMatch rest s
    | some str =>
      let refs := s.refs.getStr str
      let lenExport := str.grVal.length
      if lenPath path = 0 ∧ lenExport = 1 then
        { refs := refs.putStr str, retExp := some e, lenRet := lenExport }
      else if lenPath path < lenExport ∨ lenExport < s.lenRet then
        lookupLoop pathOf path exactMatch rest { s with refs := refs.putStr str }
      else if exactMatch ∧ lenPath path ≠ lenExport then
        lookupLoop pathOf path exactMatch rest { s with refs := refs.putStr str }
      else if 1 < lenExport ∧ path[lenExport]? ≠ some '/' ∧ path[lenExport]? ≠ none then
        lookupLoop pathOf path exactMatch rest { s with refs := refs.putStr str }
      else if str.grVal.take lenExport = path.take lenExport then
        if lenExport = lenPath path then
          { refs := refs.putStr str, retExp := some e, lenRet := lenExport }
        else
          lookupLoop pathOf path exactMatch rest
            { refs := refs, retExp := some e, lenRet := lenExport }
      else lookupLoop pathOf path exactMatch rest { s with refs := refs }

def getGshExportBy (pathOf : GshExport → Option Refstr) (exportlist : List GshExport)
    (refs : ExportRefs) (path : List Char) (exactMatch : Bool) : Option GshExport × ExportRefs :=
  let s := lookupLoop pathOf path exactMatch exportlist { refs := refs }
  (s.retExp, s.retExp.elim s.refs s.refs.getExport)

def getGshExportByPathLocked : List GshExport → ExportRefs → List Char → Bool →
    Option GshExport × ExportRefs :=
  getGshExportBy fun e => some e.fullpath

def getGshExportByPseudoLocked : List GshExport → ExportRefs → List Char → Bool →
    Option GshExport × ExportRefs :=
  getGshExportBy GshExport.pseudopath

/-- An absolute path without a trailing slash; the root is a slash. -/
def ExportPath (e : List Char) : Prop :=
  e.head? = some '/' ∧ (e = ['/'] ∨ e.getLast? ≠ some '/')

def SamePath (e path : List Char) : Prop :=
  e = path ∨ e ++ ['/'] = path ∨ e = path ++ ['/']

def WholePrefix (e path : List Char) : Prop :=
  e = ['/'] ∧ path.head? = some '/' ∨ e ++ ['/'] <+: path

def PathMatches (exactMatch : Bool) (e path : List Char) : Prop :=
  SamePath e path ∨ exactMatch = false ∧ WholePrefix e path

def Boundary (e path : List Char) : Prop :=
  1 < e.length → path[e.length]? = some '/' ∨ path[e.length]? = none

instance (e path : List Char) : Decidable (Boundary e path) :=
  inferInstanceAs (Decidable (_ → _ ∨ _))

instance (e path : List Char) : Decidable (SamePath e path) :=
  inferInstanceAs (Decidable (_ ∨ _ ∨ _))

section Paths

variable {e path : List Char}

theorem lenPath_le (path : List Char) : lenPath path ≤ path.length := by
  unfold lenPath
  split_ifs <;> omega

theorem le_lenPath (path : List Char) : path.length ≤ lenPath path + 1 := by
  unfold lenPath
  split_ifs <;> omega

theorem lenPath_eq_zero : lenPath path = 0 ↔ path = [] := by
  unfold lenPath
  split_ifs with h
  · constructor
    · intro h0
      omega
    · rintro rfl
      simp at h
  · exact length_eq_zero_iff

theorem ExportPath.length_pos (he : ExportPath e) : 0 < e.length := by
  cases e with
  | nil => cases he.1
  | cons c cs => simp

theorem ExportPath.eq_root (he : ExportPath e) (h : e.length = 1) : e = ['/'] := by
  obtain ⟨c, rfl⟩ := length_eq_one_iff.mp h
  simpa using he.1

theorem samePath_iff (he : ExportPath e) :
    SamePath e path ↔ (lenPath path = 0 ∧ e.length = 1) ∨
      (e.length = lenPath path ∧ Boundary e path ∧ e = path.take e.length) := by
  constructor
  · rintro (rfl | rfl | rfl)
    · refine .inr ⟨?_, fun _ => .inr (by simp), by simp⟩
      unfold lenPath
      rw [if_neg]
      rintro ⟨hlen, hlast⟩
      obtain rfl | hne := he.2
      · simp at hlen
      · exact hne hlast
    · refine .inr ⟨?_, fun _ => .inl (by simp), by simp⟩
      have hpos := he.length_pos
      unfold lenPath
      rw [if_pos ⟨by simp; omega, by simp⟩]
      simp
    · obtain hroot | hne := he.2
      · refine .inl ⟨lenPath_eq_zero.mpr ?_, by rw [hroot]; rfl⟩
        simpa using congrArg length hroot
      · simp at hne
  · rintro (⟨h0, h1⟩ | ⟨hlen, hbound, htake⟩)
    · rw [lenPath_eq_zero.mp h0, he.eq_root h1]
      exact .inr (.inr rfl)
    · unfold lenPath at hlen
      split_ifs at hlen with h
      · refine .inr (.inl ?_)
        obtain ⟨init, hinit⟩ := getLast?_eq_some_iff.mp h.2
        have hlen' : e.length = init.length := by
          rw [hlen, hinit]
          simp
        rw [htake, hlen', hinit]
        simp
      · refine .inl ?_
        rw [htake, hlen, take_length]

theorem matches_iff (he : ExportPath e) :
    SamePath e path ∨ WholePrefix e path ↔ (lenPath path = 0 ∧ e.length = 1) ∨
      (e.length ≤ lenPath path ∧ Boundary e path ∧ e = path.take e.length) := by
  have hle := le_lenPath path
  constructor
  · rintro (hsame | ⟨rfl, hhead⟩ | hpre)
    · exact ((samePath_iff he).mp hsame).imp_right fun ⟨hlen, hrest⟩ =>
        ⟨Nat.le_of_eq hlen, hrest⟩
    · cases path with
      | nil => cases hhead
      | cons c cs =>
        obtain rfl : c = '/' := by simpa using hhead
        refine .inr ⟨?_, fun h => by simp at h, by simp⟩
        have h0 : lenPath ('/' :: cs) ≠ 0 := fun h => by simpa using lenPath_eq_zero.mp h
        simp only [length_cons, length_nil]
        omega
    · obtain ⟨rest, rfl⟩ := hpre
      refine .inr ⟨?_, fun _ => .inl (by simp), by simp⟩
      simp only [length_append, length_cons, length_nil] at hle
      omega
  · rintro (hroot | ⟨hlen, hbound, htake⟩)
    · exact .inl ((samePath_iff he).mpr (.inl hroot))
    · have hle' := lenPath_le path
      by_cases hone : 1 < e.length
      · obtain hslash | hnone := hbound hone
        · refine .inr (.inr ⟨path.drop (e.length + 1), ?_⟩)
          have hdrop : path.drop e.length = '/' :: path.drop (e.length + 1) := by
            obtain ⟨hlt, hget⟩ := List.getElem?_eq_some_iff.mp hslash
            rw [drop_eq_getElem_cons hlt, hget]
          rw [append_assoc, singleton_append, ← hdrop]
          nth_rewrite 1 [htake]
          exact take_append_drop _ _
        · refine .inl (.inl ?_)
          rw [htake, take_of_length_le (getElem?_eq_none_iff.mp hnone)]
      · have hroot := he.eq_root (by have := he.length_pos; omega)
        refine .inr (.inl ⟨hroot, ?_⟩)
        rw [hroot] at htake
        cases path with
        | nil => simp at htake
        | cons c cs => simpa using htake.symm

theorem length_le_of_matches {f : List Char} (he : ExportPath e) (hf : ExportPath f)
    (hsame : SamePath e path) {exactMatch : Bool} (hmatch : PathMatches exactMatch f path) :
    f.length ≤ e.length := by
  have hpos := hf.length_pos
  have hcode := (matches_iff hf).mp (hmatch.imp_right And.right)
  obtain ⟨h0, h1⟩ | ⟨hlen, -⟩ := (samePath_iff he).mp hsame
  · obtain ⟨-, h1'⟩ | ⟨hlen, -⟩ := hcode <;> omega
  · obtain ⟨h0, h1'⟩ | ⟨hlen', -⟩ := hcode
    · have := he.length_pos
      omega
    · omega

end Paths

/-- The string of an export that is as long as nothing or shorter than the path is compared with
it, unless its end is inside a component. -/
def Compared (exactMatch : Bool) (path e : List Char) : Prop :=
  ¬ (lenPath path = 0 ∧ e.length = 1) ∧ e.length ≤ lenPath path ∧
    (exactMatch = true → lenPath path = e.length) ∧ Boundary e path

instance (exactMatch : Bool) (path e : List Char) : Decidable (Compared exactMatch path e) :=
  inferInstanceAs (Decidable (_ ∧ _ ∧ (_ → _) ∧ _))

/-- One iteration: the search ends at the same path, the export is skipped, or its string is
compared and the reference on it is kept. -/
inductive Iteration (exactMatch : Bool) (path : List Char) (s : LookupState) (e : GshExport)
    (str : Refstr) : LookupState ⊕ LookupState → Prop
  | found : SamePath str.grVal path →
      Iteration exactMatch path s e str
        (.inl { refs := s.refs, retExp := some e, lenRet := str.grVal.length })
  | skipped : ¬ Compared exactMatch path str.grVal ∨ str.grVal.length < s.lenRet →
      ¬ PathMatches exactMatch str.grVal path ∨ str.grVal.length < s.lenRet →
      Iteration exactMatch path s e str (.inr s)
  | better : Compared exactMatch path str.grVal → ¬ SamePath str.grVal path →
      PathMatches exactMatch str.grVal path → s.lenRet ≤ str.grVal.length →
      Iteration exactMatch path s e str
        (.inr { refs := s.refs.getStr str, retExp := some e, lenRet := str.grVal.length })
  | differs : Compared exactMatch path str.grVal → ¬ PathMatches exactMatch str.grVal path →
      Iteration exactMatch path s e str (.inr { s with refs := s.refs.getStr str })

def PathsOf (pathOf : GshExport → Option Refstr) (exportlist : List GshExport) : Prop :=
  ∀ e ∈ exportlist, ∀ f, pathOf e = some f → ExportPath f.grVal

section Loop

variable {pathOf : GshExport → Option Refstr} {path : List Char} {exactMatch : Bool}
  {e : GshExport} {str : Refstr} {s : LookupState} {before : List GshExport}

theorem lookupLoop_cons (exactMatch : Bool) (path : List Char) (s : LookupState)
    (hstr : pathOf e = some str) (he : ExportPath str.grVal) (rest : List GshExport) :
    ∃ next, Iteration exactMatch path s e str next ∧
      lookupLoop pathOf path exactMatch (e :: rest) s =
        next.elim id (lookupLoop pathOf path exactMatch rest) := by
  have hpos := he.length_pos
  have hsame : SamePath str.grVal path ↔ _ := samePath_iff he
  have hmatches : SamePath str.grVal path ∨ WholePrefix str.grVal path ↔ _ := matches_iff he
  simp only [lookupLoop, hstr, ExportRefs.putStr_getStr, take_length]
  split_ifs with hroot hlen hexact hbound htake heq
  · exact ⟨_, .found (hsame.mpr (.inl hroot)), rfl⟩
  · refine ⟨_, .skipped ?_ ?_, rfl⟩
    · exact hlen.imp_left fun hlt hcmp => by have := hcmp.2.1; omega
    · refine hlen.imp_left fun hlt hmatch => ?_
      obtain hroot' | ⟨hle, -⟩ := hmatches.mp (hmatch.imp_right And.right)
      · exact hroot hroot'
      · omega
  · refine ⟨_, .skipped (.inl fun hcmp => hexact.2 (hcmp.2.2.1 hexact.1)) (.inl ?_), rfl⟩
    rintro (hs | ⟨hf, -⟩)
    · obtain hroot' | ⟨heq, -⟩ := hsame.mp hs
      · exact hroot hroot'
      · exact hexact.2 heq.symm
    · rw [hexact.1] at hf
      cases hf
  · have hnot : ¬ Boundary str.grVal path := fun hb => by
      obtain h | h := hb hbound.1
      · exact hbound.2.1 h
      · exact hbound.2.2 h
    refine ⟨_, .skipped (.inl fun hcmp => hnot hcmp.2.2.2) (.inl fun hmatch => ?_), rfl⟩
    obtain hroot' | ⟨-, hb, -⟩ := hmatches.mp (hmatch.imp_right And.right)
    · exact hroot hroot'
    · exact hnot hb
  all_goals
    have hb : Boundary str.grVal path := fun hone => by
      by_contra hno
      exact hbound ⟨hone, fun h => hno (.inl h), fun h => hno (.inr h)⟩
    have hle : str.grVal.length ≤ lenPath path := by omega
    have hcmp : Compared exactMatch path str.grVal :=
      ⟨hroot, hle, fun h => by_contra fun hne => hexact ⟨h, hne⟩, hb⟩
  · exact ⟨_, .found (hsame.mpr (.inr ⟨heq, hb, htake⟩)), rfl⟩
  · have hnot : ¬ SamePath str.grVal path := fun hs => by
      obtain hroot' | ⟨heq', -⟩ := hsame.mp hs
      · exact hroot hroot'
      · exact heq heq'
    have hinexact : exactMatch = false := by
      by_contra htrue
      exact heq (hcmp.2.2.1 (by simpa using htrue)).symm
    have hpre := (hmatches.mpr (.inr ⟨hle, hb, htake⟩)).resolve_left hnot
    exact ⟨_, .better hcmp hnot (.inr ⟨hinexact, hpre⟩) (by omega), rfl⟩
  · refine ⟨_, .differs hcmp fun hmatch => ?_, rfl⟩
    obtain hroot' | ⟨-, -, htake'⟩ := hmatches.mp (hmatch.imp_right And.right)
    · exact hroot hroot'
    · exact htake htake'

def BestOf (pathOf : GshExport → Option Refstr) (exactMatch : Bool) (path : List Char)
    (exports : List GshExport) : Option GshExport → Prop
  | none => ∀ x ∈ exports, ∀ f, pathOf x = some f → ¬ PathMatches exactMatch f.grVal path
  | some e => e ∈ exports ∧ ∃ f, pathOf e = some f ∧ PathMatches exactMatch f.grVal path ∧
      ∀ x ∈ exports, ∀ g, pathOf x = some g → PathMatches exactMatch g.grVal path →
        g.grVal.length ≤ f.grVal.length

structure LoopBest (pathOf : GshExport → Option Refstr) (exactMatch : Bool) (path : List Char)
    (before : List GshExport) (s : LookupState) : Prop where
  best : BestOf pathOf exactMatch path before s.retExp
  len : s.lenRet = (s.retExp.bind pathOf).elim 0 (·.grVal.length)

theorem LoopBest.skip (hs : LoopBest pathOf exactMatch path before s)
    (hno : ∀ f, pathOf e = some f → ¬ PathMatches exactMatch f.grVal path ∨ f.grVal.length < s.lenRet) :
    LoopBest pathOf exactMatch path (before ++ [e]) s := by
  refine ⟨?_, hs.len⟩
  have hbest := hs.best
  have hlen := hs.len
  cases hret : s.retExp with
  | none =>
    rw [hret] at hbest hlen
    intro x hx f hf hmatch
    obtain hx | hx := mem_append.mp hx
    · exact hbest x hx f hf hmatch
    · obtain rfl := mem_singleton.mp hx
      obtain hno | hlt := hno f hf
      · exact hno hmatch
      · simp [hlen] at hlt
  | some r =>
    rw [hret] at hbest hlen
    obtain ⟨hr, f, hf, hmatch, hmax⟩ := hbest
    refine ⟨mem_append_left _ hr, f, hf, hmatch, fun x hx g hg hmatch' => ?_⟩
    obtain hx | hx := mem_append.mp hx
    · exact hmax x hx g hg hmatch'
    · obtain rfl := mem_singleton.mp hx
      obtain hno | hlt := hno g hg
      · exact absurd hmatch' hno
      · simp only [Option.bind_some, hf, Option.elim_some] at hlen
        omega

theorem LoopBest.replace (hs : LoopBest pathOf exactMatch path before s)
    (hstr : pathOf e = some str) (hmatch : PathMatches exactMatch str.grVal path)
    (hle : s.lenRet ≤ str.grVal.length) (refs : ExportRefs) :
    LoopBest pathOf exactMatch path (before ++ [e])
      { refs := refs, retExp := some e, lenRet := str.grVal.length } := by
  refine ⟨⟨by simp, str, hstr, hmatch, fun x hx g hg hmatch' => ?_⟩, by simp [hstr]⟩
  obtain hx | hx := mem_append.mp hx
  · have hbest := hs.best
    have hlen := hs.len
    cases hret : s.retExp with
    | none =>
      rw [hret] at hbest
      exact absurd hmatch' (hbest x hx g hg)
    | some r =>
      rw [hret] at hbest hlen
      obtain ⟨-, f, hf, -, hmax⟩ := hbest
      have hgf := hmax x hx g hg hmatch'
      simp only [Option.bind_some, hf, Option.elim_some] at hlen
      omega
  · obtain rfl := mem_singleton.mp hx
    rw [hstr, Option.some.injEq] at hg
    exact Nat.le_of_eq (by rw [hg])

theorem lookupLoop_best (before : List GshExport) {rest : List GshExport}
    (hpaths : PathsOf pathOf (before ++ rest))
    (hs : LoopBest pathOf exactMatch path before s) :
    BestOf pathOf exactMatch path (before ++ rest)
      (lookupLoop pathOf path exactMatch rest s).retExp := by
  induction rest generalizing before s with
  | nil => simpa [lookupLoop] using hs.best
  | cons e rest ih =>
    have hsplit : before ++ e :: rest = (before ++ [e]) ++ rest := by simp
    cases hstr : pathOf e with
    | none =>
      have hskip : LoopBest pathOf exactMatch path (before ++ [e]) s :=
        hs.skip fun f hf => by simp [hstr] at hf
      simp only [lookupLoop, hstr]
      rw [hsplit] at hpaths ⊢
      exact ih _ hpaths hskip
    | some str =>
      have he : ExportPath str.grVal := hpaths e (by simp) str hstr
      obtain ⟨next, hiter, hloop⟩ := lookupLoop_cons exactMatch path s hstr he rest
      rw [hloop]
      cases hiter with
      | found hsame =>
        refine ⟨by simp, str, hstr, .inl hsame, fun x hx g hg hmatch => ?_⟩
        exact length_le_of_matches he (hpaths x hx g hg) hsame hmatch
      | skipped _ hno =>
        rw [hsplit] at hpaths ⊢
        refine ih _ hpaths (hs.skip fun f hf => ?_)
        rw [hstr, Option.some.injEq] at hf
        exact hf ▸ hno
      | better _ _ hmatch hle =>
        rw [hsplit] at hpaths ⊢
        exact ih _ hpaths (hs.replace hstr hmatch hle _)
      | differs _ hno =>
        rw [hsplit] at hpaths ⊢
        have hskip : LoopBest pathOf exactMatch path (before ++ [e]) s := hs.skip fun f hf => by
          rw [hstr, Option.some.injEq] at hf
          exact .inl (hf ▸ hno)
        exact ih _ hpaths ⟨hskip.best, hskip.len⟩

def NoneCompared (pathOf : GshExport → Option Refstr) (exactMatch : Bool) (path : List Char)
    (exports : List GshExport) : Prop :=
  ∀ f ∈ (exports.filterMap pathOf).takeWhile (¬ SamePath ·.grVal path),
    ¬ Compared exactMatch path f.grVal

instance (pathOf : GshExport → Option Refstr) (exactMatch : Bool) (path : List Char)
    (exports : List GshExport) : Decidable (NoneCompared pathOf exactMatch path exports) :=
  inferInstanceAs (Decidable (∀ f ∈ _, _))

theorem noneCompared_cons {rest : List GshExport} (hstr : pathOf e = some str) :
    NoneCompared pathOf exactMatch path (e :: rest) ↔
      SamePath str.grVal path ∨
        ¬ Compared exactMatch path str.grVal ∧ NoneCompared pathOf exactMatch path rest := by
  unfold NoneCompared
  rw [filterMap_cons_some hstr, takeWhile_cons]
  by_cases hsame : SamePath str.grVal path
  · simp [hsame]
  · simp [hsame]

variable {rest : List GshExport} (hpaths : PathsOf pathOf rest)

include hpaths

theorem lookupLoop_refs :
    (lookupLoop pathOf path exactMatch rest s).refs.exports = s.refs.exports ∧
      ∀ a, s.refs.strings a ≤ (lookupLoop pathOf path exactMatch rest s).refs.strings a := by
  induction rest generalizing s with
  | nil => exact ⟨rfl, fun a => Nat.le_refl _⟩
  | cons e rest ih =>
    have hrest : PathsOf pathOf rest := (forall_mem_cons.1 hpaths).2
    have hget : ∀ str a, s.refs.strings a ≤ (s.refs.getStr str).strings a := by
      intro str a
      by_cases ha : a = str.addr
      · subst ha
        simp [ExportRefs.getStr]
      · simp [ExportRefs.getStr, ha]
    cases hstr : pathOf e with
    | none =>
      simp only [lookupLoop, hstr]
      exact ih hrest
    | some str =>
      obtain ⟨next, hiter, hloop⟩ :=
        lookupLoop_cons exactMatch path s hstr (hpaths e (by simp) str hstr) rest
      rw [hloop]
      cases hiter with
      | found => exact ⟨rfl, fun a => Nat.le_refl _⟩
      | skipped => exact ih hrest
      | better =>
        have hnext := ih (s := ⟨s.refs.getStr str, some e, str.grVal.length⟩) hrest
        exact ⟨hnext.1, fun a => Nat.le_trans (hget str a) (hnext.2 a)⟩
      | differs =>
        have hnext := ih (s := { s with refs := s.refs.getStr str }) hrest
        exact ⟨hnext.1, fun a => Nat.le_trans (hget str a) (hnext.2 a)⟩

theorem refs_ne_of_compared {t : LookupState}
    (ht : t.refs = s.refs.getStr str) :
    (lookupLoop pathOf path exactMatch rest t).refs ≠ s.refs := by
  intro heq
  have hle : t.refs.strings str.addr ≤
      (lookupLoop pathOf path exactMatch rest t).refs.strings str.addr :=
    (lookupLoop_refs hpaths).2 str.addr
  rw [heq, ht] at hle
  simp only [ExportRefs.getStr, update_self] at hle
  omega

theorem lookupLoop_refs_iff (hs : s.lenRet = 0) :
    (lookupLoop pathOf path exactMatch rest s).refs = s.refs ↔
      NoneCompared pathOf exactMatch path rest := by
  induction rest generalizing s with
  | nil => simp [lookupLoop, NoneCompared]
  | cons e rest ih =>
    have hrest : PathsOf pathOf rest := (forall_mem_cons.1 hpaths).2
    cases hstr : pathOf e with
    | none =>
      simp only [lookupLoop, hstr, NoneCompared, filterMap_cons_none hstr]
      exact ih hrest hs
    | some str =>
      obtain ⟨next, hiter, hloop⟩ :=
        lookupLoop_cons exactMatch path s hstr (hpaths e (by simp) str hstr) rest
      rw [hloop, noneCompared_cons hstr]
      cases hiter with
      | found hsame => simp [hsame]
      | skipped hcmp hno =>
        have hcmp' := hcmp.resolve_right (by omega)
        have hsame : ¬ SamePath str.grVal path := fun h =>
          (hno.resolve_right (by omega)) (.inl h)
        simp only [hsame, hcmp', not_false_eq_true, true_and, false_or]
        exact ih hrest hs
      | better hcmp hsame =>
        simp only [hsame, hcmp, not_true_eq_false, false_and, or_self, iff_false]
        exact refs_ne_of_compared hrest rfl
      | differs hcmp hno =>
        have hsame : ¬ SamePath str.grVal path := fun h => hno (.inl h)
        simp only [hsame, hcmp, not_true_eq_false, false_and, or_self, iff_false]
        exact refs_ne_of_compared hrest rfl

end Loop

def LookupRight (pathOf : GshExport → Option Refstr) (exportlist : List GshExport)
    (refs : ExportRefs) (path : List Char) (exactMatch : Bool)
    (result : Option GshExport × ExportRefs) : Prop :=
  BestOf pathOf exactMatch path exportlist result.1 ∧ result.2 = result.1.elim refs refs.getExport

section

variable {pathOf : GshExport → Option Refstr} {exportlist : List GshExport}
  (hpaths : PathsOf pathOf exportlist) (refs : ExportRefs) (path : List Char) (exactMatch : Bool)
include hpaths

theorem getGshExportBy_best :
    BestOf pathOf exactMatch path exportlist
      (getGshExportBy pathOf exportlist refs path exactMatch).1 := by
  refine lookupLoop_best [] hpaths ⟨?_, rfl⟩
  intro x hx
  cases hx

theorem getGshExportBy_iff :
    LookupRight pathOf exportlist refs path exactMatch
        (getGshExportBy pathOf exportlist refs path exactMatch) ↔
      NoneCompared pathOf exactMatch path exportlist := by
  set s := lookupLoop pathOf path exactMatch exportlist { refs := refs }
  have hbest : BestOf pathOf exactMatch path exportlist s.retExp :=
    getGshExportBy_best hpaths refs path exactMatch
  have hexports : s.refs.exports = refs.exports := (lookupLoop_refs hpaths).1
  rw [← lookupLoop_refs_iff hpaths (s := { refs := refs }) rfl]
  change BestOf pathOf exactMatch path exportlist s.retExp ∧
    s.retExp.elim s.refs s.refs.getExport = s.retExp.elim refs refs.getExport ↔ s.refs = refs
  constructor
  · rintro ⟨-, hrefs⟩
    refine ExportRefs.ext ?_ hexports
    cases hret : s.retExp with
    | none =>
      rw [hret] at hrefs
      exact congrArg ExportRefs.strings hrefs
    | some e =>
      rw [hret] at hrefs
      have hstrings : (s.refs.getExport e).strings = (refs.getExport e).strings :=
        congrArg ExportRefs.strings hrefs
      exact hstrings
  · intro hrefs
    rw [hrefs]
    exact ⟨hbest, rfl⟩

end

/-- Both searches give the longest match; the reference counts are right exactly when no string is
compared before the export with the same path is found. -/
theorem export_lookup_iff (exportlist : List GshExport)
    (hpath : PathsOf (fun e => some e.fullpath) exportlist)
    (hpseudo : PathsOf GshExport.pseudopath exportlist) (refs : ExportRefs) (path : List Char)
    (exactMatch : Bool) :
    (LookupRight (fun e => some e.fullpath) exportlist refs path exactMatch
        (getGshExportByPathLocked exportlist refs path exactMatch) ↔
      NoneCompared (fun e => some e.fullpath) exactMatch path exportlist) ∧
    (LookupRight GshExport.pseudopath exportlist refs path exactMatch
        (getGshExportByPseudoLocked exportlist refs path exactMatch) ↔
      NoneCompared GshExport.pseudopath exactMatch path exportlist) ∧
    BestOf (fun e => some e.fullpath) exactMatch path exportlist
      (getGshExportByPathLocked exportlist refs path exactMatch).1 ∧
    BestOf GshExport.pseudopath exactMatch path exportlist
      (getGshExportByPseudoLocked exportlist refs path exactMatch).1 := by
  exact ⟨getGshExportBy_iff hpath refs path exactMatch,
    getGshExportBy_iff hpseudo refs path exactMatch,
    getGshExportBy_best hpath refs path exactMatch,
    getGshExportBy_best hpseudo refs path exactMatch⟩

def oneExport : List GshExport :=
  [{ exportId := 1, fullpath := ⟨10, ['/', 'e']⟩, pseudopath := some ⟨11, ['/', 'p']⟩ }]

def oneReference : ExportRefs where
  strings _ := 1
  exports _ := 1

theorem oneExport_paths : PathsOf (fun e => some e.fullpath) oneExport ∧
    PathsOf GshExport.pseudopath oneExport := by
  constructor <;> simp [PathsOf, oneExport, ExportPath]

theorem lookup_same_path :
    LookupRight (fun e => some e.fullpath) oneExport oneReference ['/', 'e'] true
        (getGshExportByPathLocked oneExport oneReference ['/', 'e'] true) ∧
      LookupRight GshExport.pseudopath oneExport oneReference ['/', 'p', '/'] true
        (getGshExportByPseudoLocked oneExport oneReference ['/', 'p', '/'] true) := by
  have h := export_lookup_iff oneExport oneExport_paths.1 oneExport_paths.2 oneReference
  exact ⟨(h ['/', 'e'] true).1.mpr (by decide), (h ['/', 'p', '/'] true).2.1.mpr (by decide)⟩

/-- The path of the export is found above the given one, and its string has one reference more. -/
theorem lookup_keeps_reference :
    PathsOf (fun e => some e.fullpath) oneExport ∧
      (getGshExportByPathLocked oneExport oneReference ['/', 'e', '/', 'x'] false).2.strings 10 = 2 ∧
      ¬ LookupRight (fun e => some e.fullpath) oneExport oneReference ['/', 'e', '/', 'x'] false
        (getGshExportByPathLocked oneExport oneReference ['/', 'e', '/', 'x'] false) := by
  have hstring : (getGshExportByPathLocked oneExport oneReference
      ['/', 'e', '/', 'x'] false).2.strings 10 = 2 := by decide
  have hret : (getGshExportByPathLocked oneExport oneReference
      ['/', 'e', '/', 'x'] false).1 = oneExport.head? := by decide
  refine ⟨oneExport_paths.1, hstring, fun hright => ?_⟩
  rw [hright.2, hret] at hstring
  simp [oneExport, ExportRefs.getExport, oneReference] at hstring

end EdgeComputing.Support
