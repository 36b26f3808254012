import EdgeComputing.Nfs4.Nfsstat4
import Mathlib.Data.List.Basic

/-!
The filter for file names (nfs_proto_tools.c). The name is given with its terminating NUL, and a
read beyond it is `none`. What the look-ahead accepts is compared with the table of the well-formed
octet sequences.
-/

namespace EdgeComputing.Nfs4

open List

def utf8ScanNoslash : BitVec 32 := 0x01

def utf8ScanNodot : BitVec 32 := 0x02

def utf8ScanCkutf8 : BitVec 32 := 0x04

def dotsOnly : List UInt8 → Option Bool
  | [] => none
  | n0 :: np => if n0 = 0 then some true else if n0 = 0x2e then np.head?.map (· = 0) else some false

/-- How far the pointer moves over the octets after `c`; `some none` is `badutf8`. -/
def utf8Octets (c : UInt8) (np : List UInt8) : Option (Option Nat) := do
  if c &&& 0xe0 = 0xc0 then
    let n0 ← np[0]?
    if n0 &&& 0xc0 ≠ 0x80 ∨ c &&& 0xfe = 0xc0 then return none
    return some 1
  else if c &&& 0xf0 = 0xe0 then
    let n0 ← np[0]?
    if n0 &&& 0xc0 ≠ 0x80 then return none
    let n1 ← np[1]?
    if n1 &&& 0xc0 ≠ 0x80 ∨ (c = 0xe0 ∧ n0 &&& 0xe0 = 0x80) ∨ (c = 0xed ∧ n0 &&& 0xe0 = 0xa0) ∨
        (c = 0xef ∧ n0 = 0xbf ∧ n1 &&& 0xfe = 0xbe) then return none
    return some 2
  else if c &&& 0xf8 = 0xf0 then
    let n0 ← np[0]?
    if n0 &&& 0xc0 ≠ 0x80 then return none
    let n1 ← np[1]?
    if n1 &&& 0xc0 ≠ 0x80 then return none
    let n2 ← np[2]?
    if n2 &&& 0xc0 ≠ 0x80 ∨ (c = 0xf0 ∧ n0 &&& 0xf0 = 0x80) ∨ (c = 0xf4 ∧ 0x8f < n0) ∨ 0xf4 < c then
      return none
    return some 3
  else return none

def pathFilterLoop (scan : BitVec 32) (first : Bool) : List UInt8 → Option Nfsstat4
  | [] => none
  | c :: np =>
    if c = 0 then some .ok
    else if c < 0x80 then
      if c = 0x2f ∧ scan &&& utf8ScanNoslash ≠ 0 then some .badchar
      else if first ∧ c = 0x2e ∧ scan &&& utf8ScanNodot ≠ 0 then
        (dotsOnly np).bind fun dots =>
          if dots then some .badname else pathFilterLoop scan false np
      else pathFilterLoop scan false np
    else if scan &&& utf8ScanCkutf8 ≠ 0 then
      (utf8Octets c np).bind fun octets =>
        octets.elim (some .inval) fun n => pathFilterLoop scan false (np.drop n)
    else pathFilterLoop scan false np
termination_by np => np.length
decreasing_by all_goals simp +arith

def pathFilter (name : List UInt8) (scan : BitVec 32) : Option Nfsstat4 :=
  pathFilterLoop scan true name

def utf8Encoding (v : Nat) : List Nat :=
  if v < 0x80 then [v]
  else if v < 0x800 then [v / 64 + 0xc0, v % 64 + 0x80]
  else if v < 0x10000 then [v / 4096 + 0xe0, v / 64 % 64 + 0x80, v % 64 + 0x80]
  else [v / 262144 + 0xf0, v / 4096 % 64 + 0x80, v / 64 % 64 + 0x80, v % 64 + 0x80]

def IsCharacter (v : Nat) : Prop :=
  v < 0x110000 ∧ ¬ (0xd800 ≤ v ∧ v < 0xe000) ∧ v ≠ 0xfffe ∧ v ≠ 0xffff

def WellFormed (name : List UInt8) : Prop :=
  ∃ vs : List Nat, (∀ v ∈ vs, IsCharacter v) ∧ name.map UInt8.toNat = vs.flatMap utf8Encoding

def Utf8Table : List Nat → Prop
  | [c] => c < 0x80
  | [c, n0] => 0xc2 ≤ c ∧ c < 0xe0 ∧ 0x80 ≤ n0 ∧ n0 < 0xc0
  | [c, n0, n1] => 0xe0 ≤ c ∧ c < 0xf0 ∧ 0x80 ≤ n0 ∧ n0 < 0xc0 ∧ 0x80 ≤ n1 ∧ n1 < 0xc0 ∧
    ¬ (c = 0xe0 ∧ n0 < 0xa0) ∧ ¬ (c = 0xed ∧ 0xa0 ≤ n0) ∧ ¬ (c = 0xef ∧ n0 = 0xbf ∧ 0xbe ≤ n1)
  | [c, n0, n1, n2] => 0xf0 ≤ c ∧ c ≤ 0xf4 ∧ 0x80 ≤ n0 ∧ n0 < 0xc0 ∧ 0x80 ≤ n1 ∧ n1 < 0xc0 ∧
    0x80 ≤ n2 ∧ n2 < 0xc0 ∧ ¬ (c = 0xf0 ∧ n0 < 0x90) ∧ ¬ (c = 0xf4 ∧ 0x8f < n0)
  | _ => False

theorem utf8Table_utf8Encoding {v : Nat} (hv : IsCharacter v) : Utf8Table (utf8Encoding v) := by
  unfold IsCharacter at hv
  unfold utf8Encoding
  split_ifs <;> simp only [Utf8Table] <;> omega

theorem Utf8Table.exists_character {u : List Nat} (h : Utf8Table u) :
    ∃ v, IsCharacter v ∧ u = utf8Encoding v := by
  unfold Utf8Table at h
  split at h
  case h_1 c => exact ⟨c, by unfold IsCharacter; omega, by rw [utf8Encoding, if_pos h]⟩
  case h_2 c n0 =>
    refine ⟨(c - 0xc0) * 64 + (n0 - 0x80), by unfold IsCharacter; omega, ?_⟩
    rw [utf8Encoding, if_neg (by omega), if_pos (by omega)]
    simp only [cons.injEq, and_true]
    omega
  case h_3 c n0 n1 =>
    refine ⟨(c - 0xe0) * 4096 + (n0 - 0x80) * 64 + (n1 - 0x80), by unfold IsCharacter; omega, ?_⟩
    rw [utf8Encoding, if_neg (by omega), if_neg (by omega), if_pos (by omega)]
    simp only [cons.injEq, and_true]
    omega
  case h_4 c n0 n1 n2 =>
    refine ⟨(c - 0xf0) * 262144 + (n0 - 0x80) * 4096 + (n1 - 0x80) * 64 + (n2 - 0x80),
      by unfold IsCharacter; omega, ?_⟩
    rw [utf8Encoding, if_neg (by omega), if_neg (by omega), if_neg (by omega)]
    simp only [cons.injEq, and_true]
    omega
  case h_5 => exact h.elim

theorem Utf8Table.of_lt {c : Nat} {w : List Nat} (h : Utf8Table (c :: w)) (hc : c < 0x80) :
    w = [] := by
  rcases w with _ | ⟨n0, _ | ⟨n1, _ | ⟨n2, _ | _⟩⟩⟩ <;> grind [Utf8Table]

theorem Utf8Table.le_of_le {c : Nat} {w : List Nat} (h : Utf8Table (c :: w)) (hc : 0x80 ≤ c) :
    ∀ b ∈ c :: w, 0x80 ≤ b := by
  rcases w with _ | ⟨n0, _ | ⟨n1, _ | ⟨n2, _ | _⟩⟩⟩ <;> grind [Utf8Table]

def octetTests : List (UInt8 × UInt8) :=
  [(0xc0, 0x80), (0xe0, 0xc0), (0xf0, 0xe0), (0xf8, 0xf0), (0xfe, 0xc0), (0xe0, 0x80), (0xe0, 0xa0),
    (0xfe, 0xbe), (0xf0, 0x80)]

theorem and_eq_iff (b : UInt8) {mask val : UInt8} (h : (mask, val) ∈ octetTests) :
    b &&& mask = val ↔ val.toNat ≤ b.toNat ∧ b.toNat + mask.toNat < val.toNat + 256 := by
  have hall : (range 16).all (fun i => (range 16).all fun j => octetTests.all fun t =>
      decide (UInt8.ofNat (16 * i + j) &&& t.1 = t.2 ↔
        t.2.toNat ≤ 16 * i + j ∧ 16 * i + j + t.1.toNat < t.2.toNat + 256)) = true := by
    decide +kernel
  simp only [List.all_eq_true, mem_range, decide_eq_true_iff] at hall
  have hlt := b.toNat_lt
  have hb := hall (b.toNat / 16) (by omega) (b.toNat % 16) (by omega) _ h
  rwa [Nat.div_add_mod, UInt8.ofNat_toNat] at hb

theorem utf8Octets_iff {c : UInt8} (hc : ¬ c < 0x80) (l : List UInt8) (n : Nat) :
    utf8Octets c (l ++ [0]) = some (some n) ↔
      n ≤ l.length ∧ Utf8Table ((c :: l.take n).map UInt8.toNat) := by
  unfold utf8Octets
  simp (disch := decide) only [ne_eq, and_eq_iff, UInt8.reduceToNat]
  simp only [← UInt8.toNat_inj, UInt8.lt_iff_toNat_lt, UInt8.reduceToNat] at hc ⊢
  rcases l with _ | ⟨n0, _ | ⟨n1, _ | ⟨n2, _ | ⟨n3, l⟩⟩⟩⟩ <;>
    simp only [nil_append, cons_append, getElem?_cons_zero, getElem?_cons_succ, getElem?_nil,
      Option.bind_eq_bind, Option.bind_some, Option.bind_none, Option.pure_def] <;>
    rcases n with _ | _ | _ | _ | n <;>
    simp only [take_zero, take_nil, take_succ_cons, map_cons, map_nil, Utf8Table, length_cons,
      length_nil] <;> grind

theorem utf8Octets_ne_none (c : UInt8) (l : List UInt8) : utf8Octets c (l ++ [0]) ≠ none := by
  unfold utf8Octets
  rcases l with _ | ⟨n0, _ | ⟨n1, _ | ⟨n2, l⟩⟩⟩ <;> simp <;> grind

theorem wellFormed_nil : WellFormed [] := ⟨[], by simp⟩

theorem wellFormed_cons_iff {c : UInt8} {l : List UInt8} : WellFormed (c :: l) ↔
    ∃ n ≤ l.length, Utf8Table ((c :: l.take n).map UInt8.toNat) ∧ WellFormed (l.drop n) := by
  constructor
  · rintro ⟨_ | ⟨v, vs⟩, hvs, hname⟩
    · simp at hname
    obtain ⟨hv, hvs⟩ := forall_mem_cons.1 hvs
    obtain ⟨u, w, hul, hu, hw⟩ := map_eq_append_iff.1 (flatMap_cons ▸ hname)
    have htable := utf8Table_utf8Encoding hv
    rw [← hu] at htable
    cases u with
    | nil => exact htable.elim
    | cons b u =>
      obtain ⟨rfl, rfl⟩ : c = b ∧ l = u ++ w := by simpa using hul
      exact ⟨u.length, by simp, by simpa using htable, vs, hvs, by simpa using hw⟩
  · rintro ⟨n, -, htable, vs, hvs, hw⟩
    obtain ⟨v, hv, hu⟩ := htable.exists_character
    refine ⟨v :: vs, forall_mem_cons.2 ⟨hv, hvs⟩, ?_⟩
    rw [flatMap_cons, ← hu, ← hw, ← map_append, cons_append, take_append_drop]

def LegalBytes (scan : BitVec 32) (name : List UInt8) : Prop :=
  (scan &&& utf8ScanNoslash ≠ 0 → 0x2f ∉ name) ∧ (scan &&& utf8ScanCkutf8 ≠ 0 → WellFormed name)

section LegalBytes

variable (scan : BitVec 32) {c : UInt8} {l : List UInt8}

theorem legalBytes_ascii (hc : c < 0x80) : LegalBytes scan (c :: l) ↔
    ¬ (c = 0x2f ∧ scan &&& utf8ScanNoslash ≠ 0) ∧ LegalBytes scan l := by
  have hc : c.toNat < 0x80 := UInt8.lt_iff_toNat_lt.1 hc
  have hwf : WellFormed (c :: l) ↔ WellFormed l := by
    rw [wellFormed_cons_iff]
    refine ⟨fun ⟨n, hn, htable, hrest⟩ => ?_, fun h => ⟨0, by simp, by simpa [Utf8Table], h⟩⟩
    have hl := take_append_drop n l
    rw [map_eq_nil_iff.1 (htable.of_lt hc), nil_append] at hl
    exact hl ▸ hrest
  grind [LegalBytes]

theorem legalBytes_unchecked (hc : ¬ c < 0x80) (hscan : ¬ scan &&& utf8ScanCkutf8 ≠ 0) :
    LegalBytes scan (c :: l) ↔ LegalBytes scan l := by
  have hne : 0x2f ≠ c := fun h => hc (h ▸ by decide)
  grind [LegalBytes]

theorem legalBytes_octets (hc : ¬ c < 0x80) (hscan : scan &&& utf8ScanCkutf8 ≠ 0)
    {octets : Option Nat} (hoctets : utf8Octets c (l ++ [0]) = some octets) :
    LegalBytes scan (c :: l) ↔ ∃ n, octets = some n ∧ LegalBytes scan (l.drop n) := by
  have hiff (n : Nat) : octets = some n ↔
      n ≤ l.length ∧ Utf8Table ((c :: l.take n).map UInt8.toNat) := by
    rw [← utf8Octets_iff hc, hoctets, Option.some_inj]
  -- None of the octets is a slash.
  have hslash (n : Nat) (htable : Utf8Table ((c :: l.take n).map UInt8.toNat)) :
      0x2f ∉ c :: l ↔ 0x2f ∉ l.drop n := by
    have hge := htable.le_of_le (Nat.le_of_not_lt fun h => hc (UInt8.lt_iff_toNat_lt.2 h))
    have htake : 0x2f ∉ c :: l.take n := fun h => absurd (hge _ (mem_map_of_mem h)) (by decide)
    conv_lhs => rw [← take_append_drop n l, ← cons_append, mem_append]
    simp only [htake, false_or]
  simp only [LegalBytes, wellFormed_cons_iff, hscan, ne_eq, not_false_eq_true, true_imp_iff, hiff]
  constructor
  · rintro ⟨hno, n, hn, htable, hrest⟩
    exact ⟨n, ⟨hn, htable⟩, fun hs => (hslash n htable).1 (hno hs), hrest⟩
  · rintro ⟨n, ⟨hn, htable⟩, hno, hrest⟩
    exact ⟨fun hs => (hslash n htable).2 (hno hs), n, hn, htable, hrest⟩

end LegalBytes

theorem pathFilterLoop_ok_iff (scan : BitVec 32) (name : List UInt8) (h0 : 0 ∉ name) :
    ∃ status, pathFilterLoop scan false (name ++ [0]) = some status ∧
      (status = .ok ↔ LegalBytes scan name) := by
  -- On the length: the pointer moves over up to four octets.
  induction hlen : name.length using Nat.strongRecOn generalizing name with
  | _ len ih =>
    cases name with
    | nil => exact ⟨.ok, by simp [pathFilterLoop], by simp [LegalBytes, wellFormed_nil]⟩
    | cons c l =>
      obtain ⟨hc0, hl0⟩ : c ≠ 0 ∧ 0 ∉ l := by simpa [eq_comm] using h0
      have hdrop (n : Nat) := ih (l.drop n).length (by simp at hlen ⊢; omega) _
        (fun h => hl0 (mem_of_mem_drop h)) rfl
      rw [cons_append, pathFilterLoop, if_neg hc0]
      by_cases hc : c < 0x80
      · rw [if_pos hc, legalBytes_ascii scan hc]
        split_ifs with hslash hdot
        · exact ⟨_, rfl, by grind⟩
        · simp at hdot
        · simpa only [hslash, not_false_eq_true, true_and, drop_zero] using hdrop 0
      rw [if_neg hc]
      split_ifs with hscan
      · obtain ⟨octets, hoctets⟩ := Option.ne_none_iff_exists'.1 (utf8Octets_ne_none c l)
        rw [hoctets, legalBytes_octets scan hc hscan hoctets]
        cases octets with
        | none => exact ⟨_, rfl, by simp⟩
        | some n =>
          have hn := ((utf8Octets_iff hc l n).1 hoctets).1
          simpa [drop_append_of_le_length hn] using hdrop n
      · rw [legalBytes_unchecked scan hc hscan]
        exact hdrop 0

theorem dotsOnly_eq {l : List UInt8} (h0 : 0 ∉ l) :
    dotsOnly (l ++ [0]) = some (decide (l = [] ∨ l = [0x2e])) := by
  rcases l with _ | ⟨n0, _ | ⟨n1, l⟩⟩ <;> simp [dotsOnly] <;> grind

theorem pathFilter_eq (scan : BitVec 32) {name : List UInt8} (h0 : 0 ∉ name) :
    pathFilter (name ++ [0]) scan =
      if scan &&& utf8ScanNodot ≠ 0 ∧ (name = [0x2e] ∨ name = [0x2e, 0x2e]) then some .badname
      else pathFilterLoop scan false (name ++ [0]) := by
  cases name with
  | nil => simp [pathFilter, pathFilterLoop]
  | cons c l =>
    have hl0 : 0 ∉ l := fun h => h0 (mem_cons_of_mem c h)
    rw [pathFilter, cons_append, pathFilterLoop, pathFilterLoop, dotsOnly_eq hl0]
    grind

/-- A name is accepted if and only if it is legal, and nothing after its NUL is read. -/
theorem path_filter_accepts_legal (scan : BitVec 32) (name : List UInt8) (h0 : 0 ∉ name) :
    ∃ status, pathFilter (name ++ [0]) scan = some status ∧
      (status = .ok ↔
        (scan &&& utf8ScanNodot ≠ 0 → name ≠ [0x2e] ∧ name ≠ [0x2e, 0x2e]) ∧
        (scan &&& utf8ScanNoslash ≠ 0 → 0x2f ∉ name) ∧
        (scan &&& utf8ScanCkutf8 ≠ 0 → WellFormed name)) := by
  obtain ⟨status, hloop, hstatus⟩ := pathFilterLoop_ok_iff scan name h0
  rw [pathFilter_eq scan h0]
  split_ifs with hdots
  · exact ⟨_, rfl, by grind⟩
  · exact ⟨status, hloop, by grind [LegalBytes]⟩

def umlautName : List UInt8 := [0xc3, 0xa4]

theorem path_filter_two_octets :
    0 ∉ umlautName ∧ ∃ status, pathFilter (umlautName ++ [0]) 7 = some status ∧
      (status = .ok ↔
        (7 &&& utf8ScanNodot ≠ 0 → umlautName ≠ [0x2e] ∧ umlautName ≠ [0x2e, 0x2e]) ∧
        (7 &&& utf8ScanNoslash ≠ 0 → 0x2f ∉ umlautName) ∧
        (7 &&& utf8ScanCkutf8 ≠ 0 → WellFormed umlautName)) :=
  ⟨by decide, path_filter_accepts_legal 7 umlautName (by decide)⟩

end EdgeComputing.Nfs4
