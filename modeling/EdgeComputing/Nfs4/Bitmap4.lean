import Mathlib.Data.List.Find
import Mathlib.Data.List.Sort

/-!
`bitmap4`, the sets of attributes of NFSv4: up to three words of 32 bits, walked from one set bit to
the next with `next_attr_from_bitmap`.
-/

namespace EdgeComputing.Nfs4

open List Option

structure Bitmap4 where
  map : List (BitVec 32)
  len_le : map.length ≤ 3
deriving DecidableEq

namespace Bitmap4

/-- The first bit of a word from `bit` on that is set, after the test that there is one. -/
def nextInWord (word : BitVec 32) (bit : Nat) : Option Nat :=
  if word &&& (BitVec.allOnes 32 <<< bit) ≠ 0 then
    (List.range' bit (32 - bit)).find? fun b => word.getLsbD b
  else none

def nextFromWords : List (BitVec 32) → Nat → Nat → Option Nat
  | [], _, _ => none
  | word :: rest, offset, bit =>
    match nextInWord word bit with
    | some b => some (32 * offset + b)
    | none => nextFromWords rest (offset + 1) 0

/-- `next_attr_from_bitmap`; `none` is the -1 that starts and ends a loop. -/
def nextAttrFromBitmap (bits : Bitmap4) (lastAttr : Option Nat) : Option Nat :=
  let next := match lastAttr with
    | none => 0
    | some attr => attr + 1
  nextFromWords (bits.map.drop (next / 32)) (next / 32) (next % 32)

def attributeIsSet (bits : Bitmap4) (attr : Nat) : Bool :=
  match bits.map[attr / 32]? with
  | none => false
  | some word => word.getLsbD (attr % 32)

def attrsAfter (bits : Bitmap4) : Nat → Option Nat → List Nat
  | 0, _ => []
  | fuel + 1, lastAttr =>
    match bits.nextAttrFromBitmap lastAttr with
    | none => []
    | some attr => attr :: bits.attrsAfter fuel (some attr)

/-- The values of the loop variable of a loop over the bitmap. No loop takes more steps than there
are bits. -/
def attrs (bits : Bitmap4) : List Nat := bits.attrsAfter (32 * bits.map.length) none

def setAttributeInBitmap (bits : Bitmap4) (attr : Nat) : Option Bitmap4 :=
  if h : attr / 32 < 3 then
    let words := bits.map ++ List.replicate (attr / 32 + 1 - bits.map.length) 0
    some ⟨words.modify (attr / 32) fun word => word ||| BitVec.twoPow 32 (attr % 32), by
      have := bits.len_le
      simp only [words, length_modify, length_append, length_replicate]
      omega⟩
  else none

def empty : Bitmap4 := ⟨[], Nat.zero_le _⟩

theorem nextInWord_eq (word : BitVec 32) (bit : Nat) :
    nextInWord word bit = (List.range' bit (32 - bit)).find? fun b => word.getLsbD b := by
  unfold nextInWord
  split_ifs with h
  · rfl
  · symm
    rw [find?_eq_none]
    intro b hb hset
    obtain ⟨hle, hlt⟩ := mem_range'_1.1 hb
    have hbit : (word &&& (BitVec.allOnes 32 <<< bit)).getLsbD b = true := by
      have hb32 : b < 32 := by omega
      have hsub : b - bit < 32 := by omega
      rw [BitVec.getLsbD_and, hset, BitVec.getLsbD_shiftLeft, BitVec.getLsbD_allOnes]
      simp [hb32, hsub, Nat.not_lt.2 hle]
    rw [not_not.1 h] at hbit
    simp at hbit

theorem nextFromWords_eq (bits : Bitmap4) (offset bit : Nat) (hbit : bit < 32) :
    nextFromWords (bits.map.drop offset) offset bit =
      (List.range' (32 * offset + bit)
        (32 * bits.map.length - (32 * offset + bit))).find? bits.attributeIsSet := by
  induction hn : bits.map.length - offset generalizing offset bit with
  | zero =>
    have hle : bits.map.length ≤ offset := by omega
    rw [drop_eq_nil_of_le hle, show 32 * bits.map.length - (32 * offset + bit) = 0 by omega]
    rfl
  | succ n ih =>
    have hlt : offset < bits.map.length := by omega
    rw [drop_eq_getElem_cons hlt, nextFromWords, nextInWord_eq,
      ih (offset + 1) 0 (by decide) (by omega)]
    -- The word in which the search begins, and those after it.
    have hsplit : List.range' (32 * offset + bit) (32 * bits.map.length - (32 * offset + bit)) =
        List.range' (32 * offset + bit) (32 - bit) ++
          List.range' (32 * (offset + 1) + 0)
            (32 * bits.map.length - (32 * (offset + 1) + 0)) := by
      rw [show 32 * (offset + 1) + 0 = 32 * offset + bit + (32 - bit) by omega,
        List.range'_append_1]
      congr 1
      omega
    have hword : ∀ b ∈ List.range' bit (32 - bit),
        bits.map[offset].getLsbD b = bits.attributeIsSet (32 * offset + b) := by
      intro b hb
      have hb32 := (mem_range'_1.1 hb).2
      unfold attributeIsSet
      rw [show (32 * offset + b) / 32 = offset by omega,
        show (32 * offset + b) % 32 = b by omega, getElem?_eq_getElem hlt]
    rw [hsplit, find?_append, ← map_add_range' (a := 32 * offset), find?_map, find?_congr hword]
    cases hfind : (List.range' bit (32 - bit)).find?
        (bits.attributeIsSet ∘ fun x => 32 * offset + x) with
    | none =>
      have hfind' : (List.range' bit (32 - bit)).find?
        (fun b => bits.attributeIsSet (32 * offset + b)) = none := hfind
      rw [hfind']
      rfl
    | some b =>
      have hfind' : (List.range' bit (32 - bit)).find?
        (fun b => bits.attributeIsSet (32 * offset + b)) = some b := hfind
      rw [hfind']
      rfl

theorem nextAttrFromBitmap_eq (bits : Bitmap4) (lastAttr : Option Nat) :
    bits.nextAttrFromBitmap lastAttr =
      (List.range' ((lastAttr.map (· + 1)).getD 0)
        (32 * bits.map.length - (lastAttr.map (· + 1)).getD 0)).find? bits.attributeIsSet := by
  have hnext : (match lastAttr with
      | none => 0
      | some attr => attr + 1) = (lastAttr.map (· + 1)).getD 0 := by
    cases lastAttr <;> rfl
  unfold nextAttrFromBitmap
  rw [hnext]
  dsimp only
  rw [nextFromWords_eq _ _ _ (Nat.mod_lt _ (by decide)), Nat.div_add_mod]

theorem filter_range'_of_find? {p : Nat → Bool} {s n a : Nat}
    (h : (List.range' s n).find? p = some a) :
    (List.range' s n).filter p = a :: (List.range' (a + 1) (s + n - (a + 1))).filter p := by
  induction n generalizing s with
  | zero => cases h
  | succ n ih =>
    rw [List.range'_succ, find?_cons] at h
    rw [List.range'_succ, filter_cons]
    cases hp : p s with
    | true =>
      rw [hp] at h
      have ha : s = a := some.inj h
      subst ha
      rw [if_pos rfl, show s + (n + 1) - (s + 1) = n by omega]
    | false =>
      rw [hp] at h
      rw [if_neg Bool.false_ne_true, ih h, show s + 1 + n = s + (n + 1) by omega]

theorem attrsAfter_eq (bits : Bitmap4) (fuel : Nat) (lastAttr : Option Nat)
    (hfuel : 32 * bits.map.length ≤ (lastAttr.map (· + 1)).getD 0 + fuel) :
    bits.attrsAfter fuel lastAttr =
      (List.range' ((lastAttr.map (· + 1)).getD 0)
        (32 * bits.map.length - (lastAttr.map (· + 1)).getD 0)).filter bits.attributeIsSet := by
  induction fuel generalizing lastAttr with
  | zero =>
    rw [Nat.sub_eq_zero_of_le (by simpa using hfuel)]
    rfl
  | succ fuel ih =>
    unfold attrsAfter
    rw [nextAttrFromBitmap_eq]
    generalize (lastAttr.map (· + 1)).getD 0 = next at hfuel ⊢
    cases hfind : (List.range' next (32 * bits.map.length - next)).find?
        bits.attributeIsSet with
    | none =>
      symm
      rw [filter_eq_nil_iff]
      exact find?_eq_none.1 hfind
    | some attr =>
      obtain ⟨hle, hlt⟩ := mem_range'_1.1 (mem_of_find?_eq_some hfind)
      dsimp only
      rw [filter_range'_of_find? hfind, ih (some attr) (by simp; omega)]
      simp only [map_some, getD_some]
      rw [show next + (32 * bits.map.length - next) = 32 * bits.map.length by omega]

theorem attrs_eq (bits : Bitmap4) :
    bits.attrs = (List.range (32 * bits.map.length)).filter bits.attributeIsSet := by
  unfold attrs
  rw [attrsAfter_eq _ _ _ (by simp), range_eq_range']
  rfl

variable {bits : Bitmap4}

theorem attrs_eq_nil_iff : bits.attrs = [] ↔ bits.nextAttrFromBitmap none = none := by
  rw [attrs_eq, nextAttrFromBitmap_eq, filter_eq_nil_iff, find?_eq_none, range_eq_range']
  rfl

variable {attr : Nat}

theorem lt_of_attributeIsSet (h : bits.attributeIsSet attr = true) :
    attr < 32 * bits.map.length := by
  unfold attributeIsSet at h
  split at h
  · cases h
  · next word hword =>
      have := (List.getElem?_eq_some_iff.1 hword).1
      omega

theorem mem_attrs : attr ∈ bits.attrs ↔ bits.attributeIsSet attr = true := by
  rw [attrs_eq, mem_filter, mem_range]
  exact and_iff_right_of_imp lt_of_attributeIsSet

theorem attrs_sorted (bits : Bitmap4) : bits.attrs.Pairwise (· < ·) := by
  rw [attrs_eq]
  exact List.Pairwise.filter _ pairwise_lt_range

theorem attributeIsSet_eq (bits : Bitmap4) (attr : Nat) :
    bits.attributeIsSet attr = ((bits.map[attr / 32]?).getD 0).getLsbD (attr % 32) := by
  unfold attributeIsSet
  cases bits.map[attr / 32]? with
  | none => simp
  | some word => rfl

theorem getD_append_zeros (map : List (BitVec 32)) (n i : Nat) :
    ((map ++ List.replicate n 0)[i]?).getD 0 = (map[i]?).getD 0 := by
  rcases Nat.lt_or_ge i map.length with hlt | hge
  · rw [getElem?_append_left hlt]
  · rw [getElem?_append_right hge, getElem?_eq_none hge, getElem?_replicate]
    split_ifs <;> rfl

theorem setAttributeInBitmap_spec (bits : Bitmap4) (h : attr < 96) :
    ∃ bits', bits.setAttributeInBitmap attr = some bits' ∧
      ∀ x, bits'.attributeIsSet x = true ↔ bits.attributeIsSet x = true ∨ x = attr := by
  have hoffset : attr / 32 < 3 := by omega
  unfold setAttributeInBitmap
  rw [dif_pos hoffset]
  refine ⟨_, rfl, fun x => ?_⟩
  rw [attributeIsSet_eq, attributeIsSet_eq]
  dsimp only
  rw [getElem?_modify, ← getD_append_zeros bits.map (attr / 32 + 1 - bits.map.length)]
  have hlen : x / 32 = attr / 32 →
      x / 32 < (bits.map ++ List.replicate (attr / 32 + 1 - bits.map.length) 0).length := by
    intro heq
    rw [length_append, length_replicate]
    omega
  generalize bits.map ++ List.replicate (attr / 32 + 1 - bits.map.length) 0 = words at hlen ⊢
  by_cases hword : x / 32 = attr / 32
  · rw [getElem?_eq_getElem (hlen hword)]
    simp only [if_pos hword.symm, Option.map_eq_map, map_some, getD_some,
      BitVec.getLsbD_or, BitVec.getLsbD_twoPow, Bool.or_eq_true, Bool.and_eq_true,
      decide_eq_true_eq]
    have hx : attr % 32 < 32 ∧ attr % 32 = x % 32 ↔ x = attr := by omega
    rw [hx]
  · have hne : x ≠ attr := fun heq => hword (by rw [heq])
    simp [Ne.symm hword, hne]

end Bitmap4

end EdgeComputing.Nfs4
