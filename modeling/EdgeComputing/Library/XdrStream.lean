import Mathlib.Algebra.Order.Ring.Int

/-!
XDR over a buffer in memory, a stream being a buffer and a position in it. `Took` relates the stream
before and after a read to the bytes taken; reads that follow each other take their pieces one after
the other.
-/

namespace EdgeComputing.Library

open List

abbrev Byte := BitVec 8

namespace Xdr

def u32Bytes (v : BitVec 32) : List Byte :=
  [.ofNat 8 (v.toNat / 2 ^ 24), .ofNat 8 (v.toNat / 2 ^ 16), .ofNat 8 (v.toNat / 2 ^ 8),
    .ofNat 8 v.toNat]

def u32OfBytes (a b c d : Byte) : BitVec 32 :=
  .ofNat 32 (a.toNat * 2 ^ 24 + b.toNat * 2 ^ 16 + c.toNat * 2 ^ 8 + d.toNat)

theorem u32Bytes_u32OfBytes (a b c d : Byte) : u32Bytes (u32OfBytes a b c d) = [a, b, c, d] := by
  have ha := a.isLt
  have hb := b.isLt
  have hc := c.isLt
  have hd := d.isLt
  simp only [u32Bytes, u32OfBytes, List.cons.injEq, and_true]
  refine ⟨?_, ?_, ?_, ?_⟩ <;>
  · apply BitVec.eq_of_toNat_eq
    simp only [BitVec.toNat_ofNat]
    omega

theorem u32Bytes_injective {v w : BitVec 32} (h : u32Bytes v = u32Bytes w) : v = w := by
  have hv := v.isLt
  have hw := w.isLt
  simp only [u32Bytes, List.cons.injEq, and_true] at h
  obtain ⟨h1, h2, h3, h4⟩ := h
  have h1 := congrArg BitVec.toNat h1
  have h2 := congrArg BitVec.toNat h2
  have h3 := congrArg BitVec.toNat h3
  have h4 := congrArg BitVec.toNat h4
  simp only [BitVec.toNat_ofNat] at h1 h2 h3 h4
  apply BitVec.eq_of_toNat_eq
  omega

theorem length_u32Bytes (v : BitVec 32) : (u32Bytes v).length = 4 := rfl

def u64Bytes (v : BitVec 64) : List Byte :=
  u32Bytes (.ofNat 32 (v.toNat / 2 ^ 32)) ++ u32Bytes (.ofNat 32 v.toNat)

def u64OfWords (high low : BitVec 32) : BitVec 64 := .ofNat 64 (high.toNat * 2 ^ 32 + low.toNat)

theorem u64Bytes_u64OfWords (high low : BitVec 32) :
    u64Bytes (u64OfWords high low) = u32Bytes high ++ u32Bytes low := by
  have hhigh := high.isLt
  have hlow := low.isLt
  unfold u64Bytes u64OfWords
  congr 2 <;>
  · apply BitVec.eq_of_toNat_eq
    simp only [BitVec.toNat_ofNat]
    omega

theorem u64Bytes_injective {v w : BitVec 64} (h : u64Bytes v = u64Bytes w) : v = w := by
  have hv := v.isLt
  have hw := w.isLt
  obtain ⟨hhigh, hlow⟩ := append_inj h rfl
  have hhigh := congrArg BitVec.toNat (u32Bytes_injective hhigh)
  have hlow := congrArg BitVec.toNat (u32Bytes_injective hlow)
  simp only [BitVec.toNat_ofNat] at hhigh hlow
  apply BitVec.eq_of_toNat_eq
  omega

theorem length_u64Bytes (v : BitVec 64) : (u64Bytes v).length = 8 := rfl

def padding (n : Nat) : Nat := (4 - n % 4) % 4

def opaqueBytes (b : List Byte) : List Byte := b ++ List.replicate (padding b.length) 0

def varBytes (b : List Byte) : List Byte := u32Bytes (.ofNat 32 b.length) ++ opaqueBytes b

structure Stream where
  data : List Byte
  pos : Nat
  pos_le : pos ≤ data.length
deriving DecidableEq

namespace Stream

variable {s t u : Stream} {a b : List Byte}

def ofData (data : List Byte) : Stream := ⟨data, 0, Nat.zero_le _⟩

def rest (s : Stream) : List Byte := s.data.drop s.pos

theorem length_rest (s : Stream) : s.rest.length = s.data.length - s.pos := length_drop

def Took (s : Stream) (a : List Byte) (t : Stream) : Prop := t.data = s.data ∧ s.rest = a ++ t.rest

def atEnd (data : List Byte) : Stream := ⟨data, data.length, Nat.le_refl _⟩

@[simp] theorem rest_atEnd (data : List Byte) : (atEnd data).rest = [] := drop_length

theorem ofData_took (data : List Byte) : (ofData data).Took data (atEnd data) :=
  ⟨rfl, by rw [rest_atEnd, append_nil]; rfl⟩

theorem Took.pos_eq (h : s.Took a t) : t.pos = s.pos + a.length := by
  have hlen := congrArg List.length h.2
  rw [length_append, length_rest, length_rest, h.1] at hlen
  have hs := s.pos_le
  have ht := t.pos_le
  rw [h.1] at ht
  omega

theorem Took.refl (s : Stream) : s.Took [] s := ⟨rfl, rfl⟩

theorem Took.trans (h : s.Took a t) (h' : t.Took b u) : s.Took (a ++ b) u :=
  ⟨h'.1.trans h.1, by rw [h.2, h'.2, append_assoc]⟩

theorem ext_of_pos (hdata : s.data = t.data) (hpos : s.pos = t.pos) : s = t := by
  cases s
  cases t
  cases hdata
  cases hpos
  rfl

theorem Took.split (h : s.Took (a ++ b) t) : ∃ m, s.Took a m ∧ m.Took b t := by
  have hpos := h.pos_eq
  have ht := t.pos_le
  rw [h.1] at ht
  rw [length_append] at hpos
  have hrest : (s.data.drop s.pos).drop a.length = b ++ t.rest := by
    have hs := h.2
    rw [append_assoc] at hs
    exact (congrArg (List.drop a.length) hs).trans drop_left
  rw [drop_drop] at hrest
  refine ⟨⟨s.data, s.pos + a.length, by omega⟩, ⟨rfl, ?_⟩, h.1, hrest⟩
  rw [h.2, append_assoc]
  exact congrArg (a ++ ·) hrest.symm

theorem Took.unique (h : s.Took a t) (h' : s.Took b u) (hlen : a.length = b.length) :
    a = b ∧ t = u := by
  have heq : a ++ t.rest = b ++ u.rest := h.2.symm.trans h'.2
  refine ⟨(append_inj heq hlen).1, ext_of_pos (h.1.trans h'.1.symm) ?_⟩
  rw [h.pos_eq, h'.pos_eq, hlen]

def get (s : Stream) (n : Nat) : Option (List Byte × Stream) :=
  if h : s.pos + n ≤ s.data.length then some (s.rest.take n, ⟨s.data, s.pos + n, h⟩) else none

theorem get_eq_some {n : Nat} : s.get n = some (a, t) ↔ a.length = n ∧ s.Took a t := by
  unfold get
  constructor
  · intro h
    split_ifs at h with hle
    cases h
    refine ⟨?_, rfl, ?_⟩
    · rw [length_take, length_rest]
      omega
    · simp only [rest, ← drop_drop]
      exact (take_append_drop n _).symm
  · rintro ⟨rfl, htook⟩
    have ht := t.pos_le
    rw [htook.pos_eq, htook.1] at ht
    rw [dif_pos ht, htook.2, take_left]
    exact congrArg some (Prod.ext rfl (ext_of_pos htook.1.symm htook.pos_eq.symm))

theorem get_eq_none {n : Nat} : s.get n = none ↔ s.rest.length < n := by
  have hle := s.pos_le
  unfold get
  rw [length_rest]
  split_ifs with h
  · simp
    omega
  · simp
    omega

def u32 (s : Stream) : Option (BitVec 32 × Stream) :=
  match s.get 4 with
  | some ([a, b, c, d], t) => some (u32OfBytes a b c d, t)
  | _ => none

theorem u32_eq_some {v : BitVec 32} : s.u32 = some (v, t) ↔ s.Took (u32Bytes v) t := by
  unfold u32
  constructor
  · intro h
    split at h
    · next a b c d t' hget =>
        cases h
        rw [u32Bytes_u32OfBytes]
        exact (get_eq_some.1 hget).2
    · cases h
  · intro h
    rw [get_eq_some.2 ⟨length_u32Bytes v, h⟩]
    refine congrArg some (Prod.ext (u32Bytes_injective ?_) rfl)
    exact u32Bytes_u32OfBytes ..

def u64 (s : Stream) : Option (BitVec 64 × Stream) :=
  match s.u32 with
  | none => none
  | some (high, s) =>
    match s.u32 with
    | none => none
    | some (low, s) => some (u64OfWords high low, s)

theorem u64_eq_some {v : BitVec 64} : s.u64 = some (v, t) ↔ s.Took (u64Bytes v) t := by
  unfold u64
  constructor
  · intro h
    split at h
    · cases h
    · next high s' hhigh =>
        split at h
        · cases h
        · next low s'' hlow =>
            cases h
            rw [u64Bytes_u64OfWords]
            exact (u32_eq_some.1 hhigh).trans (u32_eq_some.1 hlow)
  · intro h
    obtain ⟨m, hhigh, hlow⟩ := Took.split h
    rw [u32_eq_some.2 hhigh]
    dsimp only
    rw [u32_eq_some.2 hlow]
    refine congrArg some (Prod.ext (u64Bytes_injective ?_) rfl)
    exact u64Bytes_u64OfWords ..

theorem u64_eq_none : s.u64 = none ↔ s.rest.length < 8 := by
  constructor
  · intro h
    by_contra hlen
    obtain ⟨⟨b, t⟩, hget⟩ := Option.ne_none_iff_exists'.1 fun hnone =>
      hlen (get_eq_none.1 hnone)
    obtain ⟨hblen, htook⟩ := get_eq_some.1 hget
    match b, hblen with
    | [b1, b2, b3, b4, b5, b6, b7, b8], _ =>
      have hv := u64Bytes_u64OfWords (u32OfBytes b1 b2 b3 b4) (u32OfBytes b5 b6 b7 b8)
      rw [u32Bytes_u32OfBytes, u32Bytes_u32OfBytes] at hv
      have htook' : s.Took (u64Bytes (u64OfWords (u32OfBytes b1 b2 b3 b4)
          (u32OfBytes b5 b6 b7 b8))) t := by
        rw [hv]
        exact htook
      rw [u64_eq_some.2 htook'] at h
      cases h
  · intro hlen
    cases h : s.u64 with
    | none => rfl
    | some vt =>
      have hs := congrArg List.length (u64_eq_some.1 h).2
      rw [length_append, length_u64Bytes] at hs
      omega

def setPos (s : Stream) (p : Nat) : Option Stream :=
  if h : p ≤ s.data.length then some ⟨s.data, p, h⟩ else none

theorem setPos_took {p : Nat} (hle : s.pos ≤ p) (h : s.setPos p = some t) : ∃ a, s.Took a t := by
  unfold setPos at h
  split_ifs at h with hp
  cases h
  refine ⟨s.rest.take (p - s.pos), rfl, ?_⟩
  have hdrop : s.data.drop p = s.rest.drop (p - s.pos) := by
    rw [rest, drop_drop, Nat.add_sub_cancel' hle]
  exact (take_append_drop (p - s.pos) s.rest).symm.trans
    (congrArg (s.rest.take (p - s.pos) ++ ·) hdrop.symm)

def getOpaque (s : Stream) (n : Nat) : Option (List Byte × Stream) :=
  match s.get n with
  | none => none
  | some (b, s) =>
    match s.get (padding n) with
    | none => none
    | some (_, s) => some (b, s)

theorem getOpaque_took {n : Nat} (h : s.getOpaque n = some (a, t)) :
    a.length = n ∧ ∃ p, s.Took (a ++ p) t := by
  unfold getOpaque at h
  split at h
  · cases h
  · next b s' hget =>
      split at h
      · cases h
      · next p s'' hpad =>
          cases h
          obtain ⟨hlen, htook⟩ := get_eq_some.1 hget
          exact ⟨hlen, p, htook.trans (get_eq_some.1 hpad).2⟩

def getBytes (s : Stream) (maxSize : Nat) : Option (List Byte × Stream) :=
  match s.u32 with
  | none => none
  | some (size, s) => if size.toNat ≤ maxSize then s.getOpaque size.toNat else none

theorem getBytes_took {maxSize : Nat} (h : s.getBytes maxSize = some (a, t)) : ∃ p, s.Took p t := by
  unfold getBytes at h
  split at h
  · cases h
  · next size s' hsize =>
      split_ifs at h
      obtain ⟨-, p, htook⟩ := getOpaque_took h
      exact ⟨_, (u32_eq_some.1 hsize).trans htook⟩

end Stream

@[ext]
structure OutStream (size : Nat) where
  bytes : List Byte
  length_le : bytes.length ≤ size

namespace OutStream

variable {size : Nat} {s t : OutStream size} {b : List Byte}

def empty : OutStream size := ⟨[], Nat.zero_le _⟩

def put (s : OutStream size) (b : List Byte) : Option (OutStream size) :=
  if h : (s.bytes ++ b).length ≤ size then some ⟨s.bytes ++ b, h⟩ else none

theorem put_eq_some : s.put b = some t ↔ t.bytes = s.bytes ++ b := by
  unfold put
  constructor
  · intro h
    split_ifs at h
    cases h
    rfl
  · intro h
    have hle := t.length_le
    rw [h] at hle
    rw [dif_pos hle]
    exact congrArg some (OutStream.ext h.symm)

end OutStream

end Xdr

end EdgeComputing.Library
