import EdgeComputing.Nfs4.FattrRoundTrip

/-!
`nfs4_Fattr_cmp`, with which VERIFY and NVERIFY compare a client's attributes with those the server
has encoded, walking both bitmaps and both values in step. The size of a field is the client's
length word or the size of a structure in memory; padding is no part of a field, and only the
client's value is checked for four more bytes.
-/

namespace EdgeComputing.Nfs4

open List Library Library.Xdr Attr

/-- Whether `memcmp` finds `n` equal bytes at an offset. The bytes must be inside both values. -/
def memcmp (b1 b2 : List Byte) (off n : Nat) : Except Fault Bool :=
  if off + n ≤ b1.length ∧ off + n ≤ b2.length then
    .ok ((b1.drop off).take n = (b2.drop off).take n)
  else .error .outsideBuffer

/-- Calls of `memcmp` one after the other, up to a difference. The offset after them, if there is
none. -/
def memcmpAll (b1 b2 : List Byte) : List Nat → Nat → Except Fault (Option Nat)
  | [], off => .ok (some off)
  | n :: rest, off =>
    match memcmp b1 b2 off n with
    | .error fault => .error fault
    | .ok false => .ok none
    | .ok true => memcmpAll b1 b2 rest (off + n)

def wordAt (b : List Byte) (off : Nat) : Option Nat :=
  match b.drop off with
  | a :: b :: c :: d :: _ => some (u32OfBytes a b c d).toNat
  | _ => none

def sizeFattr4 (attr : Nat) : Nat :=
  if attr ∈ [3, 4, 20, 21, 22, 23, 27, 30, 31, 38, 39, 40, 41, 42, 43, 44, 45, 55] then 8
  else if attr ∈ [47, 49, 50, 51, 52, 53] then 12
  else if attr ∈ [8, 12, 32] then 16  -- FSID, ACL, MIMETYPE
  else if attr ∈ [48, 54] then 24  -- TIME_ACCESS_SET, TIME_MODIFY_SET
  else if attr = 24 then 32  -- FS_LOCATIONS
  else 4

/-- The comparison of the values of an attribute. It gives the offset after the field, or `none` if
the function returns 0. -/
def cmpField (b1 b2 : List Byte) (attr off : Nat) : Except Fault (Option Nat) :=
  match attr with
  | supportedAttrs =>
    match wordAt b1 off with
    | none => .error .outsideBuffer
    | some len => memcmpAll b1 b2 (4 :: List.replicate len 4) off
  | filehandle | owner | ownerGroup =>
    match wordAt b1 off with
    | none => .error .outsideBuffer
    | some len => memcmpAll b1 b2 [4, len] off
  | attr =>
    if attr ≤ mountedOnFileid then memcmpAll b1 b2 [sizeFattr4 attr] off else .ok none

/-- The loop over both bitmaps. The offset has 32 bits; it stays inside the client's value. -/
def cmpLoop (b1 b2 : List Byte) : List Nat → List Nat → Nat → Except Fault Int
  | [], _, _ => .ok 1
  | _ :: _, [], _ => .ok 1
  | attr1 :: rest1, attr2 :: rest2, off =>
    if xattrSupport < attr1 then cmpLoop b1 b2 rest1 (attr2 :: rest2) off
    else if b1.length < off + 4 then .ok 0
    else if attr1 ≠ attr2 then .ok 0
    else
      match cmpField b1 b2 attr1 off with
      | .error fault => .error fault
      | .ok none => .ok 0
      | .ok (some off) => cmpLoop b1 b2 rest1 rest2 off

def nfs4FattrCmp (fattr1 fattr2 : Fattr4) : Except Fault Int :=
  if fattr1.attrmask.attributeIsSet rdattrError then .ok (-1)
  else if fattr1.attrVals = [] then .ok 1
  else
    cmpLoop fattr1.attrVals fattr2.attrVals fattr1.attrmask.attrs fattr2.attrmask.attrs 0

def knownAttrs (fattr : Fattr4) : List Nat :=
  fattr.attrmask.attrs.filter (· ≤ xattrSupport)

/-- The known attributes of the client are the server's, and the encodings of their values are
equal. Values of unknown attributes may follow in the client's. -/
def SameAttrs (fattr1 fattr2 : Fattr4) : Prop :=
  knownAttrs fattr1 = fattr2.attrmask.attrs ∧ fattr2.attrVals <+: fattr1.attrVals

structure CommonUpTo (b1 b2 : List Byte) (off : Nat) : Prop where
  inside : off ≤ b1.length ∧ off ≤ b2.length
  eq : b1.take off = b2.take off

def fieldSizes (b1 : List Byte) (attr off : Nat) : List Nat :=
  match attr with
  | supportedAttrs => 4 :: List.replicate ((wordAt b1 off).getD 0) 4
  | filehandle | owner | ownerGroup => [4, (wordAt b1 off).getD 0]
  | attr => [sizeFattr4 attr]

def fieldsEnd (b1 : List Byte) (attrs : List Nat) : Nat :=
  attrs.foldl (fun off attr => off + (fieldSizes b1 attr off).sum) 0

def Agrees (b1 b2 : List Byte) (attrs : List Nat) : Prop :=
  (∀ attr ∈ attrs, attr ≤ mountedOnFileid) ∧ CommonUpTo b1 b2 (fieldsEnd b1 attrs)

def SizesInside (b1 b2 : List Byte) (sizes : List Nat) (off : Nat) : Prop :=
  ∀ before n after, sizes = before ++ n :: after → CommonUpTo b1 b2 (off + before.sum) →
    off + before.sum + n ≤ b1.length ∧ off + before.sum + n ≤ b2.length

structure ExactAfter (b1 b2 : List Byte) (same : Prop) (done attrs1 attrs2 : List Nat) : Prop where
  /-- The next field of equal attributes is compared inside the values. -/
  inside : ∀ more attr rest1 rest2, attrs1 = more ++ attr :: rest1 →
    attrs2 = more ++ attr :: rest2 → Agrees b1 b2 (done ++ more) →
    fieldsEnd b1 (done ++ more) + 4 ≤ b1.length → attr ≤ mountedOnFileid →
      SizesInside b1 b2 (fieldSizes b1 attr (fieldsEnd b1 (done ++ more)))
        (fieldsEnd b1 (done ++ more))
  /-- Attributes that agree up to the end of one of the bitmaps are the same. -/
  ended : ∀ more rest,
    attrs1 = more ∧ attrs2 = more ++ rest ∨ attrs1 = more ++ rest ∧ attrs2 = more →
    Agrees b1 b2 (done ++ more) → same
  /-- Attributes that are not compared, or that have fewer than four bytes left, are different. -/
  stopped : ∀ more attr rest1 rest2, attrs1 = more ++ attr :: rest1 →
    attrs2 = more ++ attr :: rest2 → Agrees b1 b2 (done ++ more) →
    b1.length < fieldsEnd b1 (done ++ more) + 4 ∨ mountedOnFileid < attr → ¬ same

def ComparedExactly (fattr1 fattr2 : Fattr4) : Prop :=
  if fattr1.attrVals = [] then SameAttrs fattr1 fattr2
  else
    ExactAfter fattr1.attrVals fattr2.attrVals (SameAttrs fattr1 fattr2) [] (knownAttrs fattr1)
      fattr2.attrmask.attrs

section Bytes

variable {b1 b2 : List Byte} {off : Nat}

theorem CommonUpTo.mono {off' : Nat} (h : CommonUpTo b1 b2 off) (hle : off' ≤ off) :
    CommonUpTo b1 b2 off' := by
  obtain ⟨⟨hlen1, hlen2⟩, heq⟩ := h
  refine ⟨⟨by omega, by omega⟩, ?_⟩
  have htake := congrArg (List.take off') heq
  rwa [take_take, take_take, Nat.min_eq_left hle] at htake

theorem commonUpTo_add (h : CommonUpTo b1 b2 off) (n : Nat) : CommonUpTo b1 b2 (off + n) ↔
    (off + n ≤ b1.length ∧ off + n ≤ b2.length) ∧ (b1.drop off).take n = (b2.drop off).take n := by
  obtain ⟨⟨hlen1, hlen2⟩, heq⟩ := h
  constructor
  · rintro ⟨hinside, htake⟩
    refine ⟨hinside, ?_⟩
    rw [take_add, take_add, heq] at htake
    exact append_cancel_left htake
  · rintro ⟨hinside, hdrop⟩
    refine ⟨hinside, ?_⟩
    rw [take_add, take_add, heq, hdrop]

theorem memcmp_cases (h : CommonUpTo b1 b2 off) (n : Nat) :
    (¬ (off + n ≤ b1.length ∧ off + n ≤ b2.length) ∧ memcmp b1 b2 off n = .error .outsideBuffer) ∨
    (off + n ≤ b1.length ∧ off + n ≤ b2.length) ∧
      (¬ CommonUpTo b1 b2 (off + n) ∧ memcmp b1 b2 off n = .ok false ∨
        CommonUpTo b1 b2 (off + n) ∧ memcmp b1 b2 off n = .ok true) := by
  unfold memcmp
  rw [commonUpTo_add h n]
  by_cases hinside : off + n ≤ b1.length ∧ off + n ≤ b2.length
  · rw [if_pos hinside]
    by_cases heq : (b1.drop off).take n = (b2.drop off).take n
    · exact .inr ⟨hinside, .inr ⟨⟨hinside, heq⟩, by rw [decide_eq_true heq]⟩⟩
    · exact .inr ⟨hinside, .inl ⟨fun hand => heq hand.2, by rw [decide_eq_false heq]⟩⟩
  · rw [if_neg hinside]
    exact .inl ⟨hinside, rfl⟩

theorem sizesInside_cons {n : Nat} {rest : List Nat} (h : CommonUpTo b1 b2 off) :
    SizesInside b1 b2 (n :: rest) off ↔ (off + n ≤ b1.length ∧ off + n ≤ b2.length) ∧
      (CommonUpTo b1 b2 (off + n) → SizesInside b1 b2 rest (off + n)) := by
  constructor
  · intro hall
    refine ⟨hall [] n rest rfl h, fun hcommon before m after heq hbefore => ?_⟩
    have hnext := hall (n :: before) m after (by rw [heq]; rfl)
    rw [sum_cons, ← Nat.add_assoc] at hnext
    exact hnext hbefore
  · rintro ⟨hfirst, hrest⟩ before m after heq hbefore
    cases before with
    | nil =>
      cases heq
      exact hfirst
    | cons k before =>
      cases heq
      rw [sum_cons, ← Nat.add_assoc] at hbefore ⊢
      exact hrest (hbefore.mono (Nat.le_add_right _ _)) before m after rfl hbefore

theorem memcmpAll_cases (sizes : List Nat) (h : CommonUpTo b1 b2 off) :
    (¬ SizesInside b1 b2 sizes off ∧ memcmpAll b1 b2 sizes off = .error .outsideBuffer) ∨
    SizesInside b1 b2 sizes off ∧
      (¬ CommonUpTo b1 b2 (off + sizes.sum) ∧ ¬ b2 <+: b1 ∧
          memcmpAll b1 b2 sizes off = .ok none ∨
        CommonUpTo b1 b2 (off + sizes.sum) ∧
          memcmpAll b1 b2 sizes off = .ok (some (off + sizes.sum))) := by
  induction sizes generalizing off with
  | nil =>
    refine .inr ⟨fun before n after heq => ?_, .inr ⟨h, rfl⟩⟩
    cases before <;> cases heq
  | cons n rest ih =>
    rw [sizesInside_cons h, sum_cons, ← Nat.add_assoc]
    unfold memcmpAll
    rcases memcmp_cases h n with ⟨hout, hcmp⟩ | ⟨hinside, ⟨hdiff, hcmp⟩ | ⟨hcommon, hcmp⟩⟩
    · rw [hcmp]
      exact .inl ⟨fun hand => hout hand.1, rfl⟩
    · rw [hcmp]
      refine .inr ⟨⟨hinside, fun hcommon => absurd hcommon hdiff⟩, .inl ⟨fun hcommon => ?_, ?_⟩⟩
      · exact hdiff (hcommon.mono (Nat.le_add_right _ _))
      · refine ⟨?_, rfl⟩
        rintro ⟨tail, rfl⟩
        exact hdiff ⟨hinside, by rw [take_append_of_le_length hinside.2]⟩
    · rw [hcmp]
      rcases ih hcommon with ⟨hout, hrest⟩ | ⟨hrestInside, hrest⟩
      · exact .inl ⟨fun hand => hout (hand.2 hcommon), hrest⟩
      · exact .inr ⟨⟨hinside, fun _ => hrestInside⟩, hrest⟩

end Bytes

section Fields

variable {b1 b2 : List Byte} {attrs : List Nat} {attr off : Nat}

theorem exists_wordAt {b : List Byte} {off : Nat} (h : off + 4 ≤ b.length) :
    ∃ len, wordAt b off = some len := by
  unfold wordAt
  have hlen : 4 ≤ (b.drop off).length := by
    rw [length_drop]
    omega
  match hdrop : b.drop off with
  | a :: b :: c :: d :: _ => exact ⟨_, rfl⟩
  | [] | [_] | [_, _] | [_, _, _] =>
    rw [hdrop] at hlen
    simp at hlen

theorem cmpField_eq (hroom : off + 4 ≤ b1.length) (hattr : attr ≤ mountedOnFileid) :
    cmpField b1 b2 attr off = memcmpAll b1 b2 (fieldSizes b1 attr off) off := by
  obtain ⟨len, hlen⟩ := exists_wordAt hroom
  unfold cmpField fieldSizes
  rw [hlen]
  split
  · rfl
  · rfl
  · rfl
  · rfl
  · rw [if_pos hattr]

theorem cmpField_of_lt (hattr : mountedOnFileid < attr) :
    cmpField b1 b2 attr off = .ok none := by
  unfold cmpField
  split
  · exact absurd hattr (by decide)
  · exact absurd hattr (by decide)
  · exact absurd hattr (by decide)
  · exact absurd hattr (by decide)
  · rw [if_neg (Nat.not_le.2 hattr)]

theorem four_le_sum_fieldSizes (b1 : List Byte) (attr off : Nat) :
    4 ≤ (fieldSizes b1 attr off).sum := by
  have hsize : 4 ≤ sizeFattr4 attr := by
    unfold sizeFattr4
    split_ifs <;> decide
  unfold fieldSizes
  split <;> simp [hsize]

theorem fieldsEnd_snoc (b1 : List Byte) (attrs : List Nat) (attr : Nat) :
    fieldsEnd b1 (attrs ++ [attr]) =
      fieldsEnd b1 attrs + (fieldSizes b1 attr (fieldsEnd b1 attrs)).sum := by
  unfold fieldsEnd
  rw [foldl_append]
  rfl

theorem agrees_snoc (h : Agrees b1 b2 attrs) (attr : Nat) :
    Agrees b1 b2 (attrs ++ [attr]) ↔ attr ≤ mountedOnFileid ∧ CommonUpTo b1 b2
      (fieldsEnd b1 attrs + (fieldSizes b1 attr (fieldsEnd b1 attrs)).sum) := by
  unfold Agrees
  rw [fieldsEnd_snoc, forall_mem_append, forall_mem_singleton]
  exact and_congr_left fun _ => and_iff_right h.1

theorem Agrees.of_snoc {attr : Nat} (h : Agrees b1 b2 (attrs ++ [attr])) : Agrees b1 b2 attrs := by
  obtain ⟨hle, hcommon⟩ := h
  rw [fieldsEnd_snoc] at hcommon
  exact ⟨fun a ha => hle a (mem_append_left _ ha), hcommon.mono (Nat.le_add_right _ _)⟩

theorem Agrees.of_append {attrs more : List Nat} (h : Agrees b1 b2 (attrs ++ more)) :
    Agrees b1 b2 attrs := by
  induction more generalizing attrs with
  | nil => rwa [append_nil] at h
  | cons attr more ih =>
    rw [append_cons] at h
    exact (ih h).of_snoc

end Fields

section Loop

variable {b1 b2 : List Byte} {same : Prop} {done : List Nat}

theorem exactAfter_ended {attrs1 attrs2 : List Nat} (h : Agrees b1 b2 done)
    (hnil : attrs1 = [] ∨ attrs2 = []) : ExactAfter b1 b2 same done attrs1 attrs2 ↔ same := by
  have hnot : ∀ {more attr rest1 rest2}, attrs1 = more ++ attr :: rest1 →
      attrs2 = more ++ attr :: rest2 → False := by
    rintro more attr rest1 rest2 rfl rfl
    simp at hnil
  constructor
  · intro hexact
    refine hexact.ended [] (attrs1 ++ attrs2) ?_ (by rwa [append_nil])
    rcases hnil with rfl | rfl
    · exact .inl ⟨rfl, rfl⟩
    · exact .inr ⟨(append_nil _).symm, rfl⟩
  · exact fun hsame => ⟨fun _ _ _ _ h1 h2 => (hnot h1 h2).elim, fun _ _ _ _ => hsame,
      fun _ _ _ _ h1 h2 => (hnot h1 h2).elim⟩

theorem exactAfter_of_ne {attr1 attr2 : Nat} (h : attr1 ≠ attr2) (rest1 rest2 : List Nat) :
    ExactAfter b1 b2 same done (attr1 :: rest1) (attr2 :: rest2) := by
  have hno : ∀ {more attr : _} {r1 r2 : List Nat}, attr1 :: rest1 = more ++ attr :: r1 →
      attr2 :: rest2 = more ++ attr :: r2 → False := by
    intro more attr r1 r2 heq1 heq2
    cases more with
    | nil | cons x more =>
      cases heq1
      cases heq2
      exact h rfl
  refine ⟨fun more attr r1 r2 heq1 heq2 => (hno heq1 heq2).elim, ?_,
    fun more attr r1 r2 heq1 heq2 => (hno heq1 heq2).elim⟩
  rintro more rest (⟨heq1, heq2⟩ | ⟨heq1, heq2⟩)
  · subst heq1
    cases heq2
    exact absurd rfl h
  · subst heq2
    cases heq1
    exact absurd rfl h

theorem exactAfter_of_not_agrees (h : ¬ Agrees b1 b2 done) (attrs1 attrs2 : List Nat) :
    ExactAfter b1 b2 same done attrs1 attrs2 :=
  ⟨fun _ _ _ _ _ _ hagrees => absurd hagrees.of_append h,
    fun _ _ _ hagrees => absurd hagrees.of_append h,
    fun _ _ _ _ _ _ hagrees => absurd hagrees.of_append h⟩

theorem exactAfter_cons (h : Agrees b1 b2 done) (attr : Nat) (rest1 rest2 : List Nat) :
    ExactAfter b1 b2 same done (attr :: rest1) (attr :: rest2) ↔
      (fieldsEnd b1 done + 4 ≤ b1.length → attr ≤ mountedOnFileid →
        SizesInside b1 b2 (fieldSizes b1 attr (fieldsEnd b1 done)) (fieldsEnd b1 done)) ∧
      (b1.length < fieldsEnd b1 done + 4 ∨ mountedOnFileid < attr → ¬ same) ∧
      ExactAfter b1 b2 same (done ++ [attr]) rest1 rest2 := by
  constructor
  · intro hexact
    have hnil : Agrees b1 b2 (done ++ []) := by rwa [append_nil]
    refine ⟨?_, ?_, ?_, ?_, ?_⟩
    · have hinside := hexact.inside [] attr rest1 rest2 rfl rfl hnil
      rwa [append_nil] at hinside
    · have hstopped := hexact.stopped [] attr rest1 rest2 rfl rfl hnil
      rwa [append_nil] at hstopped
    · intro more next r1 r2 heq1 heq2
      have hinside := hexact.inside (attr :: more) next r1 r2 (by rw [heq1]; rfl)
        (by rw [heq2]; rfl)
      rwa [append_cons] at hinside
    · intro more rest heq
      have hended := hexact.ended (attr :: more) rest
        (heq.imp (fun h => ⟨by rw [h.1], by rw [h.2]; rfl⟩) fun h => ⟨by rw [h.1]; rfl, by rw [h.2]⟩)
      rwa [append_cons] at hended
    · intro more next r1 r2 heq1 heq2
      have hstopped := hexact.stopped (attr :: more) next r1 r2 (by rw [heq1]; rfl)
        (by rw [heq2]; rfl)
      rwa [append_cons] at hstopped
  · rintro ⟨hinside, hstopped, hrest⟩
    refine ⟨?_, ?_, ?_⟩
    · intro more next r1 r2 heq1 heq2
      cases more with
      | nil =>
        cases heq1
        rw [append_nil]
        exact fun _ => hinside
      | cons x more =>
        cases heq1
        cases heq2
        rw [append_cons]
        exact hrest.inside more next r1 r2 rfl rfl
    · intro more rest heq
      cases more with
      | nil => rcases heq with ⟨heq, -⟩ | ⟨-, heq⟩ <;> cases heq
      | cons x more =>
        rw [append_cons]
        rcases heq with ⟨heq1, heq2⟩ | ⟨heq1, heq2⟩
        · cases heq1
          cases heq2
          exact hrest.ended rest1 rest (.inl ⟨rfl, rfl⟩)
        · cases heq2
          cases heq1
          exact hrest.ended rest2 rest (.inr ⟨rfl, rfl⟩)
    · intro more next r1 r2 heq1 heq2
      cases more with
      | nil =>
        cases heq1
        rw [append_nil]
        exact fun _ => hstopped
      | cons x more =>
        cases heq1
        cases heq2
        rw [append_cons]
        exact hrest.stopped more next r1 r2 rfl rfl

theorem exists_ok_iff (v : Int) :
    (∃ w, (.ok v : Except Fault Int) = .ok w ∧ (w = 1 ↔ same)) ↔ (v = 1 ↔ same) :=
  ⟨fun ⟨_, heq, h⟩ => Except.ok.inj heq ▸ h, fun h => ⟨v, rfl, h⟩⟩

/-- The induction is on the client's attributes; those before them agree. -/
theorem cmpLoop_exact_iff (hvals : same → b2 <+: b1) {attrs1 attrs2 : List Nat}
    (hknown : ∀ attr ∈ attrs1, attr ≤ xattrSupport) (hattrs : same → attrs1 = attrs2)
    (h : Agrees b1 b2 done) :
    (∃ v, cmpLoop b1 b2 attrs1 attrs2 (fieldsEnd b1 done) = .ok v ∧ (v = 1 ↔ same)) ↔
      ExactAfter b1 b2 same done attrs1 attrs2 := by
  induction attrs1 generalizing done attrs2 with
  | nil =>
    rw [exactAfter_ended h (.inl rfl)]
    exact (exists_ok_iff 1).trans ⟨fun h => h.1 rfl, fun h => ⟨fun _ => h, fun _ => rfl⟩⟩
  | cons attr1 rest1 ih =>
    cases attrs2 with
    | nil =>
      rw [exactAfter_ended h (.inr rfl)]
      exact (exists_ok_iff 1).trans ⟨fun h => h.1 rfl, fun h => ⟨fun _ => h, fun _ => rfl⟩⟩
    | cons attr2 rest2 =>
      have hzero : ((0 : Int) = 1 ↔ same) ↔ ¬ same :=
        ⟨fun h hsame => absurd (h.2 hsame) (by decide),
          fun h => ⟨fun h => absurd h (by decide), fun hsame => absurd hsame h⟩⟩
      unfold cmpLoop
      rw [if_neg (Nat.not_lt.2 (hknown attr1 (.head _)))]
      by_cases heq : attr1 = attr2
      · subst heq
        rw [exactAfter_cons h]
        have hsnoc := agrees_snoc h attr1
        by_cases hshort : b1.length < fieldsEnd b1 done + 4
        · have hno : ¬ Agrees b1 b2 (done ++ [attr1]) := fun hagrees => by
            have hlen := (hsnoc.1 hagrees).2.inside.1
            have hsum := four_le_sum_fieldSizes b1 attr1 (fieldsEnd b1 done)
            omega
          rw [if_pos hshort, exists_ok_iff, hzero]
          constructor
          · intro hnot
            refine ⟨fun hroom => ?_, fun _ => hnot, exactAfter_of_not_agrees hno _ _⟩
            exact absurd hroom (Nat.not_le.2 hshort)
          · exact fun hexact => hexact.2.1 (.inl hshort)
        have hroom := Nat.le_of_not_lt hshort
        rw [if_neg hshort, if_neg (not_not.2 rfl)]
        by_cases hattr : attr1 ≤ mountedOnFileid
        · rw [cmpField_eq hroom hattr]
          rcases memcmpAll_cases (fieldSizes b1 attr1 (fieldsEnd b1 done)) h.2 with
            ⟨hout, hcmp⟩ | ⟨hinside, ⟨hdiff, hprefix, hcmp⟩ | ⟨hcommon, hcmp⟩⟩
          · rw [hcmp]
            refine ⟨fun ⟨_, h, _⟩ => (nomatch h), fun hexact => ?_⟩
            exact absurd (hexact.1 hroom hattr) hout
          · -- A difference inside both values is one of the attributes.
            have hno : ¬ Agrees b1 b2 (done ++ [attr1]) := fun hagrees =>
              hdiff (hsnoc.1 hagrees).2
            rw [hcmp]
            dsimp only
            rw [exists_ok_iff, hzero]
            refine ⟨fun hnot => ?_, fun _ hsame => hprefix (hvals hsame)⟩
            exact ⟨fun _ _ => hinside, fun _ => hnot, exactAfter_of_not_agrees hno _ _⟩
          · rw [hcmp]
            dsimp only
            rw [← fieldsEnd_snoc, ih (fun x hx => hknown x (.tail _ hx))
              (fun hsame => (List.cons.inj (hattrs hsame)).2) (hsnoc.2 ⟨hattr, hcommon⟩)]
            refine ⟨fun hexact => ⟨fun _ _ => hinside, fun hor => ?_, hexact⟩,
              fun hexact => hexact.2.2⟩
            exact absurd hor (not_or.2 ⟨hshort, Nat.not_lt.2 hattr⟩)
        · have hno : ¬ Agrees b1 b2 (done ++ [attr1]) := fun hagrees =>
            hattr (hsnoc.1 hagrees).1
          rw [cmpField_of_lt (Nat.lt_of_not_le hattr)]
          dsimp only
          rw [exists_ok_iff, hzero]
          constructor
          · intro hnot
            exact ⟨fun _ hle => absurd hle hattr, fun _ => hnot, exactAfter_of_not_agrees hno _ _⟩
          · exact fun hexact => hexact.2.1 (.inr (Nat.lt_of_not_le hattr))
      · have hnot : ¬ same := fun hsame => heq (List.cons.inj (hattrs hsame)).1
        have hexact : ExactAfter b1 b2 same done (attr1 :: rest1) (attr2 :: rest2) :=
          exactAfter_of_ne heq rest1 rest2
        rw [if_pos heq, ite_self, exists_ok_iff, hzero]
        exact ⟨fun _ => hexact, fun _ => hnot⟩

theorem cmpLoop_known (b1 b2 : List Byte) (attrs1 attrs2 : List Nat) (off : Nat) :
    cmpLoop b1 b2 (attrs1.filter (· ≤ xattrSupport)) attrs2 off =
      cmpLoop b1 b2 attrs1 attrs2 off := by
  induction attrs1 generalizing attrs2 off with
  | nil => rfl
  | cons attr1 rest1 ih =>
    rw [filter_cons]
    cases attrs2 with
    | nil =>
      split_ifs with hle
      · rfl
      · rw [ih]
        cases rest1 <;> rfl
    | cons attr2 rest2 =>
      by_cases hgt : xattrSupport < attr1
      · rw [if_neg (by simpa using hgt), ih]
        conv_rhs => unfold cmpLoop
        rw [if_pos hgt]
      · rw [if_pos (by simpa using hgt)]
        unfold cmpLoop
        rw [if_neg hgt]
        split_ifs with hshort heq
        · rfl
        · rfl
        · cases cmpField b1 b2 attr1 off with
          | error fault => rfl
          | ok result =>
            cases result with
            | none => rfl
            | some off => exact ih rest2 off

end Loop

def sizeFattr : Fattr4 := ⟨⟨[0x10], by decide⟩, u64Bytes 4096, by decide⟩

end EdgeComputing.Nfs4
