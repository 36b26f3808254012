import Mathlib.Data.Int.Bitwise

/-!
The transforms of integer readings on their way out of a device service and of settings on their way
in. Every step is done in `long long`, which may be left even where the result would fit.
-/

namespace EdgeComputing.DeviceSdk

open Option

inductive IntType
  | int8 | uint8 | int16 | uint16 | int32 | uint32 | int64 | uint64

namespace IntType

def min : IntType → Int
  | int8 => -2 ^ 7
  | int16 => -2 ^ 15
  | int32 => -2 ^ 31
  | int64 => -2 ^ 63
  | uint8 | uint16 | uint32 | uint64 => 0

def max : IntType → Int
  | int8 => 2 ^ 7 - 1
  | uint8 => 2 ^ 8 - 1
  | int16 => 2 ^ 15 - 1
  | uint16 => 2 ^ 16 - 1
  | int32 => 2 ^ 31 - 1
  | uint32 => 2 ^ 32 - 1
  | int64 => 2 ^ 63 - 1
  | uint64 => 2 ^ 64 - 1

def Holds (t : IntType) (x : Int) : Prop := t.min ≤ x ∧ x ≤ t.max

instance (t : IntType) (x : Int) : Decidable (t.Holds x) := inferInstanceAs (Decidable (_ ∧ _))

end IntType

structure IntReading where
  type : IntType
  val : Int
  holds : type.Holds val

/-- The transform arguments of a property; `none` where one is not enabled. -/
structure PropertyValue where
  mask : Option Int64 := none
  shift : Option Int64 := none
  base : Option Int64 := none
  scale : Option Int64 := none
  offset : Option Int64 := none

def transformsOn (pv : PropertyValue) : Bool :=
  pv.offset.isSome || pv.scale.isSome || pv.base.isSome || pv.shift.isSome || pv.mask.isSome

inductive Transformed
  | int (val : Int)
  | string (text : String)
  deriving DecidableEq

/-- The conversion to `long long`, which wraps. -/
def getLLInt (value : IntReading) : Int := value.val.bmod (2 ^ 64)

def setLLInt (llival : Int) (pt : IntType) : Option Int :=
  if pt.Holds llival then some llival else none

/-- A `long long` result; one that does not fit is undefined. -/
def checked (x : Int) : Option Int := if IntType.int64.Holds x then some x else none

/-- `result <<= -ival` or `result >>= ival`. A left shift of a negative number and a shift by 64 or
more are undefined. -/
def shiftResult (ival result : Int) : Option Int :=
  if ival < 0 then
    if -64 < ival ∧ 0 ≤ result then checked (result * 2 ^ (-ival).toNat) else none
  else if ival < 64 then some (result / 2 ^ ival.toNat) else none

def ifEnabled (arg : Option Int64) (f : Int → Int → Option Int) (result : Int) : Option Int :=
  arg.elim (some result) fun ival => f ival.toInt result

/-- The steps of `edgex_transform_outgoing` on an integer; `powl` gives the power converted back, if
it fits. -/
def transformSteps (powl : Int → Int → Option Int) (props : PropertyValue) (result : Int) :
    Option Int := do
  let result ← ifEnabled props.mask (fun ival result => some (result.land ival)) result
  let result ← ifEnabled props.shift shiftResult result
  let result ← ifEnabled props.base powl result
  let result ← ifEnabled props.scale (fun ival result => checked (result * ival)) result
  ifEnabled props.offset (fun ival result => checked (result + ival)) result

/-- `edgex_transform_outgoing` on an integer; `none` if a step of it is undefined. -/
def transformOutgoing (powl : Int → Int → Option Int) (value : IntReading)
    (props : PropertyValue) : Option Transformed :=
  if transformsOn props then
    (transformSteps powl props (getLLInt value)).map fun result =>
      (setLLInt result value.type).elim (.string "overflow") .int
  else some (.int value.val)

namespace PropertyValue

variable (props : PropertyValue) (x : Int)

def masked : Int := props.mask.elim x fun ival => x.land ival.toInt

def shifted : Int := props.shift.elim (props.masked x) fun ival =>
  if ival.toInt < 0 then props.masked x * 2 ^ (-ival.toInt).toNat
  else props.masked x / 2 ^ ival.toInt.toNat

def scaled : Int := props.scale.elim (props.shifted x) fun ival => props.shifted x * ival.toInt

def exact : Int := props.offset.elim (props.scaled x) fun ival => props.scaled x + ival.toInt

/-- The shift is by less than 64 bits, a left one of a number that is not negative; no enabled step
leaves `long long`. -/
@[mk_iff stepsFit_iff]
structure StepsFit : Prop where
  shift : ∀ ival, props.shift = some ival → -64 < ival.toInt ∧ ival.toInt < 64 ∧
    (ival.toInt < 0 → 0 ≤ props.masked x ∧ IntType.int64.Holds (props.shifted x))
  scale : props.scale.isSome = true → IntType.int64.Holds (props.scaled x)
  offset : props.offset.isSome = true → IntType.int64.Holds (props.exact x)

end PropertyValue

def exactTransform (value : IntReading) (props : PropertyValue) : Transformed :=
  if value.type.Holds (props.exact value.val) then .int (props.exact value.val)
  else .string "overflow"

variable {x y : Int}

theorem checked_eq_some : checked x = some y ↔ IntType.int64.Holds x ∧ x = y := by
  rw [checked, ite_none_right_eq_some, some.injEq]

theorem shiftResult_eq_some {ival x y : Int} : shiftResult ival x = some y ↔
    -64 < ival ∧ ival < 64 ∧
      (ival < 0 → 0 ≤ x ∧ IntType.int64.Holds (x * 2 ^ (-ival).toNat)) ∧
      (if ival < 0 then x * 2 ^ (-ival).toNat else x / 2 ^ ival.toNat) = y := by
  unfold shiftResult
  by_cases hneg : ival < 0
  · simp only [hneg, if_true, ite_none_right_eq_some, checked_eq_some, forall_const]
    have : ival < 64 := by omega
    tauto
  · have : -64 < ival := by omega
    simp only [hneg, if_false, ite_none_right_eq_some, some.injEq, this, true_and, false_imp_iff]

theorem ifEnabled_checked (arg : Option Int64) (f : Int → Int → Int) :
    ifEnabled arg (fun ival result => checked (f result ival)) x = some y ↔
      (arg.isSome = true → IntType.int64.Holds (arg.elim x fun ival => f x ival.toInt)) ∧
        (arg.elim x fun ival => f x ival.toInt) = y := by
  cases arg with
  | none => simp [ifEnabled]
  | some ival => simp [ifEnabled, checked_eq_some]

theorem ifEnabled_shift (props : PropertyValue) :
    ifEnabled props.shift shiftResult (props.masked x) = some y ↔
      (∀ ival, props.shift = some ival → -64 < ival.toInt ∧ ival.toInt < 64 ∧
        (ival.toInt < 0 → 0 ≤ props.masked x ∧ IntType.int64.Holds (props.shifted x))) ∧
        props.shifted x = y := by
  unfold PropertyValue.shifted
  cases hshift : props.shift with
  | none => simp [ifEnabled]
  | some ival =>
    simp only [ifEnabled, elim_some, shiftResult_eq_some, some.injEq, forall_eq']
    by_cases hneg : ival.toInt < 0 <;> simp [hneg, and_assoc]

theorem transformSteps_eq_some (powl : Int → Int → Option Int) {props : PropertyValue}
    (hbase : props.base = none) :
    transformSteps powl props x = some y ↔ props.StepsFit x ∧ props.exact x = y := by
  have hmask : ifEnabled props.mask (fun ival result => some (result.land ival)) x =
      some (props.masked x) := by
    unfold ifEnabled PropertyValue.masked
    cases props.mask <;> rfl
  have hnone (x : Int) : ifEnabled props.base powl x = some x := by
    rw [hbase]
    rfl
  simp only [transformSteps, hmask, hnone, bind_eq_bind, bind_some,
    bind_eq_some_iff, ifEnabled_shift, ifEnabled_checked, PropertyValue.stepsFit_iff,
    and_assoc, exists_and_left, exists_eq_left']
  rfl

theorem getLLInt_cases (value : IntReading) : IntType.int64.Holds (getLLInt value) ∧
    (value.val ≤ 2 ^ 63 - 1 ∧ getLLInt value = value.val ∨
      2 ^ 63 ≤ value.val ∧ getLLInt value = value.val - 2 ^ 64) := by
  obtain ⟨t, x, hmin, hmax⟩ := value
  have hmin : -2 ^ 63 ≤ x := by cases t <;> simp only [IntType.min] at hmin <;> omega
  have hmax : x ≤ 2 ^ 64 - 1 := by cases t <;> simp only [IntType.max] at hmax <;> omega
  simp only [getLLInt, Int.bmod_def, IntType.Holds, IntType.min, IntType.max]
  split_ifs <;> omega

theorem getLLInt_eq_self {value : IntReading} :
    getLLInt value = value.val ↔ value.val ≤ 2 ^ 63 - 1 := by
  have hcases := (getLLInt_cases value).2
  omega

/-- A reading is transformed exactly, or reported to overflow exactly if its type cannot hold the
result, if and only if it and the result of each step fit `long long`. -/
theorem transform_outgoing_exact_iff (powl : Int → Int → Option Int) (value : IntReading)
    (props : PropertyValue) (hbase : props.base = none) :
    ((transformsOn props = true → getLLInt value = value.val) ∧
      transformOutgoing powl value props = some (exactTransform value props)) ↔
    (transformsOn props = true → value.val ≤ 2 ^ 63 - 1 ∧ props.StepsFit value.val) := by
  unfold transformOutgoing
  by_cases hon : transformsOn props = true
  · simp only [hon, if_true, forall_const, getLLInt_eq_self]
    refine and_congr_right fun hfits => ?_
    rw [getLLInt_eq_self.2 hfits, map_eq_some_iff]
    constructor
    · rintro ⟨y, hy, -⟩
      exact ((transformSteps_eq_some powl hbase).1 hy).1
    · intro hsteps
      refine ⟨_, (transformSteps_eq_some powl hbase).2 ⟨hsteps, rfl⟩, ?_⟩
      unfold setLLInt exactTransform
      split_ifs <;> rfl
  · obtain ⟨mask, shift, base, scale, offset⟩ := props
    simp only [transformsOn, Bool.or_eq_true, not_or, Bool.not_eq_true, isSome_eq_false_iff,
      isNone_iff_eq_none] at hon
    obtain ⟨⟨⟨⟨rfl, rfl⟩, rfl⟩, rfl⟩, rfl⟩ := hon
    have hexact : exactTransform value {} = .int value.val := if_pos value.holds
    simp [transformsOn, hexact]

/-- A reading of -5 that is scaled by 100 and moved by 273. -/
theorem transform_outgoing_exact_scaled :
    transformOutgoing (fun _ _ => none) ⟨.int16, -5, by decide⟩
      { scale := some 100, offset := some 273 } = some (.int (-227)) := by
  have hsteps : PropertyValue.StepsFit { scale := some 100, offset := some 273 } (-5) :=
    ⟨nofun, fun _ => by decide, fun _ => by decide⟩
  exact ((transform_outgoing_exact_iff _ ⟨.int16, -5, by decide⟩ _ rfl).2 fun _ =>
    ⟨by decide, hsteps⟩).2

/-- The offset 0 leaves a large unsigned number as it is, but it is reported to overflow. -/
theorem uint64_reported_as_overflow :
    transformOutgoing (fun _ _ => none) ⟨.uint64, 2 ^ 63, by decide⟩ { offset := some 0 } =
        some (.string "overflow") ∧
      exactTransform ⟨.uint64, 2 ^ 63, by decide⟩ { offset := some 0 } = .int (2 ^ 63) := by
  decide

def unshiftResult (ival result : Int) : Option Int :=
  if ival < 0 then if -64 < ival then some (result / 2 ^ (-ival).toNat) else none
  else if ival < 64 ∧ 0 ≤ result then checked (result * 2 ^ ival.toNat) else none

/-- `edgex_transform_incoming` on an integer: `none` if a step of it is undefined, `some none` for a
null pointer; `logl` gives the rounded logarithm, if it fits. -/
def transformIncoming (logl : Int → Int → Option Int) (value : IntReading)
    (props : PropertyValue) : Option (Option Int) :=
  if transformsOn props then do
    let result ← ifEnabled props.offset (fun ival result => checked (result - ival)) (getLLInt value)
    let result ← ifEnabled props.scale
      (fun ival result => if ival = 0 then none else checked (result.tdiv ival)) result
    let result ← ifEnabled props.base logl result
    let result ← ifEnabled props.shift unshiftResult result
    some (setLLInt result value.type)
  else some (some value.val)

theorem setLLInt_eq_some {pt : IntType} : setLLInt x pt = some y ↔ pt.Holds x ∧ x = y := by
  rw [setLLInt, ite_none_right_eq_some, some.injEq]

theorem elim_holds {pt : IntType} {arg : Option Int64} {f : Int64 → Int} (hx : pt.Holds x)
    (h : arg.isSome = true → pt.Holds (arg.elim x f)) : pt.Holds (arg.elim x f) := by
  cases arg with
  | none => exact hx
  | some ival => exact h rfl

theorem pow_ediv_nonneg_iff (x : Int) (k : Nat) : 0 ≤ x / 2 ^ k ↔ 0 ≤ x :=
  Int.ediv_nonneg_iff_of_pos (Int.pow_pos (by decide))

section Undo

variable {props : PropertyValue} (hmask : props.mask = none) (hx : IntType.int64.Holds x)
  (hsteps : props.StepsFit x)

include hmask hx hsteps

theorem shifted_holds : IntType.int64.Holds (props.shifted x) := by
  have hfits := hsteps.shift
  simp only [PropertyValue.shifted, PropertyValue.masked, hmask, elim_none] at hfits ⊢
  cases hshift : props.shift with
  | none => exact hx
  | some ival =>
    simp only [hshift, elim_some] at hfits ⊢
    split_ifs with hneg
    · simpa [hneg] using ((hfits ival rfl).2.2 hneg).2
    · have habs := Int.natAbs_ediv_le_natAbs x (2 ^ ival.toInt.toNat)
      have hsign := pow_ediv_nonneg_iff x ival.toInt.toNat
      simp only [IntType.Holds, IntType.min, IntType.max] at hx ⊢
      omega

theorem ifEnabled_unshift
    (hbits : ∀ ival, props.shift = some ival → 0 ≤ ival.toInt → 2 ^ ival.toInt.toNat ∣ x) :
    ifEnabled props.shift unshiftResult (props.shifted x) =
      if props.shift.all fun ival => 0 ≤ ival.toInt → 0 ≤ x then some x else none := by
  have hfits := hsteps.shift
  simp only [PropertyValue.shifted, PropertyValue.masked, hmask, elim_none] at hfits ⊢
  cases hshift : props.shift with
  | none => simp [ifEnabled]
  | some ival =>
    obtain ⟨hlow, hhigh, -⟩ := hfits ival hshift
    simp only [ifEnabled, elim_some, unshiftResult, all_some, decide_eq_true_eq]
    by_cases hneg : ival.toInt < 0
    · have hpow : (2 : Int) ^ (-ival.toInt).toNat ≠ 0 := Int.ne_of_gt (Int.pow_pos (by decide))
      simp [hneg, hlow, Int.not_le.2 hneg, Int.mul_ediv_cancel _ hpow]
    · have hle := Int.not_lt.1 hneg
      simp only [hneg, hle, hhigh, if_false, true_and, forall_const, pow_ediv_nonneg_iff,
        Int.ediv_mul_cancel (hbits ival hshift hle), checked, hx, if_true]

end Undo

end EdgeComputing.DeviceSdk
