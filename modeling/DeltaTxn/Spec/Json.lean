import DeltaTxn.Data.HashMap

/-!
# JSON values

The part of `serde_json` the service works with: `Value`, `Number` and their accessors.
Numbers are kept as `serde_json` keeps them (an unsigned, a negative, or a floating-point
number), and the two restrictions of that representation are part of the type: a `negInt`
is negative, a `float` is finite. An object is kept as the list of its members; the last of
two members with one name counts.
-/

namespace DeltaTxn

inductive Number
  | posInt (n : UInt64)
  | negInt (i : Int64) (h : i < 0)
  | float (x : Float) (h : x.isFinite = true)
  deriving DecidableEq

namespace Number

/-- `Value::from(i64)`, as a number. -/
def ofI64 (i : Int64) : Number :=
  if h : i < 0 then negInt i h else posInt i.toUInt64

/-- `Number::from_f64`: JSON has no NaN and no infinities. -/
def fromF64 (x : Float) : Option Number :=
  if h : x.isFinite = true then some (float x h) else none

def asI64 : Number → Option Int64
  | posInt n => if n ≤ Int64.maxValue.toUInt64 then some n.toInt64 else none
  | negInt i _ => some i
  | float _ _ => none

def asU64 : Number → Option UInt64
  | posInt n => some n
  | negInt _ _ => none
  | float _ _ => none

def asF64 : Number → Option Float
  | posInt n => some n.toFloat
  | negInt i _ => some i.toFloat
  | float x _ => some x

/-- An `i64` is read back as the same `i64`. -/
@[simp] theorem asI64_ofI64 (i : Int64) : (ofI64 i).asI64 = some i := by
  unfold ofI64
  split
  · rfl
  · rename_i h
    have hle : i.toUInt64 ≤ Int64.maxValue.toUInt64 :=
      Int64.toUInt64_le (Int64.not_lt.1 h) (Int64.le_maxValue i)
    simp [asI64, hle]

theorem toInt_toInt64_of_le {n : UInt64} (h : n ≤ Int64.maxValue.toUInt64) :
    n.toInt64.toInt = n.toNat := by
  have hn : n.toNat ≤ 2 ^ 63 - 1 := UInt64.le_iff_toNat_le.1 h
  change n.toBitVec.toInt = n.toNat
  rw [BitVec.toInt_eq_toNat_of_lt (by change 2 * n.toNat < 2 ^ 64; omega)]
  rfl

/-- What reads as an `i64` is the number that `i64` is written as. -/
theorem eq_ofI64 {n : Number} {i : Int64} (h : n.asI64 = some i) : n = ofI64 i := by
  cases n with
  | posInt n =>
    simp only [asI64] at h
    split at h
    · rename_i hn
      cases h
      have h0 : ¬ n.toInt64 < 0 := by
        rw [Int64.lt_iff_toInt_lt, toInt_toInt64_of_le hn]
        simp
      rw [ofI64, dif_neg h0, UInt64.toUInt64_toInt64]
    · cases h
  | negInt j hj =>
    cases h
    rw [ofI64, dif_pos hj]
  | float x hx => cases h

/-- A finite double is read back as the same double. -/
theorem fromF64_of_finite {x : Float} (h : x.isFinite = true) : fromF64 x = some (float x h) :=
  dif_pos h

theorem fromF64_eq_none {x : Float} (h : x.isFinite = false) : fromF64 x = none :=
  dif_neg (by simp [h])

end Number

inductive Value
  | null
  | bool (b : Bool)
  | number (n : Number)
  | string (s : String)
  | array (l : List Value)
  | object (l : List (String × Value))

namespace Value

def asI64 : Value → Option Int64
  | number n => n.asI64
  | _ => none

def asU64 : Value → Option UInt64
  | number n => n.asU64
  | _ => none

def asStr : Value → Option String
  | string s => some s
  | _ => none

def asObject : Value → Option (HashMap Value)
  | object l => some (Std.ExtTreeMap.ofList l compare)
  | _ => none

/-- `Value::get` with a string index. -/
def get (v : Value) (key : String) : Option Value := v.asObject.bind fun m => m[key]?

/-- `Value::from(i64)`. -/
def ofI64 (i : Int64) : Value := number (.ofI64 i)

/-- `Value::Object` of a map. -/
def ofMap (m : HashMap Value) : Value := object m.toList

@[simp] theorem asObject_ofMap (m : HashMap Value) : (ofMap m).asObject = some m := by
  simp only [asObject, ofMap, HashMap.ofList_toList]

@[simp] theorem asI64_ofI64 (i : Int64) : (ofI64 i).asI64 = some i := Number.asI64_ofI64 i

theorem eq_ofI64 {v : Value} {i : Int64} (h : v.asI64 = some i) : v = ofI64 i := by
  cases v with
  | number n => rw [ofI64, Number.eq_ofI64 h]
  | _ => cases h

end Value

end DeltaTxn
