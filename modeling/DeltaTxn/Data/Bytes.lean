import Mathlib.Data.List.Forall2
import Mathlib.Tactic.Common

/-!
# Strings as bytes

The UTF-8 bytes of a string, and the strings that bytes of printable ASCII spell.

* `toStr_eq_some_iff`: when bytes are read as a string, and as which one.
* `foldl_or_xor_eq_zero`: a disjunction of differences is zero exactly if there is none.
-/

namespace Bytes

/-- `s.as_bytes()`. -/
def ofString (s : String) : List UInt8 := s.toByteArray.data.toList

/-- A visible ASCII character, a space or a tab: the bytes that `to_str` accepts in a header
value. -/
def isVisibleAscii (b : UInt8) : Bool := (32 ≤ b && b < 127) || b == 9

/-- `value.to_str().ok()`: these bytes as a string, if all of them are visible ASCII. -/
def toStr (bytes : List UInt8) : Option String :=
  if bytes.all isVisibleAscii then some (String.ofList (bytes.map fun b => Char.ofNat b.toNat))
  else none

/-! ## The bytes of a string -/

theorem ofString_inj {s t : String} : ofString s = ofString t ↔ s = t := by
  constructor
  · intro h
    rw [← String.toByteArray_inj]
    exact ByteArray.ext (Array.toList_inj.1 h)
  · rintro rfl
    rfl

theorem ofString_ofList (l : List Char) :
    ofString (String.ofList l) = l.flatMap String.utf8EncodeChar := by
  unfold ofString
  rw [String.toByteArray_ofList, List.utf8Encode, List.toList_data_toByteArray]

theorem utf8EncodeChar_ofNat {b : UInt8} (hb : b < 128) :
    String.utf8EncodeChar (Char.ofNat b.toNat) = [b] := by
  have hall : ∀ n < 128, String.utf8EncodeChar (Char.ofNat n) = [UInt8.ofNat n] := by decide
  have h := hall b.toNat (UInt8.lt_iff_toNat_lt.1 hb)
  rwa [UInt8.ofNat_toNat] at h

theorem ofString_ascii {bytes : List UInt8} (h : ∀ b ∈ bytes, b < 128) :
    ofString (String.ofList (bytes.map fun b => Char.ofNat b.toNat)) = bytes := by
  rw [ofString_ofList]
  induction bytes with
  | nil => rfl
  | cons b bs ih =>
    rw [List.forall_mem_cons] at h
    rw [List.map_cons, List.flatMap_cons, utf8EncodeChar_ofNat h.1, ih h.2]
    rfl

theorem isVisibleAscii_lt {b : UInt8} (h : isVisibleAscii b = true) : b < 128 := by
  simp only [isVisibleAscii, Bool.or_eq_true, Bool.and_eq_true, decide_eq_true_eq, beq_iff_eq] at h
  rcases h with ⟨-, hb⟩ | rfl
  · exact UInt8.lt_trans hb (by decide)
  · decide

/-- **What a header value is read as**: a string is read exactly from its own bytes, if they are
visible ASCII. -/
theorem toStr_eq_some_iff {bytes : List UInt8} {s : String} :
    toStr bytes = some s ↔ bytes.all isVisibleAscii = true ∧ bytes = ofString s := by
  unfold toStr
  by_cases hv : bytes.all isVisibleAscii = true
  · have hbytes : ofString (String.ofList (bytes.map fun b => Char.ofNat b.toNat)) = bytes :=
      ofString_ascii fun b hb => isVisibleAscii_lt (List.all_eq_true.1 hv b hb)
    rw [if_pos hv, Option.some_inj, ← ofString_inj, hbytes]
    exact (and_iff_right hv).symm
  · rw [if_neg hv]
    simp [hv]

/-! ## Comparing bytes -/

/-- **A disjunction of differences** is zero exactly if there is no difference. -/
theorem foldl_or_xor_eq_zero (l : List (UInt8 × UInt8)) (acc : UInt8) :
    l.foldl (fun acc p => acc ||| (p.1 ^^^ p.2)) acc = 0 ↔ acc = 0 ∧ ∀ p ∈ l, p.1 = p.2 := by
  induction l generalizing acc with
  | nil => simp
  | cons p l ih =>
    rw [List.foldl_cons, ih, UInt8.or_eq_zero_iff, UInt8.xor_eq_zero_iff, List.forall_mem_cons,
      and_assoc]

theorem zip_forall_eq_iff {α : Type} {a b : List α} (h : a.length = b.length) :
    (∀ p ∈ a.zip b, p.1 = p.2) ↔ a = b := by
  rw [← List.forall₂_eq_eq_eq, List.forall₂_iff_zip, and_iff_right h]
  exact Prod.forall

end Bytes
