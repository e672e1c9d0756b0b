import Mathlib.Data.List.DropRight
import Mathlib.Data.List.Infix

/-!
# String operations

The string operations of the source, on the characters of a string.

* `splitOn_prefix_iff`: when the pieces of one list are the first pieces of another.
-/

namespace Str

/-- `s.contains(pat)`. -/
def contains (s pat : String) : Bool := decide (pat.toList <:+: s.toList)

/-- `s.strip_suffix(c)` for a character. -/
def stripSuffix (s : String) (c : Char) : Option String :=
  if s.toList.getLast? = some c then some (String.ofList s.toList.dropLast) else none

/-- `s.strip_prefix(pre)`, as the characters that are left. -/
def stripPre (s pre : String) : Option (List Char) :=
  if pre.toList <+: s.toList then some (s.toList.drop pre.toList.length) else none

/-- `s.starts_with(pre)`. -/
def startsWith (s pre : String) : Bool := decide (pre.toList <+: s.toList)

/-- `s.split(c)`. -/
def split (s : String) (c : Char) : List String := (s.toList.splitOn c).map String.ofList

/-- `s.rsplit(c)`. -/
def rsplit (s : String) (c : Char) : List String := (split s c).reverse

/-- `s.rsplitn(2, c)`: what is after the last `c`, and what is before it. -/
def rsplitn2 (s : String) (c : Char) : List String :=
  match (s.toList.splitOn c).reverse with
  | [] => []
  | [whole] => [String.ofList whole]
  | last :: before => [String.ofList last, String.ofList ([c].intercalate before.reverse)]

/-- `s.trim_start_matches(c)`. -/
def trimStartMatches (s : String) (c : Char) : String := String.ofList (s.toList.dropWhile (· == c))

/-- `char::is_whitespace`, the Unicode property `White_Space`. -/
def isWhitespace (c : Char) : Bool :=
  (0x9 ≤ c.toNat && c.toNat ≤ 0xd) || (0x2000 ≤ c.toNat && c.toNat ≤ 0x200a) ||
    [0x20, 0x85, 0xa0, 0x1680, 0x2028, 0x2029, 0x202f, 0x205f, 0x3000].contains c.toNat

/-- `s.trim()`. -/
def trim (s : String) : String :=
  String.ofList ((s.toList.dropWhile isWhitespace).rdropWhile isWhitespace)

theorem stripPre_eq_some_iff {s pre : String} {rest : List Char} :
    stripPre s pre = some rest ↔ s = pre ++ String.ofList rest := by
  rw [← String.toList_inj, String.toList_append, String.toList_ofList]
  unfold stripPre
  constructor
  · intro h
    split at h
    · rename_i hp
      obtain ⟨tail, htail⟩ := hp
      rw [← htail, List.drop_left, Option.some_inj] at h
      rw [← htail, h]
    · cases h
  · intro h
    rw [h, if_pos (List.prefix_append _ _), List.drop_left]

/-! ## The pieces of a split -/

section

variable {α : Type} {p u : List α} {c : α}

theorem intercalate_append {l m : List (List α)} (hl : l ≠ []) (hm : m ≠ []) :
    [c].intercalate (l ++ m) = [c].intercalate l ++ c :: [c].intercalate m := by
  induction l with
  | nil => exact absurd rfl hl
  | cons x l ih =>
    cases l with
    | nil =>
      rw [List.singleton_append, List.intercalate_cons_of_ne_nil hm]
      simp
    | cons y l =>
      have htail := ih (List.cons_ne_nil y l)
      rw [List.cons_append, List.cons_append] at *
      rw [List.intercalate_cons_cons, htail, List.intercalate_cons_cons]
      simp

/-- **The pieces of `p` come first in those of `u`** exactly if `p` is all of `u`, or `p` is
followed by a separator in `u`. -/
theorem splitOn_prefix_iff [DecidableEq α] :
    p.splitOn c <+: u.splitOn c ↔ u = p ∨ ∃ rest, u = p ++ c :: rest := by
  constructor
  · rintro ⟨pieces, h⟩
    have hu : [c].intercalate (p.splitOn c ++ pieces) = u := by
      rw [h, List.intercalate_splitOn]
    by_cases hp : pieces = []
    · subst hp
      rw [List.append_nil, List.intercalate_splitOn] at hu
      exact Or.inl hu.symm
    · rw [intercalate_append (List.splitOn_ne_nil c p) hp, List.intercalate_splitOn] at hu
      exact Or.inr ⟨_, hu.symm⟩
  · rintro (rfl | ⟨rest, rfl⟩)
    · exact List.prefix_rfl
    · rw [List.splitOn_append_cons_self]
      exact List.prefix_append _ _

end

end Str
