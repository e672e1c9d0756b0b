import DeltaTxn.Spec.Auth

/-!
# Who passes the interceptor

* `constantTimeEq_iff`: the comparison is equality of bytes, and so of strings.
* `interceptor_iff`: a request passes exactly if it holds the key, and passes unchanged.
-/

namespace DeltaTxn

variable {X : Type} {key : String}

/-- **The comparison decides equality**: the length check makes the fold see every byte. -/
theorem constantTimeEq_iff {a b : String} :
    constantTimeEq a b = true ↔ Bytes.ofString a = Bytes.ofString b := by
  simp only [constantTimeEq, ne_eq, ite_not]
  by_cases hlen : (Bytes.ofString a).length = (Bytes.ofString b).length
  · rw [if_pos hlen, beq_iff_eq, Bytes.foldl_or_xor_eq_zero, Bytes.zip_forall_eq_iff hlen]
    exact and_iff_right rfl
  · rw [if_neg hlen]
    constructor
    · intro h
      cases h
    · intro h
      exact absurd (congrArg List.length h) hlen

theorem constantTimeEq_eq {a b : String} : constantTimeEq a b = true ↔ a = b :=
  constantTimeEq_iff.trans Bytes.ofString_inj

/-- The first value under a name is the bytes of `text`, all of them visible ASCII. -/
def MetadataMap.Presents (m : MetadataMap) (name text : String) : Prop :=
  m.get name = some (Bytes.ofString text) ∧ (Bytes.ofString text).all Bytes.isVisibleAscii = true

/-- The metadata holds the key, in one header or the other; or none is configured. -/
def MetadataMap.Holds (m : MetadataMap) : Option String → Prop
  | none => True
  | some key => m.Presents "x-api-key" key ∨ m.Presents "authorization" ("Bearer " ++ key)

theorem presents_iff {m : MetadataMap} {name text : String} :
    (m.get name).bind Bytes.toStr = some text ↔ m.Presents name text := by
  simp only [Option.bind_eq_some_iff, Bytes.toStr_eq_some_iff, MetadataMap.Presents]
  constructor
  · rintro ⟨value, hget, hv, rfl⟩
    exact ⟨hget, hv⟩
  · rintro ⟨hget, hv⟩
    exact ⟨_, hget, hv, rfl⟩

/-- The check of one header: a value that is there, and is the key. -/
theorem getD_constantTimeEq_iff {value : Option String} :
    (value.map fun value => constantTimeEq value key).getD false = true ↔ value = some key := by
  cases value with
  | none => simp
  | some v => simp [constantTimeEq_eq]

/-- What comes after the prefix is the key. -/
theorem bearer_iff {value : Option String} :
    (value.bind fun value => (Str.stripPre value "Bearer ").map String.ofList) = some key ↔
      value = some ("Bearer " ++ key) := by
  simp only [Option.bind_eq_some_iff, Option.map_eq_some_iff, Str.stripPre_eq_some_iff]
  constructor
  · rintro ⟨v, rfl, rest, rfl, rfl⟩
    rfl
  · rintro rfl
    exact ⟨_, rfl, key.toList, by rw [String.ofList_toList], String.ofList_toList⟩

theorem authorized_iff {m : MetadataMap} : authorized m key = true ↔ m.Holds (some key) := by
  -- the second header is looked at only where the first does not hold the key
  have hor : ∀ x y : Bool, (if (!x) = true then y else x) = (x || y) := by decide
  unfold authorized
  rw [hor, Bool.or_eq_true, getD_constantTimeEq_iff, getD_constantTimeEq_iff, bearer_iff,
    presents_iff, presents_iff]
  rfl

/-- **Who passes the interceptor**: exactly the requests that hold the key, unchanged, and every
other request is answered UNAUTHENTICATED. The comparison of the key is equality of bytes. -/
theorem interceptor_iff (apiKey : Option String) (req : Request X Unit) :
    (makeAuthInterceptor apiKey req = .ok req ↔ req.metadata.Holds apiKey) ∧
    (makeAuthInterceptor apiKey req = .error ⟨.unauthenticated, "missing or invalid api key"⟩ ↔
      ¬ req.metadata.Holds apiKey) ∧
    ∀ a b, constantTimeEq a b = true ↔ Bytes.ofString a = Bytes.ofString b := by
  refine ⟨?_, ?_, fun a b => constantTimeEq_iff⟩
  all_goals
    cases apiKey with
    | none => simp [makeAuthInterceptor, MetadataMap.Holds]
    | some key =>
      rw [← authorized_iff]
      unfold makeAuthInterceptor
      cases h : authorized req.metadata key <;> simp [h, Status.unauthenticated]

/-- A wrong key in the first header does not hide the right one in the second. -/
example : authorized [("x-api-key", Bytes.ofString "wrong"),
    ("authorization", Bytes.ofString "Bearer secret")] "secret" = true := by decide

end DeltaTxn
