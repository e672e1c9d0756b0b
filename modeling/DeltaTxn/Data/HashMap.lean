import Mathlib.Tactic.Common

/-!
# Finite maps with string keys

A map with string keys, compared extensionally. The iteration order of a hash map is
unspecified; here it is the order of the keys.

* `ofList_toList`: a map is the map of its entries.
* `getElem?_collect`: looking up in a map collected from a list of keys.
* `getElem?_gather`: looking up in a map gathered by one pass over another map.
-/

/-- **A map with string keys.** -/
abbrev HashMap (V : Type) : Type := Std.ExtTreeMap String V compare

namespace HashMap

variable {V W : Type}

theorem getElem?_ofList_toList (m : HashMap V) (k : String) :
    (Std.ExtTreeMap.ofList m.toList compare)[k]? = m[k]? := by
  cases h : m[k]? with
  | some v =>
    have hm : (k, v) ∈ m.toList := Std.ExtTreeMap.mem_toList_iff_getElem?_eq_some.2 h
    exact Std.ExtTreeMap.getElem?_ofList_of_mem Std.compare_self m.distinct_keys_toList hm
  | none =>
    apply Std.ExtTreeMap.getElem?_ofList_of_contains_eq_false
    rw [Std.ExtTreeMap.map_fst_toList_eq_keys, List.contains_eq_mem, decide_eq_false_iff_not,
      Std.ExtTreeMap.mem_keys]
    simpa using h

/-- **A map is the map of its entries.** -/
theorem ofList_toList (m : HashMap V) : Std.ExtTreeMap.ofList m.toList compare = m :=
  Std.ExtTreeMap.ext_getElem? (getElem?_ofList_toList m)

/-- Looking up in a map made of a list whose keys are distinct. -/
theorem getElem?_ofList {l : List (String × V)} (hd : (l.map Prod.fst).Nodup) (k : String) :
    (Std.ExtTreeMap.ofList l compare)[k]? = l.lookup k := by
  cases h : l.lookup k with
  | some v =>
    have hm : (k, v) ∈ l := by
      obtain ⟨l₁, l₂, rfl, -⟩ := List.lookup_eq_some_iff.1 h
      simp
    refine Std.ExtTreeMap.getElem?_ofList_of_mem Std.compare_self ?_ hm
    exact (List.pairwise_map.1 hd).imp fun hne heq => hne (Std.LawfulEqCmp.eq_of_compare heq)
  | none =>
    apply Std.ExtTreeMap.getElem?_ofList_of_contains_eq_false
    rw [List.contains_eq_mem, decide_eq_false_iff_not, List.mem_map]
    rintro ⟨x, hx, rfl⟩
    have hne := List.lookup_eq_none_iff.1 h x hx
    simp at hne

/-- The map of `f` over a list of keys, inserted one by one. -/
def collect (f : String → V) (l : List String) : HashMap V :=
  l.foldl (fun m k => m.insert k (f k)) ∅

theorem getElem?_foldl_insert (f : String → V) (l : List String) :
    ∀ (m : HashMap V) (k : String),
      (l.foldl (fun m k => m.insert k (f k)) m)[k]? = if k ∈ l then some (f k) else m[k]? := by
  induction l with
  | nil => intro m k; simp
  | cons x l ih =>
    intro m k
    rw [List.foldl_cons, ih, Std.ExtTreeMap.getElem?_insert]
    by_cases hx : x = k
    · subst hx; simp
    · simp [hx, Ne.symm hx]

theorem getElem?_collect (f : String → V) (l : List String) (k : String) :
    (collect f l)[k]? = if k ∈ l then some (f k) else none := by
  rw [collect, getElem?_foldl_insert]; simp

/-- Insert a value if there is one. -/
def insertSome (m : HashMap V) (k : String) : Option V → HashMap V
  | some v => m.insert k v
  | none => m

theorem getElem?_insertSome (m : HashMap V) (k : String) (o : Option V) (j : String) :
    (m.insertSome k o)[j]? = if k = j then o.or m[j]? else m[j]? := by
  cases o with
  | none => simp [insertSome]
  | some v => simp [insertSome, Std.ExtTreeMap.getElem?_insert]

/-- The values `f` makes of the entries of a map, inserted in one pass. -/
def gather (f : W → Option V) (t : HashMap W) : HashMap V :=
  t.toList.foldl (fun m p => m.insertSome p.1 (f p.2)) ∅

theorem getElem?_foldl_insertSome_of_notMem (f : W → Option V) (l : List (String × W)) {k : String}
    (hk : ∀ w, (k, w) ∉ l) :
    ∀ m : HashMap V, (l.foldl (fun m p => m.insertSome p.1 (f p.2)) m)[k]? = m[k]? := by
  induction l with
  | nil => intro m; rfl
  | cons x l ih =>
    intro m
    have hx : x.1 ≠ k := fun he => hk x.2 (by rw [← he]; exact List.mem_cons_self)
    rw [List.foldl_cons, ih (fun w hw => hk w (List.mem_cons_of_mem _ hw)), getElem?_insertSome,
      if_neg hx]

theorem getElem?_foldl_insertSome_of_mem (f : W → Option V) {l : List (String × W)}
    (hd : l.Pairwise fun a b => ¬ compare a.1 b.1 = .eq) {k : String} {w : W} (hk : (k, w) ∈ l) :
    ∀ m : HashMap V, m[k]? = none →
      (l.foldl (fun m p => m.insertSome p.1 (f p.2)) m)[k]? = f w := by
  induction l with
  | nil => cases hk
  | cons x l ih =>
    obtain ⟨hx, hl⟩ := List.pairwise_cons.1 hd
    intro m hm
    rw [List.foldl_cons]
    rcases List.mem_cons.1 hk with rfl | hk
    · -- the key occurs here, so nowhere later
      have hn : ∀ w', (k, w') ∉ l := fun w' hw' => hx _ hw' Std.compare_self
      rw [getElem?_foldl_insertSome_of_notMem f l hn, getElem?_insertSome, if_pos rfl, hm, Option.or_none]
    · have hne : x.1 ≠ k := fun he => hx _ hk (by rw [he]; exact Std.compare_self)
      refine ih hl hk _ ?_
      rw [getElem?_insertSome, if_neg hne, hm]

/-- **Looking up in a gathered map.** -/
theorem getElem?_gather (f : W → Option V) (t : HashMap W) (k : String) :
    (gather f t)[k]? = t[k]?.bind f := by
  cases h : t[k]? with
  | some w =>
    have hm : (k, w) ∈ t.toList := Std.ExtTreeMap.mem_toList_iff_getElem?_eq_some.2 h
    exact getElem?_foldl_insertSome_of_mem f t.distinct_keys_toList hm ∅ (by simp)
  | none =>
    have hn : ∀ w, (k, w) ∉ t.toList := fun w hw => by
      rw [Std.ExtTreeMap.mem_toList_iff_getElem?_eq_some.1 hw] at h
      cases h
    rw [gather, getElem?_foldl_insertSome_of_notMem f _ hn]
    simp

end HashMap
