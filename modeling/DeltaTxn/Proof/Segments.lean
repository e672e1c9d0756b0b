import DeltaTxn.Spec.Storage

/-!
# The allowlist compares path segments

`isTableUriAllowed` works on characters: it strips one `/`, strips the entry, and looks at the
next character. Read by segments between slashes, an entry admits a table_uri exactly if its
segments are the first ones of the table_uri.

* `entryAdmits_iff_segments`: for one entry.
* `allowlist_segments`: for every value of the environment variable.
-/

namespace DeltaTxn

/-- The segments of a path. -/
def segments (s : String) : List String := Str.split s '/'

/-- Without one trailing `/`. -/
def dropSlash (s : String) : String := (Str.stripSuffix s '/').getD s

/-- The entries of a value of the environment variable: what is between its commas, trimmed,
and not blank. -/
def IsEntry (raw entry : String) : Prop :=
  entry ≠ "" ∧ ∃ piece ∈ Str.split raw ',', entry = Str.trim piece

variable {tableUri entry raw : String}

/-! ## One entry -/

theorem segments_prefix_iff : segments entry <+: segments tableUri ↔
    tableUri = entry ∨ ∃ rest, tableUri.toList = entry.toList ++ '/' :: rest := by
  unfold segments Str.split
  rw [List.prefix_map_iff_of_injective fun _ _ h => String.ofList_injective h,
    Str.splitOn_prefix_iff, String.toList_inj]

/-- The rest after an entry that is stripped starts with a slash. -/
theorem stripPre_slash_iff :
    ((Str.stripPre tableUri entry).any fun rest => rest.head? == some '/') = true ↔
      ∃ rest, tableUri.toList = entry.toList ++ '/' :: rest := by
  rw [Option.any_eq_true]
  simp only [Str.stripPre_eq_some_iff, beq_iff_eq]
  constructor
  · rintro ⟨rest, rfl, hhead⟩
    obtain ⟨rest', rfl⟩ := List.head?_eq_some_iff.1 hhead
    exact ⟨rest', by rw [String.toList_append, String.toList_ofList]⟩
  · rintro ⟨rest, hrest⟩
    refine ⟨'/' :: rest, ?_, rfl⟩
    rw [← String.toList_inj, hrest, String.toList_append, String.toList_ofList]

/-- **An entry admits by segments**: those of the entry, without one trailing slash, are the
first ones of the table_uri. -/
theorem entryAdmits_iff_segments :
    entryAdmits tableUri entry = true ↔ segments (dropSlash entry) <+: segments tableUri := by
  rw [segments_prefix_iff, ← stripPre_slash_iff]
  unfold entryAdmits dropSlash
  rw [Bool.or_eq_true, beq_iff_eq]

/-! ## The whole allowlist -/

theorem mem_entries :
    entry ∈ ((Str.split raw ',').map Str.trim).filter (· ≠ "") ↔ IsEntry raw entry := by
  rw [List.mem_filter, List.mem_map, decide_eq_true_iff]
  constructor
  · rintro ⟨⟨piece, hpiece, rfl⟩, hne⟩
    exact ⟨hne, piece, hpiece, rfl⟩
  · rintro ⟨hne, piece, hpiece, rfl⟩
    exact ⟨⟨piece, hpiece, rfl⟩, hne⟩

/-- Without any entry everything is allowed. -/
theorem allowed_blank (h : ∀ entry, ¬ IsEntry raw entry) :
    isTableUriAllowed tableUri (loadAllowedTablePrefixes (some raw)) = true := by
  have hnil : (((Str.split raw ',').map Str.trim).filter (· ≠ "")).isEmpty = true := by
    rw [List.isEmpty_iff, List.eq_nil_iff_forall_not_mem]
    exact fun entry hmem => h entry (mem_entries.1 hmem)
  have hload : loadAllowedTablePrefixes (some raw) = none := if_pos hnil
  rw [hload]
  rfl

/-- With an entry, what the entries admit. -/
theorem allowed_iff (h : ∃ entry, IsEntry raw entry) :
    isTableUriAllowed tableUri (loadAllowedTablePrefixes (some raw)) = true ↔
      ∃ entry, IsEntry raw entry ∧ segments (dropSlash entry) <+: segments tableUri := by
  obtain ⟨entry, hentry⟩ := h
  have hne : ¬ (((Str.split raw ',').map Str.trim).filter (· ≠ "")).isEmpty = true := by
    rw [List.isEmpty_iff]
    exact List.ne_nil_of_mem (mem_entries.2 hentry)
  have hload : loadAllowedTablePrefixes (some raw) =
      some (((Str.split raw ',').map Str.trim).filter (· ≠ "")) := if_neg hne
  rw [hload]
  simp only [isTableUriAllowed, List.any_eq_true, mem_entries, entryAdmits_iff_segments]

/-- One trailing slash is one that `dropSlash` takes away. -/
theorem dropSlash_slash (h : entry.toList.getLast? ≠ some '/') :
    dropSlash (entry ++ "/") = dropSlash entry := by
  unfold dropSlash Str.stripSuffix
  rw [if_neg h, if_pos (by simp)]
  simp

/-- The table_uri goes on with another character where the entry ends: it shares the leading
characters only. -/
def Sibling (entry tableUri : String) : Prop :=
  ∃ c rest, c ≠ '/' ∧ tableUri.toList = (dropSlash entry).toList ++ c :: rest

theorem Sibling.not_below (h : Sibling entry tableUri) :
    ¬ segments (dropSlash entry) <+: segments tableUri := by
  obtain ⟨c, rest, hc, huri⟩ := h
  rw [segments_prefix_iff]
  rintro (rfl | ⟨rest', huri'⟩)
  · simp at huri
  · rw [huri'] at huri
    have hcons := List.append_cancel_left huri
    cases hcons
    exact hc rfl

/-- With one piece of the value in the place of another that means the same path, what the
entries admit is still admitted. -/
theorem admitted_replace {raw' piece piece' : String} {before after : List String}
    (hraw : Str.split raw ',' = before ++ piece :: after)
    (hraw' : Str.split raw' ',' = before ++ piece' :: after) (hne : Str.trim piece' ≠ "")
    (hdrop : dropSlash (Str.trim piece') = dropSlash (Str.trim piece))
    (h : ∃ entry, IsEntry raw entry ∧ segments (dropSlash entry) <+: segments tableUri) :
    ∃ entry, IsEntry raw' entry ∧ segments (dropSlash entry) <+: segments tableUri := by
  obtain ⟨entry, ⟨hentry, x, hx, hxe⟩, hpre⟩ := h
  by_cases hxp : x = piece
  · refine ⟨Str.trim piece', ⟨hne, piece', by simp [hraw'], rfl⟩, ?_⟩
    rw [hdrop, ← hxp, ← hxe]
    exact hpre
  · refine ⟨entry, ⟨hentry, x, ?_, hxe⟩, hpre⟩
    rw [hraw, List.mem_append, List.mem_cons] at hx
    rw [hraw', List.mem_append, List.mem_cons]
    rcases hx with hx | hx | hx
    · exact Or.inl hx
    · exact absurd hx hxp
    · exact Or.inr (Or.inr hx)

/-- **The allowlist compares path segments.** For every value of the environment variable, a
table_uri is allowed exactly if the variable is unset, or has no entry, or has one whose
segments are the first ones of the table_uri. So an entry admits the same with one more slash,
and a sibling of all entries is not allowed. -/
theorem allowlist_segments :
    (∀ (var : Option String) (tableUri : String),
      isTableUriAllowed tableUri (loadAllowedTablePrefixes var) = true ↔
        var = none ∨ ∃ raw, var = some raw ∧ ((∀ entry, ¬ IsEntry raw entry) ∨
          ∃ entry, IsEntry raw entry ∧ segments (dropSlash entry) <+: segments tableUri)) ∧
    (∀ raw raw' before after piece piece', Str.split raw ',' = before ++ piece :: after →
      Str.split raw' ',' = before ++ piece' :: after → Str.trim piece ≠ "" →
      (Str.trim piece).toList.getLast? ≠ some '/' → Str.trim piece' = Str.trim piece ++ "/" →
      ∀ tableUri, isTableUriAllowed tableUri (loadAllowedTablePrefixes (some raw)) =
        isTableUriAllowed tableUri (loadAllowedTablePrefixes (some raw'))) ∧
    (∀ raw tableUri, (∃ entry, IsEntry raw entry) →
      (∀ entry, IsEntry raw entry → Sibling entry tableUri) →
      isTableUriAllowed tableUri (loadAllowedTablePrefixes (some raw)) = false) := by
  refine ⟨fun var tableUri => ?_, ?_, ?_⟩
  · cases var with
    | none => simp [loadAllowedTablePrefixes, isTableUriAllowed]
    | some raw =>
      simp only [reduceCtorEq, Option.some.injEq, exists_eq_left', false_or]
      by_cases hany : ∃ entry, IsEntry raw entry
      · rw [allowed_iff hany]
        refine (or_iff_right fun hno => ?_).symm
        obtain ⟨entry, hentry⟩ := hany
        exact hno entry hentry
      · have hno : ∀ entry, ¬ IsEntry raw entry := fun entry hentry => hany ⟨entry, hentry⟩
        exact ⟨fun _ => Or.inl hno, fun _ => allowed_blank hno⟩
  · intro raw raw' before after piece piece' hraw hraw' hne hlast htrim tableUri
    have hne' : Str.trim piece' ≠ "" := by
      rw [htrim]
      simp [String.append_eq_empty_iff]
    have hdrop : dropSlash (Str.trim piece') = dropSlash (Str.trim piece) := by
      rw [htrim, dropSlash_slash hlast]
    rw [Bool.eq_iff_iff, allowed_iff ⟨_, hne, piece, by simp [hraw], rfl⟩,
      allowed_iff ⟨_, hne', piece', by simp [hraw'], rfl⟩]
    constructor
    · exact admitted_replace hraw hraw' hne' hdrop
    · exact admitted_replace hraw' hraw hne hdrop.symm
  · intro raw tableUri hany hsib
    rw [← Bool.not_eq_true, allowed_iff hany]
    rintro ⟨entry, hentry, hpre⟩
    exact (hsib entry hentry).not_below hpre

/-- An entry with and without its slash, and a sibling of it. -/
theorem allowlist_segments_tables :
    isTableUriAllowed "s3://b/tables/x" (loadAllowedTablePrefixes (some "s3://b/tables")) =
        isTableUriAllowed "s3://b/tables/x" (loadAllowedTablePrefixes (some "s3://b/tables/")) ∧
      isTableUriAllowed "s3://b/tables-other" (loadAllowedTablePrefixes (some "s3://b/tables")) =
        false := by
  have hsplit : Str.split "s3://b/tables" ',' = [] ++ "s3://b/tables" :: [] := by decide
  have htrim : Str.trim "s3://b/tables" = "s3://b/tables" := by decide
  constructor
  · exact allowlist_segments.2.1 _ _ [] [] "s3://b/tables" "s3://b/tables/" hsplit (by decide)
      (by decide) (by decide) (by decide) _
  · refine allowlist_segments.2.2 _ _ ⟨"s3://b/tables", by decide, _, by simp [hsplit], htrim.symm⟩ ?_
    rintro entry ⟨-, piece, hpiece, rfl⟩
    rw [hsplit, List.nil_append, List.mem_singleton] at hpiece
    rw [hpiece, htrim]
    exact ⟨'-', "other".toList, by decide, by decide⟩

end DeltaTxn
