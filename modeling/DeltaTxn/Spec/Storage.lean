import DeltaTxn.Data.Str

/-!
# The table_uri allowlist (`config/storage.rs`)
-/

namespace DeltaTxn

/-- `load_allowed_table_prefixes`, from the environment variable: none if it is not set. -/
def loadAllowedTablePrefixes (var : Option String) : Option (List String) :=
  match var with
  | none => none
  | some raw =>
    let prefixes := ((Str.split raw ',').map Str.trim).filter (· ≠ "")
    if prefixes.isEmpty then none else some prefixes

/-- Whether one configured entry admits a table_uri: exactly, or with a `/` right after it. One
trailing `/` of the entry does not count. -/
def entryAdmits (tableUri entry : String) : Bool :=
  let entry := (Str.stripSuffix entry '/').getD entry
  tableUri == entry || (Str.stripPre tableUri entry).any fun rest => rest.head? == some '/'

def isTableUriAllowed (tableUri : String) (allowlist : Option (List String)) : Bool :=
  match allowlist with
  | none => true
  | some entries => entries.any (entryAdmits tableUri)

example : isTableUriAllowed "s3://bucket/tables/foo" (some ["s3://bucket/tables/"]) = true := by decide
example : isTableUriAllowed "s3://bucket/tables-other/x" (some ["s3://bucket/tables"]) = false := by decide

end DeltaTxn
