import KalamDB.Segments.Compaction
import KalamDB.Storage.PkIndex

/-!
# Which versions are taken for versions of one row

Readers, flushes and compactions keep the newest version of every **bucket**, and the bucket of a
row is computed from its primary key: from the decoded cell of a hot row, from the array of a cold
one. `bucket_eq_iff` says when two versions share their bucket. They have the same key, and when
that key is the empty text they are one version, because the empty text counts as no key.

The row codec stores a UUID as plain bytes, so that the cell of a hot row is not a UUID any more.
Its bucket is the display text of the bytes, which shows ten of the sixteen.
-/

namespace KalamDB

open PkIndex TableDefinition

/-- Where a version is read from. -/
inductive StorageTier where
  | hot
  | cold
  deriving DecidableEq

namespace StorageTier

/-- The cell of a key as the tier returns it. The hot store returns a UUID as plain bytes, which
have no key, only their display text. -/
def cell : StorageTier → (type : PkType) → type.Key → ScalarValue
  | .hot, type, key => (type.cell key).decoded
  | .cold, type, key => type.cell key

/-- The bucket in which a version from the tier is resolved. -/
def bucket (t : TableDefinition) (r : SharedTableRow) : StorageTier → PkBucketKey
  | .hot => t.mergeBucket r
  | .cold => Segments.pkBucketKeyFromArray t.primaryKeyFieldName r

/-- The row was stored with the key and is read from the tier. -/
def Returns (tier : StorageTier) (t : TableDefinition) (type : PkType) (key : type.Key)
    (r : SharedTableRow) : Prop :=
  r.fields.get t.primaryKeyFieldName = some (tier.cell type key)

/-! ### Keys and their buckets -/

theorem hexByte_injective : Function.Injective hexByte := fun _ _ h =>
  upperHexByte_injective (congrArg (List.map Char.toUpper) h)

theorem hexByte_append_inj {a b : UInt8} {l l' : List Char} :
    hexByte a ++ l = hexByte b ++ l' ↔ a = b ∧ l = l' := by
  constructor
  · intro h
    obtain ⟨hbyte, hrest⟩ := List.append_inj h rfl
    exact ⟨hexByte_injective hbyte, hrest⟩
  · rintro ⟨rfl, rfl⟩
    rfl

theorem uuidPkText_injective : Function.Injective uuidPkText := by
  rintro ⟨a, ha⟩ ⟨b, hb⟩ h
  rw [uuidPkText, uuidPkText, String.ofList_inj] at h
  -- sixteen bytes each
  iterate 16
    obtain _ | ⟨x, a⟩ := a
    · cases ha
    obtain _ | ⟨y, b⟩ := b
    · cases hb
  obtain rfl : a = [] := by simpa using ha
  obtain rfl : b = [] := by simpa using hb
  simpa [hexByte_append_inj, hexByte_injective.eq_iff] using h

variable {tier : StorageTier} {t : TableDefinition} {type : PkType} {key key' : type.Key}
  {r : SharedTableRow}

theorem tryPkBucketKey_cell_inj :
    tryPkBucketKey (type.cell key) = tryPkBucketKey (type.cell key') ↔ key = key' := by
  refine ⟨fun h => ?_, fun h => h ▸ rfl⟩
  cases type
  case boolean => cases key <;> cases key' <;> first | rfl | exact absurd h (by decide)
  -- an integer comes back from the width to which its bucket widens it
  all_goals
    injection h with h
    injection h with h
  case uuid => exact uuidPkText_injective h
  case int8 => exact Function.LeftInverse.injective Int8.toInt8_toInt64 h
  case int16 => exact Function.LeftInverse.injective Int16.toInt16_toInt64 h
  case int32 => exact Function.LeftInverse.injective Int32.toInt32_toInt64 h
  case uint8 => exact UInt8.toUInt64_inj.mp h
  case uint16 => exact UInt16.toUInt64_inj.mp h
  case uint32 => exact UInt32.toUInt64_inj.mp h

/-- Every key has a bucket, which is the empty text for the empty text only. -/
theorem exists_tryPkBucketKey_cell (key : type.Key) :
    ∃ k, tryPkBucketKey (type.cell key) = some k ∧ (k = .text "" ↔ type.cell key = .utf8 "") := by
  cases type
  case boolean => cases key <;> exact ⟨_, rfl, by decide⟩
  case uuid => exact ⟨_, rfl, by simp [PkType.cell, uuidPkText]⟩
  case text =>
    exact ⟨_, rfl, fun h => congrArg _ (PkBucketKey.text.inj h),
      fun h => congrArg _ (ScalarValue.utf8.inj h)⟩
  all_goals exact ⟨_, rfl, by simp [PkType.cell]⟩

/-- The bucket of a version whose cell still has its key. -/
theorem bucket_of_key {value : ScalarValue} {k : PkBucketKey}
    (h : r.fields.get t.primaryKeyFieldName = some value) (hk : tryPkBucketKey value = some k) :
    tier.bucket t r = if k = .text "" then .version r.version else k := by
  have hkey : t.primaryKey r = some k := by rw [primaryKey, h, Option.bind_some, hk]
  have hmerge : t.mergeBucket r = if k = .text "" then .version r.version else k := by
    split
    · next hempty => exact mergeBucket_of_empty (hempty ▸ hkey)
    · next hne => exact mergeBucket_of_primaryKey hkey hne
  cases tier with
  | hot => exact hmerge
  | cold => exact (Segments.pkBucketKeyFromArray_eq_mergeBucket (by simp [hkey])).trans hmerge

/-- **Which versions share a bucket**, UUIDs from hot storage apart. -/
theorem bucket_eq_iff (t : TableDefinition) (type : PkType) (tier tier' : StorageTier)
    (key key' : type.Key) (r r' : SharedTableRow) (h : tier.Returns t type key r)
    (h' : tier'.Returns t type key' r') (huuid : type = .uuid → tier = .cold ∧ tier' = .cold) :
    tier.bucket t r = tier'.bucket t r' ↔
      key = key' ∧ (type.cell key = .utf8 "" → r.version = r'.version) := by
  obtain ⟨k, hk, hempty⟩ := exists_tryPkBucketKey_cell key
  obtain ⟨k', hk', -⟩ := exists_tryPkBucketKey_cell key'
  have hcell : ∀ (tier : StorageTier) (key : type.Key), (type = .uuid → tier = .cold) →
      tier.cell type key = type.cell key := by
    intro tier key hcold
    cases tier
    · cases type
      case uuid => cases hcold rfl
      all_goals rfl
    · rfl
  rw [Returns, hcell _ _ fun h => (huuid h).1] at h
  rw [Returns, hcell _ _ fun h => (huuid h).2] at h'
  rw [bucket_of_key h hk, bucket_of_key h' hk', ← hempty, ← tryPkBucketKey_cell_inj, hk, hk']
  have hversion : ∀ v, k ≠ .version v := fun v hv => tryPkBucketKey_ne_version _ v (hv ▸ hk)
  have hversion' : ∀ v, k' ≠ .version v := fun v hv => tryPkBucketKey_ne_version _ v (hv ▸ hk')
  by_cases hk₁ : k = .text "" <;> by_cases hk₂ : k' = .text ""
  · simp [hk₁, hk₂]
  · simp [hk₁, hk₂, Ne.symm (hversion' _), Ne.symm hk₂]
  · simp [hk₁, hk₂, hversion]
  · simp [hk₁, hk₂]

/-! ### Versions of the empty text -/

/-- `CREATE TABLE names (id TEXT PRIMARY KEY)`. -/
def namesTable : TableDefinition where
  columns := (CreateTableStatement.mk [("id", .text)] (some "id")).allColumns
  nextColumnId := 4
  scalarIndexes := []
  names_nodup := by decide
  exists_primaryKey := by decide

def nameRow (version : VersionId) (id : String) : SharedTableRow :=
  ⟨version, false, ⟨[("id", .utf8 id)]⟩⟩

/-- A flushed version and a newer hot one. -/
theorem bucket_eq_of_flushedName :
    cold.bucket namesTable (nameRow ⟨1, by decide⟩ "ann") =
      hot.bucket namesTable (nameRow ⟨2, by decide⟩ "ann") :=
  (bucket_eq_iff namesTable .text .cold .hot "ann" "ann" (nameRow _ "ann") (nameRow _ "ann") rfl
    rfl nofun).mpr ⟨rfl, fun h => absurd h (by decide)⟩

/-- **Two versions under the empty text** are resolved as different rows. -/
theorem bucket_ne_of_emptyText :
    hot.Returns namesTable .text "" (nameRow ⟨1, by decide⟩ "") ∧
      hot.Returns namesTable .text "" (nameRow ⟨2, by decide⟩ "") ∧
      hot.bucket namesTable (nameRow ⟨1, by decide⟩ "") ≠
        hot.bucket namesTable (nameRow ⟨2, by decide⟩ "") :=
  ⟨rfl, rfl, by decide⟩

end StorageTier

end KalamDB
