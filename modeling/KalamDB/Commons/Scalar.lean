import Mathlib.Algebra.Group.Nat.Defs
import Mathlib.Data.List.Basic
import KalamDB.Lib.KeyedList

/-!
# Scalar values, rows and primary-key buckets

The value layer shared by every table provider: row versions, typed scalar values, rows,
and the **bucket keys** under which versions of one primary key are brought together.

Two conversions from a cell to a bucket key exist side by side and are kept apart here.
`tryPkBucketKey` is the *required-key* conversion used by DML identity: a null or an
unsupported type is an error, and the empty text is a key like any other.
`pkBucketKeyFromScalar` is the *merge* conversion used by winner maps: it never fails, and
a null or **empty text falls back to a bucket of its own version**, so that rows without a
key never collapse into each other.

Typed nulls of the source are one constructor `null`. Dates and timestamps are `temporal`,
the stored number with its display text. Scalar types whose cells a winner map only ever
sees through their display text (floats, decimals and nested values) are the constructor `other`,
which carries that text.
-/

namespace KalamDB

open List KeyedList

/-! ### Row versions -/

/-- A row version: a non-zero 63-bit value, so that it fits a signed `BIGINT`. -/
abbrev VersionId : Type := { n : ℕ // 0 < n ∧ n < 2 ^ 63 }

-- named instances, for definitions without proofs inside
instance lawfulBEqVersionId : LawfulBEq VersionId := inferInstance
instance maxEqOrNat : Std.MaxEqOr ℕ := inferInstance
instance minEqOrNat : Std.MinEqOr ℕ := inferInstance

/-- The version nearest to a number. -/
def VersionId.ofNat (n : ℕ) : VersionId := ⟨max 1 (min n (2 ^ 63 - 1)), by omega⟩

/-! ### Scalar values and rows -/

/-- The sixteen bytes of a `FixedSizeBinary(16)` cell. -/
abbrev UuidBytes : Type := { bytes : List UInt8 // bytes.length = 16 }

/-- A cell of a row. -/
inductive ScalarValue where
  | null
  | boolean (v : Bool)
  | int8 (v : Int8)
  | int16 (v : Int16)
  | int32 (v : Int32)
  | int64 (v : Int64)
  | uint8 (v : UInt8)
  | uint16 (v : UInt16)
  | uint32 (v : UInt32)
  | uint64 (v : UInt64)
  | utf8 (v : String)
  | largeUtf8 (v : String)
  | utf8View (v : String)
  | binary (v : List UInt8)
  | fixedSizeBinary16 (v : UuidBytes)
  | temporal (raw : Int64) (display : String)
  | other (display : String)
  deriving DecidableEq

variable {value : ScalarValue}

/-- A row as a finite map from column names to cells. -/
structure Row where
  values : List (String × ScalarValue)
  deriving DecidableEq

variable (row : Row) (name : String)

/-- The cell of a column, if the row stores one. -/
def Row.get : Option ScalarValue := row.values.lookup name

namespace Row

/-- The cells with one of them set. -/
def insertCell (name : String) (value : ScalarValue) :
    List (String × ScalarValue) → List (String × ScalarValue)
  | [] => [(name, value)]
  | cell :: rest =>
    if cell.1 = name then (name, value) :: rest else cell :: insertCell name value rest

def insert (value : ScalarValue) : Row :=
  ⟨insertCell name value row.values⟩

def remove : Row :=
  ⟨row.values.filter fun cell => decide (cell.1 ≠ name)⟩

/-- The cells of another row laid over this one. -/
def mergeFrom (base overlay : Row) : Row :=
  overlay.values.foldr (fun cell row => row.insert cell.1 cell.2) base

@[simp]
theorem get_insert (name name' : String) (value : ScalarValue) :
    (row.insert name value).get name' = if name' = name then some value else row.get name' := by
  obtain ⟨cells⟩ := row
  simp only [get, insert]
  induction cells with
  | nil => rw [insertCell, lookup_cons_eq]
  | cons cell rest ih =>
    rw [insertCell]
    by_cases hcell : cell.1 = name
    · rw [if_pos hcell, lookup_cons_eq, lookup_cons_eq, hcell]
      split <;> rfl
    · rw [if_neg hcell, lookup_cons_eq, lookup_cons_eq, ih]
      by_cases h : name' = cell.1
      · simp [h, hcell]
      · rw [if_neg h, if_neg h]

@[simp]
theorem get_remove (name name' : String) :
    (row.remove name).get name' = if name' = name then none else row.get name' :=
  lookup_filter_ne row.values name name'

@[simp]
theorem get_mergeFrom (base overlay : Row) :
    (base.mergeFrom overlay).get name = (overlay.get name).or (base.get name) := by
  obtain ⟨cells⟩ := overlay
  simp only [get]
  induction cells with
  | nil => rfl
  | cons cell rest ih =>
    rw [lookup_cons_eq]
    change (insert _ _ _).get name = _
    rw [get_insert]
    split
    · rfl
    · exact ih

end Row

/-! ### Bucket keys -/

/-- The hash-map key of winner selection. -/
inductive PkBucketKey where
  | int (v : Int64)
  | uint (v : UInt64)
  | text (v : String)
  | version (v : VersionId)
  deriving DecidableEq

/-- The display form of a bucket key, which segment statistics are compared with. -/
def PkBucketKey.toDisplay : PkBucketKey → String
  | .int v => toString v
  | .uint v => toString v
  | .text v => v
  | .version v => "_version:" ++ toString v.val

/-- One lower-case hexadecimal digit. -/
def hexDigit (n : ℕ) : Char := Nat.digitChar n

/-- One byte as two lower-case hexadecimal digits. -/
def hexByte (b : UInt8) : List Char := [hexDigit (b.toNat / 16), hexDigit (b.toNat % 16)]

/-- The hyphenated text of a UUID cell. -/
def uuidPkText (bytes : UuidBytes) : String :=
  let hex (i j : ℕ) : List Char := ((bytes.val.drop i).take (j - i)).flatMap hexByte
  String.ofList (hex 0 4 ++ ['-'] ++ hex 4 6 ++ ['-'] ++ hex 6 8 ++ ['-'] ++ hex 8 10 ++
    ['-'] ++ hex 10 16)

/-- **Required-key conversion**, used by DML identity. Null and unsupported types fail;
the empty text stays an empty text key. -/
def tryPkBucketKey : ScalarValue → Option PkBucketKey
  | .int8 v => some (.int v.toInt64)
  | .int16 v => some (.int v.toInt64)
  | .int32 v => some (.int v.toInt64)
  | .int64 v => some (.int v)
  | .uint8 v => some (.uint v.toUInt64)
  | .uint16 v => some (.uint v.toUInt64)
  | .uint32 v => some (.uint v.toUInt64)
  | .uint64 v => some (.uint v)
  | .boolean v => some (.text (if v then "true" else "false"))
  | .utf8 s | .largeUtf8 s | .utf8View s => some (.text s)
  | .fixedSizeBinary16 bytes => some (.text (uuidPkText bytes))
  | .null | .binary _ | .temporal _ _ | .other _ => none

/-- One byte as two upper-case hexadecimal digits. -/
def upperHexByte (b : UInt8) : List Char := (hexByte b).map Char.toUpper

/-- The display text of a binary value, which shows the first ten bytes. -/
def binaryDisplay (bytes : List UInt8) : String :=
  String.ofList ((bytes.take 10).flatMap upperHexByte ++
    if 10 < bytes.length then ['.', '.', '.'] else [])

theorem binaryDisplay_uuid (bytes : UuidBytes) : binaryDisplay bytes.val =
    String.ofList ((bytes.val.take 10).flatMap upperHexByte ++ ['.', '.', '.']) := by
  rw [binaryDisplay, if_pos (by rw [bytes.property]; decide)]

/-- **Merge conversion**, used by winner maps. Null or empty text falls back to the row's
own version; unsupported non-null values bucket by their display text. -/
def pkBucketKeyFromScalar (value : ScalarValue) (version : VersionId) : PkBucketKey :=
  match tryPkBucketKey value with
  | some (.text s) => if s = "" then .version version else .text s
  | some key => key
  | none =>
    match value with
    | .binary bytes => .text (binaryDisplay bytes)
    | .temporal _ display | .other display => .text display
    | _ => .version version

/-- A cell as the row codec gives it back. A UUID is stored as `Binary`, and only a reader of the
column makes a UUID of it again. -/
def ScalarValue.decoded : ScalarValue → ScalarValue
  | .fixedSizeBinary16 bytes => .binary bytes.val
  | value => value

/-- The cells of a hot row before a reader converts them. -/
def Row.decoded : Row := ⟨row.values.map fun cell => (cell.1, cell.2.decoded)⟩

variable {row} in
theorem Row.get_decoded {name : String} :
    row.decoded.get name = (row.get name).map ScalarValue.decoded := by
  obtain ⟨values⟩ := row
  induction values with
  | nil => rfl
  | cons cell rest ih =>
    obtain ⟨column, value⟩ := cell
    simp only [Row.decoded, Row.get, List.map_cons, List.lookup_cons] at ih ⊢
    cases name == column with
    | true => rfl
    | false => exact ih

/-- The merge bucket of a row under the column `pkName`; a row without that column buckets
by its own version. -/
def pkBucketKeyFromRow (pkName : String) (version : VersionId) : PkBucketKey :=
  match row.get pkName with
  | some value => pkBucketKeyFromScalar value version
  | none => .version version

/-- Away from the empty text the two conversions agree. -/
theorem pkBucketKeyFromScalar_of_tryPkBucketKey {key : PkBucketKey}
    (h : tryPkBucketKey value = some key) (hne : key ≠ .text "") (version : VersionId) :
    pkBucketKeyFromScalar value version = key := by
  unfold pkBucketKeyFromScalar
  rw [h]
  cases key with
  | text s =>
    have hs : s ≠ "" := fun hs => hne (by rw [hs])
    simp [hs]
  | int | uint | version => rfl

end KalamDB
