import KalamDB.SharedTable.Provider

/-!
# Keys as text

Between its steps an `UPDATE` carries keys as **text**, and reads them back in two ways.
`parseStringAsScalar` knows the type of the key column and reads the text of a key as that key
again. `parsePkValue` does not: it takes any text that looks like a signed 64-bit integer for one. A
text key `"42"`, or an unsigned key beyond the signed range, is read back as another value, whose
index bytes no key of the column has.

A UUID is turned into text by its display, which shows ten of its bytes. That text is not read
back at all.
-/

namespace KalamDB.SharedTable

open PkIndex List Int64 ScalarValue

variable {type : PkType}

/-! ### Reading keys -/

variable {n bound : ℕ} {v : ℤ} {key other : type.Key} {value : ScalarValue} {α : Type}

/-- Decimal text to a signed integer whose absolute value the type bounds. -/
def parseSigned (bound : ℕ) (s : String) : Option ℤ :=
  match s.toList with
  | '-' :: cs => (parseDigits cs).bind fun n => if n ≤ bound then some (-(n : ℤ)) else none
  | '+' :: cs => (parseDigits cs).bind fun n => if n < bound then some (n : ℤ) else none
  | cs => (parseDigits cs).bind fun n => if n < bound then some (n : ℤ) else none

def parseUnsigned (bound : ℕ) (s : String) : Option ℕ :=
  match s.toList with
  | '+' :: cs => (parseDigits cs).filter (· < bound)
  | cs => (parseDigits cs).filter (· < bound)

def hexNibble (c : Char) : ℕ :=
  if '0' ≤ c ∧ c ≤ '9' then c.toNat - '0'.toNat
  else if 'a' ≤ c ∧ c ≤ 'f' then c.toNat - 'a'.toNat + 10
  else if 'A' ≤ c ∧ c ≤ 'F' then c.toNat - 'A'.toNat + 10
  else 0

def isAsciiHexdigit (c : Char) : Bool :=
  decide ('0' ≤ c ∧ c ≤ '9' ∨ 'a' ≤ c ∧ c ≤ 'f' ∨ 'A' ≤ c ∧ c ≤ 'F')

/-- Thirty-two hexadecimal digits, hyphens aside. -/
def parseUuidBytes (value : String) : Option UuidBytes :=
  let hex := value.toList.filter (· ≠ '-')
  if hex.length ≠ 32 ∨ !hex.all isAsciiHexdigit then none
  else some ⟨List.ofFn fun i : Fin 16 =>
    UInt8.ofNat (16 * hexNibble (hex.getD (2 * i) '0') + hexNibble (hex.getD (2 * i + 1) '0')),
    List.length_ofFn⟩

/-- The key that a text names in a column of the type. -/
def parseStringAsScalar : (type : PkType) → String → Option type.Key
  | .int8, s => (parseSigned (2 ^ 7) s).map Int8.ofInt
  | .int16, s => (parseSigned (2 ^ 15) s).map Int16.ofInt
  | .int32, s => (parseSigned (2 ^ 31) s).map Int32.ofInt
  | .int64, s => (parseSigned (2 ^ 63) s).map Int64.ofInt
  | .uint8, s => (parseUnsigned (2 ^ 8) s).map UInt8.ofNat
  | .uint16, s => (parseUnsigned (2 ^ 16) s).map UInt16.ofNat
  | .uint32, s => (parseUnsigned (2 ^ 32) s).map UInt32.ofNat
  | .uint64, s => (parseUnsigned (2 ^ 64) s).map UInt64.ofNat
  | .boolean, s => if s = "true" then some true else if s = "false" then some false else none
  | .text, s => some s
  | .uuid, s => parseUuidBytes s

/-- The key that a text is taken for without the type of the column. -/
def parsePkValue (idValue : String) : ScalarValue :=
  match parseI64 idValue with
  | some n => .int64 (Int64.ofInt n)
  | none => .utf8 idValue

/-! ### Integers and their text -/

theorem parseDigits_toDigits (n : ℕ) : parseDigits (Nat.toDigits 10 n) = some n := by
  have hdigits : (Nat.toDigits 10 n).all Char.isDigit = true :=
    all_eq_true.mpr fun c hc => Nat.isDigit_of_mem_toDigits (by decide) (by decide) hc
  rw [parseDigits, if_pos ⟨Nat.toDigits_ne_nil, hdigits⟩]
  exact congrArg some Nat.ofDigitChars_ten_toDigits

/-- The text of a natural number begins with a digit. -/
theorem toDigits_eq_cons (n : ℕ) : ∃ c cs, Nat.toDigits 10 n = c :: cs ∧ c.isDigit = true := by
  obtain ⟨c, cs, h⟩ := exists_cons_of_ne_nil (Nat.toDigits_ne_nil)
  exact ⟨c, cs, h, Nat.isDigit_of_mem_toDigits (by decide) (by decide)
    (h ▸ mem_cons_self)⟩

theorem parseUnsigned_toString (h : n < bound) : parseUnsigned bound (toString n) = some n := by
  obtain ⟨c, cs, hcons, hdigit⟩ := toDigits_eq_cons n
  have hparse := parseDigits_toDigits n
  have hlist : (toString n).toList = c :: cs := by
    rw [Nat.toString_eq_repr, Nat.toList_repr, hcons]
  rw [hcons] at hparse
  unfold parseUnsigned
  rw [hlist]
  split
  · next heq =>
    cases heq
    exact absurd hdigit (by decide)
  · rw [hparse]
    simp [h]

theorem parseSigned_toString (bound : ℕ) (v : ℤ) :
    parseSigned bound (toString v) = if -(bound : ℤ) ≤ v ∧ v < bound then some v else none := by
  cases v with
  | ofNat n =>
    obtain ⟨c, cs, hcons, hdigit⟩ := toDigits_eq_cons n
    have hparse := parseDigits_toDigits n
    have hlist : (toString (Int.ofNat n)).toList = c :: cs := by
      rw [Int.toString_eq_repr, Int.repr_eq_if]
      simp [hcons]
    rw [hcons] at hparse
    unfold parseSigned
    rw [hlist]
    split
    · next heq =>
      cases heq
      exact absurd hdigit (by decide)
    · next heq =>
      cases heq
      exact absurd hdigit (by decide)
    · rw [hparse]
      simp
  | negSucc n =>
    have hlist : (toString (Int.negSucc n)).toList = '-' :: Nat.toDigits 10 (n + 1) := by
      rw [Int.toString_eq_repr, Int.repr_eq_if]
      simp
    have hbound : n + 1 ≤ bound ↔ -(bound : ℤ) ≤ Int.negSucc n ∧ Int.negSucc n < bound := by
      omega
    unfold parseSigned
    rw [hlist]
    simp only [parseDigits_toDigits, Option.bind_some, hbound]
    rfl

/-! ### Keys and their text -/

/-- The text of an integer key is the text of the integer. -/
theorem pkText_of_integer (h : scalarIndexInteger (type.cell key) = some v) :
    pkText key = toString v := by
  cases type <;> cases h
  case int8 => exact congrArg toString (Int8.toInt_toInt64 key)
  case int16 => exact congrArg toString (Int16.toInt_toInt64 key)
  case int32 => exact congrArg toString (Int32.toInt_toInt64 key)
  case uint8 => exact congrArg toString (UInt8.toNat_toUInt64 key)
  case uint16 => exact congrArg toString (UInt16.toNat_toUInt64 key)
  case uint32 => exact congrArg toString (UInt32.toNat_toUInt64 key)
  case int64 | uint64 => rfl

/-- A key whose text `parsePkValue` takes for the key itself: a signed 64-bit integer, or something
whose text does not look like one. -/
def ReadsBack (key : type.Key) : Prop :=
  match scalarIndexInteger (type.cell key) with
  | some v => v < 2 ^ 63
  | none => parseI64 (pkText key) = none

theorem bytes_parsePkValue_of_integer {w : ℤ} (hkey : scalarIndexInteger (type.cell key) = some v)
    (hother : scalarIndexInteger (type.cell other) = some w) :
    scalarValueToBytes (parsePkValue (pkText key)) = scalarValueToBytes (type.cell other) ↔
      ReadsBack key ∧
        scalarValueToBytes (type.cell key) = scalarValueToBytes (type.cell other) := by
  obtain ⟨hlow, hhigh⟩ := scalarIndexInteger_bounds hkey
  have hparse : parseI64 = parseSigned (2 ^ 63) := rfl
  rw [ReadsBack, hkey, pkText_of_integer hkey, parsePkValue, hparse, parseSigned_toString]
  by_cases hv : v < 2 ^ 63
  · have hint : scalarIndexInteger (.int64 (ofInt v)) = some v :=
      congrArg some (toInt_ofInt_of_le hlow hv)
    rw [if_pos ⟨hlow, hv⟩]
    rw [scalarValueToBytes_integers hkey hother]
    exact (scalarValueToBytes_integers hint hother).trans (and_iff_right hv).symm
  · rw [if_neg fun h => hv (h.2)]
    refine iff_of_false (fun h => ?_) (fun h => hv h.1)
    rw [scalarValueToBytes_of_integer hother] at h
    obtain ⟨hlow', hhigh'⟩ := scalarIndexInteger_bounds hother
    exact utf8Bytes_ne_orderPreservingI128Bytes _ hlow' hhigh' h

theorem bytes_parsePkValue_of_text (hint : scalarIndexInteger (type.cell key) = none)
    (hkey : scalarValueToBytes (type.cell key) = utf8Bytes (pkText key))
    (hother : scalarValueToBytes (type.cell other) = utf8Bytes (pkText other)) :
    scalarValueToBytes (parsePkValue (pkText key)) = scalarValueToBytes (type.cell other) ↔
      ReadsBack key ∧
        scalarValueToBytes (type.cell key) = scalarValueToBytes (type.cell other) := by
  rw [ReadsBack, hint, parsePkValue, hkey]
  cases parseI64 (pkText key) with
  | none => exact (and_iff_right rfl).symm
  | some n =>
    have hinteger : scalarIndexInteger (.int64 (ofInt n)) = some _ := rfl
    obtain ⟨hlow, hhigh⟩ := scalarIndexInteger_bounds hinteger
    refine iff_of_false (fun h => ?_) (fun h => nomatch h.1)
    rw [hother] at h
    exact utf8Bytes_ne_orderPreservingI128Bytes _ hlow hhigh h.symm

/-- **The text of a key leads to that key if it reads back, and to no key otherwise.** -/
theorem bytes_parsePkValue (htype : type ≠ .uuid) (key other : type.Key) :
    scalarValueToBytes (parsePkValue (pkText key)) = scalarValueToBytes (type.cell other) ↔
      ReadsBack key ∧
        scalarValueToBytes (type.cell key) = scalarValueToBytes (type.cell other) := by
  cases type
  case int8 | int16 | int32 | int64 | uint8 | uint16 | uint32 | uint64 =>
    exact bytes_parsePkValue_of_integer rfl rfl
  case boolean | text => exact bytes_parsePkValue_of_text rfl rfl rfl
  case uuid => exact absurd rfl htype

/-! ### Reading a key as its type -/

theorem display_of_integer (h : scalarIndexInteger value = some v) :
    value.display = toString v := by
  cases value
  case int8 | int16 | int32 | int64 | uint8 | uint16 | uint32 | uint64 =>
    cases h
    rfl
  all_goals cases h

theorem map_parseSigned (hvalue : scalarIndexInteger value = some v) (hlow : -(bound : ℤ) ≤ v)
    (hhigh : v < bound) (f : ℤ → α) : (parseSigned bound value.display).map f = some (f v) := by
  rw [display_of_integer hvalue, parseSigned_toString, if_pos ⟨hlow, hhigh⟩, Option.map_some]

theorem map_parseUnsigned (hvalue : scalarIndexInteger value = some (n : ℤ)) (h : n < bound)
    (f : ℕ → α) : (parseUnsigned bound value.display).map f = some (f n) := by
  have hnat : toString (n : ℤ) = toString n := rfl
  rw [display_of_integer hvalue, hnat, parseUnsigned_toString h, Option.map_some]

/-- **The display text of a key is read as that key**, when the column has no UUIDs. -/
theorem parseStringAsScalar_display (htype : type ≠ .uuid) (key : type.Key) :
    parseStringAsScalar type (type.cell key).display = some key := by
  cases type
  case int8 =>
    exact (map_parseSigned rfl (Int8.le_toInt key) (Int8.toInt_lt key) _).trans
      (congrArg some (Int8.ofInt_toInt key))
  case int16 =>
    exact (map_parseSigned rfl (Int16.le_toInt key) (Int16.toInt_lt key) _).trans
      (congrArg some (Int16.ofInt_toInt key))
  case int32 =>
    exact (map_parseSigned rfl (Int32.le_toInt key) (Int32.toInt_lt key) _).trans
      (congrArg some (Int32.ofInt_toInt key))
  case int64 =>
    exact (map_parseSigned rfl (le_toInt key) (toInt_lt key) _).trans
      (congrArg some (ofInt_toInt key))
  case uint8 =>
    exact (map_parseUnsigned rfl (UInt8.toNat_lt key) _).trans (congrArg some UInt8.ofNat_toNat)
  case uint16 =>
    exact (map_parseUnsigned rfl (UInt16.toNat_lt key) _).trans (congrArg some UInt16.ofNat_toNat)
  case uint32 =>
    exact (map_parseUnsigned rfl (UInt32.toNat_lt key) _).trans (congrArg some UInt32.ofNat_toNat)
  case uint64 =>
    exact (map_parseUnsigned rfl (UInt64.toNat_lt key) _).trans (congrArg some UInt64.ofNat_toNat)
  case boolean =>
    cases key <;> decide
  case text => rfl
  case uuid => exact absurd rfl htype

/-- The display of a UUID is too short to be read as one: ten of its bytes and three dots. -/
theorem parseStringAsScalar_display_uuid (key : PkType.Key .uuid) :
    parseStringAsScalar .uuid (PkType.cell .uuid key).display = none := by
  change UuidBytes at key
  let text := (fixedSizeBinary16 key).display
  have hlength : (text.toList.filter (· ≠ '-')).length ≠ 32 := by
    have hle := length_filter_le (· ≠ '-') text.toList
    have hchars : text.toList.length = 23 := by
      change (fixedSizeBinary16 key).display.toList.length = 23
      rw [display, binaryDisplay_uuid, String.toList_ofList]
      simp [upperHexByte, hexByte, key.property]
    omega
  exact if_pos (.inl hlength)

end KalamDB.SharedTable
