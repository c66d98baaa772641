import KalamDB.Storage.Tiers

/-!
# Index bytes

Indexes of the hot store compare cells by their bytes. All integer types share **one encoding**,
sixteen bytes in numeric order, so that a filter's literal need not have the type of the column. A
text is its UTF-8 bytes. Everything else goes through its **display text**, and the display text of
a UUID cell shows the first ten of its sixteen bytes.

Different integers have different bytes, and so have different texts. No text has the bytes of an
integer.
-/

namespace KalamDB

open List UInt8

/-! ### The encoding -/

variable {v : ℤ} {value : ScalarValue} (s : String)

/-- The encoded form of one indexed value. -/
abbrev IndexBytes : Type := List UInt8

def ORDER_PRESERVING_INT_LEN : ℕ := 16

/-- The integer of a scalar that shares the one integer encoding. -/
def scalarIndexInteger : ScalarValue → Option ℤ
  | .int8 v => some v.toInt
  | .int16 v => some v.toInt
  | .int32 v => some v.toInt
  | .int64 v => some v.toInt
  | .uint8 v => some v.toNat
  | .uint16 v => some v.toNat
  | .uint32 v => some v.toNat
  | .uint64 v => some v.toNat
  | _ => none

/-- Sixteen big-endian bytes of a signed 128-bit integer with the sign bit flipped. -/
def orderPreservingI128Bytes (value : ℤ) : IndexBytes :=
  (List.range ORDER_PRESERVING_INT_LEN).map fun i =>
    UInt8.ofNat ((value + 2 ^ 127).toNat / 256 ^ (ORDER_PRESERVING_INT_LEN - 1 - i))

/-- The inverse, on sixteen bytes. -/
def decodeOrderPreservingI128 (bytes : IndexBytes) : Option ℤ :=
  if bytes.length = ORDER_PRESERVING_INT_LEN then
    some (bytes.foldl (fun n b => 256 * n + (b.toNat : ℤ)) 0 - 2 ^ 127)
  else none

def utf8Bytes (s : String) : IndexBytes := s.toList.flatMap String.utf8EncodeChar

/-- The display text of a value. Binary values show their first ten bytes. -/
def ScalarValue.display : ScalarValue → String
  | .null => "NULL"
  | .boolean v => if v then "true" else "false"
  | .int8 v => toString v
  | .int16 v => toString v
  | .int32 v => toString v
  | .int64 v => toString v
  | .uint8 v => toString v
  | .uint16 v => toString v
  | .uint32 v => toString v
  | .uint64 v => toString v
  | .utf8 s | .largeUtf8 s | .utf8View s => s
  | .binary bytes => binaryDisplay bytes
  | .fixedSizeBinary16 bytes => binaryDisplay bytes.val
  | .temporal _ text | .other text => text

/-- The bytes of a value in an index key: nothing for null, sixteen bytes for an integer,
UTF-8 for a text, the display text for everything else. -/
def scalarValueToBytes (value : ScalarValue) : IndexBytes :=
  if value = .null then []
  else
    match scalarIndexInteger value with
    | some integer => orderPreservingI128Bytes integer
    | none => utf8Bytes value.display

/-! ### Integers -/

/-- The most significant byte comes first. -/
theorem foldl_bigEndian (k n : ℕ) :
    ((List.range k).map fun i => ofNat (n / 256 ^ (k - 1 - i))).foldl
      (fun m b => 256 * m + (b.toNat : ℤ)) 0 = (n % 256 ^ k : ℕ) := by
  induction k generalizing n with
  | zero => simp
  | succ k ih =>
    -- all bytes but the last are those of `n / 256`
    have hinit : ((range k).map fun i => ofNat (n / 256 ^ (k + 1 - 1 - i))) =
        (range k).map fun i => ofNat (n / 256 / 256 ^ (k - 1 - i)) := by
      refine map_congr_left fun i hi => ?_
      rw [Nat.div_div_eq_div_mul, ← Nat.pow_succ',
        show k + 1 - 1 - i = (k - 1 - i).succ by have := mem_range.mp hi; omega]
    have hlast : (ofNat (n / 256 ^ (k + 1 - 1 - k))).toNat = n % 256 := by
      rw [toNat_ofNat', Nat.add_sub_cancel, Nat.sub_self, Nat.pow_zero, Nat.div_one]
    rw [range_succ, map_append, foldl_append, hinit, ih, map_singleton,
      foldl_cons, foldl_nil, Nat.pow_succ', Nat.mod_mul]
    omega

theorem scalarIndexInteger_bounds (h : scalarIndexInteger value = some v) :
    -2 ^ 63 ≤ v ∧ v < 2 ^ 64 := by
  cases value
  case int8 n | int16 n | int32 n | int64 n =>
    cases h
    have hle := n.le_toInt
    have hlt := n.toInt_lt
    omega
  case uint8 n | uint16 n | uint32 n | uint64 n =>
    cases h
    have hlt := n.toNat_lt
    omega
  all_goals cases h

theorem scalarValueToBytes_of_integer (h : scalarIndexInteger value = some v) :
    scalarValueToBytes value = orderPreservingI128Bytes v := by
  have hne : value ≠ .null := fun hnull => by rw [hnull] at h; cases h
  rw [scalarValueToBytes, if_neg hne, h]

/-- Integers have the same bytes when they are equal, whatever their types. -/
theorem scalarValueToBytes_integers {a b : ScalarValue} {w : ℤ}
    (ha : scalarIndexInteger a = some v) (hb : scalarIndexInteger b = some w) :
    scalarValueToBytes a = scalarValueToBytes b ↔ v = w := by
  have hdecode : ∀ {c : ScalarValue} {u : ℤ}, scalarIndexInteger c = some u →
      decodeOrderPreservingI128 (orderPreservingI128Bytes u) = some u := fun hc => by
    obtain ⟨hlow, hhigh⟩ := scalarIndexInteger_bounds hc
    rw [decodeOrderPreservingI128, if_pos (by simp [orderPreservingI128Bytes]),
      orderPreservingI128Bytes, foldl_bigEndian, ORDER_PRESERVING_INT_LEN]
    congr 1
    omega
  rw [scalarValueToBytes_of_integer ha, scalarValueToBytes_of_integer hb]
  refine ⟨fun h => Option.some.inj ?_, congrArg _⟩
  rw [← hdecode ha, h, hdecode hb]

/-- An integer starts with a byte that continues a character, or with 127 and 255. -/
theorem orderPreservingI128Bytes_eq_cons (hlow : -2 ^ 63 ≤ v) (hhigh : v < 2 ^ 64) :
    ∃ rest, orderPreservingI128Bytes v = 128 :: rest ∨
      orderPreservingI128Bytes v = 127 :: 255 :: rest := by
  have hcons : ∃ rest, orderPreservingI128Bytes v = ofNat ((v + 2 ^ 127).toNat / 256 ^ 15) ::
        ofNat ((v + 2 ^ 127).toNat / 256 ^ 14) :: rest := ⟨_, rfl⟩
  obtain ⟨rest, hcons⟩ := hcons
  by_cases hv : 0 ≤ v
  · have hfirst : (v + 2 ^ 127).toNat / 256 ^ 15 = 128 := by omega
    rw [hfirst] at hcons
    exact ⟨_, .inl hcons⟩
  have hfirst : (v + 2 ^ 127).toNat / 256 ^ 15 = 127 := by omega
  have hsecond : (v + 2 ^ 127).toNat / 256 ^ 14 = 127 * 256 + 255 := by omega
  rw [hfirst, hsecond] at hcons
  exact ⟨_, .inr hcons⟩

/-! ### Texts -/

theorem utf8Bytes_eq : utf8Bytes s = s.toByteArray.data.toList := by
  rw [utf8Bytes, ← String.utf8Encode_toList, utf8Encode, data_toByteArray]

theorem utf8Bytes_injective : Function.Injective utf8Bytes := by
  intro s t h
  rw [utf8Bytes_eq, utf8Bytes_eq] at h
  simpa [← String.toByteArray_inj, ByteArray.ext_iff] using h

/-- A byte that a character can begin with. -/
def IsLeading (b : UInt8) : Prop := b.toNat < 128 ∨ 192 ≤ b.toNat ∧ b.toNat < 248

theorem isLeading_ofNat {n : ℕ} (hlow : 192 ≤ n) (hhigh : n < 248) :
    IsLeading (ofNat n) ∧ ¬(ofNat n).toNat < 128 := by
  have hn : (ofNat n).toNat = n := by
    rw [toNat_ofNat']
    omega
  rw [IsLeading]
  omega

/-- A character is one byte below 128, or begins with a byte from 192 on. -/
theorem utf8EncodeChar_eq_cons (c : Char) :
    ∃ b rest, String.utf8EncodeChar c = b :: rest ∧ IsLeading b ∧ (b.toNat < 128 → rest = []) := by
  simp only [String.utf8EncodeChar]
  generalize c.val.toNat = v
  split
  · refine ⟨_, _, rfl, .inl ?_, fun _ => rfl⟩
    rw [toNat_ofNat']
    omega
  split
  · obtain ⟨hlead, hlarge⟩ := isLeading_ofNat (n := v / 64 % 32 + 192) (by omega) (by omega)
    exact ⟨_, _, rfl, hlead, fun h => absurd h hlarge⟩
  split
  · obtain ⟨hlead, hlarge⟩ := isLeading_ofNat (n := v / 4096 % 16 + 224) (by omega) (by omega)
    exact ⟨_, _, rfl, hlead, fun h => absurd h hlarge⟩
  · obtain ⟨hlead, hlarge⟩ := isLeading_ofNat (n := v / 262144 % 8 + 240) (by omega) (by omega)
    exact ⟨_, _, rfl, hlead, fun h => absurd h hlarge⟩

/-- Characters begin with a leading byte, and so do those that follow a byte below 128. -/
theorem isLeading_of_flatMap {cs : List Char} {b : UInt8} {rest : List UInt8}
    (h : cs.flatMap String.utf8EncodeChar = b :: rest) :
    IsLeading b ∧
      (b.toNat < 128 → ∃ cs' : List Char, cs'.flatMap String.utf8EncodeChar = rest) := by
  cases cs with
  | nil => cases h
  | cons c cs =>
    obtain ⟨lead, follow, hchar, hlead, hsingle⟩ := utf8EncodeChar_eq_cons c
    rw [flatMap_cons, hchar] at h
    cases h
    refine ⟨hlead, fun hlt => ⟨cs, ?_⟩⟩
    rw [hsingle hlt]
    rfl

/-- **No text has the bytes of an integer.** -/
theorem utf8Bytes_ne_orderPreservingI128Bytes (hlow : -2 ^ 63 ≤ v)
    (hhigh : v < 2 ^ 64) : utf8Bytes s ≠ orderPreservingI128Bytes v := by
  intro h
  obtain ⟨rest, hcons | hcons⟩ := orderPreservingI128Bytes_eq_cons hlow hhigh
  · -- 128 only continues a character
    obtain ⟨hlead, -⟩ := isLeading_of_flatMap (h.trans hcons)
    exact absurd hlead (by unfold IsLeading; decide)
  -- 127 is a character of its own, and no character begins with 255
  obtain ⟨-, hfollow⟩ := isLeading_of_flatMap (h.trans hcons)
  obtain ⟨cs, hcs⟩ := hfollow (by decide)
  exact absurd (isLeading_of_flatMap hcs).1 (by unfold IsLeading; decide)

/-! ### Display texts of UUIDs -/

theorem upperHexDigit_injective : ∀ m n : Fin 16,
    (hexDigit m).toUpper = (hexDigit n).toUpper → m = n := by
  decide

theorem upperHexByte_injective : Function.Injective upperHexByte := by
  intro a b h
  simp only [upperHexByte, hexByte, map_cons, cons.injEq, and_true] at h
  have ha := a.toNat_lt
  have hb := b.toNat_lt
  have hhigh := upperHexDigit_injective ⟨a.toNat / 16, by omega⟩ ⟨b.toNat / 16, by omega⟩ h.1
  have hlow := upperHexDigit_injective ⟨a.toNat % 16, by omega⟩ ⟨b.toNat % 16, by omega⟩ h.2
  simp only [Fin.mk.injEq] at hhigh hlow
  exact UInt8.toNat_inj.mp (by omega)

theorem flatMap_upperHexByte_injective :
    ∀ {as bs : List UInt8}, as.flatMap upperHexByte = bs.flatMap upperHexByte → as = bs
  | [], [], _ => rfl
  | [], _ :: _, h | _ :: _, [], h => by cases h
  | a :: as, b :: bs, h => by
    obtain ⟨hbyte, hrest⟩ := append_inj h (by simp [upperHexByte, hexByte])
    rw [upperHexByte_injective hbyte, flatMap_upperHexByte_injective hrest]

end KalamDB
