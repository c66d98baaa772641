import Mathlib.Data.List.MinMax
import Mathlib.Data.Fin.Basic
import Mathlib.Order.Fin.Basic
import KalamDB.Lib.KeyedList
import KalamDB.Lib.PrefixCode
import KalamDB.Storage.IndexBytes

/-!
# The primary key index of the hot store

Every hot row has an entry in the primary key index: the **bytes of its key**, after the user in
a user table, and then its version. The entries are tuples in an order-preserving encoding, so
the entries of one key lie together and the last one belongs to the newest version. A lookup
builds the prefix of its key, takes the last entry that begins with it and loads that row.

Integers become sixteen bytes in numeric order and texts their own bytes. Everything else goes
through its **display text**, and the display text of a UUID cell shows the first ten of its
sixteen bytes. Two such keys can have one prefix, and then a lookup of the one finds the other.
-/

namespace KalamDB.PkIndex

open List Option

/-! ### Key columns -/

/-- The types a primary key column can have. -/
inductive PkType where
  | int8
  | int16
  | int32
  | int64
  | uint8
  | uint16
  | uint32
  | uint64
  | boolean
  | text
  | uuid
  deriving DecidableEq

/-- The keys of a column. -/
def PkType.Key : PkType → Type
  | .int8 => Int8
  | .int16 => Int16
  | .int32 => Int32
  | .int64 => Int64
  | .uint8 => UInt8
  | .uint16 => UInt16
  | .uint32 => UInt32
  | .uint64 => UInt64
  | .boolean => Bool
  | .text => String
  | .uuid => UuidBytes

/-- The cell of a key. -/
def PkType.cell : (type : PkType) → type.Key → ScalarValue
  | .int8, v => .int8 v
  | .int16, v => .int16 v
  | .int32, v => .int32 v
  | .int64, v => .int64 v
  | .uint8, v => .uint8 v
  | .uint16, v => .uint16 v
  | .uint32, v => .uint32 v
  | .uint64, v => .uint64 v
  | .boolean, v => .boolean v
  | .text, v => .utf8 v
  | .uuid, v => .fixedSizeBinary16 v

variable (type : PkType)

theorem PkType.cell_injective : Function.Injective type.cell := by
  intro a b h
  cases type <;> (injection h)

/-- Two UUIDs whose display texts are the same. -/
def PkType.DisplayedAlike : (type : PkType) → type.Key → type.Key → Prop
  | .uuid, a, b => a.val.take 10 = b.val.take 10
  | _, _, _ => False

/-! ### Which keys share their bytes -/

/-- **Keys of one column have the same bytes when they are equal or displayed alike.** -/
theorem scalarValueToBytes_eq_iff (a b : type.Key) :
    scalarValueToBytes (type.cell a) = scalarValueToBytes (type.cell b) ↔
      a = b ∨ type.DisplayedAlike a b := by
  cases type
  case uuid =>
    change UuidBytes at a b
    refine utf8Bytes_injective.eq_iff.trans ?_
    change binaryDisplay a.val = binaryDisplay b.val ↔ _
    rw [binaryDisplay_uuid, binaryDisplay_uuid]
    refine String.ofList_inj.trans ⟨fun h => ?_, ?_⟩
    · exact .inr (flatMap_upperHexByte_injective (append_cancel_right h))
    · rintro (rfl | h)
      · rfl
      · rw [(h : a.val.take 10 = b.val.take 10)]
  all_goals refine Iff.trans ?_ (or_iff_left id).symm
  case text => exact utf8Bytes_injective.eq_iff
  case boolean =>
    change Bool at a b
    have hdisplay : (ScalarValue.boolean a).display = (ScalarValue.boolean b).display ↔ a = b := by
      cases a <;> cases b <;> decide
    exact utf8Bytes_injective.eq_iff.trans hdisplay
  all_goals refine (scalarValueToBytes_integers rfl rfl).trans ?_
  case int8 => exact Int8.toInt_inj
  case int16 => exact Int16.toInt_inj
  case int32 => exact Int32.toInt_inj
  case int64 => exact Int64.toInt_inj
  all_goals refine Int.natCast_inj.trans ?_
  case uint8 => exact UInt8.toNat_inj
  case uint16 => exact UInt16.toNat_inj
  case uint32 => exact UInt32.toNat_inj
  case uint64 => exact UInt64.toNat_inj

/-! ### Entries -/

/-- The bytes of an index entry, in the order of the store. -/
abbrev KeyBytes : Type := List (Fin 256)

/-- The tuple encoding of the store: prefix-free components, versions in their order. -/
structure TupleCodec where
  text : String → KeyBytes
  bytes : List UInt8 → KeyBytes
  seq : VersionId → KeyBytes
  text_free : PrefixCode.Free text
  bytes_free : PrefixCode.Free bytes
  seq_lt : ∀ v w, seq v < seq w ↔ v < w

/-- The key of a row in the hot store; rows of user tables belong to a user. -/
structure RowId where
  userId : Option String
  version : VersionId
  deriving DecidableEq

namespace TupleCodec

variable (codec : TupleCodec) {seq : VersionId} {userId : Option String} {column : List UInt8}

def encodeUser : Option String → KeyBytes
  | none => []
  | some userId => codec.text userId

variable (userId)

def encodePrefixParts (column : List UInt8) : KeyBytes :=
  codec.encodeUser userId ++ codec.bytes column

def encodeKeyParts (column : List UInt8) (seq : VersionId) : KeyBytes :=
  codec.encodeUser userId ++ (codec.bytes column ++ codec.seq seq)

/-- The entry of a row without the key column is left out. -/
def extractKey (column : String) (id : RowId) (row : SharedTableRow) : Option KeyBytes :=
  (row.fields.get column).map fun cell =>
    codec.encodeKeyParts id.userId (scalarValueToBytes cell) id.version

def buildPrefixForPk (pkValue : ScalarValue) : KeyBytes :=
  codec.encodePrefixParts userId (scalarValueToBytes pkValue)

variable {userId}

/-- An entry begins with a prefix when the user and the bytes of the key are the same. -/
theorem encodePrefixParts_isPrefix_iff {userId' : Option String}
    (hscope : userId.isSome = userId'.isSome) {column' : List UInt8} :
    codec.encodePrefixParts userId column <+: codec.encodeKeyParts userId' column' seq ↔
      userId = userId' ∧ column = column' := by
  unfold encodePrefixParts encodeKeyParts
  cases userId with
  | none =>
    obtain rfl : userId' = none := by simpa using hscope.symm
    simp [codec.bytes_free.isPrefix_append_iff]
  | some user =>
    obtain ⟨user', rfl⟩ := isSome_iff_exists.mp hscope.symm
    simp only [encodeUser, codec.text_free.append_isPrefix_iff,
      codec.bytes_free.isPrefix_append_iff, some.injEq]

/-- Entries of one key are in the order of their versions. -/
theorem encodeKeyParts_lt_iff {seq' : VersionId} :
    codec.encodeKeyParts userId column seq < codec.encodeKeyParts userId column seq' ↔
      seq < seq' := by
  unfold encodeKeyParts
  rw [PrefixCode.append_lt_append_iff, PrefixCode.append_lt_append_iff, codec.seq_lt]

end TupleCodec

/-! ### Lookups -/

/-- The hot rows of a table with a primary key column. The keys of user tables have a user, those
of shared tables have none, and every row has a key of the column's type. -/
structure HotTable where
  column : String
  type : PkType
  userScoped : Bool
  rows : List (RowId × SharedTableRow)
  nodup : (rows.map Prod.fst).Nodup
  userId_isSome : ∀ x ∈ rows, x.1.userId.isSome = userScoped
  typed : ∀ x ∈ rows, ∃ key : type.Key, x.2.fields.get column = some (type.cell key)

namespace HotTable

variable (t : HotTable) (codec : TupleCodec) {x : RowId × SharedTableRow} {pkValue : ScalarValue}
  {userId : Option String}

def indexEntries : List (KeyBytes × RowId) :=
  t.rows.filterMap fun x => (codec.extractKey t.column x.1 x.2).map (·, x.1)

def get (id : RowId) : Option SharedTableRow := t.rows.lookup id

/-- The reverse scan is limited to one entry: the last one with the prefix. -/
def getLatestByIndexPrefix (start : KeyBytes) : Option (RowId × SharedTableRow) :=
  ((t.indexEntries codec).filter fun entry => decide (start <+: entry.1)).argmax Prod.fst
    |>.bind fun entry => (t.get entry.2).map (entry.2, ·)

/-- **The newest hot row of a primary key**, as every write and point read looks it up. -/
def latestHotPkEntry (userId : Option String) (pkValue : ScalarValue) :
    Option (RowId × SharedTableRow) :=
  t.getLatestByIndexPrefix codec (codec.buildPrefixForPk userId pkValue)

/-- The row's key is the one looked up. -/
def HasKey (userId : Option String) (key : t.type.Key) (x : RowId × SharedTableRow) : Prop :=
  x.1.userId = userId ∧ x.2.fields.get t.column = some (t.type.cell key)

/-- The newest one among the rows with a property, or nothing if there are none. -/
def IsNewest (p : RowId × SharedTableRow → Prop) : Option (RowId × SharedTableRow) → Prop
  | none => ∀ x ∈ t.rows, ¬ p x
  | some x => (x ∈ t.rows ∧ p x) ∧ ∀ y ∈ t.rows, p y → y.1.version ≤ x.1.version

theorem IsNewest.congr {t : HotTable} {p q : RowId × SharedTableRow → Prop}
    {r : Option (RowId × SharedTableRow)} (h : t.IsNewest p r)
    (hpq : ∀ x ∈ t.rows, (p x ↔ q x)) : t.IsNewest q r := by
  cases r with
  | none => exact fun x hx hq => h x hx ((hpq x hx).mpr hq)
  | some x =>
    obtain ⟨⟨hx, hp⟩, hle⟩ := h
    exact ⟨⟨hx, (hpq x hx).mp hp⟩, fun y hy hq => hle y hy ((hpq y hy).mpr hq)⟩

/-- The bytes of the row's key are those looked up. -/
def HasBytes (userId : Option String) (pkValue : ScalarValue) (x : RowId × SharedTableRow) :
    Prop :=
  x.1.userId = userId ∧ ∃ cell, x.2.fields.get t.column = some cell ∧
    scalarValueToBytes cell = scalarValueToBytes pkValue

theorem get_eq_some_iff : t.get x.1 = some x.2 ↔ x ∈ t.rows :=
  (KeyedList.mem_iff_lookup_eq_some t.nodup).symm

variable {t codec}

theorem mem_indexEntries {entry : KeyBytes × RowId} :
    entry ∈ t.indexEntries codec ↔
      ∃ x ∈ t.rows, x.1 = entry.2 ∧ codec.extractKey t.column x.1 x.2 = some entry.1 := by
  simp only [indexEntries, mem_filterMap, map_eq_some_iff]
  constructor
  · rintro ⟨x, hx, key, hkey, rfl⟩
    exact ⟨x, hx, rfl, hkey⟩
  · rintro ⟨x, hx, hid, hkey⟩
    exact ⟨x, hx, entry.1, hkey, by rw [hid]⟩

/-- An entry begins with the prefix of a lookup when its row's key has the same bytes. -/
theorem buildPrefixForPk_isPrefix_iff (hscope : userId.isSome = t.userScoped) (hx : x ∈ t.rows)
    {key : KeyBytes} (hkey : codec.extractKey t.column x.1 x.2 = some key) :
    codec.buildPrefixForPk userId pkValue <+: key ↔ t.HasBytes userId pkValue x := by
  obtain ⟨cell, hcell, rfl⟩ := map_eq_some_iff.mp hkey
  have hboth : userId.isSome = x.1.userId.isSome := hscope.trans (t.userId_isSome x hx).symm
  rw [TupleCodec.buildPrefixForPk, codec.encodePrefixParts_isPrefix_iff hboth]
  constructor
  · rintro ⟨huser, hbytes⟩
    exact ⟨huser.symm, cell, hcell, hbytes.symm⟩
  · rintro ⟨huser, cell', hcell', hbytes⟩
    obtain rfl : cell = cell' := some.inj (hcell.symm.trans hcell')
    exact ⟨huser.symm, hbytes.symm⟩

variable (codec)

theorem HasBytes.extractKey_eq (h : t.HasBytes userId pkValue x) :
    codec.extractKey t.column x.1 x.2 =
      some (codec.encodeKeyParts userId (scalarValueToBytes pkValue) x.1.version) := by
  obtain ⟨huser, cell, hcell, hbytes⟩ := h
  rw [TupleCodec.extractKey, hcell, map_some, huser, hbytes]

/-- **A lookup finds the newest row whose key has the same bytes.** -/
theorem isNewest_latestHotPkEntry (hscope : userId.isSome = t.userScoped) (pkValue : ScalarValue) :
    t.IsNewest (t.HasBytes userId pkValue) (t.latestHotPkEntry codec userId pkValue) := by
  -- the scan can return the entries of the rows with these bytes
  have hscan : ∀ x ∈ t.rows, t.HasBytes userId pkValue x →
      (codec.encodeKeyParts userId (scalarValueToBytes pkValue) x.1.version, x.1) ∈
        (t.indexEntries codec).filter fun entry =>
          decide (codec.buildPrefixForPk userId pkValue <+: entry.1) := by
    intro x hx hbytes
    have hkey := hbytes.extractKey_eq codec
    refine mem_filter.mpr ⟨mem_indexEntries.mpr ⟨x, hx, rfl, hkey⟩, ?_⟩
    exact decide_eq_true ((buildPrefixForPk_isPrefix_iff hscope hx hkey).mpr hbytes)
  unfold latestHotPkEntry getLatestByIndexPrefix
  cases hlast : ((t.indexEntries codec).filter fun entry =>
      decide (codec.buildPrefixForPk userId pkValue <+: entry.1)).argmax Prod.fst with
  | none =>
    intro x hx hbytes
    have hmem := hscan x hx hbytes
    rw [argmax_eq_none.mp hlast] at hmem
    exact not_mem_nil hmem
  | some entry =>
    have hentry := mem_filter.mp (argmax_mem hlast)
    obtain ⟨x, hx, hid, hkey⟩ := mem_indexEntries.mp hentry.1
    have hbytes := (buildPrefixForPk_isPrefix_iff hscope hx hkey).mp (of_decide_eq_true hentry.2)
    have hget : (t.get entry.2).map (entry.2, ·) = some x := by
      rw [← hid, (t.get_eq_some_iff).mpr hx]
      rfl
    rw [bind_some, hget]
    refine ⟨⟨hx, hbytes⟩, fun y hy hy' => ?_⟩
    -- both entries are of one user and of one key, so they compare by version
    have hnot := not_lt_of_mem_argmax (hscan y hy hy') (mem_def.mpr hlast)
    rw [← some.inj ((hbytes.extractKey_eq codec).symm.trans hkey)] at hnot
    exact not_lt.mp fun hlt => hnot (codec.encodeKeyParts_lt_iff.mpr hlt)

end HotTable

/-- The lookup of a key in a hot table. -/
structure PkLookup where
  codec : TupleCodec
  table : HotTable
  userId : Option String
  userId_isSome : userId.isSome = table.userScoped
  key : table.type.Key

namespace PkLookup

variable (l : PkLookup)

def result : Option (RowId × SharedTableRow) :=
  l.table.latestHotPkEntry l.codec l.userId (l.table.type.cell l.key)

/-- **The lookup finds exactly its key**: its prefix begins the entries of the rows with this key
and no others, and the result is the newest of these rows, or nothing. -/
def FindsItsKey : Prop :=
  (∀ x ∈ l.table.rows, ∀ key, l.codec.extractKey l.table.column x.1 x.2 = some key →
    (l.codec.buildPrefixForPk l.userId (l.table.type.cell l.key) <+: key ↔
      l.table.HasKey l.userId l.key x)) ∧
  l.table.IsNewest (l.table.HasKey l.userId l.key) l.result

/-- No other hot key of the user is displayed like the one looked up. -/
def DisplayedAlone : Prop :=
  ∀ x ∈ l.table.rows, ∀ key, l.table.HasKey l.userId key x →
    l.table.type.DisplayedAlike key l.key → key = l.key

theorem hasBytes_iff {x : RowId × SharedTableRow} (hx : x ∈ l.table.rows) :
    l.table.HasBytes l.userId (l.table.type.cell l.key) x ↔
      ∃ key, l.table.HasKey l.userId key x ∧
        (key = l.key ∨ l.table.type.DisplayedAlike key l.key) := by
  obtain ⟨key, hkey⟩ := l.table.typed x hx
  constructor
  · rintro ⟨huser, cell, hcell, hbytes⟩
    obtain rfl : l.table.type.cell key = cell := some.inj (hkey.symm.trans hcell)
    exact ⟨key, ⟨huser, hkey⟩, (scalarValueToBytes_eq_iff _ _ _).mp hbytes⟩
  · rintro ⟨key', ⟨huser, hkey'⟩, hsame⟩
    exact ⟨huser, _, hkey', (scalarValueToBytes_eq_iff _ _ _).mpr hsame⟩

/-- The rows that a lookup sees are those with its key exactly when it is displayed alone. -/
theorem hasBytes_iff_hasKey :
    (∀ x ∈ l.table.rows, (l.table.HasBytes l.userId (l.table.type.cell l.key) x ↔
      l.table.HasKey l.userId l.key x)) ↔ l.DisplayedAlone := by
  constructor
  · intro h x hx key hkey halike
    have hown := (h x hx).mp ((l.hasBytes_iff hx).mpr ⟨key, hkey, .inr halike⟩)
    exact l.table.type.cell_injective (some.inj (hkey.2.symm.trans hown.2))
  · intro h x hx
    rw [l.hasBytes_iff hx]
    constructor
    · rintro ⟨key, hkey, rfl | halike⟩
      · exact hkey
      · exact h x hx key hkey halike ▸ hkey
    · exact fun hown => ⟨l.key, hown, .inl rfl⟩

/-- **A lookup finds exactly its key when no other hot key is displayed like it.** Integers,
booleans and texts are never displayed alike. -/
theorem finds_its_key_iff : l.FindsItsKey ↔ l.DisplayedAlone := by
  rw [← l.hasBytes_iff_hasKey]
  constructor
  · rintro ⟨hentries, -⟩ x hx
    obtain ⟨key, hkey⟩ := l.table.typed x hx
    have hentry : l.codec.extractKey l.table.column x.1 x.2 = some (l.codec.encodeKeyParts
        x.1.userId (scalarValueToBytes (l.table.type.cell key)) x.1.version) := by
      rw [TupleCodec.extractKey, hkey]
      rfl
    rw [← hentries x hx _ hentry, HotTable.buildPrefixForPk_isPrefix_iff l.userId_isSome hx hentry]
  · intro h
    refine ⟨fun x hx key hkey => ?_, ?_⟩
    · rw [HotTable.buildPrefixForPk_isPrefix_iff l.userId_isSome hx hkey, h x hx]
    · exact (HotTable.isNewest_latestHotPkEntry l.codec l.userId_isSome _).congr h

end PkLookup

/-! ### Two UUIDs with one prefix -/

/-- Byte strings with a marker before each byte and a terminator at the end. -/
def terminated : List UInt8 → KeyBytes
  | [] => [0]
  | b :: bs => 1 :: ⟨b.toNat, b.toNat_lt⟩ :: terminated bs

theorem terminated_free : PrefixCode.Free terminated
  | [], [], _ => rfl
  | [], _ :: _, h | _ :: _, [], h => by simp [terminated] at h
  | a :: as, b :: bs, h => by
    simp only [terminated, cons_prefix_cons, true_and, Fin.mk.injEq] at h
    rw [UInt8.toNat_inj.mp h.1, terminated_free as bs h.2]

theorem replicate_lt_iff : ∀ m n : ℕ,
    (replicate m 1 ++ [0] : KeyBytes) < replicate n 1 ++ [0] ↔ m < n
  | 0, 0 => by simp
  | 0, n + 1 => iff_of_true (List.Lex.rel (by decide)) n.succ_pos
  | m + 1, 0 => iff_of_false (List.Lex.rel (by decide) : _ < _).not_gt m.succ_pos.not_gt
  | m + 1, n + 1 => by
    have ih := replicate_lt_iff m n
    simp [replicate_succ, ih]

/-- A tuple encoding as the store needs it. -/
def terminatedCodec : TupleCodec where
  text s := terminated (utf8Bytes s)
  bytes := terminated
  seq v := List.replicate v.val 1 ++ [0]
  text_free _ _ h := utf8Bytes_injective (terminated_free _ _ h)
  bytes_free := terminated_free
  seq_lt v w := replicate_lt_iff v.val w.val

/-- Sixteen bytes of which only the last one is not zero. -/
def uuidEndingIn (b : UInt8) : UuidBytes := ⟨List.replicate 15 0 ++ [b], by simp⟩

/-- A shared table with one hot row, whose key ends in zero. -/
def oneUuid : HotTable where
  column := "id"
  type := .uuid
  userScoped := false
  rows := [(⟨none, .ofNat 1⟩,
    ⟨.ofNat 1, false, ⟨[("id", .fixedSizeBinary16 (uuidEndingIn 0))]⟩⟩)]
  nodup := List.nodup_singleton _
  userId_isSome := by simp
  typed := by
    intro x hx
    rw [List.mem_singleton.mp hx]
    exact ⟨uuidEndingIn 0, rfl⟩

/-- Under every encoding, the lookup of a UUID finds the row of another one. -/
theorem uuid_lookup_finds_other :
    Nonempty TupleCodec ∧ ∃ key : oneUuid.type.Key, ∀ codec : TupleCodec, ∃ x,
      oneUuid.latestHotPkEntry codec none (oneUuid.type.cell key) = some x ∧
        ¬ oneUuid.HasKey none key x := by
  refine ⟨⟨terminatedCodec⟩, uuidEndingIn 1, fun codec => ?_⟩
  have hscope : (none : Option String).isSome = oneUuid.userScoped := rfl
  have hnewest := HotTable.isNewest_latestHotPkEntry codec hscope
    (.fixedSizeBinary16 (uuidEndingIn 1))
  cases hresult : oneUuid.latestHotPkEntry codec none (.fixedSizeBinary16 (uuidEndingIn 1)) with
  | none =>
    rw [hresult] at hnewest
    exact absurd ⟨rfl, _, rfl, by decide⟩ (hnewest _ (mem_singleton.mpr rfl))
  | some x =>
    rw [hresult] at hnewest
    refine ⟨x, hresult, fun hkey => ?_⟩
    rw [mem_singleton.mp hnewest.1.1] at hkey
    exact absurd hkey.2 (by decide)

end KalamDB.PkIndex
