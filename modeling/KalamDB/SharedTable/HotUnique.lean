import KalamDB.Lib.Fallible
import KalamDB.Lib.Runs
import KalamDB.SharedTable.Provider

/-!
# One hot row per primary key

A key should have at most one hot row, live or deleted: the lookup before a write finds that row,
and the write replaces it. `KeysUnique` is kept by a replacement when the **predecessor is every hot
row of the new key** (`KeysUnique.replace`), and by a batch of them when its keys differ
(`KeysUnique.replaceBatch`). What remains is which paths find that predecessor.

Several do not. A prevalidated insert leaves the tombstone of an earlier delete where it is. A batch
that names a key twice replaces one predecessor by two rows. An update that sets the key does not
look for hot rows of the new key, and inserts into auto-increment tables look for none at all. In
UUID columns a lookup may find the row of another key. `Untroubled` leaves these steps out, and
every run of the other ones keeps the hot keys unique.
-/

namespace KalamDB.SharedTable

open Fallible PkIndex Runs List TableRow Provider KeyedList Except

variable {type : PkType} {items : List (Option (TableRow type) × TableRow type)}

/-! ### Lookups -/

namespace HotRows

variable {hot : HotRows type} {r row : TableRow type} {key : type.Key}
  {previous : Option (TableRow type)}

/-- No two hot rows have the same key. -/
def KeysUnique (hot : HotRows type) : Prop :=
  ∀ r ∈ hot.rows, ∀ s ∈ hot.rows, r.key = s.key → r = s

/-- No hot row has the key, not even a tombstone. -/
def Free (hot : HotRows type) (key : type.Key) : Prop := ∀ r ∈ hot.rows, r.key ≠ key

/-- No other hot key is displayed like this one. -/
def DisplayedAlone (hot : HotRows type) (key : type.Key) : Prop :=
  ∀ r ∈ hot.rows, type.DisplayedAlike r.key key → r.key = key

/-- A lookup that finds nothing tells that the key is free. -/
theorem free_of_latestHotPkEntry (h : hot.latestHotPkEntry key = none) : hot.Free key :=
  fun _ hr hkey => keyBytes_ne_of_latestHotPkEntry h hr (by rw [keyBytes, hkey])

section

variable (h : hot.KeysUnique) (halone : hot.DisplayedAlone key)
include h halone

/-- What a lookup finds is every hot row of the key. -/
theorem KeysUnique.eq_of_latestHotPkEntry (hlatest : hot.latestHotPkEntry key = some r) :
    r.key = key ∧ ∀ s ∈ hot.rows, s.key = key → s = r := by
  obtain ⟨hr, hbytes⟩ := mem_of_latestHotPkEntry hlatest
  have hkey := ((scalarValueToBytes_eq_iff _ _ _).mp hbytes).elim id (halone r hr)
  exact ⟨hkey, fun s hs hskey => h s hs r hr (hskey.trans hkey.symm)⟩

/-- **The hot predecessor of a key is found.** -/
theorem KeysUnique.latestHotPkEntry_eq
    (hr : r ∈ hot.rows) (hkey : r.key = key) : hot.latestHotPkEntry key = some r := by
  cases hlatest : hot.latestHotPkEntry key with
  | none => exact absurd hkey (free_of_latestHotPkEntry hlatest r hr)
  | some s => rw [(h.eq_of_latestHotPkEntry halone hlatest).2 r hr hkey]

end

/-! ### Replacements -/

theorem mem_replace :
    r ∈ (hot.replace previous row).rows ↔ r = row ∨ (r ∈ hot.rows ∧ r.version ≠ row.version ∧
      ∀ old ∈ previous, r.version ≠ old.version) := by
  cases previous with
  | none => simp [replace]
  | some old => simp [replace, and_left_comm, and_comm]

theorem mem_of_mem_replace (h : r ∈ (hot.replace previous row).rows) :
    r = row ∨ (r ∈ hot.rows ∧ ∀ old ∈ previous, r.version ≠ old.version) :=
  (mem_replace.mp h).imp_right fun h => ⟨h.1, h.2.2⟩

/-- **A row that replaces every hot row of its key keeps the keys unique.** -/
theorem KeysUnique.replace (h : hot.KeysUnique)
    (hprevious : ∀ r ∈ hot.rows, r.key = row.key → previous = some r) :
    (hot.replace previous row).KeysUnique := by
  -- an old row that is still there has another key, since its namesake was deleted
  have hother : ∀ r ∈ hot.rows, (∀ old ∈ previous, r.version ≠ old.version) → r.key ≠ row.key :=
    fun r hr hkept hkey => hkept r (hprevious r hr hkey) rfl
  intro r hr s hs hkey
  rcases mem_of_mem_replace hr with rfl | ⟨hrold, hrkept⟩
  · rcases mem_of_mem_replace hs with rfl | ⟨hsold, hskept⟩
    · rfl
    · exact absurd hkey.symm (hother s hsold hskept)
  rcases mem_of_mem_replace hs with rfl | ⟨hsold, -⟩
  · exact absurd hkey (hother r hrold hrkept)
  · exact h r hrold s hsold hkey

/-- A batch of replacements, each prepared against the store before the batch. -/
theorem KeysUnique.replaceBatch
    (h : hot.KeysUnique) (hkeys : (items.map fun item => item.2.key).Nodup)
    (hprevious : ∀ item ∈ items, ∀ r ∈ hot.rows, r.key = item.2.key → item.1 = some r) :
    (hot.replaceBatch items).KeysUnique := by
  induction items generalizing hot with
  | nil => exact h
  | cons item rest ih =>
    rw [map_cons, nodup_cons] at hkeys
    refine ih (h.replace (hprevious item mem_cons_self)) hkeys.2 fun next hnext r hr hkey => ?_
    rcases mem_of_mem_replace hr with rfl | ⟨hr, -⟩
    · exact absurd (mem_map.mpr ⟨next, hnext, hkey.symm⟩) hkeys.1
    · exact hprevious next (mem_cons_of_mem _ hnext) r hr hkey

end HotRows

/-! ### The paths to a write -/

/-- The item replaces every hot row of its key. -/
def Replaces (hot : HotRows type) (item : Option (TableRow type) × TableRow type) : Prop :=
  ∀ r ∈ hot.rows, r.key = item.2.key → item.1 = some r

/-- The key that an update leaves its row with. -/
def Updates.written (updates : Updates type) (key : type.Key) : type.Key := updates.key.getD key

/-- The live row of a target, with the hot row to delete. -/
def MutationTarget.live : MutationTarget type → Option (TableRow type × Option (TableRow type))
  | .hot row => some (row, some row)
  | .cold row => some (row, none)
  | .tombstoned | .missing => none

namespace Provider

variable {p : Provider type} {row : TableRow type} {key : type.Key} {version : VersionId}
  {item : Option (TableRow type) × TableRow type} {updates : Updates type} {keys : List type.Key}
  {tombstones : List (String × TableRow type)} {rows : List (type.Key × Row)}
  {validateUniquePk : Bool}

theorem key_of_findRowByPk (h : p.findRowByPk key = some row) : row.key = key := by
  have hmem := mem_filter.mp (argmax_mem (Option.mem_def.mpr h))
  exact of_decide_eq_true (Bool.and_eq_true_iff.mp hmem.2).1

theorem live_of_updateItem (h : p.updateItem key updates version = .ok (some item)) :
    ∃ row, (p.loadMutationTarget key).live = some (row, item.1) ∧
      item.2 = updates.merge row version := by
  unfold updateItem at h
  cases htarget : p.loadMutationTarget key with
  | hot row | cold row =>
    simp only [htarget, ok.injEq, Option.ite_none_left_eq_some, Option.some.injEq] at h
    exact ⟨row, by rw [← h.2]; rfl, by rw [← h.2]⟩
  | tombstoned | missing => simp [htarget] at h

section

variable (h : p.hot.KeysUnique) (halone : p.hot.DisplayedAlone key)
include h halone

theorem loadMutationTarget_spec {previous : Option (TableRow type)}
    (htarget : (p.loadMutationTarget key).live = some (row, previous)) :
    row.key = key ∧ ∀ r ∈ p.hot.rows, r.key = key → previous = some r := by
  revert htarget
  fun_cases p.loadMutationTarget key <;> rintro ⟨⟩
  · next hlatest _ =>
    obtain ⟨hkey, hall⟩ := h.eq_of_latestHotPkEntry halone hlatest
    exact ⟨hkey, fun r hr hrkey => by rw [hall r hr hrkey]⟩
  · next hlatest hcold =>
    exact ⟨key_of_findRowByPk hcold, fun r hr hrkey =>
      absurd hrkey (HotRows.free_of_latestHotPkEntry hlatest r hr)⟩

theorem deleteItem_spec (hitem : p.deleteItem key version = some item) :
    item.2.key = key ∧ Replaces p.hot item := by
  obtain ⟨⟨row, previous⟩, htarget, rfl⟩ : ∃ target, (p.loadMutationTarget key).live = some target ∧
      (target.2, ⟨version, true, target.1.key, target.1.fields⟩) = item := by
    unfold deleteItem at hitem
    cases hload : p.loadMutationTarget key <;> simp_all [MutationTarget.live]
  obtain ⟨hkey, hall⟩ := loadMutationTarget_spec h halone htarget
  exact ⟨hkey, fun r hr hrkey => hall r hr (hrkey.trans hkey)⟩

theorem updateItem_spec (hfree : updates.written key = key ∨ p.hot.Free (updates.written key))
    (hitem : p.updateItem key updates version = .ok (some item)) :
    item.2.key = updates.written key ∧ Replaces p.hot item := by
  obtain ⟨row, htarget, hrow⟩ := live_of_updateItem hitem
  obtain ⟨rfl, hall⟩ := loadMutationTarget_spec h halone htarget
  have hkey : item.2.key = updates.written row.key := by rw [hrow]; rfl
  refine ⟨hkey, fun r hr hrkey => ?_⟩
  rw [hkey] at hrkey
  rcases hfree with hsame | hfree
  · exact hall r hr (hrkey.trans hsame)
  · exact absurd hrkey (hfree r hr)

theorem insertPredecessor_spec (hauto : p.isAutoIncrementPk = true → p.hot.Free key)
    {predecessor : Option (TableRow type)} (hpred : p.insertPredecessor key = .ok predecessor) :
    ∀ r ∈ p.hot.rows, r.key = key → predecessor = some r := by
  revert hpred
  fun_cases p.insertPredecessor key <;> rintro ⟨⟩ r hr hkey
  · next hisAuto => exact absurd hkey (hauto hisAuto r hr)
  · next hlatest _ => rw [(h.eq_of_latestHotPkEntry halone hlatest).2 r hr hkey]
  · next hlatest _ => exact absurd hkey (HotRows.free_of_latestHotPkEntry hlatest r hr)

end

/-! #### Batch inserts -/

theorem checkBatchKeys_spec {seen : List String} (h : p.checkBatchKeys seen keys = .ok ()) :
    (keys.map pkText).Nodup ∧ ∀ key ∈ keys, pkText key ∉ seen := by
  induction keys generalizing seen with
  | nil => simp
  | cons key rest ih =>
    rw [checkBatchKeys] at h
    split_ifs at h with hseen
    exact nodup_map_cons_and_iff.mpr ⟨hseen, ih h⟩

/-- The scan has the hot row of each key of the batch that has one. -/
theorem scanHotPkInsert_spec (hnodup : (keys.map pkText).Nodup)
    (h : p.scanHotPkInsert keys = .ok tombstones) :
    ∀ key ∈ keys, ∀ row, p.hot.latestHotPkEntry key = some row →
      tombstones.lookup (pkText key) = some row := by
  induction keys generalizing tombstones with
  | nil => exact fun key hkey => nomatch hkey
  | cons key rest ih =>
    rw [map_cons, nodup_cons] at hnodup
    intro other hother row hrow
    unfold scanHotPkInsert at h
    split at h
    · next hlatest =>
      rcases mem_cons.mp hother with rfl | hother
      · rw [hlatest] at hrow
        cases hrow
      · exact ih hnodup.2 h other hother row hrow
    · next found hlatest =>
      split at h
      · obtain ⟨rest', hrest, h⟩ := bind_eq_ok_iff.mp h
        rw [← pure_eq_ok_iff.mp h, lookup_cons_eq]
        rcases mem_cons.mp hother with rfl | hother
        · rw [if_pos rfl]
          exact hlatest.symm.trans hrow
        have hne : pkText other ≠ pkText key := fun htext =>
          hnodup.1 (mem_map.mpr ⟨other, hother, htext⟩)
        rw [if_neg hne]
        exact ih hnodup.2 hrest other hother row hrow
      · cases h

theorem validateInsertBatch_spec (h : p.validateInsertBatch keys = .ok tombstones) :
    keys.Nodup ∧ ∀ key ∈ keys, ∀ row, p.hot.latestHotPkEntry key = some row →
      tombstones.lookup (pkText key) = some row := by
  obtain ⟨⟨⟩, hkeys, h⟩ := bind_eq_ok_iff.mp h
  obtain ⟨found, hscan, h⟩ := bind_eq_ok_iff.mp h
  have hnodup := (checkBatchKeys_spec hkeys).1
  have hfound : found = tombstones := by
    split at h
    · cases h
    · exact pure_eq_ok_iff.mp h
  exact ⟨List.Nodup.of_map _ hnodup, hfound ▸ scanHotPkInsert_spec hnodup hscan⟩

theorem map_key_zipWith : ∀ {rows : List (type.Key × Row)} {versions : List VersionId},
    versions.length = rows.length →
    (List.zipWith (fun row version => (⟨version, false, row.1, row.2⟩ : TableRow type))
      rows versions).map TableRow.key = rows.map Prod.fst
  | [], [], _ => rfl
  | _ :: _, _ :: _, h => by
    rw [zipWith_cons_cons, map_cons, map_cons, map_key_zipWith (Nat.succ.inj h)]

section

variable (h : p.hot.KeysUnique)
  (hrows : if validateUniquePk then ∀ row ∈ rows, p.hot.DisplayedAlone row.1
    else (rows.map Prod.fst).Nodup ∧ ∀ row ∈ rows, p.hot.Free row.1)
include h hrows

/-- The hot row of a batch's key is among the tombstones the batch replaces. -/
theorem lookup_tombstones
    (htombstones : (if validateUniquePk then p.validateInsertBatch (rows.map Prod.fst)
      else .ok []) = .ok tombstones) :
    (rows.map Prod.fst).Nodup ∧ ∀ key ∈ rows.map Prod.fst, ∀ r ∈ p.hot.rows, r.key = key →
      tombstones.lookup (pkText key) = some r := by
  cases validateUniquePk with
  | true =>
    obtain ⟨hnodup, hlookup⟩ := validateInsertBatch_spec htombstones
    refine ⟨hnodup, fun key hkey r hr hrkey => hlookup key hkey r ?_⟩
    obtain ⟨row, hrow, rfl⟩ := mem_map.mp hkey
    exact h.latestHotPkEntry_eq (hrows row hrow) hr hrkey
  | false =>
    refine ⟨hrows.1, fun key hkey r hr hrkey => ?_⟩
    obtain ⟨row, hrow, rfl⟩ := mem_map.mp hkey
    exact absurd hrkey (hrows.2 row hrow r hr)

theorem persistInsertBatchRows_spec {versions : List VersionId} {hot : HotRows type}
    (hok : p.persistInsertBatchRows rows versions validateUniquePk = .ok hot) :
    hot.KeysUnique := by
  unfold persistInsertBatchRows at hok
  split at hok
  · exact ok.inj hok ▸ h
  obtain ⟨tombstones, htombstones, hok⟩ := bind_eq_ok_iff.mp hok
  obtain ⟨hnodup, hlookup⟩ := lookup_tombstones h hrows htombstones
  split at hok
  · cases hok
  rename_i hlength
  have hkeys := map_key_zipWith (not_not.mp hlength)
  generalize zipWith (fun row version =>
    (⟨version, false, row.1, row.2⟩ : TableRow type)) rows versions = entries at hkeys hok
  -- without tombstones, too, the batch is one of replacements
  have hhot : hot = p.hot.replaceBatch
      (entries.map fun entry => (tombstones.lookup (pkText entry.key), entry)) := by
    split at hok
    · next hempty =>
      rw [isEmpty_iff.mp hempty, ← pure_eq_ok_iff.mp hok, HotRows.replaceBatch, foldl_map]
      rfl
    · exact (pure_eq_ok_iff.mp hok).symm
  rw [hhot]
  refine h.replaceBatch ?_ fun item hitem r hr hkey => ?_
  · rw [map_map]
    exact hkeys ▸ hnodup
  · obtain ⟨entry, hentry, rfl⟩ := mem_map.mp hitem
    exact hlookup entry.key (hkeys ▸ mem_map_of_mem hentry) r hr hkey

end

/-! #### Batch updates and deletes -/

theorem updateItems_spec (h : p.hot.KeysUnique)
    {updates : List (type.Key × Updates type × VersionId)}
    (hupdates : ∀ u ∈ updates, p.hot.DisplayedAlone u.1 ∧
      (u.2.1.written u.1 = u.1 ∨ p.hot.Free (u.2.1.written u.1)))
    (hitems : p.updateItems updates = .ok items) :
    (items.map fun item => item.2.key).Sublist (updates.map fun u => u.2.1.written u.1) ∧
      ∀ item ∈ items, Replaces p.hot item := by
  induction updates generalizing items with
  | nil =>
    cases hitems
    exact ⟨List.Sublist.slnil, fun item hitem => nomatch hitem⟩
  | cons u rest ih =>
    obtain ⟨found, hfound, hitems⟩ := bind_eq_ok_iff.mp hitems
    obtain ⟨rest', hrest, hitems⟩ := bind_eq_ok_iff.mp hitems
    obtain rfl := pure_eq_ok_iff.mp hitems
    obtain ⟨hu, hothers⟩ := forall_mem_cons.mp hupdates
    obtain ⟨hsublist, hreplaces⟩ := ih hothers hrest
    cases found with
    | none => exact ⟨hsublist.cons _, hreplaces⟩
    | some item =>
      obtain ⟨hkey, hitem⟩ := updateItem_spec h hu.1 hu.2 hfound
      refine ⟨?_, forall_mem_cons.mpr ⟨hitem, hreplaces⟩⟩
      rw [Option.toList_some, singleton_append, map_cons, hkey]
      exact hsublist.cons_cons _

theorem deleteItems_spec (h : p.hot.KeysUnique) {targets : List (type.Key × VersionId)}
    (htargets : ∀ target ∈ targets, p.hot.DisplayedAlone target.1) :
    ((targets.filterMap fun target => p.deleteItem target.1 target.2).map
        fun item => item.2.key).Sublist (targets.map Prod.fst) ∧
      ∀ item ∈ targets.filterMap fun target => p.deleteItem target.1 target.2,
        Replaces p.hot item := by
  have hspec : ∀ target ∈ targets, ∀ item, p.deleteItem target.1 target.2 = some item →
      item.2.key = target.1 ∧ Replaces p.hot item :=
    fun target htarget _ hitem => deleteItem_spec h (htargets target htarget) hitem
  refine ⟨map_filterMap_sublist fun target htarget item hitem =>
    (hspec target htarget item hitem).1, fun item hmem => ?_⟩
  obtain ⟨target, htarget, hitem⟩ := mem_filterMap.mp hmem
  exact (hspec target htarget item hitem).2

end Provider

/-! ### Runs of the provider -/

inductive Operation (type : PkType) where
  | insert (key : type.Key) (fields : Row) (version : VersionId)
  | insertPrevalidated (key : type.Key) (fields : Row) (version : VersionId)
  | insertBatch (rows : List (type.Key × Row)) (versions : List VersionId)
  | insertBatchPrevalidated (rows : List (type.Key × Row)) (versions : List VersionId)
  | update (key : type.Key) (updates : Updates type) (version : VersionId)
  | delete (key : type.Key) (version : VersionId)
  | updateBatch (updates : List (type.Key × Updates type × VersionId))
  | deleteBatch (keys : List type.Key) (versions : List VersionId)

namespace Provider

variable {p : Provider type} {op : Operation type}

/-- The hot store after an operation. -/
def apply (p : Provider type) : Operation type → Except KalamDbError (HotRows type)
  | .insert key fields version => p.insert key fields version
  | .insertPrevalidated key fields version => .ok (p.insertPrevalidated key fields version)
  | .insertBatch rows versions => p.persistInsertBatchRows rows versions true
  | .insertBatchPrevalidated rows versions => p.persistInsertBatchRows rows versions false
  | .update key updates version => p.updateByPkValue key updates version
  | .delete key version => .ok (p.deleteByPkValue key version)
  | .updateBatch updates => p.updateBatch updates
  | .deleteBatch keys versions => .ok (p.deleteBatch keys versions)

/-- An operation that its own checks accept. -/
def step (p : Provider type) (op : Operation type) : Option (Provider type) :=
  (p.apply op).toOption.map fun hot => { p with hot := hot }

theorem isAutoIncrementPk_step {p' : Provider type} (h : p.step op = some p') :
    p'.isAutoIncrementPk = p.isAutoIncrementPk := by
  obtain ⟨hot, -, rfl⟩ := Option.map_eq_some_iff.mp h
  rfl

/-- The operation's lookups find its keys' hot rows, where it looks, and where it does not look
there are none. -/
def Untroubled (p : Provider type) : Operation type → Prop
  | .insert key _ _ => p.hot.DisplayedAlone key ∧ (p.isAutoIncrementPk = true → p.hot.Free key)
  | .insertPrevalidated key _ _ => p.hot.Free key
  | .insertBatch rows _ => ∀ row ∈ rows, p.hot.DisplayedAlone row.1
  | .insertBatchPrevalidated rows _ =>
    (rows.map Prod.fst).Nodup ∧ ∀ row ∈ rows, p.hot.Free row.1
  | .update key updates _ =>
    p.hot.DisplayedAlone key ∧ (updates.written key = key ∨ p.hot.Free (updates.written key))
  | .delete key _ => p.hot.DisplayedAlone key
  | .updateBatch updates =>
    (updates.map fun u => u.2.1.written u.1).Nodup ∧ ∀ u ∈ updates,
      p.hot.DisplayedAlone u.1 ∧ (u.2.1.written u.1 = u.1 ∨ p.hot.Free (u.2.1.written u.1))
  | .deleteBatch keys _ => keys.Nodup ∧ ∀ key ∈ keys, p.hot.DisplayedAlone key

/-- **Every operation without such a trouble keeps the hot keys unique.** -/
theorem keysUnique_apply {hot : HotRows type} (hop : p.Untroubled op) (h : p.hot.KeysUnique)
    (hok : p.apply op = .ok hot) : hot.KeysUnique := by
  cases op with
  | insert key fields version =>
    obtain ⟨predecessor, hpred, hok⟩ := bind_eq_ok_iff.mp hok
    rw [← pure_eq_ok_iff.mp hok]
    exact h.replace (insertPredecessor_spec h hop.1 hop.2 hpred)
  | insertPrevalidated key fields version =>
    rw [← ok.inj hok]
    exact h.replace fun r hr hkey => absurd hkey (hop r hr)
  | insertBatch | insertBatchPrevalidated => exact persistInsertBatchRows_spec h (by exact hop) hok
  | update key updates version =>
    obtain ⟨item, hitem, hok⟩ := bind_eq_ok_iff.mp hok
    cases item with
    | none => exact pure_eq_ok_iff.mp hok ▸ h
    | some item =>
      rw [← pure_eq_ok_iff.mp hok]
      exact h.replace (updateItem_spec h hop.1 hop.2 hitem).2
  | delete key version =>
    rw [← ok.inj hok, deleteByPkValue]
    split
    · next item hitem => exact h.replace (deleteItem_spec h hop hitem).2
    · exact h
  | updateBatch updates =>
    obtain ⟨items, hitems, hok⟩ := bind_eq_ok_iff.mp hok
    obtain ⟨hkeys, hreplaces⟩ := updateItems_spec h hop.2 hitems
    rw [← pure_eq_ok_iff.mp hok]
    exact h.replaceBatch (hop.1.sublist hkeys) hreplaces
  | deleteBatch keys versions =>
    have halone : ∀ target ∈ keys.zip versions, p.hot.DisplayedAlone target.1 :=
      fun target htarget => hop.2 target.1 (of_mem_zip htarget).1
    obtain ⟨hkeys, hreplaces⟩ := deleteItems_spec h halone
    rw [← ok.inj hok]
    have hzip := map_fst_zip_sublist keys versions
    exact h.replaceBatch (hop.1.sublist (hkeys.trans hzip)) hreplaces

/-- **In a run of untroubled operations, every state has at most one hot row per key**, and the
lookup of a key that is displayed alone finds it. -/
theorem hot_keys_unique {p p' : Provider type} {ops : List (Operation type)}
    (hstart : p.hot.KeysUnique) (hops : Meets step Untroubled p ops)
    (hrun : run step p ops = some p') :
    p'.hot.KeysUnique ∧ ∀ r ∈ p'.hot.rows, p'.hot.DisplayedAlone r.key →
      p'.hot.latestHotPkEntry r.key = some r := by
  have hunique : p'.hot.KeysUnique := by
    refine run_invariant (fun p => p.hot.KeysUnique) (fun p op p' hop h hstep => ?_)
      hstart hops hrun
    obtain ⟨hot, hhot, rfl⟩ := Option.map_eq_some_iff.mp hstep
    exact keysUnique_apply hop h (toOption_eq_some_iff.mp hhot)
  exact ⟨hunique, fun r hr halone => hunique.latestHotPkEntry_eq halone hr rfl⟩

end Provider

/-! ### Two hot rows with one key -/

/-- A table with a text key and no rows. -/
def emptyTable : Provider .text := ⟨"id", false, .empty, []⟩

/-- An insert, its delete, and an insert of the same key. -/
def insertAgain : List (Operation .text) :=
  [.insert "a" ⟨[]⟩ (.ofNat 1), .delete "a" (.ofNat 2), .insert "a" ⟨[]⟩ (.ofNat 3)]

theorem insertAgain_keysUnique : Meets Provider.step Provider.Untroubled emptyTable insertAgain ∧
    ∃ p, run Provider.step emptyTable insertAgain = some p ∧ p.hot.KeysUnique := by
  have halone : ∀ (hot : HotRows .text) (key : String), hot.DisplayedAlone key :=
    fun _ _ _ _ h => h.elim
  have hops : Meets step Provider.Untroubled emptyTable insertAgain := by
    refine ⟨⟨halone _ _, nofun⟩, fun p₁ h₁ => ⟨halone _ _, fun p₂ h₂ => ⟨⟨halone _ _, ?_⟩, ?_⟩⟩⟩
    · rw [isAutoIncrementPk_step h₂, isAutoIncrementPk_step h₁]
      exact nofun
    · exact fun _ _ => trivial
  refine ⟨hops, _, rfl, ?_⟩
  exact (hot_keys_unique (fun r hr => absurd hr not_mem_nil) hops rfl).1

/-- A prevalidated insert leaves the tombstone of its key in the hot store, and a batch that names
a key twice writes two rows for it. -/
theorem second_hot_row :
    (∃ p, run Provider.step emptyTable [.insert "a" ⟨[]⟩ ⟨1, by decide⟩, .delete "a" ⟨2, by decide⟩,
      .insertPrevalidated "a" ⟨[]⟩ ⟨3, by decide⟩] = some p ∧ ¬ p.hot.KeysUnique) ∧
    (∃ p, run Provider.step emptyTable [.insert "a" ⟨[]⟩ ⟨1, by decide⟩,
      .deleteBatch ["a", "a"] [⟨2, by decide⟩, ⟨3, by decide⟩]] = some p ∧ ¬ p.hot.KeysUnique) := by
  refine ⟨⟨_, rfl, fun h => ?_⟩, ⟨_, rfl, fun h => ?_⟩⟩
  · have heq := h ⟨⟨3, by decide⟩, false, "a", ⟨[]⟩⟩ mem_cons_self
      ⟨⟨2, by decide⟩, true, "a", ⟨[]⟩⟩ (mem_cons_of_mem _ mem_cons_self) rfl
    exact absurd (congrArg deleted heq) (by decide)
  · have heq := h ⟨⟨3, by decide⟩, true, "a", ⟨[]⟩⟩ mem_cons_self
      ⟨⟨2, by decide⟩, true, "a", ⟨[]⟩⟩ (mem_cons_of_mem _ mem_cons_self) rfl
    exact absurd (congrArg version heq) (by decide)

end KalamDB.SharedTable
