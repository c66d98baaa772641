import KalamDB.Transactions.GroupSnapshots

/-!
# Versions in log order

The version of a row packs the log index of its entry and the number of the row in the entry. The
number has 16 bits of its own and an entry has at most as many rows, so that **versions are in the
order of the log**, and the last version that an entry could have separates it from later entries.
-/

namespace KalamDB.Raft

open Snapshots List Fallible Transactions

/-- The number of a row in its entry. -/
def RaftVersionId.ordinal (version : VersionId) : ℕ := version.val &&& (2 ^ 16 - 1)

/-- The log index is in the range that can be packed. -/
def Packable (index : ℕ) : Prop := 0 < index ∧ index ≤ Raft.MAX_LOG_INDEX

variable {index slots : ℕ} {version : VersionId}

theorem RaftVersionId.ordinal_eq (version : VersionId) : ordinal version = version.val % 2 ^ 16 :=
  Nat.and_two_pow_sub_one_eq_mod _ _

theorem RaftVersionId.tryNew_ordinal (h : 0 < logIndex version) :
    tryNew (logIndex version) (ordinal version) = .ok version := by
  have hmax : Raft.MAX_LOG_INDEX = 2 ^ 47 - 1 := rfl
  have hord : MAX_ORDINAL = 65535 := rfl
  have hversion := version.2
  rw [tryNew_eq_ok_iff, ordinal_eq]
  unfold logIndex at h ⊢
  omega

theorem exists_tryNew {ordinal : ℕ} (hindex : Packable index) (hordinal : ordinal ≤ MAX_ORDINAL) :
    ∃ version, RaftVersionId.tryNew index ordinal = .ok version := by
  have hnot : ¬(index = 0 ∨ MAX_LOG_INDEX < index) := by
    unfold Packable at hindex
    omega
  rw [RaftVersionId.tryNew, dif_neg hnot, dif_neg (not_lt.mpr hordinal)]
  exact ⟨_, rfl⟩

/-- The versions of an entry are in the order of its rows. -/
theorem exists_assignEntryVersions (hindex : Packable index)
    (hslots : checkEntrySlotCount slots = .ok ()) :
    ∃ versions, assignEntryVersions index slots = .ok versions ∧ versions.length = slots ∧
      versions.Pairwise (· < ·) := by
  have hcount : slots ≤ MAX_ORDINAL + 1 := by
    unfold checkEntrySlotCount at hslots
    split at hslots
    · cases hslots
    · exact not_lt.mp ‹_›
  obtain ⟨versions, hversions⟩ : ∃ versions,
      (range slots).mapM (RaftVersionId.tryNew index) = .ok versions := by
    refine exists_mapM_eq_ok fun ordinal hordinal => exists_tryNew hindex ?_
    have hlt := mem_range.mp hordinal
    omega
  have hvalues : (range slots).map (index * 2 ^ 16 + ·) = versions.map Subtype.val :=
    mapM_eq_ok (fun _ _ h => (RaftVersionId.tryNew_eq_ok_iff.mp h).2.2.symm) hversions
  refine ⟨versions, bind_eq_ok_iff.mpr ⟨(), hslots, hversions⟩, ?_, ?_⟩
  · simpa using (congrArg length hvalues).symm
  · have hsorted : (versions.map Subtype.val).Pairwise (· < ·) := by
      rw [← hvalues, pairwise_map]
      exact pairwise_lt_range.imp fun h => Nat.add_lt_add_left h _
    exact hsorted.of_map Subtype.val fun _ _ h => h

/-- **Versions follow the log.** -/
theorem versions_follow_log :
    (∀ entries : List (ℕ × ℕ), entries.Pairwise (fun e e' => e.1 < e'.1) →
      (∀ e ∈ entries, Packable e.1 ∧ checkEntrySlotCount e.2 = .ok ()) →
        ∃ assigned : ℕ × ℕ → List VersionId, (entries.flatMap assigned).Pairwise (· < ·) ∧
          ∀ e ∈ entries, assignEntryVersions e.1 e.2 = .ok (assigned e) ∧
            (assigned e).length = e.2) ∧
    (∀ index ordinal, Packable index → ordinal ≤ MAX_ORDINAL →
      ∃ version, RaftVersionId.tryNew index ordinal = .ok version ∧
        logIndex version = index ∧ RaftVersionId.ordinal version = ordinal) ∧
    (∀ version, 0 < logIndex version →
      RaftVersionId.tryNew (logIndex version) (RaftVersionId.ordinal version) = .ok version) ∧
    ∀ index, Packable index → ∃ bound, entryVersionBound index = some bound ∧
      ∀ version, version ≤ bound ↔ logIndex version ≤ index := by
  refine ⟨fun entries horder hentries => ?_, fun index ordinal hindex hordinal => ?_,
    fun version => RaftVersionId.tryNew_ordinal, fun index hindex => ?_⟩
  · have hversions := fun e he => exists_assignEntryVersions (hentries e he).1 (hentries e he).2
    choose! assigned hok hlength hsorted using hversions
    refine ⟨assigned, pairwise_flatMap.mpr ⟨hsorted, ?_⟩, fun e he => ⟨hok e he, hlength e he⟩⟩
    refine horder.imp_of_mem fun {e e'} he he' hlt version hversion later hlater => ?_
    have hlog := (logIndex_of_assignEntryVersions (hok e he) hversion).1
    have hlog' := (logIndex_of_assignEntryVersions (hok e' he') hlater).1
    exact Nat.lt_of_div_lt_div (hlog.trans_lt (hlt.trans_eq hlog'.symm))
  · obtain ⟨version, hversion⟩ := exists_tryNew hindex hordinal
    refine ⟨version, hversion, (logIndex_of_tryNew hversion).1, ?_⟩
    have hmax : MAX_ORDINAL = 65535 := rfl
    rw [RaftVersionId.ordinal_eq, (RaftVersionId.tryNew_eq_ok_iff.mp hversion).2.2]
    omega
  · have hbound : entryVersionBound index = some _ := dif_pos hindex
    exact ⟨_, hbound, le_entryVersionBound_iff hbound⟩

end KalamDB.Raft
