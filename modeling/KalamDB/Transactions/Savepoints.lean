import KalamDB.Transactions.Accounting

/-!
# Savepoints

Going back to a savepoint cuts the list of changes and builds the indexes, the overlays and the
byte count again, while staging keeps them up step by step. `SavedStates` is what savepoints are
for: a savepoint saves the **whole write set**, and going back takes it out again. Both give the
same write set after every sequence of calls (`calls_restore_savepoints`), because a write set is
at any time what is rebuilt from its changes.
-/

namespace KalamDB.Transactions

open Raft List Option

inductive WriteSetCall where
  | stage (mutation : StagedMutation)
  | savepoint (name : String)
  | release (name : String)
  | rollback (name : String)

/-- A call on a write set. One for a savepoint that is not there is refused. -/
def TransactionWriteSet.call (size : StagedMutation → ℕ) (ws : TransactionWriteSet) :
    WriteSetCall → TransactionWriteSet
  | .stage mutation => ws.stageWithEstimatedSize mutation (size mutation)
  | .savepoint name => ws.pushSavepoint name
  | .release name => (ws.releaseSavepoint name).getD ws
  | .rollback name => (ws.rollbackToSavepoint size name).getD ws

/-- A write set and what its savepoints saved under their names, from the innermost one outwards. -/
structure SavedStates where
  current : TransactionWriteSet
  saved : List (String × TransactionWriteSet)

namespace SavedStates

/-- The savepoints from the innermost one of a name outwards. -/
def innermost (s : SavedStates) (name : String) : List (String × TransactionWriteSet) :=
  s.saved.dropWhile fun entry => entry.1 ≠ TransactionWriteSet.normalizeSavepointName name

/-- A savepoint saves the write set, of which it is a part. Going back brings back what the
innermost savepoint of the name saved and forgets those inside it; a release forgets it as well
and changes nothing that is staged. -/
def call (size : StagedMutation → ℕ) (s : SavedStates) : WriteSetCall → SavedStates
  | .stage mutation => { s with current := s.current.call size (.stage mutation) }
  | .savepoint name =>
    let current := s.current.pushSavepoint name
    ⟨current, (TransactionWriteSet.normalizeSavepointName name, current) :: s.saved⟩
  | .release name =>
    match s.innermost name with
    | [] => s
    | _ :: outer =>
      ⟨{ s.current with savepoints := (outer.head?.map fun o => o.2.savepoints).getD [] }, outer⟩
  | .rollback name =>
    match s.innermost name with
    | [] => s
    | target :: outer => ⟨target.2, target :: outer⟩

end SavedStates

namespace TransactionWriteSet

variable {size : StagedMutation → ℕ} {ws ws' : TransactionWriteSet} {name : String}
  {saved : List (String × TransactionWriteSet)} {pos : ℕ}

/-! ### Rebuilding -/

/-- What is kept beside the changes is what they are rebuilt to. -/
structure Built (size : StagedMutation → ℕ) (ws : TransactionWriteSet) : Prop where
  latest : ws.latestByTableKey =
    (rebuilt size ws.transactionId ws.orderedMutations).latestByTableKey
  overlays : ws.overlayCache = (rebuilt size ws.transactionId ws.orderedMutations).overlayCache
  bytes : ws.bufferBytes = (rebuilt size ws.transactionId ws.orderedMutations).bufferBytes

theorem rebuilt_transactionId (size : StagedMutation → ℕ) (id : TransactionId)
    (mutations : List StagedMutation) :
    (rebuilt size id mutations).transactionId = id :=
  foldlRecOn (motive := fun ws : TransactionWriteSet => ws.transactionId = id) _ _ rfl
    fun _ h _ _ => h

theorem Built.stage (hsize : IgnoresOrder size) (h : ws.Built size) (mutation : StagedMutation) :
    (ws.call size (.stage mutation)).Built size := by
  constructor <;>
    simp only [call, stageWithEstimatedSize, rebuilt_concat, index, rebuilt_transactionId, h.latest,
      h.overlays, h.bytes, hsize mutation]

/-- Cutting off what was staged after a savepoint brings back the write set. -/
theorem Built.truncateMutations (h : ws.Built size) (hid : ws.transactionId = ws'.transactionId)
    (hmutations : ws.orderedMutations <+: ws'.orderedMutations) :
    { ws' with savepoints := ws.savepoints }.truncateMutations size ws.orderedMutations.length
      ws.nextMutationOrder = ws := by
  rw [truncateMutations_eq, ← prefix_iff_eq_take.mp hmutations]
  obtain ⟨hlatest, hoverlays, hbytes⟩ := h
  have hrebuilt := rebuilt_transactionId size ws.transactionId ws.orderedMutations
  cases ws
  simp_all

/-! ### The last savepoint of a name -/

/-- A further savepoint of the name is found, and one of another name is passed over. -/
theorem findSavepoint_append {entry : SavepointEntry} {marks : List SavepointEntry}
    (hws : ws.savepoints = marks) (hws' : ws'.savepoints = marks ++ [entry]) :
    ws'.findSavepoint name =
      if entry.name = normalizeSavepointName name then some marks.length
      else ws.findSavepoint name := by
  have hearlier : (range marks.length).filter (fun i =>
      decide ((marks ++ [entry])[i]?.map SavepointEntry.name =
        some (normalizeSavepointName name))) =
      (range marks.length).filter fun i =>
        decide (marks[i]?.map SavepointEntry.name = some (normalizeSavepointName name)) := by
    refine filter_congr fun i hi => ?_
    rw [getElem?_append_left (mem_range.mp hi)]
  simp only [findSavepoint, hws, hws', length_append, length_singleton, range_succ, filter_append,
    hearlier]
  split <;> next hname => simp [hname]

/-- The last element of a rising list is its greatest. -/
theorem getLast?_eq_some_iff_of_rising {l : List ℕ} (h : l.Pairwise (· < ·)) :
    l.getLast? = some pos ↔ pos ∈ l ∧ ∀ i ∈ l, i ≤ pos := by
  induction l using reverseRecOn with
  | nil => simp
  | append_singleton l last _ =>
    obtain ⟨-, -, hlast⟩ := pairwise_append.mp h
    rw [getLast?_concat, Option.some.injEq]
    constructor
    · rintro rfl
      refine ⟨by simp, fun i hi => ?_⟩
      rcases mem_append.mp hi with hi | hi
      · exact (hlast i hi last (mem_singleton_self _)).le
      · exact (mem_singleton.mp hi).le
    · rintro ⟨hpos, hgreatest⟩
      rcases mem_append.mp hpos with hpos | hpos
      · have hlt := hlast pos hpos last (mem_singleton_self _)
        exact absurd (hgreatest last (by simp)) (Nat.not_le.mpr hlt)
      · exact (mem_singleton.mp hpos).symm

/-- **The position found is the last one of the name.** -/
theorem findSavepoint_eq_some_iff :
    ws.findSavepoint name = some pos ↔
      (∃ entry, ws.savepoints[pos]? = some entry ∧ entry.name = normalizeSavepointName name) ∧
        ∀ later entry, pos < later → ws.savepoints[later]? = some entry →
          entry.name ≠ normalizeSavepointName name := by
  have hnamed : ∀ i, (i < ws.savepoints.length ∧
      ws.savepoints[i]?.map SavepointEntry.name = some (normalizeSavepointName name)) ↔
      ∃ entry, ws.savepoints[i]? = some entry ∧ entry.name = normalizeSavepointName name := by
    intro i
    rw [Option.map_eq_some_iff]
    refine and_iff_right_of_imp fun ⟨entry, hentry, _⟩ =>
      (List.getElem?_eq_some_iff.mp hentry).1
  rw [findSavepoint, getLast?_eq_some_iff_of_rising (pairwise_lt_range.filter _)]
  simp only [mem_filter, mem_range, decide_eq_true_eq, hnamed]
  refine and_congr_right fun _ => ⟨fun h later entry hlater hentry hname => ?_, fun h i hi => ?_⟩
  · exact absurd (h later ⟨entry, hentry, hname⟩) (Nat.not_le.mpr hlater)
  · obtain ⟨entry, hentry, hname⟩ := hi
    exact Nat.le_of_not_lt fun hlater => h i entry hlater hentry hname

/-! ### The saved write sets -/

/-- What the savepoints of a write set saved; later changes do not matter. -/
inductive Saves (size : StagedMutation → ℕ) :
    TransactionWriteSet → List (String × TransactionWriteSet) → Prop
  | new (id : TransactionId) : Saves size (new id) []
  | mark {ws : TransactionWriteSet} {saved : List (String × TransactionWriteSet)}
      (h : Saves size ws saved) (name : String) (hbuilt : (ws.pushSavepoint name).Built size) :
      Saves size (ws.pushSavepoint name)
        ((normalizeSavepointName name, ws.pushSavepoint name) :: saved)
  | later {ws ws' : TransactionWriteSet} {saved : List (String × TransactionWriteSet)}
      (h : Saves size ws saved) (hsavepoints : ws'.savepoints = ws.savepoints)
      (hid : ws.transactionId = ws'.transactionId)
      (hmutations : ws.orderedMutations <+: ws'.orderedMutations) : Saves size ws' saved

/-- The savepoints of a write set are those of the innermost write set saved. -/
theorem Saves.savepoints_eq (h : Saves size ws saved) :
    (saved.head?.map fun entry => entry.2.savepoints).getD [] = ws.savepoints := by
  induction h with
  | new id => rfl
  | mark h name hbuilt ih => rfl
  | later h hsavepoints hid hmutations ih => rw [ih, hsavepoints]

/-- A savepoint of the name is the innermost one; one of another name is passed over. -/
theorem innermost_cons (ws' : TransactionWriteSet) (entry : String × TransactionWriteSet) :
    (SavedStates.mk ws (entry :: saved)).innermost name =
      if entry.1 = normalizeSavepointName name then entry :: saved
      else (SavedStates.mk ws' saved).innermost name := by
  rw [SavedStates.innermost, dropWhile_cons]
  by_cases hname : entry.1 = normalizeSavepointName name <;> simp [hname, SavedStates.innermost]

theorem Saves.find_none (h : Saves size ws saved)
    (hnone : (SavedStates.mk ws saved).innermost name = []) : ws.findSavepoint name = none := by
  induction h with
  | new id => rfl
  | @mark ws saved h name' hbuilt ih =>
    rw [innermost_cons ws] at hnone
    rw [findSavepoint_append (show ws.savepoints = _ from rfl) rfl]
    split at hnone
    · cases hnone
    · next hname => rw [if_neg hname, ih hnone]
  | later h hsavepoints hid hmutations ih =>
    rw [← ih hnone, findSavepoint, findSavepoint, hsavepoints]

/-- **What the innermost savepoint of a name saved**, with the savepoints around it: it stands at
the position that is found. -/
theorem Saves.find {target : String × TransactionWriteSet}
    {outer : List (String × TransactionWriteSet)} (h : Saves size ws saved)
    (hsome : (SavedStates.mk ws saved).innermost name = target :: outer) :
    ∃ mark, target = (normalizeSavepointName name, mark.pushSavepoint name) ∧
      ws.findSavepoint name = some mark.savepoints.length ∧
      (mark.pushSavepoint name).savepoints <+: ws.savepoints ∧
      mark.transactionId = ws.transactionId ∧ mark.orderedMutations <+: ws.orderedMutations ∧
      (mark.pushSavepoint name).Built size ∧ Saves size mark outer := by
  induction h with
  | new id => cases hsome
  | @mark ws saved h name' hbuilt ih =>
    rw [innermost_cons ws] at hsome
    rw [findSavepoint_append (show ws.savepoints = _ from rfl) rfl]
    split at hsome
    · next hname =>
      replace hname : normalizeSavepointName name' = normalizeSavepointName name := hname
      have hpush : ws.pushSavepoint name' = ws.pushSavepoint name := by
        rw [pushSavepoint, pushSavepoint, hname]
      obtain ⟨rfl, rfl⟩ := List.cons.inj hsome
      rw [if_pos hname, hpush, hname]
      exact ⟨ws, rfl, rfl, prefix_rfl, rfl, prefix_rfl, hpush ▸ hbuilt, h⟩
    · next hname =>
      obtain ⟨mark, htarget, hpos, hmarks, hrest⟩ := ih hsome
      rw [if_neg hname]
      exact ⟨mark, htarget, hpos, hmarks.trans (prefix_append _ _), hrest⟩
  | later h hsavepoints hid hmutations ih =>
    obtain ⟨mark, htarget, hpos, hmarks, hid', hmutations', hrest⟩ := ih hsome
    refine ⟨mark, htarget, ?_, hsavepoints ▸ hmarks, hid'.trans hid,
      hmutations'.trans hmutations, hrest⟩
    rw [← hpos, findSavepoint, findSavepoint, hsavepoints]

theorem Saves.call (hsize : IgnoresOrder size) (h : Saves size ws saved) (hbuilt : ws.Built size)
    (c : WriteSetCall) :
    (SavedStates.call size ⟨ws, saved⟩ c).current = ws.call size c ∧
      Saves size (ws.call size c) (SavedStates.call size ⟨ws, saved⟩ c).saved ∧
        (ws.call size c).Built size := by
  cases c with
  | stage mutation =>
    exact ⟨rfl, h.later rfl rfl (prefix_append _ _), hbuilt.stage hsize mutation⟩
  | savepoint name =>
    have hmarked : (ws.pushSavepoint name).Built size :=
      ⟨hbuilt.latest, hbuilt.overlays, hbuilt.bytes⟩
    exact ⟨rfl, h.mark name hmarked, hmarked⟩
  | release name =>
    simp only [SavedStates.call, TransactionWriteSet.call, releaseSavepoint]
    cases hinner : (SavedStates.mk ws saved).innermost name with
    | nil =>
      rw [h.find_none hinner]
      exact ⟨rfl, h, hbuilt⟩
    | cons target outer =>
      obtain ⟨mark, -, hpos, ⟨marks, hmarks⟩, hid, hmutations, -, hsaves⟩ := h.find hinner
      have hearlier : ws.savepoints.take mark.savepoints.length = mark.savepoints := by
        simp [← hmarks, pushSavepoint]
      simp only [hpos, map_some, getD_some, hearlier, hsaves.savepoints_eq]
      exact ⟨trivial, hsaves.later rfl hid hmutations,
        ⟨hbuilt.latest, hbuilt.overlays, hbuilt.bytes⟩⟩
  | rollback name =>
    simp only [SavedStates.call, TransactionWriteSet.call, rollbackToSavepoint]
    cases hinner : (SavedStates.mk ws saved).innermost name with
    | nil =>
      rw [h.find_none hinner]
      exact ⟨rfl, h, hbuilt⟩
    | cons target outer =>
      obtain ⟨mark, rfl, hpos, ⟨marks, hmarks⟩, hid, hmutations, hmark, hsaves⟩ := h.find hinner
      have hentry : ws.savepoints[mark.savepoints.length]? = some ⟨normalizeSavepointName name,
          mark.orderedMutations.length, mark.nextMutationOrder⟩ := by
        simp [← hmarks, pushSavepoint]
      have hkept : ws.savepoints.take (mark.savepoints.length + 1) =
          (mark.pushSavepoint name).savepoints := by
        simp [← hmarks, pushSavepoint, take_append]
      have hcut : { ws with savepoints := (mark.pushSavepoint name).savepoints }.truncateMutations
          size mark.orderedMutations.length mark.nextMutationOrder = mark.pushSavepoint name :=
        hmark.truncateMutations hid hmutations
      simp only [hpos, bind_some, hentry, map_some, hkept, hcut, getD_some]
      exact ⟨trivial, hsaves.mark name hmark, hmark⟩

theorem Saves.calls (hsize : IgnoresOrder size) (calls : List WriteSetCall)
    (h : Saves size ws saved) (hbuilt : ws.Built size) :
    calls.foldl (TransactionWriteSet.call size) ws =
      (calls.foldl (SavedStates.call size) ⟨ws, saved⟩).current := by
  induction calls generalizing ws saved with
  | nil => rfl
  | cons c rest ih =>
    obtain ⟨hcurrent, hsaves, hnext⟩ := h.call hsize hbuilt c
    rw [foldl_cons, foldl_cons, ih hsaves hnext, ← hcurrent]

/-- **Savepoints.** After every sequence of calls the write set is the one in which savepoints save
whole write sets. -/
theorem calls_restore_savepoints (scalarSize : ScalarValue → ℕ) (id : TransactionId)
    (calls : List WriteSetCall) :
    calls.foldl (TransactionWriteSet.call (approximateSizeBytes scalarSize)) (new id) =
      (calls.foldl (SavedStates.call (approximateSizeBytes scalarSize)) ⟨new id, []⟩).current :=
  Saves.calls (fun _ _ => rfl) calls (.new id) ⟨rfl, rfl, rfl⟩

end TransactionWriteSet

end KalamDB.Transactions
