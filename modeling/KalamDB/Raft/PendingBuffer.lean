import Mathlib.Data.List.Sort
import Mathlib.Data.List.Perm.Basic

/-!
# The pending buffer

A data group that receives a command ahead of its metadata keeps it in a buffer grouped by the
watermark it waits for. **Draining** takes every command whose watermark has been reached and
returns them in log order; the commands left behind keep their groups.

The groups are kept as one list with rising watermarks, commands of one watermark in the order
in which they were added.
-/

namespace KalamDB.Raft

open List

/-- A command waiting for the Meta group. -/
structure PendingCommand where
  logIndex : ℕ
  logTerm : ℕ
  requiredMetaIndex : ℕ
  commandBytes : List UInt8
  deriving DecidableEq

@[ext]
structure PendingBuffer where
  commands : List PendingCommand
  grouped : commands.Pairwise fun a b => a.requiredMetaIndex ≤ b.requiredMetaIndex
  deriving DecidableEq

namespace PendingBuffer

variable {buffer : PendingBuffer} {waiting : List PendingCommand} (cmd : PendingCommand)

def empty : PendingBuffer := ⟨[], List.Pairwise.nil⟩

/-- Behind the commands that wait for the same or a lower watermark. -/
def insertGrouped (cmd : PendingCommand) : List PendingCommand → List PendingCommand
  | [] => [cmd]
  | p :: ps =>
    if cmd.requiredMetaIndex < p.requiredMetaIndex then cmd :: p :: ps
    else p :: insertGrouped cmd ps

theorem insertGrouped_perm (ps : List PendingCommand) :
    (insertGrouped cmd ps).Perm (cmd :: ps) := by
  fun_induction insertGrouped cmd ps with
  | case1 | case2 => exact .refl _
  | case3 p ps _ ih => exact (ih.cons p).trans (.swap _ _ _)

theorem insertGrouped_grouped {cmd : PendingCommand} {ps : List PendingCommand}
    (h : ps.Pairwise fun a b => a.requiredMetaIndex ≤ b.requiredMetaIndex) :
    (insertGrouped cmd ps).Pairwise fun a b => a.requiredMetaIndex ≤ b.requiredMetaIndex := by
  fun_induction insertGrouped cmd ps with
  | case1 => simp
  | case2 p ps hlt =>
    refine pairwise_cons.mpr ⟨fun q hq => ?_, h⟩
    obtain rfl | hq := mem_cons.mp hq
    · exact hlt.le
    · exact hlt.le.trans ((pairwise_cons.mp h).1 q hq)
  | case3 p ps hge ih =>
    obtain ⟨hp, hps⟩ := pairwise_cons.mp h
    refine pairwise_cons.mpr ⟨fun q hq => ?_, ih hps⟩
    obtain rfl | hq := mem_cons.mp ((insertGrouped_perm cmd ps).mem_iff.mp hq)
    · exact not_lt.mp hge
    · exact hp q hq

variable (buffer)

def add (cmd : PendingCommand) : PendingBuffer :=
  ⟨insertGrouped cmd buffer.commands, insertGrouped_grouped buffer.grouped⟩

def isEmpty : Bool := buffer.commands.isEmpty

/-- The commands whose watermark is reached, in log order. -/
def drained (currentMetaIndex : ℕ) : List PendingCommand :=
  (buffer.commands.filter fun c => decide (c.requiredMetaIndex ≤ currentMetaIndex)).insertionSort
    fun a b => a.logIndex ≤ b.logIndex

/-- The commands that keep waiting. -/
def remaining (currentMetaIndex : ℕ) : PendingBuffer :=
  ⟨buffer.commands.filter fun c => decide (currentMetaIndex < c.requiredMetaIndex),
    buffer.grouped.filter _⟩

def getAll : List PendingCommand := buffer.commands

def loadFrom (commands : List PendingCommand) : PendingBuffer := commands.foldl add empty

/-! ### The buffer as a bag of commands -/

theorem add_perm : (buffer.add cmd).commands.Perm (buffer.commands ++ [cmd]) :=
  (insertGrouped_perm cmd buffer.commands).trans (perm_append_singleton _ _).symm

/-- Adding the commands of a buffer one by one builds the buffer again. -/
theorem loadFrom_getAll : loadFrom buffer.getAll = buffer := by
  have hlast : ∀ (cmd : PendingCommand) (ps : List PendingCommand),
      (∀ p ∈ ps, p.requiredMetaIndex ≤ cmd.requiredMetaIndex) →
      insertGrouped cmd ps = ps ++ [cmd] := by
    intro cmd ps hps
    induction ps with
    | nil => rfl
    | cons p ps ih =>
      have hp : ¬cmd.requiredMetaIndex < p.requiredMetaIndex := not_lt.mpr (hps p (by simp))
      rw [insertGrouped, if_neg hp, ih fun q hq => hps q (by simp [hq]), cons_append]
  have hfold : ∀ (cmds : List PendingCommand) (front : PendingBuffer),
      (front.commands ++ cmds).Pairwise (fun a b => a.requiredMetaIndex ≤ b.requiredMetaIndex) →
      (cmds.foldl add front).commands = front.commands ++ cmds := by
    intro cmds
    induction cmds with
    | nil => intro front _; simp
    | cons c cmds ih =>
      intro front hsorted
      have hc : (front.add c).commands = front.commands ++ [c] :=
        hlast c front.commands fun p hp =>
          (pairwise_append.mp hsorted).2.2 p hp c (by simp)
      rw [foldl_cons, ih (front.add c) (by rw [hc]; simpa using hsorted), hc,
        append_assoc, singleton_append]
  exact PendingBuffer.ext (hfold buffer.commands empty buffer.grouped)

variable {buffer}

theorem mem_drained {m : ℕ} {p : PendingCommand} :
    p ∈ buffer.drained m ↔ p ∈ buffer.commands ∧ p.requiredMetaIndex ≤ m := by
  rw [drained, mem_insertionSort, mem_filter, decide_eq_true_eq]

/-- **Draining returns log order**: if the buffer holds the commands of a list in rising log
order, it drains those of the list that are satisfied, in the list's order. -/
theorem drained_eq (hperm : buffer.commands.Perm waiting)
    (hrising : waiting.Pairwise fun a b => a.logIndex < b.logIndex) (m : ℕ) :
    buffer.drained m = waiting.filter fun c => decide (c.requiredMetaIndex ≤ m) := by
  have hnodup : (waiting.map PendingCommand.logIndex).Nodup :=
    pairwise_map.mpr (hrising.imp fun h => h.ne)
  have hkeep : (waiting.filter fun c => decide (c.requiredMetaIndex ≤ m)).Pairwise
      fun a b => a.logIndex < b.logIndex := hrising.filter _
  refine List.Perm.eq_of_pairwise ?_ (pairwise_insertionSort _ _)
    (hkeep.imp fun h => h.le) ((perm_insertionSort _ _).trans (hperm.filter _))
  intro a b ha hb hab hba
  have ha' : a ∈ waiting := hperm.mem_iff.mp (mem_drained.mp ha).1
  exact inj_on_of_nodup_map hnodup ha' (mem_of_mem_filter hb) (le_antisymm hab hba)

theorem isEmpty_iff : buffer.isEmpty = true ↔ buffer.commands = [] := by
  simp [isEmpty]

end PendingBuffer

end KalamDB.Raft
