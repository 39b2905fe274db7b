/-
This file gives a log whose writers read it first and append to it later.
-/

import Mathlib.Data.List.Perm.Lattice

namespace Foundation

/-- A write appends what its earlier read did not reach. Other writes may come in between. -/
structure Write (K : Type) where
  since : ℕ
  reached : List K
  batch : List K

namespace Write

variable {K : Type}

/-- The last write gives the keys that the log has reached. -/
def frontier (writes : List (Write K)) : List K := (writes.head?.map (·.reached)).getD []

/-- The last write stands first. Each batch completes the part that was reached at its read. -/
inductive Log : List (Write K) → Prop where
  | nil : Log []
  | cons {write : Write K} {writes : List (Write K)} (before : Log writes)
      (completes : write.reached.Perm (frontier (writes.drop write.since) ++ write.batch))
      (grows : frontier writes ⊆ write.reached) (distinct : write.reached.Nodup) :
      Log (write :: writes)

/-- No batch with a key came between the read and the write of each batch. -/
def Unraced : List (Write K) → Prop
  | [] => True
  | write :: writes => (∀ other ∈ writes.take write.since, other.batch = []) ∧ Unraced writes

/-- These are the appended keys. -/
def appended (writes : List (Write K)) : List K := writes.flatMap (·.batch)

/-- Two parts of a log append one after the other. -/
theorem appended_split (writes : List (Write K)) (count : ℕ) :
    appended writes = appended (writes.take count) ++ appended (writes.drop count) := by
  rw [appended, appended, appended, ← List.flatMap_append, List.take_append_drop]

/-- An unraced log appends each reached key once. The induction covers each part of the log. -/
theorem Log.appended_perm {writes : List (Write K)} (log : Log writes) (unraced : Unraced writes) :
    ∀ earlier, earlier <:+ writes → (appended earlier).Perm (frontier earlier) := by
  induction log with
  | nil =>
      intro earlier part
      rw [List.suffix_nil.mp part]
      exact List.Perm.refl _
  | @cons write writes _ completes _ _ ih =>
      obtain ⟨quiet, unraced⟩ := unraced
      intro earlier part
      rcases List.suffix_cons_iff.mp part with rfl | part
      · have known := ih unraced _ (List.drop_suffix write.since writes)
        have silent : appended (writes.take write.since) = [] := List.flatMap_eq_nil_iff.mpr quiet
        have same : appended writes = appended (writes.drop write.since) := by
          rw [appended_split writes write.since, silent, List.nil_append]
        have split : appended (write :: writes) = write.batch ++ appended writes := rfl
        rw [split, same]
        exact List.perm_append_comm.trans ((known.append_right _).trans completes.symm)
      · exact ih unraced earlier part

/-- A log appends no key twice exactly when no read was followed by another batch before its own. -/
theorem Log.nodup_iff {writes : List (Write K)} (log : Log writes) :
    (appended writes).Nodup ↔ Unraced writes := by
  induction log with
  | nil => exact iff_of_true List.nodup_nil trivial
  | @cons write writes before completes grows distinct ih =>
      have split : appended (write :: writes) = write.batch ++ appended writes := rfl
      constructor
      · intro once
        rw [split, List.nodup_append] at once
        obtain ⟨_, once, apart⟩ := once
        have unraced := ih.mp once
        refine ⟨fun other member => ?_, unraced⟩
        rw [appended_split writes write.since, List.nodup_append] at once
        apply List.eq_nil_iff_forall_not_mem.mpr
        intro key listed
        have recent : key ∈ appended (writes.take write.since) :=
          List.mem_flatMap.mpr ⟨other, member, listed⟩
        have present : key ∈ appended writes := by
          rw [appended_split writes write.since]
          exact List.mem_append_left _ recent
        -- The key was not reached at the read, so the batch appends it again.
        have reached :=
          grows ((before.appended_perm unraced writes List.suffix_rfl).mem_iff.mp present)
        rcases List.mem_append.mp (completes.mem_iff.mp reached) with known | again
        · have old := before.appended_perm unraced _ (List.drop_suffix write.since writes)
          exact once.2.2 key recent key (old.mem_iff.mpr known) rfl
        · exact apart key again key present rfl
      · intro unraced
        have log : Log (write :: writes) := .cons before completes grows distinct
        exact (log.appended_perm unraced _ List.suffix_rfl).nodup_iff.mpr distinct

end Write

end Foundation
