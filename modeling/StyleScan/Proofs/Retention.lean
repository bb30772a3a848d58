import Mathlib.Data.List.DropRight
import StyleScan.Log.Ring

/-! # What a ring buffer keeps

A ring buffer keeps the last records that have been written since it was last cleared, as many as
it has room for, and counts the others in a word of 64 bits (`performAll_new_keeps`). -/

namespace StyleScan.Log

open Text (Outline)

/-- A use of a ring buffer. -/
inductive RingOperation where
  | write (r : Record)
  | clear
deriving Repr, DecidableEq, Inhabited

namespace RingOperation

/-- The record that an operation writes, if it does. -/
def written? : RingOperation → Option Record
  | .write r => some r
  | .clear => none

end RingOperation

/-- The records written by the operations after the last clearing, or by all of them if none clears
the ring. -/
def sinceClear (ops : List RingOperation) : List Record :=
  (ops.rtakeWhile fun op => op.written?.isSome).filterMap RingOperation.written?

@[simp] theorem sinceClear_concat_write (ops : List RingOperation) (r : Record) :
    sinceClear (ops ++ [.write r]) = sinceClear ops ++ [r] := by
  rw [sinceClear, List.rtakeWhile_concat_pos _ _ _ rfl, List.filterMap_append]
  rfl

@[simp] theorem sinceClear_concat_clear (ops : List RingOperation) :
    sinceClear (ops ++ [.clear]) = [] := by
  rw [sinceClear, List.rtakeWhile_concat_neg _ _ _ Bool.false_ne_true]
  rfl

/-- Rings that are changed each in its place are as many as before. -/
theorem size_eq_of_getElem?_eq_map {rings changed : Array Ring} {f : Nat → Ring → Ring}
    (h : ∀ k : Nat, changed[k]? = rings[k]?.map (f k)) : changed.size = rings.size := by
  have hsize (k : Nat) : changed.size ≤ k ↔ rings.size ≤ k := by
    rw [← Array.getElem?_eq_none_iff, h, Option.map_eq_none_iff, Array.getElem?_eq_none_iff]
  exact Nat.le_antisymm ((hsize _).mpr (Nat.le_refl _)) ((hsize _).mp (Nat.le_refl _))

namespace Ring

/-- Performs an operation. -/
def perform (ring : Ring) : RingOperation → Ring
  | .write r => ring.write r
  | .clear => ring.clear

/-- Performs operations in order. -/
def performAll (ring : Ring) (ops : List RingOperation) : Ring :=
  ops.foldl perform ring

@[simp] theorem performAll_concat (ring : Ring) (ops : List RingOperation) (op : RingOperation) :
    ring.performAll (ops ++ [op]) = (ring.performAll ops).perform op := by
  simp [performAll]

/-- The ring has been given the records and keeps the last of them. -/
structure Keeps (ring : Ring) (capacity : Nat) (rs : List Record) : Prop where
  capacity_eq : ring.capacity = capacity
  toList_eq : ring.toList = rs.rtake capacity
  dropped_eq : ring.dropped = UInt64.ofNat (rs.length - capacity)

theorem keeps_new (capacity : Nat) : (new capacity).Keeps capacity [] :=
  ⟨rfl, by rw [List.rtake_nil]; rfl, by simp [new]⟩

namespace Keeps

variable {ring : Ring} {capacity : Nat} {rs : List Record}

theorem size_eq (h : ring.Keeps capacity rs) : ring.size = min rs.length capacity := by
  have hlength : ring.size = ring.toList.length := Array.length_toList.symm
  rw [hlength, h.toList_eq, List.rtake, List.length_drop]
  omega

theorem clear (h : ring.Keeps capacity rs) : ring.clear.Keeps capacity [] :=
  ⟨h.capacity_eq, by rw [List.rtake_nil]; rfl, by simp [Ring.clear]⟩

/-- Without room, every record is dropped. -/
theorem write_of_zero (h : ring.Keeps 0 rs) (r : Record) : (ring.write r).Keeps 0 (rs ++ [r]) := by
  have hwrite : ring.write r = { ring with dropped := ring.dropped + 1 } :=
    if_pos h.capacity_eq
  rw [hwrite]
  refine ⟨h.capacity_eq, ?_, ?_⟩
  · calc
      ring.toList = rs.rtake 0 := h.toList_eq
      _ = (rs ++ [r]).rtake 0 := by rw [List.rtake_zero, List.rtake_zero]
  · change ring.dropped + 1 = _
    rw [h.dropped_eq, List.length_append, List.length_singleton, Nat.sub_zero, Nat.sub_zero,
      UInt64.ofNat_add]
    rfl

/-- With room for `k + 1` records, the new one comes after the last `k`. -/
theorem write_of_succ {k : Nat} (h : ring.Keeps (k + 1) rs) (r : Record) :
    (ring.write r).Keeps (k + 1) (rs ++ [r]) := by
  have hne : ring.capacity ≠ 0 := by simp [h.capacity_eq]
  have hsize : ring.records.size = min rs.length (k + 1) := h.size_eq
  have htoList : ring.records.toList = rs.rtake (k + 1) := h.toList_eq
  unfold Ring.write
  rw [if_neg hne]
  split
  next hfull =>
    rw [h.capacity_eq, hsize] at hfull
    have hlast : ring.records.toList.drop 1 = rs.rtake k := by
      rw [htoList, List.rtake, List.rtake, List.drop_drop]
      congr 1
      omega
    refine ⟨h.capacity_eq, ?_, ?_⟩
    · calc
        ((ring.records.extract 1 ring.records.size).push r).toList
            = ring.records.toList.drop 1 ++ [r] := by
          rw [Array.toList_push, Array.toList_extract, List.extract_eq_take_drop,
            List.take_of_length_le (by simp)]
        _ = rs.rtake k ++ [r] := by rw [hlast]
        _ = (rs ++ [r]).rtake (k + 1) := (List.rtake_concat_succ rs k r).symm
    · have hcount : rs.length + 1 - (k + 1) = rs.length - (k + 1) + 1 := by omega
      change ring.dropped + 1 = _
      rw [h.dropped_eq, List.length_append, List.length_singleton, hcount, UInt64.ofNat_add]
      rfl
  next hroom =>
    rw [h.capacity_eq, hsize] at hroom
    have hall (m : Nat) (hm : k ≤ m) : rs.rtake m = rs := by
      rw [List.rtake, Nat.sub_eq_zero_of_le (by omega), List.drop_zero]
    refine ⟨h.capacity_eq, ?_, ?_⟩
    · calc
        (ring.records.push r).toList = rs.rtake (k + 1) ++ [r] := by rw [Array.toList_push, htoList]
        _ = rs.rtake k ++ [r] := by rw [hall (k + 1) (by omega), hall k (by omega)]
        _ = (rs ++ [r]).rtake (k + 1) := (List.rtake_concat_succ rs k r).symm
    · have hcount : rs.length + 1 - (k + 1) = rs.length - (k + 1) := by omega
      change ring.dropped = _
      rw [h.dropped_eq, List.length_append, List.length_singleton, hcount]

/-- A record that is written is the last one. -/
theorem write (h : ring.Keeps capacity rs) (r : Record) :
    (ring.write r).Keeps capacity (rs ++ [r]) := by
  cases capacity with
  | zero => exact h.write_of_zero r
  | succ k => exact h.write_of_succ r

/-- Records that are written come after those before them, in their order. -/
theorem performAll_write (h : ring.Keeps capacity rs) (ws : List Record) :
    (ring.performAll (ws.map .write)).Keeps capacity (rs ++ ws) := by
  induction ws generalizing ring rs with
  | nil => simpa [performAll] using h
  | cons w ws ih =>
    have hrest := ih (h.write w)
    rw [List.append_assoc, List.singleton_append] at hrest
    exact hrest

end Keeps

/-- Whatever is done with a ring, it keeps the last of the records since the last clearing. -/
theorem keeps_performAll (capacity : Nat) (ops : List RingOperation) :
    ((new capacity).performAll ops).Keeps capacity (sinceClear ops) := by
  induction ops using List.reverseRecOn with
  | nil => exact keeps_new capacity
  | append_singleton ops op ih =>
    rw [performAll_concat]
    cases op with
    | write r =>
      rw [sinceClear_concat_write]
      exact ih.write r
    | clear =>
      rw [sinceClear_concat_clear]
      exact ih.clear

/-- After any operations on a new ring, it holds the last of the records that have been written
since it was last cleared, oldest first: all of them, or as many as its capacity.  It counts the
others, modulo the size of a word, and its size, its figures and its dump agree with that. -/
theorem performAll_new_keeps (capacity : Nat) (ops : List RingOperation) :
    let ring := (new capacity).performAll ops
    let written := sinceClear ops
    let kept := min written.length capacity
    ring.toList = written.rtake kept ∧ ring.size = kept ∧ ring.size ≤ capacity ∧
      ring.dropped.toNat = (written.length - kept) % UInt64.size ∧ ring.capacity = capacity ∧
      ring.stats = .record "RingBufferStats"
        [("record_count", .ofNat kept),
          ("dropped_count", .ofNat ((written.length - kept) % UInt64.size)),
          ("capacity", .ofNat capacity)] ∧
      ring.dump = "\n".intercalate ((written.rtake kept).map Record.format) := by
  intro ring written kept
  have h : ring.Keeps capacity written := keeps_performAll capacity ops
  have hkept : written.rtake kept = written.rtake capacity := by
    simp only [List.rtake, kept]
    congr 1
    omega
  have htoList : ring.toList = written.rtake kept := h.toList_eq.trans hkept.symm
  have hdropped : ring.dropped.toNat = (written.length - kept) % UInt64.size := by
    have hcount : written.length - kept = written.length - capacity := by omega
    rw [h.dropped_eq, hcount]
    exact UInt64.toNat_ofNat'
  refine ⟨htoList, h.size_eq, ?_, hdropped, h.capacity_eq, ?_, ?_⟩
  · rw [h.size_eq]
    exact Nat.min_le_right _ _
  · rw [stats, h.size_eq, hdropped, h.capacity_eq]
  · rw [dump, htoList]

end Ring

end StyleScan.Log
