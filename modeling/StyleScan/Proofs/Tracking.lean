import Mathlib.Algebra.GroupWithZero.Nat
import Mathlib.Data.List.Induction
import StyleScan.Proofs.Lexing

/-! # Positions in closed form

The tracker goes from character to character and remembers only where it stands and whether it has
just passed a carriage return.  Where it stands after a text can be read off that text: the line
is the number of its line breaks, the column what comes after the last of them, the offset its
length in bytes (`advanceAll_start`).  The part of each character in breaking lines depends on the
character before it alone (`getElem?_placements_start`). -/

namespace StyleScan

/-- The bytes that characters take in UTF-8. -/
def utf8Length (cs : List Char) : Nat :=
  (cs.map Char.utf8Size).sum

@[simp] theorem utf8Length_append (cs ds : List Char) :
    utf8Length (cs ++ ds) = utf8Length cs + utf8Length ds := by
  simp [utf8Length]

@[simp] theorem utf8Length_singleton (c : Char) : utf8Length [c] = c.utf8Size := by
  simp [utf8Length]

/-- The characters of a text take the bytes of its encoding. -/
theorem utf8Length_toList (s : String) : utf8Length s.toList = s.utf8ByteSize := by
  rw [← String.size_toByteArray, ← String.ofList_toList (s := s), String.toByteArray_ofList,
    String.ofList_toList, List.utf8Encode, List.size_toByteArray, List.length_flatMap, utf8Length]
  congr 2
  funext c
  exact (String.length_utf8EncodeChar c).symm

/-- The line feeds that do not directly follow a carriage return. -/
def loneLineFeeds (cs : List Char) : Nat :=
  (List.range cs.length).countP fun k =>
    cs[k]? = some '\n' && (cs.take k).getLast? ≠ some '\r'

/-- The number of line breaks. -/
def lineBreaks (cs : List Char) : Nat :=
  cs.count '\r' + cs.count '\x0c' + loneLineFeeds cs

/-- The characters after the last line break. -/
def lastLine (cs : List Char) : List Char :=
  (cs.reverse.takeWhile fun c => !breaksLine c).reverse

theorem loneLineFeeds_append (cs : List Char) (c : Char) :
    loneLineFeeds (cs ++ [c]) =
      loneLineFeeds cs + if c = '\n' ∧ cs.getLast? ≠ some '\r' then 1 else 0 := by
  have hold : (List.range cs.length).countP (fun k =>
      (cs ++ [c])[k]? = some '\n' && ((cs ++ [c]).take k).getLast? ≠ some '\r') =
        loneLineFeeds cs := by
    apply List.countP_congr
    intro k hk
    have hk : k < cs.length := List.mem_range.mp hk
    rw [List.getElem?_append_left hk, List.take_append_of_le_length (Nat.le_of_lt hk)]
  rw [loneLineFeeds, List.length_append, List.length_singleton, List.range_succ,
    List.countP_append, hold]
  simp [List.countP_cons]

theorem lineBreaks_append (cs : List Char) (c : Char) :
    lineBreaks (cs ++ [c]) = lineBreaks cs +
      match LineBreak.of (cs.getLast? = some '\r') c with
      | .none | .pairedLineFeed => 0
      | .carriageReturn | .lineFeed => 1 := by
  rw [lineBreaks, lineBreaks, loneLineFeeds_append, List.count_append, List.count_append]
  unfold LineBreak.of
  by_cases hn : c = '\n'
  · subst hn
    by_cases hr : cs.getLast? = some '\r'
    · simp [hr]
    · simp [hr]
      omega
  by_cases hf : c = '\x0c'
  · subst hf
    simp
    omega
  by_cases hr : c = '\r'
  · subst hr
    simp
    omega
  · simp [hn, hf, hr]

theorem lastLine_append (cs : List Char) (c : Char) :
    lastLine (cs ++ [c]) = if breaksLine c then [] else lastLine cs ++ [c] := by
  simp only [lastLine, List.reverse_append, List.reverse_singleton, List.singleton_append,
    List.takeWhile_cons]
  cases breaksLine c <;> simp

/-- The part of each character in breaking lines. -/
theorem LineBreak.of_iff (afterReturn : Bool) (c : Char) :
    (of afterReturn c = .pairedLineFeed ↔ c = '\n' ∧ afterReturn) ∧
      (of afterReturn c = .lineFeed ↔ c = '\n' ∧ ¬ afterReturn ∨ c = '\x0c') ∧
      (of afterReturn c = .carriageReturn ↔ c = '\r') ∧
      (of afterReturn c = .none ↔ c ≠ '\n' ∧ c ≠ '\x0c' ∧ c ≠ '\r') := by
  unfold of
  by_cases hn : c = '\n'
  · subst hn
    cases afterReturn <;> simp
  by_cases hf : c = '\x0c'
  · simp [hf]
  by_cases hr : c = '\r'
  · simp [hr]
  · simp [hn, hf, hr]

theorem of_eq_none_iff (afterReturn : Bool) (c : Char) :
    LineBreak.of afterReturn c = .none ↔ breaksLine c = false := by
  rw [(LineBreak.of_iff afterReturn c).2.2.2]
  simp only [breaksLine, Bool.or_eq_false_iff, decide_eq_false_iff_not]
  constructor
  · rintro ⟨hn, hf, hr⟩
    exact ⟨⟨hr, hn⟩, hf⟩
  · rintro ⟨⟨hr, hn⟩, hf⟩
    exact ⟨hn, hf, hr⟩

namespace Position

/-- The position after a text. -/
def endOf (cs : List Char) : Position :=
  ⟨lineBreaks cs, (lastLine cs).length, utf8Length cs⟩

theorem endOf_append (cs : List Char) (c : Char) :
    endOf (cs ++ [c]) = (endOf cs).after (.of (cs.getLast? = some '\r') c) c := by
  have hlast := lastLine_append cs c
  have hnone := of_eq_none_iff (cs.getLast? = some '\r') c
  rw [endOf, lineBreaks_append, hlast, utf8Length_append, utf8Length_singleton]
  cases hb : LineBreak.of (cs.getLast? = some '\r') c <;> simp [hb] at hnone <;>
    simp [after, endOf, hnone]

end Position

namespace Tracker

/-- Where the tracker stands after a text. -/
theorem advanceAll_start (cs : List Char) :
    start.advanceAll cs = ⟨.endOf cs, cs.getLast? = some '\r'⟩ := by
  induction cs using List.reverseRecOn with
  | nil => rfl
  | append_singleton cs c ih =>
    rw [advanceAll_append, ih, Position.endOf_append]
    simp [advance]

/-- The placements of the characters of a text. -/
def placements (t : Tracker) : List Char → List Placement
  | [] => []
  | c :: cs => t.place c :: (t.advance c).placements cs

@[simp] theorem length_placements (t : Tracker) (cs : List Char) :
    (t.placements cs).length = cs.length := by
  induction cs generalizing t with
  | nil => rfl
  | cons c cs ih => simp [placements, ih]

theorem getElem?_placements (t : Tracker) (cs : List Char) (k : Nat) :
    (t.placements cs)[k]? = cs[k]?.map (t.advanceAll (cs.take k)).place := by
  induction cs generalizing t k with
  | nil => rfl
  | cons c cs ih =>
    cases k with
    | zero => rfl
    | succ k => simpa [placements] using ih (t.advance c) k

/-- A character of a text is placed by the characters before it. -/
theorem getElem?_placements_start (cs : List Char) (k : Nat) :
    (start.placements cs)[k]? = cs[k]?.map fun c =>
      ⟨.endOf (cs.take k), .of ((cs.take k).getLast? = some '\r') c,
        (cs.take k).getLast? = some '\r'⟩ := by
  rw [getElem?_placements, advanceAll_start]
  rfl

end Tracker

end StyleScan
