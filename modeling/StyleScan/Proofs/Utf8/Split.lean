import StyleScan.Proofs.Utf8.Sequence

/-! # Splitting a byte sequence

The front of a byte sequence is open, or an encoded character, or bytes that are replaced as one.
Which of them it is stays the same when more bytes arrive, unless it is open; so a byte sequence
may be split in two steps, the tail of its first part in front of the second. -/

namespace StyleScan.Utf8

open String (utf8EncodeChar)

/-- The bytes that one replacement character stands for at the front of others: the longest viable
prefix that is not empty, or one byte if there is none. -/
structure Replaced (bad bytes : List UInt8) : Prop where
  isPrefix : bad <+: bytes
  nonempty : bad ≠ []
  /-- No character is encoded at the front. -/
  ill_formed : ∀ c, ¬ utf8EncodeChar c <+: bytes
  longest : (Viable bad ∧ ∀ p, p <+: bytes → Viable p → p.length ≤ bad.length) ∨
    (bad.length = 1 ∧ ∀ p, p <+: bytes → Viable p → p = [])

/-- The same front has the same bytes replaced. -/
theorem Replaced.unique {bad bad' bytes : List UInt8} (h : Replaced bad bytes)
    (h' : Replaced bad' bytes) : bad = bad' := by
  have hlen : bad.length = bad'.length := by
    rcases h.longest with ⟨hv, hmax⟩ | ⟨hone, hnone⟩
    · rcases h'.longest with ⟨hv', hmax'⟩ | ⟨-, hnone'⟩
      · exact Nat.le_antisymm (hmax' bad h.isPrefix hv) (hmax bad' h'.isPrefix hv')
      · exact absurd (hnone' bad h.isPrefix hv) h.nonempty
    · rcases h'.longest with ⟨hv', -⟩ | ⟨hone', -⟩
      · exact absurd (hnone bad' h'.isPrefix hv') h'.nonempty
      · rw [hone, hone']
  exact (List.prefix_of_prefix_length_le h.isPrefix h'.isPrefix (by omega)).eq_of_length hlen

/-- What extending does: it runs out of bytes, or it takes a byte for each range, or it stops at
the first byte outside its range. -/
theorem extend_cases (taken : List UInt8) (ranges : List (UInt8 × UInt8)) (bytes : List UInt8) :
    (extend taken ranges bytes = none ∧ Fits ranges bytes ∧ bytes.length < ranges.length) ∨
    (∃ good rest, bytes = good ++ rest ∧ Fits ranges good ∧ good.length = ranges.length ∧
      extend taken ranges bytes =
        some (⟨taken ++ good, some (Char.ofNat (scalarValue (taken ++ good)))⟩, rest)) ∨
    (∃ good b rest, bytes = good ++ b :: rest ∧ Fits ranges good ∧ ¬ Fits ranges (good ++ [b]) ∧
      good.length < ranges.length ∧
      extend taken ranges bytes = some (⟨taken ++ good, none⟩, b :: rest)) := by
  fun_induction extend taken ranges bytes with
  | case1 taken rest => exact .inr (.inl ⟨[], rest, by simp⟩)
  | case2 => exact .inl (by simp)
  | case3 taken low high ranges b rest hb ih =>
    rcases ih with ⟨h, hfits, hlen⟩ | ⟨good, more, rfl, hfits, hlen, h⟩ |
      ⟨good, b', more, rfl, hfits, hnot, hlen, h⟩
    · exact .inl ⟨h, ⟨hb, hfits⟩, by simpa using hlen⟩
    · refine .inr (.inl ⟨b :: good, more, rfl, ⟨hb, hfits⟩, by simpa using hlen, ?_⟩)
      simpa using h
    · refine .inr (.inr ⟨b :: good, b', more, rfl, ⟨hb, hfits⟩, fun hf => hnot hf.2,
        by simpa using hlen, ?_⟩)
      simpa using h
  | case4 taken low high ranges b rest hb =>
    exact .inr (.inr ⟨[], b, rest, rfl, fits_nil _, fun hf => hb hf.1, by simp⟩)

/-- A byte that begins no character is replaced alone. -/
theorem replaced_lead {lead : UInt8} (h : continuations lead = none) (rest : List UInt8) :
    Replaced [lead] (lead :: rest) := by
  have hnone : ∀ p, p <+: lead :: rest → Viable p → p = [] := by
    intro p hp hv
    cases p with
    | nil => rfl
    | cons a p =>
      obtain ⟨rfl, -⟩ := List.cons_prefix_cons.1 hp
      exact absurd hv (not_viable_cons h p)
  constructor
  · exact ⟨rest, rfl⟩
  · exact List.cons_ne_nil lead []
  · intro c hc
    exact encode_ne_nil c (hnone _ hc (viable_encode c))
  · exact .inr ⟨rfl, hnone⟩

/-- Bytes in their ranges are replaced up to the first byte outside its range. -/
theorem replaced_good {lead b : UInt8} {good rest : List UInt8} {ranges : List (UInt8 × UInt8)}
    (h : continuations lead = some ranges) (hfits : Fits ranges good)
    (hnot : ¬ Fits ranges (good ++ [b])) (hlen : good.length < ranges.length) :
    Replaced (lead :: good) (lead :: (good ++ b :: rest)) := by
  -- a longer prefix takes in the byte that is outside its range
  have hmax : ∀ p, p <+: lead :: (good ++ b :: rest) → Viable p →
      p.length ≤ (lead :: good).length := by
    intro p hp hv
    rw [← Nat.not_lt]
    intro hlt
    have hb : lead :: (good ++ [b]) <+: lead :: (good ++ b :: rest) := ⟨rest, by simp⟩
    have hlong : lead :: (good ++ [b]) <+: p :=
      List.prefix_of_prefix_length_le hb hp (by simpa using Nat.succ_le_of_lt hlt)
    apply hnot
    rw [← viable_cons_iff_fits h]
    exact hv.of_isPrefix hlong
  constructor
  · exact ⟨b :: rest, rfl⟩
  · exact List.cons_ne_nil lead good
  · intro c hc
    have hle := hmax _ hc (viable_encode c)
    rw [length_of_encode_isPrefix h hc, List.length_cons] at hle
    omega
  · exact .inl ⟨(viable_cons_iff_fits h good).2 hfits, hmax⟩

/-- The front of a byte sequence: open, or an encoded character, or bytes that are replaced. -/
theorem next?_cases (bytes : List UInt8) :
    (next? bytes = none ∧ Viable bytes ∧ ∀ c, ¬ utf8EncodeChar c <+: bytes) ∨
    (∃ c rest, bytes = utf8EncodeChar c ++ rest ∧
      next? bytes = some (⟨utf8EncodeChar c, some c⟩, rest)) ∨
    (∃ bad rest, bytes = bad ++ rest ∧ Replaced bad bytes ∧ ¬ Viable bytes ∧
      next? bytes = some (⟨bad, none⟩, rest)) := by
  cases bytes with
  | nil =>
    refine .inl ⟨rfl, viable_nil, ?_⟩
    intro c hc
    exact encode_ne_nil c (List.prefix_nil.1 hc)
  | cons lead rest =>
    cases h : continuations lead with
    | none =>
      exact .inr (.inr ⟨[lead], rest, rfl, replaced_lead h rest, not_viable_cons h rest,
        by simp [next?, h]⟩)
    | some ranges =>
      have hnext : next? (lead :: rest) = extend [lead] ranges rest := by simp [next?, h]
      rw [hnext]
      rcases extend_cases [lead] ranges rest with ⟨he, hfits, hlen⟩ |
        ⟨good, more, rfl, hfits, hlen, he⟩ | ⟨good, b, more, rfl, hfits, hnot, hlen, he⟩
      · refine .inl ⟨he, (viable_cons_iff_fits h rest).2 hfits, ?_⟩
        intro c hc
        have hle := hc.length_le
        rw [length_of_encode_isPrefix h hc, List.length_cons] at hle
        omega
      · have hc := encode_scalarValue h hlen hfits
        refine .inr (.inl ⟨Char.ofNat (scalarValue (lead :: good)), more, ?_, ?_⟩)
        · simp [hc]
        · simpa [hc] using he
      · have hviable : ¬ Viable (lead :: (good ++ b :: more)) := by
          rw [viable_cons_iff_fits h]
          intro hf
          exact hnot (hf.of_isPrefix ⟨more, by simp⟩)
        exact .inr (.inr ⟨lead :: good, b :: more, rfl, replaced_good h hfits hnot hlen,
          hviable, he⟩)

/-- Exactly a viable sequence with no encoded character at its front is open. -/
theorem next?_eq_none_iff (bytes : List UInt8) :
    next? bytes = none ↔ Viable bytes ∧ ∀ c, ¬ utf8EncodeChar c <+: bytes := by
  rcases next?_cases bytes with ⟨h, hv, hill⟩ | ⟨c, rest, rfl, h⟩ | ⟨bad, rest, -, -, hv, h⟩
  · exact iff_of_true h ⟨hv, hill⟩
  · exact iff_of_false (by simp [h]) fun hn => hn.2 c ⟨rest, rfl⟩
  · exact iff_of_false (by simp [h]) fun hn => hv hn.1

/-- An encoded character at the front is the first segment. -/
theorem next?_encode (c : Char) (rest : List UInt8) :
    next? (utf8EncodeChar c ++ rest) = some (⟨utf8EncodeChar c, some c⟩, rest) := by
  have hc : utf8EncodeChar c <+: utf8EncodeChar c ++ rest := List.prefix_append _ _
  rcases next?_cases (utf8EncodeChar c ++ rest) with ⟨-, -, hill⟩ | ⟨d, more, hd, h⟩ |
    ⟨bad, more, -, hbad, -⟩
  · exact absurd hc (hill c)
  · obtain rfl := eq_of_encode_isPrefix hc ⟨more, hd.symm⟩
    rw [h, List.append_cancel_left hd]
  · exact absurd hc (hbad.ill_formed c)

/-- Bytes that are replaced at the front are the first segment, unless they are all there is and
more could complete them. -/
theorem next?_replaced {bad rest : List UInt8} (hbad : Replaced bad (bad ++ rest))
    (hv : Viable bad → rest ≠ []) : next? (bad ++ rest) = some (⟨bad, none⟩, rest) := by
  rcases next?_cases (bad ++ rest) with ⟨-, hall, -⟩ | ⟨c, more, hc, -⟩ |
    ⟨bad', more, he, hbad', -, h⟩
  · refine absurd ?_ (hv (hall.of_isPrefix hbad.isPrefix))
    rcases hbad.longest with ⟨-, hmax⟩ | ⟨-, hnone⟩
    · have hle := hmax (bad ++ rest) List.prefix_rfl hall
      rw [List.length_append] at hle
      exact List.length_eq_zero_iff.1 (by omega)
    · exact (List.append_eq_nil_iff.1 (hnone (bad ++ rest) List.prefix_rfl hall)).2
  · exact absurd ⟨more, hc.symm⟩ (hbad.ill_formed c)
  · obtain rfl := hbad.unique hbad'
    rw [h, List.append_cancel_left he]

/-- A segment stays the first when more bytes arrive. -/
theorem extend_append {taken : List UInt8} {ranges : List (UInt8 × UInt8)} {bytes rest : List UInt8}
    {s : Segment} (h : extend taken ranges bytes = some (s, rest)) (more : List UInt8) :
    extend taken ranges (bytes ++ more) = some (s, rest ++ more) := by
  fun_induction extend taken ranges bytes with
  | case1 => simp_all [extend]
  | case2 => simp at h
  | case3 taken low high ranges b bytes hb ih => simpa [extend, hb] using ih h
  | case4 taken low high ranges b bytes hb =>
    simp only [Option.some.injEq, Prod.mk.injEq] at h
    obtain ⟨rfl, rfl⟩ := h
    simp [extend, hb]

theorem next?_append {bytes rest : List UInt8} {s : Segment} (h : next? bytes = some (s, rest))
    (more : List UInt8) : next? (bytes ++ more) = some (s, rest ++ more) := by
  cases bytes with
  | nil => simp [next?] at h
  | cons lead tail =>
    simp only [next?, List.cons_append] at h ⊢
    split at h
    · simp_all
    · exact extend_append h more

theorem splitOnto_of_none (found : Array Segment) {bytes : List UInt8} (h : next? bytes = none) :
    splitOnto found bytes = (found, bytes) := by
  rw [splitOnto]
  split
  · rfl
  · simp_all

theorem splitOnto_of_some (found : Array Segment) {bytes rest : List UInt8} {s : Segment}
    (h : next? bytes = some (s, rest)) :
    splitOnto found bytes = splitOnto (found.push s) rest := by
  rw [splitOnto]
  split
  · simp_all
  · simp_all

theorem split_of_none {bytes : List UInt8} (h : next? bytes = none) :
    split bytes = ([], bytes) := by
  simp [split, splitOnto_of_none #[] h]

/-- Segments found before come before those of the rest. -/
theorem splitOnto_eq (found : Array Segment) (bytes : List UInt8) :
    splitOnto found bytes = (found ++ (split bytes).1, (split bytes).2) := by
  induction h : bytes.length using Nat.strongRecOn generalizing found bytes with
  | ind n ih =>
    subst h
    cases hn : next? bytes with
    | none => simp [splitOnto_of_none found hn, split_of_none hn]
    | some front =>
      obtain ⟨s, rest⟩ := front
      have hrest := fun found => ih rest.length (length_lt_of_next? hn) found rest rfl
      have hs : split bytes = (s :: (split rest).1, (split rest).2) := by
        rw [split, splitOnto_of_some #[] hn, hrest]
        simp
      simp [splitOnto_of_some found hn, hrest, hs]

theorem split_of_some {bytes rest : List UInt8} {s : Segment} (h : next? bytes = some (s, rest)) :
    split bytes = (s :: (split rest).1, (split rest).2) := by
  rw [split, splitOnto_of_some #[] h, splitOnto_eq]
  simp

/-- A byte sequence may be split in two steps, with the tail of its first part in front of the
second. -/
theorem split_append (bytes more : List UInt8) :
    split (bytes ++ more) =
      ((split bytes).1 ++ (split ((split bytes).2 ++ more)).1,
        (split ((split bytes).2 ++ more)).2) := by
  induction h : bytes.length using Nat.strongRecOn generalizing bytes with
  | ind n ih =>
    subst h
    cases hn : next? bytes with
    | none => simp [split_of_none hn]
    | some front =>
      obtain ⟨s, rest⟩ := front
      rw [split_of_some (next?_append hn more), split_of_some hn,
        ih rest.length (length_lt_of_next? hn) rest rfl]
      rfl

/-- The tail is open. -/
theorem next?_tail (bytes : List UInt8) : next? (split bytes).2 = none := by
  induction h : bytes.length using Nat.strongRecOn generalizing bytes with
  | ind n ih =>
    subst h
    cases hn : next? bytes with
    | none => rwa [split_of_none hn]
    | some front =>
      obtain ⟨s, rest⟩ := front
      rw [split_of_some hn]
      exact ih rest.length (length_lt_of_next? hn) rest rfl

@[simp] theorem split_nil : split [] = ([], []) :=
  split_of_none rfl

end StyleScan.Utf8
