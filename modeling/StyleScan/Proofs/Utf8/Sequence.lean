import StyleScan.Utf8.Segment

/-! # Well-formed sequences and their beginnings

A sequence is well-formed if it encodes a character, and viable if it begins a well-formed one.
The lead byte of a sequence fixes the ranges of the bytes after it; these lemmas say that the table
of ranges describes exactly the well-formed and the viable sequences. -/

namespace StyleScan.Utf8

open String (utf8EncodeChar)

/-- More bytes, or none, make this the encoding of a character. -/
def Viable (bytes : List UInt8) : Prop :=
  ∃ c : Char, bytes <+: utf8EncodeChar c

/-- The bytes lie in the ranges as far as they go, and are no more than those. -/
def Fits : List (UInt8 × UInt8) → List UInt8 → Prop
  | _, [] => True
  | [], _ :: _ => False
  | range :: ranges, b :: bytes => (range.1 ≤ b ∧ b ≤ range.2) ∧ Fits ranges bytes

@[simp] theorem fits_nil (ranges : List (UInt8 × UInt8)) : Fits ranges [] := by
  cases ranges <;> trivial

@[simp] theorem not_fits_nil_cons (b : UInt8) (bytes : List UInt8) : ¬ Fits [] (b :: bytes) :=
  id

@[simp] theorem fits_cons (range : UInt8 × UInt8) (ranges : List (UInt8 × UInt8)) (b : UInt8)
    (bytes : List UInt8) :
    Fits (range :: ranges) (b :: bytes) ↔ (range.1 ≤ b ∧ b ≤ range.2) ∧ Fits ranges bytes :=
  Iff.rfl

/-- A prefix of fitting bytes fits. -/
theorem Fits.of_isPrefix {ranges : List (UInt8 × UInt8)} {bytes p : List UInt8}
    (h : Fits ranges bytes) (hp : p <+: bytes) : Fits ranges p := by
  induction p generalizing ranges bytes with
  | nil => exact fits_nil ranges
  | cons b p ih =>
    obtain ⟨rest, rfl⟩ := hp
    cases ranges with
    | nil => exact absurd h (not_fits_nil_cons b _)
    | cons range ranges => exact ⟨h.1, ih h.2 (List.prefix_append p rest)⟩

/-- Fitting bytes can be continued up to the last range. -/
theorem Fits.exists_completion {ranges : List (UInt8 × UInt8)} {bytes : List UInt8}
    (hr : ∀ range ∈ ranges, range.1 ≤ range.2) (h : Fits ranges bytes) :
    ∃ more, (bytes ++ more).length = ranges.length ∧ Fits ranges (bytes ++ more) := by
  induction ranges generalizing bytes with
  | nil =>
    cases bytes with
    | nil => exact ⟨[], rfl, trivial⟩
    | cons b bytes => exact absurd h (not_fits_nil_cons b bytes)
  | cons range ranges ih =>
    have hrest : ∀ r ∈ ranges, r.1 ≤ r.2 := fun r hmem => hr r (List.mem_cons_of_mem range hmem)
    cases bytes with
    | nil =>
      obtain ⟨more, hlen, hfits⟩ := ih hrest (fits_nil ranges)
      have hrange := hr range List.mem_cons_self
      refine ⟨range.1 :: more, ?_, ⟨UInt8.le_refl range.1, hrange⟩, hfits⟩
      simpa using hlen
    | cons b bytes =>
      obtain ⟨more, hlen, hfits⟩ := ih hrest h.2
      refine ⟨more, ?_, h.1, hfits⟩
      simpa using hlen

/-- The rows of the table, one for each length.  In the longer ones the range of the second byte
depends on the lead byte. -/
inductive Row (lead : Nat) : List (UInt8 × UInt8) → Prop where
  | one (h : lead ≤ 0x7f) : Row lead []
  | two (h : 0xc2 ≤ lead ∧ lead ≤ 0xdf) : Row lead [(0x80, 0xbf)]
  | three (h : 0xe0 ≤ lead ∧ lead ≤ 0xef) :
    Row lead [(if lead = 0xe0 then 0xa0 else 0x80, if lead = 0xed then 0x9f else 0xbf),
      (0x80, 0xbf)]
  | four (h : 0xf0 ≤ lead ∧ lead ≤ 0xf4) :
    Row lead [(if lead = 0xf0 then 0x90 else 0x80, if lead = 0xf4 then 0x8f else 0xbf),
      (0x80, 0xbf), (0x80, 0xbf)]

/-- The table has exactly these rows. -/
theorem continuations_eq_some_iff (lead : UInt8) (ranges : List (UInt8 × UInt8)) :
    continuations lead = some ranges ↔ Row lead.toNat ranges := by
  unfold continuations
  simp only [UInt8.le_iff_toNat_le, UInt8.lt_iff_toNat_lt, ← UInt8.toNat_inj, UInt8.reduceToNat]
  constructor
  · intro h
    (repeat' split at h) <;> cases h
    · exact .one (by omega)
    · exact .two (by omega)
    -- three rows of the code for three bytes, and three for four
    iterate 3
      · have hrow : Row lead.toNat _ := .three (by omega)
        simpa [*] using hrow
    · have hrow : Row lead.toNat _ := .four (by omega)
      simpa [*] using hrow
    · have hne : lead.toNat ≠ 0xf4 := by omega
      have hrow : Row lead.toNat _ := .four (by omega)
      simpa [*] using hrow
    · have hrow : Row lead.toNat _ := .four (by omega)
      simpa [*] using hrow
  · intro h
    cases h with
    | one h => rw [if_pos h]
    | two h => rw [if_neg (by omega), if_neg (by omega), if_pos h.2]
    | three h =>
      rw [if_neg (by omega), if_neg (by omega), if_neg (by omega)]
      by_cases hlow : lead.toNat = 0xe0
      · simp [hlow]
      by_cases hhigh : lead.toNat = 0xed
      · simp [hhigh]
      · simp [hlow, hhigh, h.2]
    | four h =>
      rw [if_neg (by omega), if_neg (by omega), if_neg (by omega), if_neg (by omega),
        if_neg (by omega), if_neg (by omega)]
      by_cases hlow : lead.toNat = 0xf0
      · simp [hlow]
      by_cases hhigh : lead.toNat = 0xf4
      · simp [hhigh]
      · rw [if_neg hlow, if_pos (by omega), if_neg hlow, if_neg hhigh]

/-- No range in the table is empty. -/
theorem low_le_high_of_continuations {lead : UInt8} {ranges : List (UInt8 × UInt8)}
    (h : continuations lead = some ranges) : ∀ range ∈ ranges, range.1 ≤ range.2 := by
  cases (continuations_eq_some_iff lead ranges).1 h with
  | one => simp
  | two => simp [UInt8.le_iff_toNat_le]
  | three =>
    simp only [List.forall_mem_cons, UInt8.le_iff_toNat_le, UInt8.reduceToNat]
    (repeat' split) <;> simp
    omega
  | four =>
    simp only [List.forall_mem_cons, UInt8.le_iff_toNat_le, UInt8.reduceToNat]
    (repeat' split) <;> simp
    omega

/-- An encoded character is a lead byte with as many bytes after it as the table has ranges, each
in its range. -/
theorem exists_fits_of_encode (c : Char) : ∃ lead tail ranges, utf8EncodeChar c = lead :: tail ∧
    continuations lead = some ranges ∧ tail.length = ranges.length ∧ Fits ranges tail ∧
    scalarValue (lead :: tail) = c.toNat := by
  have hv : c.toNat < 0xd800 ∨ 0xdfff < c.toNat ∧ c.toNat < 0x110000 := c.valid
  simp only [continuations_eq_some_iff]
  unfold utf8EncodeChar
  simp only [Char.toNat_val]
  generalize c.toNat = v at hv ⊢
  by_cases h1 : v ≤ 0x7f
  · rw [if_pos h1]
    refine ⟨_, _, _, rfl, .one ?_, rfl, fits_nil _, ?_⟩
    all_goals simp only [scalarValue, UInt8.toNat_ofNat']; omega
  rw [if_neg h1]
  by_cases h2 : v ≤ 0x7ff
  · rw [if_pos h2]
    refine ⟨_, _, _, rfl, .two ?_, rfl, ?_, ?_⟩
    all_goals simp [scalarValue, UInt8.le_iff_toNat_le]; omega
  rw [if_neg h2]
  by_cases h3 : v ≤ 0xffff
  · rw [if_pos h3]
    refine ⟨_, _, _, rfl, .three ?_, rfl, ?_, ?_⟩
    · simp only [UInt8.toNat_ofNat']
      omega
    · simp only [fits_cons, fits_nil, and_true, UInt8.le_iff_toNat_le, UInt8.toNat_ofNat']
      (repeat' split) <;> simp only [UInt8.reduceToNat] <;> omega
    · simp only [scalarValue, UInt8.toNat_ofNat']
      omega
  rw [if_neg h3]
  refine ⟨_, _, _, rfl, .four ?_, rfl, ?_, ?_⟩
  · simp only [UInt8.toNat_ofNat']
    omega
  · simp only [fits_cons, fits_nil, and_true, UInt8.le_iff_toNat_le, UInt8.toNat_ofNat']
    (repeat' split) <;> simp only [UInt8.reduceToNat] <;> omega
  · simp only [scalarValue, UInt8.toNat_ofNat']
    omega

section Encoding

variable {a b c d : UInt8}

theorem toNat_ofNat_of_isValidChar {v : Nat} (hv : v.isValidChar) : (Char.ofNat v).toNat = v := by
  rw [Char.ofNat, dif_pos hv]
  rfl

theorem encode_one (ha : a.toNat ≤ 0x7f) :
    utf8EncodeChar (Char.ofNat (scalarValue [a])) = [a] := by
  have hs : scalarValue [a] = a.toNat := rfl
  have hv : (scalarValue [a]).isValidChar := .inl (by omega)
  unfold utf8EncodeChar
  simp only [Char.toNat_val, toNat_ofNat_of_isValidChar hv]
  rw [hs, if_pos ha, UInt8.ofNat_toNat]

theorem encode_two (ha : 0xc2 ≤ a.toNat ∧ a.toNat ≤ 0xdf)
    (hb : 0x80 ≤ b.toNat ∧ b.toNat ≤ 0xbf) :
    utf8EncodeChar (Char.ofNat (scalarValue [a, b])) = [a, b] := by
  have hs : scalarValue [a, b] = a.toNat % 32 * 64 + b.toNat % 64 := rfl
  have hv : (scalarValue [a, b]).isValidChar := .inl (by omega)
  unfold utf8EncodeChar
  simp only [Char.toNat_val, toNat_ofNat_of_isValidChar hv]
  generalize scalarValue [a, b] = v at hs ⊢
  rw [if_neg (by omega), if_pos (by omega)]
  simp only [List.cons.injEq, ← UInt8.toNat_inj, UInt8.toNat_ofNat', and_true]
  omega

theorem encode_three (ha : 0xe0 ≤ a.toNat ∧ a.toNat ≤ 0xef)
    (hb : 0x80 ≤ b.toNat ∧ b.toNat ≤ 0xbf) (hc : 0x80 ≤ c.toNat ∧ c.toNat ≤ 0xbf)
    (hlong : a.toNat = 0xe0 → 0xa0 ≤ b.toNat) (hscalar : a.toNat = 0xed → b.toNat ≤ 0x9f) :
    utf8EncodeChar (Char.ofNat (scalarValue [a, b, c])) = [a, b, c] := by
  have hs : scalarValue [a, b, c] =
    (a.toNat % 16 * 64 + b.toNat % 64) * 64 + c.toNat % 64 := rfl
  have hv : (scalarValue [a, b, c]).isValidChar := by
    unfold Nat.isValidChar
    omega
  unfold utf8EncodeChar
  simp only [Char.toNat_val, toNat_ofNat_of_isValidChar hv]
  generalize scalarValue [a, b, c] = v at hs ⊢
  rw [if_neg (by omega), if_neg (by omega), if_pos (by omega)]
  simp only [List.cons.injEq, ← UInt8.toNat_inj, UInt8.toNat_ofNat', and_true]
  omega

theorem encode_four (ha : 0xf0 ≤ a.toNat ∧ a.toNat ≤ 0xf4)
    (hb : 0x80 ≤ b.toNat ∧ b.toNat ≤ 0xbf) (hc : 0x80 ≤ c.toNat ∧ c.toNat ≤ 0xbf)
    (hd : 0x80 ≤ d.toNat ∧ d.toNat ≤ 0xbf) (hlong : a.toNat = 0xf0 → 0x90 ≤ b.toNat)
    (hscalar : a.toNat = 0xf4 → b.toNat ≤ 0x8f) :
    utf8EncodeChar (Char.ofNat (scalarValue [a, b, c, d])) = [a, b, c, d] := by
  have hs : scalarValue [a, b, c, d] =
    ((a.toNat % 8 * 64 + b.toNat % 64) * 64 + c.toNat % 64) * 64 + d.toNat % 64 := rfl
  have hv : (scalarValue [a, b, c, d]).isValidChar := by
    unfold Nat.isValidChar
    omega
  unfold utf8EncodeChar
  simp only [Char.toNat_val, toNat_ofNat_of_isValidChar hv]
  generalize scalarValue [a, b, c, d] = v at hs ⊢
  rw [if_neg (by omega), if_neg (by omega), if_neg (by omega)]
  simp only [List.cons.injEq, ← UInt8.toNat_inj, UInt8.toNat_ofNat', and_true]
  omega

end Encoding

/-- A lead byte with as many bytes after it as the table has ranges, each in its range, is an
encoded character. -/
theorem encode_scalarValue {lead : UInt8} {tail : List UInt8} {ranges : List (UInt8 × UInt8)}
    (h : continuations lead = some ranges) (hlen : tail.length = ranges.length)
    (hfits : Fits ranges tail) :
    utf8EncodeChar (Char.ofNat (scalarValue (lead :: tail))) = lead :: tail := by
  cases (continuations_eq_some_iff lead ranges).1 h with
  | one hlead =>
    obtain rfl := List.length_eq_zero_iff.1 hlen
    exact encode_one hlead
  | two hlead =>
    match tail, hlen with
    | [b], _ =>
      simp only [fits_cons, fits_nil, and_true, UInt8.le_iff_toNat_le, UInt8.reduceToNat] at hfits
      exact encode_two hlead hfits
  | three hlead =>
    match tail, hlen with
    | [b, c], _ =>
      simp only [fits_cons, fits_nil, and_true, UInt8.le_iff_toNat_le, apply_ite UInt8.toNat,
        UInt8.reduceToNat] at hfits
      obtain ⟨⟨hlow, hhigh⟩, hc⟩ := hfits
      apply encode_three hlead _ hc
      · intro ha
        rwa [if_pos ha] at hlow
      · intro ha
        rwa [if_pos ha] at hhigh
      · split at hlow <;> split at hhigh <;> omega
  | four hlead =>
    match tail, hlen with
    | [b, c, d], _ =>
      simp only [fits_cons, fits_nil, and_true, UInt8.le_iff_toNat_le, apply_ite UInt8.toNat,
        UInt8.reduceToNat] at hfits
      obtain ⟨⟨hlow, hhigh⟩, hc, hd⟩ := hfits
      apply encode_four hlead _ hc hd
      · intro ha
        rwa [if_pos ha] at hlow
      · intro ha
        rwa [if_pos ha] at hhigh
      · split at hlow <;> split at hhigh <;> omega

theorem viable_nil : Viable [] :=
  ⟨default, List.nil_prefix⟩

theorem viable_encode (c : Char) : Viable (utf8EncodeChar c) :=
  ⟨c, List.prefix_rfl⟩

theorem Viable.of_isPrefix {bytes p : List UInt8} (h : Viable bytes) (hp : p <+: bytes) :
    Viable p := by
  obtain ⟨c, hc⟩ := h
  exact ⟨c, hp.trans hc⟩

/-- The table of continuations describes exactly the viable sequences. -/
theorem viable_cons_iff (lead : UInt8) (tail : List UInt8) :
    Viable (lead :: tail) ↔ ∃ ranges, continuations lead = some ranges ∧ Fits ranges tail := by
  constructor
  · rintro ⟨c, hc⟩
    obtain ⟨a, rest, ranges, he, hr, -, hfits, -⟩ := exists_fits_of_encode c
    rw [he, List.cons_prefix_cons] at hc
    obtain ⟨rfl, hp⟩ := hc
    exact ⟨ranges, hr, hfits.of_isPrefix hp⟩
  · rintro ⟨ranges, hr, hfits⟩
    obtain ⟨more, hlen, hall⟩ := hfits.exists_completion (low_le_high_of_continuations hr)
    refine ⟨Char.ofNat (scalarValue (lead :: (tail ++ more))), ?_⟩
    rw [encode_scalarValue hr hlen hall]
    exact ⟨more, rfl⟩

theorem viable_cons_iff_fits {lead : UInt8} {ranges : List (UInt8 × UInt8)}
    (h : continuations lead = some ranges) (tail : List UInt8) :
    Viable (lead :: tail) ↔ Fits ranges tail := by
  simp [viable_cons_iff, h]

theorem not_viable_cons {lead : UInt8} (h : continuations lead = none) (tail : List UInt8) :
    ¬ Viable (lead :: tail) := by
  simp [viable_cons_iff, h]

theorem encode_ne_nil (c : Char) : utf8EncodeChar c ≠ [] := by
  obtain ⟨lead, tail, ranges, he, -⟩ := exists_fits_of_encode c
  simp [he]

/-- The lead byte of an encoded character fixes its length. -/
theorem length_of_encode_isPrefix {c : Char} {lead : UInt8} {rest : List UInt8}
    {ranges : List (UInt8 × UInt8)} (h : continuations lead = some ranges)
    (hc : utf8EncodeChar c <+: lead :: rest) : (utf8EncodeChar c).length = ranges.length + 1 := by
  obtain ⟨a, tail, ranges', he, hr, hlen, -⟩ := exists_fits_of_encode c
  rw [he, List.cons_prefix_cons] at hc
  obtain ⟨rfl, -⟩ := hc
  obtain rfl : ranges' = ranges := by simpa [hr] using h
  simp [he, hlen]

/-- At most one character's encoding stands at the front of a byte sequence. -/
theorem eq_of_encode_isPrefix {c d : Char} {bytes : List UInt8} (hc : utf8EncodeChar c <+: bytes)
    (hd : utf8EncodeChar d <+: bytes) : c = d := by
  obtain ⟨a, s, ranges, hcs, hr, hlen, -, hcv⟩ := exists_fits_of_encode c
  obtain ⟨b, t, ranges', hdt, hr', hlen', -, hdv⟩ := exists_fits_of_encode d
  rw [hcs] at hc
  rw [hdt] at hd
  obtain ⟨u, rfl⟩ := hc
  obtain ⟨rfl, hp⟩ := List.cons_prefix_cons.1 hd
  obtain rfl : ranges' = ranges := by simpa [hr] using hr'.symm
  obtain rfl : t = s := by
    have hs : s <+: s ++ u := List.prefix_append s u
    exact (List.prefix_of_prefix_length_le hp hs (by omega)).eq_of_length (by omega)
  rw [← Char.toNat_inj, ← hcv, ← hdv]

end StyleScan.Utf8
