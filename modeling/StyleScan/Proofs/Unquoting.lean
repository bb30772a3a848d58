import StyleScan.Proofs.Numerals

/-! # Reading quoted text

A quoted text is read character by character.  An escape says which character it stands for, and
every other character stands for itself, so that a text is read back whichever characters count as
shown (`unquote?_quotedChars`). -/

namespace StyleScan.Text

/-- The character that a letter stands for after a backslash, unless its number follows. -/
def ofLetter (c : Char) : Char :=
  if c = '0' then '\x00'
  else if c = 't' then '\t'
  else if c = 'r' then '\r'
  else if c = 'n' then '\n'
  else c

/-- Reads an escape, from after its backslash. -/
def unescape? : List Char → Option (Char × List Char)
  | [] => none
  | c :: cs =>
    if c = 'u' then
      let digits := (cs.drop 1).takeWhile (· ≠ '\x7d')
      (hexNumber? digits).map fun n => (Char.ofNat n, cs.drop (digits.length + 2))
    else some (ofLetter c, cs)

/-- Reads one character between the marks. -/
def unquoteChar? : List Char → Option (Char × List Char)
  | [] => none
  | c :: cs =>
    if c = stringMark then none
    else if c = '\\' then unescape? cs
    else some (c, cs)

theorem length_unescape?_lt {cs rest : List Char} {c : Char}
    (h : unescape? cs = some (c, rest)) : rest.length < cs.length := by
  cases cs with
  | nil => cases h
  | cons d cs =>
    simp only [unescape?] at h
    split at h
    next =>
      obtain ⟨n, -, hn⟩ := Option.map_eq_some_iff.mp h
      obtain ⟨-, rfl⟩ := Prod.mk.inj hn
      simp only [List.length_drop, List.length_cons]
      omega
    next =>
      cases h
      exact Nat.lt_succ_self _

theorem length_unquoteChar?_lt {cs rest : List Char} {c : Char}
    (h : unquoteChar? cs = some (c, rest)) : rest.length < cs.length := by
  cases cs with
  | nil => cases h
  | cons d cs =>
    simp only [unquoteChar?] at h
    split at h
    next => cases h
    next =>
      split at h
      next => exact Nat.lt_succ_of_lt (length_unescape?_lt h)
      next =>
        cases h
        exact Nat.lt_succ_self _

/-- Reads a quoted text from after its opening mark. -/
def unquote? (cs : List Char) : Option (List Char) :=
  if cs = [stringMark] then some []
  else
    match _ : unquoteChar? cs with
    | none => none
    | some (c, rest) => (unquote? rest).map (c :: ·)
termination_by cs.length
decreasing_by exact length_unquoteChar?_lt (by assumption)

@[simp] theorem unquote?_mark : unquote? [stringMark] = some [] := by
  rw [unquote?, if_pos rfl]

theorem unquote?_of_unquoteChar? {cs rest : List Char} {c : Char}
    (h : unquoteChar? cs = some (c, rest)) : unquote? cs = (unquote? rest).map (c :: ·) := by
  have hne : cs ≠ [stringMark] := by
    rintro rfl
    cases h
  rw [unquote?, if_neg hne]
  split
  next hnone => simp [hnone] at h
  next d after hsome =>
    rw [h] at hsome
    cases hsome
    rfl

/-- What is written for a character is a letter after a backslash, the character itself, or its
number. -/
theorem escape_cases (shown : Char → Bool) (c : Char) :
    (∃ d, d ≠ 'u' ∧ d ≠ '\n' ∧ ofLetter d = c ∧ escape shown stringMark c = ['\\', d]) ∨
      (c ≠ stringMark ∧ c ≠ '\\' ∧ c ≠ '\n' ∧ escape shown stringMark c = [c]) ∨
      escape shown stringMark c = numericEscape c := by
  unfold escape
  by_cases hzero : c = '\x00'
  · exact .inl ⟨'0', by decide, by decide, hzero.symm, if_pos hzero⟩
  rw [if_neg hzero]
  by_cases htab : c = '\t'
  · exact .inl ⟨'t', by decide, by decide, htab.symm, if_pos htab⟩
  rw [if_neg htab]
  by_cases hreturn : c = '\r'
  · exact .inl ⟨'r', by decide, by decide, hreturn.symm, if_pos hreturn⟩
  rw [if_neg hreturn]
  by_cases hfeed : c = '\n'
  · exact .inl ⟨'n', by decide, by decide, hfeed.symm, if_pos hfeed⟩
  rw [if_neg hfeed]
  by_cases hself : c = stringMark ∨ c = '\\'
  · refine .inl ⟨c, ?_, hfeed, ?_, if_pos hself⟩
    · rcases hself with rfl | rfl <;> decide
    · rcases hself with rfl | rfl <;> rfl
  rw [if_neg hself]
  obtain ⟨hmark, hslash⟩ := not_or.mp hself
  by_cases hshown : shown c
  · exact .inr (.inl ⟨hmark, hslash, hfeed, if_pos hshown⟩)
  · exact .inr (.inr (if_neg hshown))

/-- A quoted text stands on one line. -/
theorem newline_not_mem_quotedChars (shown : Char → Bool) (cs : List Char) :
    '\n' ∉ quotedChars shown cs := by
  have hescape (c : Char) : '\n' ∉ escape shown stringMark c := by
    obtain ⟨d, -, hd, -, h⟩ | ⟨-, -, hc, h⟩ | h := escape_cases shown c
    · simp [h, hd.symm]
    · simp [h, hc.symm]
    · have hdigits : '\n' ∉ hexDigits c.toNat := by
        intro hmem
        obtain ⟨k, hk, heq⟩ := exists_digitChar_of_mem_hexDigits hmem
        have hfeed : ∀ k < 16, '\n' ≠ Nat.digitChar k := by decide
        exact hfeed k hk heq
      simp [h, numericEscape, hdigits]
  have hmark : '\n' ≠ stringMark := by decide
  simp [quotedChars, hescape, hmark]

theorem unquoteChar?_backslash (cs : List Char) : unquoteChar? ('\\' :: cs) = unescape? cs := rfl

/-- A letter after a backslash stands for its character, if its number does not follow. -/
theorem unescape?_letter {c : Char} (h : c ≠ 'u') (rest : List Char) :
    unescape? (c :: rest) = some (ofLetter c, rest) :=
  if_neg h

/-- A numeric escape stands for the character with that number. -/
theorem unquoteChar?_numericEscape (c : Char) (rest : List Char) :
    unquoteChar? (numericEscape c ++ rest) = some (c, rest) := by
  have hdigits : (hexDigits c.toNat ++ '\x7d' :: rest).takeWhile (· ≠ '\x7d') =
      hexDigits c.toNat := by
    apply takeWhile_append_of_stop
    · intro d hd
      obtain ⟨k, hk, rfl⟩ := exists_digitChar_of_mem_hexDigits hd
      have hbrace : ∀ k < 16, Nat.digitChar k ≠ '\x7d' := by decide
      simp [hbrace k hk]
    · simp
  have hshape : numericEscape c ++ rest =
      '\\' :: 'u' :: '\x7b' :: (hexDigits c.toNat ++ '\x7d' :: rest) := by
    simp [numericEscape]
  rw [hshape, unquoteChar?_backslash, unescape?, if_pos rfl]
  simp only [List.drop_succ_cons, List.drop_zero, hdigits, hexNumber?_hexDigits]
  simp

/-- What is written for a character is read as that character. -/
theorem unquoteChar?_escape (shown : Char → Bool) (c : Char) (rest : List Char) :
    unquoteChar? (escape shown stringMark c ++ rest) = some (c, rest) := by
  obtain ⟨d, hd, -, hc, h⟩ | ⟨hmark, hslash, -, h⟩ | h := escape_cases shown c
  · rw [h, List.cons_append, unquoteChar?_backslash, List.singleton_append, unescape?_letter hd, hc]
  · rw [h]
    exact (if_neg hmark).trans (if_neg hslash)
  · rw [h]
    exact unquoteChar?_numericEscape c rest

/-- A quoted text is read as that text. -/
theorem unquote?_quotedChars (shown : Char → Bool) (cs : List Char) :
    unquote? (quotedChars shown cs).tail = some cs := by
  change unquote? (cs.flatMap (escape shown stringMark) ++ [stringMark]) = some cs
  induction cs with
  | nil => exact unquote?_mark
  | cons c cs ih =>
    rw [List.flatMap_cons, List.append_assoc,
      unquote?_of_unquoteChar? (unquoteChar?_escape shown c _), ih, Option.map_some]

end StyleScan.Text
