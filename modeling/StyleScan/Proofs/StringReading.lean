import StyleScan.Proofs.JsonGrammar
import StyleScan.Proofs.JsonReading
import StyleScan.Proofs.Utf8.Sequence

/-! # Reading strings of any spelling

A string is read as what it spells, however its characters are written, and what is read from a
string is what it spells (`reads_spelled`, `spells_of_stringFrom`). -/

namespace StyleScan.Config

theorem hexValue?_of_isHexDigit {c : Char} {n : Nat} (h : IsHexDigit c n) :
    hexValue? c = some n := by
  have hall : ∀ n < 16, hexValue? (Nat.digitChar n) = some n ∧
      hexValue? (Nat.digitChar n).toUpper = some n := by decide
  obtain ⟨hn, rfl | rfl⟩ := h
  · exact (hall n hn).1
  · exact (hall n hn).2

theorem IsFourDigits.lt {ds : List Char} {n : Nat} (h : IsFourDigits ds n) : n < 0x10000 := by
  obtain ⟨⟨hi, -⟩, ⟨hj, -⟩, ⟨hk, -⟩, ⟨hl, -⟩⟩ := h
  omega

theorem shortEscape?_of_mem {x c : Char} (h : (x, c) ∈ letterEscapes) :
    shortEscape? x = some c ∧ x ≠ 'u' := by
  have hall : ∀ p ∈ letterEscapes, shortEscape? p.1 = some p.2 ∧ p.1 ≠ 'u' := by decide
  exact hall (x, c) h

/-- A character is no half of a surrogate pair. -/
theorem not_surrogate (c : Char) : isLeading c.toNat = false ∧ isTrailing c.toNat = false := by
  have hvalid : c.toNat < 0xd800 ∨ 0xdfff < c.toNat ∧ c.toNat < 0x110000 := c.valid
  constructor <;> exact decide_eq_false (by omega)

namespace Cursor

/-- Four digits are read as their number. -/
theorem reads_fourDigits {ds : List Char} {n : Nat} (h : IsFourDigits ds n) (rest : List Char) :
    Reads fourDigits (ds ++ rest) n rest := by
  intro m
  obtain ⟨m', hskip⟩ := exists_skip ds rest m
  obtain ⟨ha, hb, hc, hd⟩ := h
  refine ⟨m', ?_⟩
  rw [fourDigits, ← hskip]
  simp [fourDigits?, hexValue?_of_isHexDigit ha, hexValue?_of_isHexDigit hb,
    hexValue?_of_isHexDigit hc, hexValue?_of_isHexDigit hd]

/-- Outside the surrogates, a numeric escape stands for the character with its number. -/
theorem reads_numericEscape {ds : List Char} {n : Nat} (h : IsFourDigits ds n)
    (hl : isLeading n = false) (ht : isTrailing n = false) (rest : List Char) :
    Reads numericEscape (ds ++ rest) (Char.ofNat n) rest := by
  intro m
  obtain ⟨m', hread⟩ := reads_fourDigits h rest m
  refine ⟨m', ?_⟩
  simp [numericEscape, hread, hl, ht, bind, Except.bind, pure, Except.pure]

/-- Reads the second half of a surrogate pair after the first, from its backslash on. -/
def lowerHalf (upper : Nat) (c : Cursor) : Except ConfigError (Char × Cursor) := do
  let c ← c.joint '\\'
  let c ← c.joint 'u'
  let (lower, c) ← c.fourDigits
  if isTrailing lower then return (ofPair upper lower, c) else c.fail .loneSurrogate

/-- After the first half of a pair, its second half is read. -/
theorem exists_numericEscape_eq_lowerHalf {ds : List Char} {n : Nat} (h : IsFourDigits ds n)
    (hl : isLeading n) (rest : List Char) (m : Mark) :
    ∃ m', numericEscape ⟨ds ++ rest, m⟩ = lowerHalf n ⟨rest, m'⟩ := by
  obtain ⟨m', hread⟩ := reads_fourDigits h rest m
  have ht : isTrailing n = false := by
    rw [isLeading, decide_eq_true_iff] at hl
    exact decide_eq_false (by omega)
  refine ⟨m', ?_⟩
  simp [numericEscape, hread, hl, ht, lowerHalf, bind, Except.bind]

/-- The second half of a pair cannot stand alone. -/
theorem numericEscape_of_trailing {ds : List Char} {n : Nat} (h : IsFourDigits ds n)
    (ht : isTrailing n) (rest : List Char) (m : Mark) (r : Char × Cursor) :
    numericEscape ⟨ds ++ rest, m⟩ ≠ .ok r := by
  obtain ⟨m', hread⟩ := reads_fourDigits h rest m
  simp [numericEscape, hread, ht, fail, bind, Except.bind]

theorem joint_self (c : Char) (rest : List Char) (m : Mark) :
    joint ⟨c :: rest, m⟩ c = .ok ⟨rest, m.after c⟩ := by
  simp [joint, advance]

theorem joint_ne {x c : Char} (h : x ≠ c) (rest : List Char) (m : Mark) :
    joint ⟨x :: rest, m⟩ c = .error ⟨.unexpectedEndOfEscape, ahead ⟨x :: rest, m⟩⟩ := by
  simp [joint, h, failAhead]

/-- The halves of a pair stand for one character. -/
theorem reads_lowerHalf (upper : Nat) {es : List Char} {lower : Nat} (hes : IsFourDigits es lower)
    (hl : isTrailing lower) (rest : List Char) :
    Reads (lowerHalf upper) ('\\' :: 'u' :: (es ++ rest)) (ofPair upper lower) rest := by
  intro m
  obtain ⟨m', hread⟩ := reads_fourDigits hes rest ((m.after '\\').after 'u')
  refine ⟨m', ?_⟩
  simp [lowerHalf, joint_self, hread, hl, bind, Except.bind, pure, Except.pure]

theorem escape_u (rest : List Char) (m : Mark) :
    escape ⟨'u' :: rest, m⟩ = numericEscape ⟨rest, m.after 'u'⟩ := rfl

/-- A character is read in whichever way it is written. -/
theorem exists_stringFrom_spelled {piece : List Char} {c : Char} (h : SpellsChar piece c)
    (read : String) (rest : List Char) (m : Mark) :
    ∃ m', stringFrom read ⟨piece ++ rest, m⟩ = stringFrom (read.push c) ⟨rest, m'⟩ := by
  cases h with
  | plain hc =>
    obtain ⟨hmark, hslash, hcontrol⟩ := hc
    exact ⟨_, stringFrom_plain read hmark hslash (by omega) rest m⟩
  | letter hx =>
    exact ⟨_, stringFrom_backslash read
      (escape_of_shortEscape? (shortEscape?_of_mem hx).1 rest (m.after '\\'))⟩
  | number hds =>
    obtain ⟨hl, ht⟩ := not_surrogate c
    obtain ⟨m', hread⟩ := reads_numericEscape hds hl ht rest ((m.after '\\').after 'u')
    rw [Char.ofNat_toNat] at hread
    exact ⟨m', stringFrom_backslash read ((escape_u _ _).trans hread)⟩
  | @pair _ upper lower ds es hu hu' hl hl' hc hds hes =>
    have hpair : ofPair upper lower = c :=
      (congrArg Char.ofNat (by omega)).trans (Char.ofNat_toNat c)
    obtain ⟨m₁, hfirst⟩ := exists_numericEscape_eq_lowerHalf hds
      (decide_eq_true ⟨hu, by omega⟩) ('\\' :: 'u' :: (es ++ rest)) ((m.after '\\').after 'u')
    obtain ⟨m₂, hread⟩ := reads_lowerHalf upper hes (decide_eq_true ⟨hl, by omega⟩) rest m₁
    rw [hpair] at hread
    refine ⟨m₂, ?_⟩
    rw [List.cons_append, List.cons_append, List.append_assoc]
    exact stringFrom_backslash read ((escape_u _ _).trans (hfirst.trans hread))

/-- A string is read as what it spells, behind what has been read of it already. -/
theorem exists_stringFrom_spells {body cs : List Char} (h : Spells body cs) (read : String)
    (rest : List Char) (m : Mark) :
    ∃ m', stringFrom read ⟨body ++ '\x22' :: rest, m⟩ =
      .ok (read ++ String.ofList cs, ⟨rest, m'⟩) := by
  induction h generalizing read m with
  | nil =>
    rw [String.ofList_nil, String.append_empty]
    exact ⟨_, stringFrom_mark read rest m⟩
  | @cons piece body cs c hc _ ih =>
    rw [List.append_assoc]
    obtain ⟨m₁, hone⟩ := exists_stringFrom_spelled hc read (body ++ '\x22' :: rest) m
    obtain ⟨m₂, hmore⟩ := ih (read.push c) m₁
    refine ⟨m₂, hone.trans (hmore.trans ?_)⟩
    rw [String.ofList_cons, ← String.append_assoc, String.push_eq_append]

/-- A string is read as what it spells, from after its opening mark. -/
theorem reads_spelled {body : List Char} {s : String} (h : Spells body s.toList)
    (rest : List Char) : Reads string (body ++ '\x22' :: rest) s rest := by
  intro m
  obtain ⟨m', hread⟩ := exists_stringFrom_spells h "" rest m
  rw [String.empty_append, String.ofList_toList] at hread
  exact ⟨m', hread⟩

/-! ## What a string that is read spells -/

/-- After the first half of a pair, a string that is read goes on with its second half. -/
theorem exists_of_lowerHalf {upper : Nat} {body rest : List Char} {m : Mark} {c : Char} {d : Cursor}
    (hbody : IsStringBody body) (h : lowerHalf upper ⟨body ++ '\x22' :: rest, m⟩ = .ok (c, d)) :
    ∃ es lower body', body = '\\' :: 'u' :: (es ++ body') ∧ IsFourDigits es lower ∧
      isTrailing lower ∧ IsStringBody body' ∧ c = ofPair upper lower ∧
      d.rest = body' ++ '\x22' :: rest := by
  cases hbody with
  | nil =>
    have hne : '\x22' ≠ '\\' := by decide
    simp [lowerHalf, joint_ne hne, bind, Except.bind] at h
  | plain hc => simp [lowerHalf, joint_ne hc.2.1, bind, Except.bind] at h
  | letter hx =>
    have hne := (shortEscape?_of_mem hx).2
    simp [lowerHalf, joint_self, joint_ne hne, bind, Except.bind] at h
  | @number es body' lower hes hbody' =>
    obtain ⟨m', hread⟩ := reads_fourDigits hes (body' ++ '\x22' :: rest) ((m.after '\\').after 'u')
    refine ⟨es, lower, body', rfl, hes, ?_⟩
    rw [List.cons_append, List.cons_append, List.append_assoc] at h
    simp only [lowerHalf, joint_self, hread, bind, Except.bind] at h
    split at h
    next hl =>
      simp only [pure, Except.pure, Except.ok.injEq, Prod.mk.injEq] at h
      exact ⟨hl, hbody', h.1.symm, h.2 ▸ rfl⟩
    next => cases h

theorem exists_escape_of_stringFrom {read s : String} {rest : List Char} {m : Mark} {c : Cursor}
    (h : stringFrom read ⟨'\\' :: rest, m⟩ = .ok (s, c)) :
    ∃ x d, escape ⟨rest, m.after '\\'⟩ = .ok (x, d) ∧ stringFrom (read.push x) d = .ok (s, c) := by
  have hmark : '\\' ≠ '\x22' := by decide
  rw [stringFrom] at h
  dsimp only at h
  rw [if_neg hmark, if_pos rfl] at h
  split at h
  next => cases h
  next x d hescape => exact ⟨x, d, hescape, h⟩

/-- A number outside the surrogates is that of a character. -/
theorem toNat_ofNat_of_not_surrogate {n : Nat} (h : n < 0x110000) (hl : isLeading n = false)
    (ht : isTrailing n = false) : (Char.ofNat n).toNat = n := by
  simp only [isLeading, isTrailing, decide_eq_false_iff_not] at hl ht
  exact Utf8.toNat_ofNat_of_isValidChar (by rw [Nat.isValidChar]; omega)

/-- What is read of a numeric escape is spelled by it, together with the second half of its pair. -/
theorem exists_of_numericEscape {ds body rest : List Char} {n : Nat} {m : Mark} {c : Char}
    {d : Cursor} (hds : IsFourDigits ds n) (hbody : IsStringBody body)
    (h : numericEscape ⟨ds ++ (body ++ '\x22' :: rest), m⟩ = .ok (c, d)) :
    ∃ piece body', '\\' :: 'u' :: (ds ++ body) = piece ++ body' ∧ SpellsChar piece c ∧
      IsStringBody body' ∧ d.rest = body' ++ '\x22' :: rest := by
  have hn := hds.lt
  by_cases ht : isTrailing n
  · exact absurd h (numericEscape_of_trailing hds ht _ m _)
  by_cases hl : isLeading n
  · obtain ⟨m', hlower⟩ := exists_numericEscape_eq_lowerHalf hds hl (body ++ '\x22' :: rest) m
    obtain ⟨es, lower, body', rfl, hes, hl', hbody', hc, hrest⟩ :=
      exists_of_lowerHalf hbody (hlower.symm.trans h)
    rw [isLeading, decide_eq_true_iff] at hl
    rw [isTrailing, decide_eq_true_iff] at hl'
    have hpair : c.toNat = 0x10000 + (n - 0xd800) * 0x400 + (lower - 0xdc00) := by
      rw [hc, ofPair, toNat_ofNat_of_not_surrogate (by omega) (decide_eq_false (by omega))
        (decide_eq_false (by omega))]
      omega
    exact ⟨_, body', by simp, .pair hl.1 (by omega) hl'.1 (by omega) hpair hds hes, hbody', hrest⟩
  · rw [Bool.not_eq_true] at ht hl
    obtain ⟨m', hread⟩ := reads_numericEscape hds hl ht (body ++ '\x22' :: rest) m
    cases hread.symm.trans h
    have hnumber := toNat_ofNat_of_not_surrogate (by omega) hl ht
    exact ⟨'\\' :: 'u' :: ds, body, rfl, .number (hnumber.symm ▸ hds), hbody, rfl⟩

/-- A string that is read ends at its closing mark, and what has been read is what it spells. -/
theorem spells_of_stringFrom {body : List Char} (hbody : IsStringBody body) {read s : String}
    {rest : List Char} {m : Mark} {c : Cursor}
    (h : stringFrom read ⟨body ++ '\x22' :: rest, m⟩ = .ok (s, c)) :
    c.rest = rest ∧ ∃ cs, Spells body cs ∧ s = read ++ String.ofList cs := by
  -- A pair of escapes is read as one character, so what remains need not be a part of the grammar.
  induction hlength : body.length using Nat.strongRecOn generalizing body read m with
  | ind length ih =>
    have hmore {piece body' : List Char} {x : Char} {d : Cursor} (heq : body = piece ++ body')
        (hx : SpellsChar piece x) (hbody' : IsStringBody body')
        (hrest : d.rest = body' ++ '\x22' :: rest)
        (hread : stringFrom (read.push x) d = .ok (s, c)) :
        c.rest = rest ∧ ∃ cs, Spells body cs ∧ s = read ++ String.ofList cs := by
      obtain ⟨_, m'⟩ := d
      obtain rfl := hrest
      have hlt : body'.length < length := by
        have := hx.length_pos
        rw [← hlength, heq, List.length_append]
        omega
      obtain ⟨hend, cs, hcs, rfl⟩ := ih _ hlt hbody' hread rfl
      refine ⟨hend, x :: cs, heq ▸ .cons hx hcs, ?_⟩
      rw [String.ofList_cons, ← String.append_assoc, String.push_eq_append]
    cases hbody with
    | nil =>
      cases (stringFrom_mark read rest m).symm.trans h
      exact ⟨rfl, [], .nil, by simp⟩
    | plain hc hbody' =>
      rw [List.cons_append, stringFrom_plain read hc.1 hc.2.1 (Nat.not_lt.mpr hc.2.2)] at h
      exact hmore (d := ⟨_, _⟩) rfl (.plain hc) hbody' rfl h
    | letter hx hbody' =>
      rw [List.cons_append, List.cons_append] at h
      obtain ⟨y, d, hescape, hread⟩ := exists_escape_of_stringFrom h
      rw [escape_of_shortEscape? (shortEscape?_of_mem hx).1] at hescape
      cases hescape
      exact hmore rfl (.letter hx) hbody' rfl hread
    | number hds hbody' =>
      rw [List.cons_append, List.cons_append, List.append_assoc] at h
      obtain ⟨y, d, hescape, hread⟩ := exists_escape_of_stringFrom h
      rw [escape_u] at hescape
      obtain ⟨piece, body', heq, hpiece, hbody'', hrest⟩ :=
        exists_of_numericEscape hds hbody' hescape
      exact hmore heq hpiece hbody'' hrest hread

/-- A string that is read, from after its opening mark, ends at its closing mark and spells what has
been read. -/
theorem spells_of_string {body : List Char} (hbody : IsStringBody body) {s : String}
    {rest : List Char} {m : Mark} {c : Cursor}
    (h : string ⟨body ++ '\x22' :: rest, m⟩ = .ok (s, c)) :
    c.rest = rest ∧ Spells body s.toList := by
  obtain ⟨hrest, cs, hcs, rfl⟩ := spells_of_stringFrom hbody h
  rw [String.empty_append, String.toList_ofList]
  exact ⟨hrest, hcs⟩

end Cursor

end StyleScan.Config
