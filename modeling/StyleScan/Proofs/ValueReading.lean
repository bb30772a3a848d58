import StyleScan.Proofs.StringReading

/-! # Reading the values of settings

What the readers of single settings do with a JSON value: they skip the blanks before it
(`SkipsBlanks`), they take what it stands for if it has the right form (`Takes`), and if they accept
it they have read the whole value, no less and no more (`ReadsWhole`). -/

namespace StyleScan.Config

/-- Blanks before what is read make no difference. -/
def SkipsBlanks {γ : Type} (read : Cursor → γ) : Prop :=
  ∀ c, read c = read c.skipBlanks

variable {α : Type} {read : Cursor → Except ConfigError (α × Cursor)}

/-- `read` takes `a` from the value `v`, whatever blanks stand before it, and stops behind it. -/
def Takes (read : Cursor → Except ConfigError (α × Cursor)) (v : List Char) (a : α) : Prop :=
  ∀ w rest, Blank w → Delimits rest → Reads read (w ++ (v ++ rest)) a rest

/-- Where `read` accepts a JSON value, it stops behind it. -/
def ReadsWhole (read : Cursor → Except ConfigError (α × Cursor)) : Prop :=
  ∀ ⦃v w rest m a c⦄, IsJson v → Blank w → Delimits rest →
    read ⟨w ++ (v ++ rest), m⟩ = .ok (a, c) → c.rest = rest

/-- `read` does not accept the value `v`. -/
def Refuses (read : Cursor → Except ConfigError (α × Cursor)) (v : List Char) : Prop :=
  ∀ w rest m, Blank w → Delimits rest → ∃ e, read ⟨w ++ (v ++ rest), m⟩ = .error e

theorem Refuses.ne_ok {v w rest : List Char} {m : Mark} {r : α × Cursor} (h : Refuses read v)
    (hw : Blank w) (hrest : Delimits rest) : read ⟨w ++ (v ++ rest), m⟩ ≠ .ok r := by
  obtain ⟨e, he⟩ := h w rest m hw hrest
  rw [he]
  exact nofun

theorem refuses_of_ne_ok {v : List Char} (h : ∀ w rest m r, Blank w → Delimits rest →
    read ⟨w ++ (v ++ rest), m⟩ ≠ .ok r) : Refuses read v := by
  intro w rest m hw hrest
  cases hread : read ⟨w ++ (v ++ rest), m⟩ with
  | ok r => exact absurd hread (h w rest m r hw hrest)
  | error e => exact ⟨e, rfl⟩

theorem exists_of_map_eq_ok {β ε γ : Type} {x : Except ε β} {f : β → γ} {c : γ}
    (h : x.map f = .ok c) : ∃ b, x = .ok b ∧ f b = c := by
  cases x with
  | ok b => exact ⟨b, rfl, Except.ok.inj h⟩
  | error e => cases h

theorem exists_of_bind_eq_ok {β ε γ : Type} {x : Except ε β} {f : β → Except ε γ} {c : γ}
    (h : x.bind f = .ok c) : ∃ b, x = .ok b ∧ f b = .ok c := by
  cases x with
  | ok b => exact ⟨b, rfl, h⟩
  | error e => cases h

theorem Reads.rest_eq {cs rest : List Char} {a b : α} {m : Mark} {c : Cursor}
    (h : Reads read cs a rest) (hread : read ⟨cs, m⟩ = .ok (b, c)) : c.rest = rest := by
  obtain ⟨m', hm⟩ := h m
  cases hm.symm.trans hread
  rfl

namespace Cursor

/-! ## Blanks -/

theorem afterBlanks_append {w : List Char} (hw : Blank w) (cs : List Char) (m : Mark) :
    ∃ m', afterBlanks m (w ++ cs) = afterBlanks m' cs := by
  induction w generalizing m with
  | nil => exact ⟨m, rfl⟩
  | cons c w ih =>
    obtain ⟨hc, hw⟩ := List.forall_mem_cons.mp hw
    obtain ⟨m', h⟩ := ih hw (m.after c)
    exact ⟨m', (if_pos hc).trans h⟩

@[simp] theorem skipBlanks_skipBlanks (c : Cursor) : c.skipBlanks.skipBlanks = c.skipBlanks := by
  obtain ⟨cs, m⟩ := c
  unfold skipBlanks
  induction cs generalizing m with
  | nil => rfl
  | cons c cs ih =>
    cases hc : isBlank c with
    | true => simpa [afterBlanks, hc] using ih (m.after c)
    | false => simp [afterBlanks, hc]

/-- Blanks are skipped up to the first character that is none. -/
theorem exists_skipBlanks {w cs : List Char} (hw : Blank w) (hcs : NotBlank cs) (m : Mark) :
    ∃ m', skipBlanks ⟨w ++ cs, m⟩ = ⟨cs, m'⟩ := by
  obtain ⟨m', h⟩ := afterBlanks_append hw cs m
  exact ⟨m', h.trans (skipBlanks_of_notBlank hcs m')⟩

theorem notBlank_cons {c : Char} (h : isBlank c = false) (cs : List Char) : NotBlank (c :: cs) := by
  rintro _ ⟨rfl⟩
  exact h

end Cursor

open Cursor

theorem SkipsBlanks.exists_eq {γ : Type} {read : Cursor → γ} (h : SkipsBlanks read)
    {w : List Char} (hw : Blank w) (cs : List Char) (m : Mark) :
    ∃ m', read ⟨w ++ cs, m⟩ = read ⟨cs, m'⟩ := by
  obtain ⟨m', hskip⟩ := afterBlanks_append hw cs m
  refine ⟨m', ?_⟩
  rw [h ⟨w ++ cs, m⟩, h ⟨cs, m'⟩]
  exact congrArg read hskip

theorem SkipsBlanks.takes (h : SkipsBlanks read) {v : List Char} {a : α}
    (hv : ∀ rest, Delimits rest → Reads read (v ++ rest) a rest) : Takes read v a := by
  intro w rest hw hrest m
  obtain ⟨m₁, hskip⟩ := h.exists_eq hw (v ++ rest) m
  obtain ⟨m₂, hread⟩ := hv rest hrest m₁
  exact ⟨m₂, hskip.trans hread⟩

theorem SkipsBlanks.readsWhole (h : SkipsBlanks read)
    (hv : ∀ {v rest m a c}, IsJson v → Delimits rest → read ⟨v ++ rest, m⟩ = .ok (a, c) →
      c.rest = rest) : ReadsWhole read := by
  intro v w rest m a c hjson hw hrest hread
  obtain ⟨m', hskip⟩ := h.exists_eq hw (v ++ rest) m
  exact hv hjson hrest (hskip.symm.trans hread)

/-! ## The first character of a value -/

theorem IsNumeral.not_cons {x : Char} {cs : List Char} (hx : x ≠ '-') (hd : x.isDigit = false) :
    ¬ IsNumeral (x :: cs) := by
  intro h
  obtain ⟨c, ds, heq, hc⟩ := h.exists_cons
  cases heq
  rcases hc with hc | hc
  · exact hx hc
  · exact absurd hc (by simp [hd])

namespace IsJson

variable {cs : List Char}

/-- A value does not begin with a blank. -/
theorem exists_cons {v : List Char} (h : IsJson v) :
    ∃ x cs, v = x :: cs ∧ Cursor.isBlank x = false := by
  cases h with
  | number hv =>
    obtain ⟨x, cs, rfl, rfl | hx⟩ := hv.exists_cons
    · exact ⟨_, _, rfl, rfl⟩
    · exact ⟨_, _, rfl, isBlank_of_isDigit hx⟩
  | _ => exact ⟨_, _, rfl, rfl⟩

theorem eq_null (h : IsJson ('n' :: cs)) : cs = ['u', 'l', 'l'] := by
  cases h with
  | null => rfl
  | number h => exact absurd h (IsNumeral.not_cons (by decide) rfl)

theorem eq_true (h : IsJson ('t' :: cs)) : cs = ['r', 'u', 'e'] := by
  cases h with
  | truth => rfl
  | number h => exact absurd h (IsNumeral.not_cons (by decide) rfl)

theorem eq_false (h : IsJson ('f' :: cs)) : cs = ['a', 'l', 's', 'e'] := by
  cases h with
  | falsehood => rfl
  | number h => exact absurd h (IsNumeral.not_cons (by decide) rfl)

theorem exists_string (h : IsJson ('\x22' :: cs)) :
    ∃ body, IsStringBody body ∧ cs = body ++ ['\x22'] := by
  cases h with
  | string h => exact ⟨_, h, rfl⟩
  | number h => exact absurd h (IsNumeral.not_cons (by decide) rfl)

theorem exists_array (h : IsJson ('[' :: cs)) :
    ∃ w items, Blank w ∧ (∀ i ∈ items, i.Spaced) ∧ (∀ i ∈ items, IsJson i.value) ∧
      cs = itemsText true w [] items := by
  cases h with
  | array hw hspaced hvalue => exact ⟨_, _, hw, hspaced, hvalue, rfl⟩
  | number h => exact absurd h (IsNumeral.not_cons (by decide) rfl)

theorem exists_object (h : IsJson ('\x7b' :: cs)) :
    ∃ w entries, Blank w ∧ (∀ e ∈ entries, e.IsJson) ∧ cs = entriesText true w [] entries := by
  cases h with
  | object hw hspaced hkey hvalue =>
    exact ⟨_, _, hw, fun e he => ⟨hspaced e he, hkey e he, hvalue e he⟩, rfl⟩
  | number h => exact absurd h (IsNumeral.not_cons (by decide) rfl)

theorem not_bracket : ¬ IsJson (']' :: cs) := by
  rintro ⟨⟩
  next h => exact IsNumeral.not_cons (by decide) rfl h

theorem isNumeral {x : Char} (hx : x = '-' ∨ x.isDigit) (h : IsJson (x :: cs)) :
    IsNumeral (x :: cs) := by
  have hne {y : Char} (hy : y ≠ '-') (hd : y.isDigit = false) : ¬ (y = '-' ∨ y.isDigit) :=
    fun h => h.elim hy (by simp [hd])
  cases h with
  | number h => exact h
  | _ => exact absurd hx (hne (by decide) rfl)

end IsJson

namespace Cursor

/-! ## Truth values -/

theorem skipsBlanks_bool : SkipsBlanks bool := fun c => by
  simp only [bool, skipBlanks_skipBlanks]

theorem takes_true : Takes bool ['t', 'r', 'u', 'e'] true :=
  skipsBlanks_bool.takes fun _ _ _ => ⟨_, rfl⟩

theorem takes_false : Takes bool ['f', 'a', 'l', 's', 'e'] false :=
  skipsBlanks_bool.takes fun _ _ _ => ⟨_, rfl⟩

theorem bool_ne_ok {x : Char} (hx : isBlank x = false) (ht : x ≠ 't') (hf : x ≠ 'f')
    (cs : List Char) (m : Mark) (r : Bool × Cursor) : bool ⟨x :: cs, m⟩ ≠ .ok r := by
  rw [bool, skipBlanks_of_notBlank (notBlank_cons hx cs)]
  dsimp only
  split <;> simp_all

theorem readsWhole_bool : ReadsWhole bool := by
  refine skipsBlanks_bool.readsWhole fun {v rest m a c} hv hrest h => ?_
  obtain ⟨x, cs, rfl, hx⟩ := hv.exists_cons
  by_cases ht : x = 't'
  · subst ht
    obtain rfl := hv.eq_true
    exact (takes_true [] rest blank_nil hrest).rest_eq h
  by_cases hf : x = 'f'
  · subst hf
    obtain rfl := hv.eq_false
    exact (takes_false [] rest blank_nil hrest).rest_eq h
  · exact absurd h (bool_ne_ok hx ht hf _ _ _)

/-! ## Strings or nothing -/

theorem stringText_append (body rest : List Char) :
    stringText body ++ rest = '\x22' :: (body ++ '\x22' :: rest) := by
  simp [stringText]

theorem skipsBlanks_optionalText : SkipsBlanks optionalText := fun c => by
  simp only [optionalText, skipBlanks_skipBlanks]

theorem takes_null : Takes optionalText ['n', 'u', 'l', 'l'] none :=
  skipsBlanks_optionalText.takes fun _ _ _ => ⟨_, rfl⟩

theorem optionalText_mark (cs : List Char) (m : Mark) :
    optionalText ⟨'\x22' :: cs, m⟩ =
      (string ⟨cs, m.after '\x22'⟩).map fun p => (some p.1, p.2) := rfl

theorem takes_optionalText {body : List Char} {s : String} (h : Spells body s.toList) :
    Takes optionalText (stringText body) (some s) := by
  refine skipsBlanks_optionalText.takes fun rest _ m => ?_
  obtain ⟨m', hread⟩ := reads_spelled h rest (m.after '\x22')
  refine ⟨m', ?_⟩
  rw [stringText_append, optionalText_mark, hread]
  rfl

theorem optionalText_ne_ok {x : Char} (hx : isBlank x = false) (hn : x ≠ 'n') (hm : x ≠ '\x22')
    (cs : List Char) (m : Mark) (r : Option String × Cursor) :
    optionalText ⟨x :: cs, m⟩ ≠ .ok r := by
  rw [optionalText, skipBlanks_of_notBlank (notBlank_cons hx cs)]
  dsimp only
  split <;> simp_all

theorem readsWhole_optionalText : ReadsWhole optionalText := by
  refine skipsBlanks_optionalText.readsWhole fun {v rest m a c} hv hrest h => ?_
  obtain ⟨x, cs, rfl, hx⟩ := hv.exists_cons
  by_cases hn : x = 'n'
  · subst hn
    obtain rfl := hv.eq_null
    exact (takes_null [] rest blank_nil hrest).rest_eq h
  by_cases hm : x = '\x22'
  · subst hm
    obtain ⟨body, hbody, rfl⟩ := hv.exists_string
    rw [List.cons_append, List.append_assoc, optionalText_mark] at h
    obtain ⟨p, hread, hp⟩ := exists_of_map_eq_ok h
    cases hp
    exact (spells_of_string hbody hread).1
  · exact absurd h (optionalText_ne_ok hx hn hm _ _ _)

/-! ## Counts -/

theorem makeFloat_ne_natural (c : Cursor) (negative : Bool) (digits : Nat) (exponent : Int)
    (n : Nat) (r : Cursor) : c.makeFloat negative digits exponent ≠ .ok (.natural n, r) := by
  unfold makeFloat
  split <;> simp [fail]

theorem exponentPart_ne_natural (c : Cursor) (negative : Bool) (digits : Nat) (exponent : Int)
    (n : Nat) (r : Cursor) : c.exponentPart negative digits exponent ≠ .ok (.natural n, r) := by
  unfold exponentPart
  dsimp only
  split
  · simp [fail]
  split
  · split <;> dsimp only <;> split
    all_goals first
      | exact makeFloat_ne_natural _ _ _ _ _ _
      | split <;> simp [fail]
  · simp [failAhead]

theorem floatRest_ne_natural (c : Cursor) (negative : Bool) (digits : Nat) (exponent : Int)
    (n : Nat) (r : Cursor) : c.floatRest negative digits exponent ≠ .ok (.natural n, r) := by
  unfold floatRest
  split
  · exact exponentPart_ne_natural _ _ _ _ _ _
  · exact exponentPart_ne_natural _ _ _ _ _ _
  · exact makeFloat_ne_natural _ _ _ _ _ _

theorem decimalPart_ne_natural (c : Cursor) (negative : Bool) (digits : Nat) (exponent : Int)
    (n : Nat) (r : Cursor) : c.decimalPart negative digits exponent ≠ .ok (.natural n, r) := by
  unfold decimalPart
  dsimp only
  split
  · split <;> simp [fail, failAhead]
  · exact floatRest_ne_natural _ _ _ _ _ _

/-- Only digits without a sign are read as a natural number, and it ends where the digits end. -/
theorem of_numberRest_natural {c r : Cursor} {negative : Bool} {digits dropped n : Nat}
    (h : c.numberRest negative digits dropped = .ok (.natural n, r)) :
    negative = false ∧ r = c ∧ ∀ x ∈ c.rest.head?, x ∉ ['.', 'e', 'E'] := by
  unfold numberRest at h
  split at h
  · exact absurd h (decimalPart_ne_natural _ _ _ _ _ _)
  · exact absurd h (exponentPart_ne_natural _ _ _ _ _ _)
  · exact absurd h (exponentPart_ne_natural _ _ _ _ _ _)
  next hpoint he hE =>
    split at h
    · refine ⟨?_, ?_, ?_⟩
      · cases negative with
        | false => rfl
        | true =>
          simp only [makeInteger, if_true] at h
          split at h <;> cases h
      · exact (congrArg Prod.snd (Except.ok.inj h)).symm
      · intro x hx
        obtain ⟨cs, hcs⟩ := List.head?_eq_some_iff.mp hx
        rw [List.mem_cons, List.mem_cons, List.mem_singleton]
        rintro (rfl | rfl | rfl)
        · exact hpoint cs hcs
        · exact he cs hcs
        · exact hE cs hcs
    · exact absurd h (makeFloat_ne_natural _ _ _ _ _ _)

theorem numberRest_integer {rest : List Char} (h : ∀ x ∈ rest.head?, x ∉ ['.', 'e', 'E'])
    (negative : Bool) (digits : Nat) (m : Mark) :
    numberRest ⟨rest, m⟩ negative digits 0 = .ok (makeInteger negative digits, ⟨rest, m⟩) := by
  unfold numberRest
  dsimp only
  split
  · exact absurd (h _ rfl) (by decide)
  · exact absurd (h _ rfl) (by decide)
  · exact absurd (h _ rfl) (by decide)
  · rfl

end Cursor

theorem le_ofDigitChars (ds : List Char) (n : Nat) : n ≤ Nat.ofDigitChars 10 ds n := by
  induction ds generalizing n with
  | nil => exact Nat.le_refl n
  | cons d ds ih =>
    have hnext : n ≤ 10 * n + (d.toNat - '0'.toNat) := by omega
    exact Nat.le_trans hnext (ih _)

/-- Digits are all counted as long as their number stays below the limit. -/
theorem accumulate_eq {limit : Nat} {ds : List Char} {n : Nat}
    (h : Nat.ofDigitChars 10 ds n < limit) :
    accumulate limit n ds = (Nat.ofDigitChars 10 ds n, ds.length) := by
  induction ds generalizing n with
  | nil => rfl
  | cons d ds ih =>
    have hnext : Nat.ofDigitChars 10 (d :: ds) n =
        Nat.ofDigitChars 10 ds (n * 10 + digitValue d) := by
      rw [Nat.mul_comm]
      rfl
    have hlt : n * 10 + digitValue d < limit := by
      have := le_ofDigitChars ds (n * 10 + digitValue d)
      omega
    rw [hnext] at h
    simp only [accumulate, if_pos hlt, ih h, hnext, List.length_cons]

namespace Cursor

/-- The digits of an integer are read up to the first character that is none. -/
theorem exists_number_integer {whole tail : List Char} (hwhole : IsInteger whole)
    (htail : ∀ c ∈ tail.head?, c.isDigit = false) (negative : Bool) (m : Mark) :
    ∃ m', number ⟨whole ++ tail, m⟩ negative =
      numberRest ⟨tail, m'⟩ negative (accumulate UInt64.size 0 whole).1
        (whole.length - (accumulate UInt64.size 0 whole).2) := by
  rcases hwhole with rfl | ⟨⟨hne, hall⟩, hzero⟩
  · have hhead : tail.head?.any Char.isDigit = false := by
      cases tail with
      | nil => rfl
      | cons c tail => exact htail c rfl
    refine ⟨m.after '0', ?_⟩
    simp only [number, List.cons_append, List.nil_append, if_true, hhead]
    rfl
  · obtain ⟨d, ds, rfl⟩ := List.exists_cons_of_ne_nil hne
    obtain ⟨m', hskip⟩ := exists_skip (d :: ds) tail m
    have hdigits : digits ⟨d :: ds ++ tail, m⟩ = (d :: ds, ⟨tail, m'⟩) := by
      simp only [digits, Text.takeWhile_append_of_stop hall htail, hskip]
    have hd : d ≠ '0' := fun h => hzero (congrArg some h)
    refine ⟨m', ?_⟩
    rw [List.cons_append] at hdigits ⊢
    simp only [number, if_neg hd, if_pos (hall d List.mem_cons_self), hdigits]

theorem skipsBlanks_count : SkipsBlanks count := fun c => by
  simp only [count, skipBlanks_skipBlanks]

theorem count_minus (cs : List Char) (m : Mark) :
    count ⟨'-' :: cs, m⟩ =
      (number ⟨cs, m.after '-'⟩ true).bind fun p => p.2.asCount p.1 := rfl

theorem count_digit {x : Char} (hx : x.isDigit) (cs : List Char) (m : Mark) :
    count ⟨x :: cs, m⟩ = (number ⟨x :: cs, m⟩ false).bind fun p => p.2.asCount p.1 := by
  rw [count, skipBlanks_of_notBlank (notBlank_cons (isBlank_of_isDigit hx) cs)]
  dsimp only
  split
  next heq => cases heq
  next heq =>
    cases heq
    exact absurd hx (by decide)
  next heq =>
    cases heq
    rw [if_pos hx]
    rfl

theorem count_ne_ok {x : Char} (hx : isBlank x = false) (hm : x ≠ '-') (hd : x.isDigit = false)
    (cs : List Char) (m : Mark) (r : UInt64 × Cursor) : count ⟨x :: cs, m⟩ ≠ .ok r := by
  rw [count, skipBlanks_of_notBlank (notBlank_cons hx cs)]
  dsimp only
  split <;> simp_all

/-- What a value ends at goes on no number. -/
theorem not_mem_of_delimits {cs : List Char} (h : Delimits cs) :
    ∀ x ∈ cs.head?, x.isDigit = false ∧ x ∉ ['.', 'e', 'E'] := by
  intro x hx
  have hx := h x hx
  simp only [isBlank, Bool.or_eq_true, decide_eq_true_iff] at hx
  rcases hx with (((rfl | rfl) | rfl) | rfl) | rfl | rfl | rfl <;> decide

/-- The digits of an unsigned 64-bit number are read as that number. -/
theorem takes_count {v : List Char} {n : UInt64} (hv : IsInteger v)
    (hn : Nat.ofDigitChars 10 v 0 = n.toNat) : Takes count v n := by
  refine skipsBlanks_count.takes fun rest hrest m => ?_
  have hall := not_mem_of_delimits hrest
  have hvalue : accumulate UInt64.size 0 v = (n.toNat, v.length) := by
    rw [accumulate_eq (hn ▸ n.toNat_lt), hn]
  obtain ⟨m', hnumber⟩ := exists_number_integer hv (fun x hx => (hall x hx).1) false m
  obtain ⟨x, cs, rfl, hx⟩ := hv.exists_cons
  refine ⟨m', ?_⟩
  rw [List.cons_append] at hnumber ⊢
  rw [count_digit hx, hnumber, hvalue, Nat.sub_self, numberRest_integer fun x hx => (hall x hx).2]
  exact congrArg (fun k => Except.ok (k, (⟨rest, m'⟩ : Cursor))) UInt64.ofNat_toNat

theorem of_asCount {c d : Cursor} {n : Number} {k : UInt64} (h : c.asCount n = .ok (k, d)) :
    (∃ j, n = .natural j) ∧ d = c := by
  cases n with
  | natural j =>
    cases h
    exact ⟨⟨j, rfl⟩, rfl⟩
  | negative j => cases h
  | float f => cases h

/-- With a sign, no natural number is read. -/
theorem number_negative_ne_natural (c : Cursor) (n : Nat) (r : Cursor) :
    c.number true ≠ .ok (.natural n, r) := by
  intro h
  unfold number at h
  split at h
  · cases h
  split at h
  · split at h
    · cases h
    · exact absurd (of_numberRest_natural h).1 (by decide)
  · split at h
    · exact absurd (of_numberRest_natural h).1 (by decide)
    · cases h

/-- Decimal places and an exponent begin with a character that goes on a number. -/
theorem exists_head_of_places {fraction exponent : List Char} (hf : IsFraction fraction)
    (he : IsExponent exponent) : fraction ++ exponent = [] ∨
      ∃ x cs, fraction ++ exponent = x :: cs ∧ x ∈ ['.', 'e', 'E'] := by
  obtain rfl | ⟨ds, -, rfl⟩ := hf
  · obtain rfl | ⟨mark, sign, ds, hmark, -, -, rfl⟩ := he
    · exact .inl rfl
    · exact .inr ⟨mark, _, rfl, List.mem_cons_of_mem _ hmark⟩
  · exact .inr ⟨'.', _, rfl, List.mem_cons_self⟩

/-- A numeral that is read as a natural number has no decimal places and no exponent. -/
theorem rest_of_number_natural {v rest : List Char} {m : Mark} {n : Nat} {c : Cursor}
    (hv : IsNumeral v) (hsign : v.head? ≠ some '-') (hrest : Delimits rest)
    (h : number ⟨v ++ rest, m⟩ false = .ok (.natural n, c)) : c.rest = rest := by
  obtain ⟨sign, whole, fraction, exponent, hs, hwhole, hfraction, hexponent, rfl⟩ := hv
  obtain rfl : sign = [] := by
    rw [List.mem_cons, List.mem_singleton] at hs
    exact hs.resolve_right fun hs => hsign (by rw [hs]; rfl)
  rw [List.nil_append, List.append_assoc] at h
  rcases exists_head_of_places hfraction hexponent with hnil | ⟨x, cs, hcons, hx⟩
  · rw [hnil, List.nil_append] at h
    obtain ⟨m', hnumber⟩ := exists_number_integer hwhole
      (fun x hx => (not_mem_of_delimits hrest x hx).1) false m
    obtain ⟨-, rfl, -⟩ := of_numberRest_natural (hnumber.symm.trans h)
    rfl
  · have hdigit : x.isDigit = false := by
      rw [List.mem_cons, List.mem_cons, List.mem_singleton] at hx
      rcases hx with rfl | rfl | rfl <;> rfl
    rw [hcons, List.cons_append] at h
    obtain ⟨m', hnumber⟩ := exists_number_integer hwhole
      (Text.isDigit_head?_cons hdigit (cs ++ rest)) false m
    obtain ⟨-, -, hend⟩ := of_numberRest_natural (hnumber.symm.trans h)
    exact absurd hx (hend x rfl)

theorem readsWhole_count : ReadsWhole count := by
  refine skipsBlanks_count.readsWhole fun {v rest m a c} hv hrest h => ?_
  obtain ⟨x, cs, rfl, hx⟩ := hv.exists_cons
  by_cases hm : x = '-'
  · subst hm
    rw [List.cons_append, count_minus] at h
    obtain ⟨⟨n, d⟩, hnumber, hcount⟩ := exists_of_bind_eq_ok h
    obtain ⟨⟨j, rfl⟩, rfl⟩ := of_asCount hcount
    exact absurd hnumber (number_negative_ne_natural _ _ _)
  by_cases hd : x.isDigit
  · rw [List.cons_append, count_digit hd, ← List.cons_append] at h
    obtain ⟨⟨n, d⟩, hnumber, hcount⟩ := exists_of_bind_eq_ok h
    obtain ⟨⟨j, rfl⟩, rfl⟩ := of_asCount hcount
    exact rest_of_number_natural (hv.isNumeral (.inr hd)) (fun h => hm (Option.some.inj h)) hrest
      hnumber
  · exact absurd h (count_ne_ok hx hm (by simpa using hd) _ _ _)

/-! ## Names -/

variable {variants : List (String × α)} {rest : List Char} {m : Mark}

theorem skipsBlanks_variant : SkipsBlanks (·.variant variants) := fun c => by
  simp only [variant, skipBlanks_skipBlanks]

theorem variant_mark (cs : List Char) (m : Mark) :
    variant ⟨'\x22' :: cs, m⟩ variants = variantName ⟨'\x22' :: cs, m⟩ variants := rfl

/-- A name that is spelled in any way is read as what it stands for. -/
theorem takes_variant {name : String} {a : α} {body : List Char}
    (hfind : variants.find? (·.1 = name) = some (name, a)) (hbody : Spells body name.toList) :
    Takes (·.variant variants) (stringText body) a := by
  refine skipsBlanks_variant.takes fun rest _ m => ?_
  obtain ⟨m', hread⟩ := reads_spelled hbody rest (m.after '\x22')
  refine ⟨m', ?_⟩
  dsimp only
  rw [stringText_append, variant_mark]
  simp [variantName, advance, hread, hfind, bind, Except.bind, pure, Except.pure]

theorem rest_of_variantName {body : List Char} (hbody : IsStringBody body) {a : α} {c : Cursor}
    (h : variantName ⟨'\x22' :: (body ++ '\x22' :: rest), m⟩ variants = .ok (a, c)) :
    c.rest = rest := by
  obtain ⟨⟨name, d⟩, hread, hname⟩ := exists_of_bind_eq_ok h
  dsimp only at hname
  split at hname
  · cases hname
    exact (spells_of_string hbody hread).1
  · cases hname

theorem skipsBlanks_variantKey : SkipsBlanks (·.variantKey variants) := fun c => by
  simp only [variantKey, skipBlanks_skipBlanks]

theorem skipsBlanks_colon : SkipsBlanks colon := fun c => by
  simp only [colon, skipBlanks_skipBlanks]

theorem skipsBlanks_unit : SkipsBlanks unit := fun c => by
  simp only [unit, skipBlanks_skipBlanks]

theorem exists_colon {w : List Char} (hw : Blank w) (cs : List Char) (m : Mark) :
    ∃ m', colon ⟨w ++ ':' :: cs, m⟩ = .ok ⟨cs, m'⟩ := by
  obtain ⟨m', h⟩ := skipsBlanks_colon.exists_eq hw (':' :: cs) m
  exact ⟨m'.after ':', h⟩

theorem unit_ne_ok {x : Char} (hx : isBlank x = false) (hn : x ≠ 'n') (cs : List Char) (m : Mark)
    (c : Cursor) : unit ⟨x :: cs, m⟩ ≠ .ok c := by
  rw [unit, skipBlanks_of_notBlank (notBlank_cons hx cs)]
  dsimp only
  split <;> simp_all

theorem rest_of_unit {v w : List Char} (hv : IsJson v) (hw : Blank w) {c : Cursor}
    (h : unit ⟨w ++ (v ++ rest), m⟩ = .ok c) : c.rest = rest := by
  obtain ⟨m', hskip⟩ := skipsBlanks_unit.exists_eq hw (v ++ rest) m
  rw [hskip] at h
  obtain ⟨x, cs, rfl, hx⟩ := hv.exists_cons
  by_cases hn : x = 'n'
  · subst hn
    obtain rfl := hv.eq_null
    cases h
    rfl
  · exact absurd h (unit_ne_ok hx hn _ _ _)

/-- What is read of the entries of an object ends behind the only one. -/
theorem rest_of_variant_brace {w : List Char} {entries : List Entry} (hw : Blank w)
    (hentries : ∀ e ∈ entries, e.IsJson) {a : α} {c : Cursor}
    (h : variant ⟨'\x7b' :: entriesText true w rest entries, m⟩ variants = .ok (a, c)) :
    c.rest = rest := by
  obtain ⟨⟨a', ⟨cs, m₁⟩⟩, hkey, h⟩ := exists_of_bind_eq_ok
    (show (variantKey ⟨entriesText true w rest entries, m.after '\x7b'⟩ variants).bind _ =
      .ok (a, c) from h)
  cases entries with
  | nil =>
    obtain ⟨m', hskip⟩ := skipsBlanks_variantKey.exists_eq hw ('\x7d' :: rest) (m.after '\x7b')
    cases hskip.symm.trans hkey
  | cons e entries =>
    obtain ⟨⟨⟨hbefore, hafterKey, hbeforeValue, hafter⟩, hbody, hvalue⟩, -⟩ :=
      List.forall_mem_cons.mp hentries
    rw [entriesText, if_pos rfl, List.nil_append, ← List.append_assoc] at hkey
    obtain ⟨m', hskip⟩ := skipsBlanks_variantKey.exists_eq (hw.append hbefore) _ (m.after '\x7b')
    obtain rfl := rest_of_variantName hbody (hskip.symm.trans hkey)
    obtain ⟨⟨cs, m₂⟩, hcolon, h⟩ := exists_of_bind_eq_ok h
    obtain ⟨m', hskip⟩ := exists_colon hafterKey _ m₁
    cases hskip.symm.trans hcolon
    obtain ⟨⟨cs, m₃⟩, hunit, h⟩ := exists_of_bind_eq_ok h
    obtain rfl := rest_of_unit hvalue hbeforeValue hunit
    cases entries with
    | nil =>
      obtain ⟨m', hskip⟩ := exists_skipBlanks hafter
        (notBlank_cons (c := '\x7d') rfl rest) m₃
      rw [entriesText, hskip] at h
      cases h
      rfl
    | cons e' entries =>
      rw [entriesText, if_neg (by decide)] at h
      obtain ⟨m', hskip⟩ := exists_skipBlanks hafter (notBlank_cons (c := ',') rfl _) m₃
      rw [List.singleton_append, hskip] at h
      cases h

theorem variant_ne_ok {x : Char} (hx : isBlank x = false) (hm : x ≠ '\x22') (hb : x ≠ '\x7b')
    (cs : List Char) (m : Mark) (r : α × Cursor) : variant ⟨x :: cs, m⟩ variants ≠ .ok r := by
  rw [variant, skipBlanks_of_notBlank (notBlank_cons hx cs)]
  dsimp only
  split <;> simp_all [failAhead]

theorem readsWhole_variant : ReadsWhole (·.variant variants) := by
  refine skipsBlanks_variant.readsWhole fun {v rest m a c} hv _ h => ?_
  obtain ⟨x, cs, rfl, hx⟩ := hv.exists_cons
  by_cases hm : x = '\x22'
  · subst hm
    obtain ⟨body, hbody, rfl⟩ := hv.exists_string
    rw [List.cons_append, List.append_assoc] at h
    exact rest_of_variantName hbody ((variant_mark _ m).symm.trans h)
  by_cases hb : x = '\x7b'
  · subst hb
    obtain ⟨w, entries, hw, hentries, rfl⟩ := hv.exists_object
    rw [List.cons_append, entriesText_append, List.nil_append] at h
    exact rest_of_variant_brace hw hentries h
  · exact absurd h (variant_ne_ok hx hm hb _ _ _)

end Cursor

end StyleScan.Config
