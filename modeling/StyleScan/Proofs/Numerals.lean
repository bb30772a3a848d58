import StyleScan.Config.Text
import StyleScan.Text.Quoted

/-! # Reading numerals

A decimal numeral is read up to the first character that is no digit, and a hexadecimal one is read
as a whole.  Both give back the number that was written. -/

namespace StyleScan.Text

/-- Reads the decimal digits that a text begins with. -/
def readDecimal (cs : List Char) : Nat × List Char :=
  let ds := cs.takeWhile Char.isDigit
  (Nat.ofDigitChars 10 ds 0, cs.drop ds.length)

/-- The number that hexadecimal digits write. -/
def hexNumber? (ds : List Char) : Option Nat :=
  ds.foldlM (fun n d => (Config.hexValue? d).map (16 * n + ·)) 0

/-- What is taken ends where the first character stands that does not qualify. -/
theorem takeWhile_append_of_stop {p : Char → Bool} {cs rest : List Char} (h : ∀ c ∈ cs, p c)
    (hstop : ∀ c ∈ rest.head?, p c = false) : (cs ++ rest).takeWhile p = cs := by
  have hrest : rest.takeWhile p = [] := by
    cases rest with
    | nil => rfl
    | cons c rest => exact List.takeWhile_cons_of_neg (by simp [hstop c rfl])
  rw [List.takeWhile_append_of_pos h, hrest, List.append_nil]

/-- A numeral ends before a character that is no digit. -/
theorem isDigit_head?_cons {c : Char} (h : c.isDigit = false) (cs : List Char) :
    ∀ d ∈ (c :: cs).head?, d.isDigit = false := by
  rintro d ⟨rfl⟩
  exact h

theorem takeWhile_isDigit_toDigits (n : Nat) {rest : List Char}
    (h : ∀ c ∈ rest.head?, c.isDigit = false) :
    (Nat.toDigits 10 n ++ rest).takeWhile Char.isDigit = Nat.toDigits 10 n := by
  apply takeWhile_append_of_stop _ h
  intro c hc
  exact Nat.isDigit_of_mem_toDigits (by decide) (by decide) hc

/-- A decimal numeral is read as its number, if no digit follows it. -/
theorem readDecimal_toDigits (n : Nat) {rest : List Char}
    (h : ∀ c ∈ rest.head?, c.isDigit = false) :
    readDecimal (Nat.toDigits 10 n ++ rest) = (n, rest) := by
  simp [readDecimal, takeWhile_isDigit_toDigits n h]

theorem exists_digitChar_of_mem_hexDigits {n : Nat} {c : Char} (h : c ∈ hexDigits n) :
    ∃ d < 16, c = Nat.digitChar d := by
  induction n using Nat.strongRecOn with
  | ind n ih =>
    rw [hexDigits] at h
    by_cases hn : n < 16
    · rw [Nat.toDigits_of_lt_base hn, List.mem_singleton] at h
      exact ⟨n, hn, h⟩
    · rw [Nat.toDigits_of_base_le (by decide) (by omega), List.mem_append, List.mem_singleton] at h
      rcases h with h | h
      · exact ih (n / 16) (by omega) h
      · exact ⟨n % 16, by omega, h⟩

/-- Hexadecimal digits are read as their number. -/
theorem hexNumber?_hexDigits (n : Nat) : hexNumber? (hexDigits n) = some n := by
  have hdigit : ∀ d < 16, Config.hexValue? (Nat.digitChar d) = some d := by decide
  induction n using Nat.strongRecOn with
  | ind n ih =>
    rw [hexDigits, hexNumber?]
    by_cases hn : n < 16
    · rw [Nat.toDigits_of_lt_base hn]
      simp [hdigit n hn]
    · have hfirst := ih (n / 16) (by omega)
      rw [hexDigits, hexNumber?] at hfirst
      rw [Nat.toDigits_of_base_le (by decide) (by omega), List.foldlM_append, hfirst]
      simp [hdigit (n % 16) (by omega)]
      omega

end StyleScan.Text
