import StyleScan.Config.Section
import StyleScan.Proofs.Numerals
import StyleScan.Text.Json

/-! # Reading JSON

What the readers of configuration files do with text that was written as JSON.  A reader takes a
written value from the beginning of what is left of a text and stops behind it, wherever the text
itself stands.  Strings are read back whatever they contain (`Cursor.reads_string`), and an object
is read entry by entry. -/

namespace StyleScan.Config

open Text (stringMark)

/-- From any place, `read` takes `a` from the beginning of `cs` and stops before `rest`. -/
def Reads {α : Type} (read : Cursor → Except ConfigError (α × Cursor)) (cs : List Char) (a : α)
    (rest : List Char) : Prop :=
  ∀ m, ∃ m', read ⟨cs, m⟩ = .ok (a, ⟨rest, m'⟩)

/-- Nothing is skipped before `cs`. -/
def NotBlank (cs : List Char) : Prop :=
  ∀ c ∈ cs.head?, Cursor.isBlank c = false

/-- The digits of a control character are read as its number, whatever follows. -/
theorem fourDigits?_fourDigits {n : Nat} (hn : n < 0x20) (rest : List Char) :
    (Text.Json.fourDigits n).length = 4 ∧
      fourDigits? (Text.Json.fourDigits n ++ rest) = some n := by
  have hread : ∀ n < 0x20, (Text.Json.fourDigits n).length = 4 ∧
      fourDigits? (Text.Json.fourDigits n) = some n := by decide
  obtain ⟨hlength, hvalue⟩ := hread n hn
  refine ⟨hlength, ?_⟩
  generalize Text.Json.fourDigits n = ds at hlength hvalue
  match ds, hlength with
  | [_, _, _, _], _ => exact hvalue

/-- What is written for a character of a JSON string is a letter after a backslash, its number, or
the character itself. -/
theorem escape_cases (c : Char) :
    (∃ x, shortEscape? x = some c ∧ x ≠ '\n' ∧ Text.Json.escape c = ['\\', x]) ∨
      (c.toNat < 0x20 ∧ Text.Json.escape c = '\\' :: 'u' :: Text.Json.fourDigits c.toNat) ∨
      (c ≠ stringMark ∧ c ≠ '\\' ∧ ¬ c.toNat < 0x20 ∧ Text.Json.escape c = [c]) := by
  unfold Text.Json.escape
  by_cases hself : c = stringMark ∨ c = '\\'
  · refine .inl ⟨c, ?_, ?_, if_pos hself⟩ <;> rcases hself with rfl | rfl <;> decide
  rw [if_neg hself]
  by_cases hback : c = '\x08'
  · exact .inl ⟨'b', hback ▸ rfl, by decide, if_pos hback⟩
  rw [if_neg hback]
  by_cases hform : c = '\x0c'
  · exact .inl ⟨'f', hform ▸ rfl, by decide, if_pos hform⟩
  rw [if_neg hform]
  by_cases hfeed : c = '\n'
  · exact .inl ⟨'n', hfeed ▸ rfl, by decide, if_pos hfeed⟩
  rw [if_neg hfeed]
  by_cases hreturn : c = '\r'
  · exact .inl ⟨'r', hreturn ▸ rfl, by decide, if_pos hreturn⟩
  rw [if_neg hreturn]
  by_cases htab : c = '\t'
  · exact .inl ⟨'t', htab ▸ rfl, by decide, if_pos htab⟩
  rw [if_neg htab]
  obtain ⟨hmark, hslash⟩ := not_or.mp hself
  by_cases hcontrol : c.toNat < 0x20
  · exact .inr (.inl ⟨hcontrol, if_pos hcontrol⟩)
  · exact .inr (.inr ⟨hmark, hslash, hcontrol, if_neg hcontrol⟩)

/-- A written string stands on one line. -/
theorem newline_not_mem_quotedChars (cs : List Char) : '\n' ∉ Text.Json.quotedChars cs := by
  have hescape (c : Char) : '\n' ∉ Text.Json.escape c := by
    obtain ⟨x, -, hx, h⟩ | ⟨hcontrol, h⟩ | ⟨-, -, hcontrol, h⟩ := escape_cases c
    · simp [h, hx.symm]
    · have hdigits : ∀ n < 0x20, '\n' ∉ Text.Json.fourDigits n := by decide
      simp [h, hdigits c.toNat hcontrol]
    · rw [h, List.mem_singleton]
      rintro rfl
      exact hcontrol (by decide)
  have hmark : '\n' ≠ stringMark := by decide
  simp [Text.Json.quotedChars, hescape, hmark]

namespace Cursor

theorem isBlank_of_isDigit {c : Char} (h : c.isDigit) : isBlank c = false := by
  rw [Bool.eq_false_iff]
  intro hblank
  simp only [isBlank, Bool.or_eq_true, decide_eq_true_eq] at hblank
  rcases hblank with ((rfl | rfl) | rfl) | rfl <;> cases h

theorem skipBlanks_of_notBlank {cs : List Char} (h : NotBlank cs) (m : Mark) :
    skipBlanks ⟨cs, m⟩ = ⟨cs, m⟩ := by
  cases cs with
  | nil => rfl
  | cons c cs => simp [skipBlanks, afterBlanks, h c rfl]

theorem exists_skip (before rest : List Char) (m : Mark) :
    ∃ m', skip ⟨before ++ rest, m⟩ before.length = ⟨rest, m'⟩ := by
  induction before generalizing m with
  | nil => exact ⟨m, rfl⟩
  | cons c before ih => exact ih (m.after c)

theorem stringFrom_mark (read : String) (rest : List Char) (m : Mark) :
    stringFrom read ⟨stringMark :: rest, m⟩ = .ok (read, ⟨rest, m.after stringMark⟩) := by
  rw [stringFrom]
  simp [stringMark, advance]

theorem stringFrom_plain (read : String) {c : Char} (hm : c ≠ stringMark) (hs : c ≠ '\\')
    (hc : ¬ c.toNat < 0x20) (rest : List Char) (m : Mark) :
    stringFrom read ⟨c :: rest, m⟩ = stringFrom (read.push c) ⟨rest, m.after c⟩ := by
  have hm' : c ≠ '\x22' := hm
  rw [stringFrom]
  simp [hm', hs, hc, advance]

theorem stringFrom_backslash (read : String) {c : Char} {rest : List Char} {m : Mark} {d : Cursor}
    (h : escape ⟨rest, m.after '\\'⟩ = .ok (c, d)) :
    stringFrom read ⟨'\\' :: rest, m⟩ = stringFrom (read.push c) d := by
  have hmark : '\\' ≠ '\x22' := by decide
  rw [stringFrom]
  dsimp only
  rw [if_neg hmark, if_pos rfl]
  split
  next e he => cases he.symm.trans h
  next y d' he =>
    cases he.symm.trans h
    rfl

theorem escape_of_shortEscape? {x c : Char} (h : shortEscape? x = some c) (rest : List Char)
    (m : Mark) : escape ⟨x :: rest, m⟩ = .ok (c, ⟨rest, m.after x⟩) := by
  simp [escape, h, advance]

theorem exists_escape_numeric {c : Char} (h : c.toNat < 0x20) (rest : List Char) (m : Mark) :
    ∃ m', escape ⟨'u' :: (Text.Json.fourDigits c.toNat ++ rest), m⟩ = .ok (c, ⟨rest, m'⟩) := by
  obtain ⟨hlength, hvalue⟩ := fourDigits?_fourDigits h rest
  obtain ⟨m', hskip⟩ := exists_skip (Text.Json.fourDigits c.toNat) rest (m.after 'u')
  have hdigits : fourDigits ⟨Text.Json.fourDigits c.toNat ++ rest, m.after 'u'⟩ =
      .ok (c.toNat, ⟨rest, m'⟩) := by
    rw [fourDigits, hvalue, ← hskip, hlength]
  -- A control character is no half of a surrogate pair.
  have hleading : isLeading c.toNat = false := decide_eq_false (by omega)
  have htrailing : isTrailing c.toNat = false := decide_eq_false (by omega)
  have hnumeric : numericEscape ⟨Text.Json.fourDigits c.toNat ++ rest, m.after 'u'⟩ =
      .ok (c, ⟨rest, m'⟩) := by
    simp [numericEscape, hdigits, hleading, htrailing, bind, Except.bind, pure, Except.pure]
  exact ⟨m', hnumeric⟩

/-- What is written for a character of a string is read as that character. -/
theorem exists_stringFrom_escape (read : String) (c : Char) (rest : List Char) (m : Mark) :
    ∃ m', stringFrom read ⟨Text.Json.escape c ++ rest, m⟩ =
      stringFrom (read.push c) ⟨rest, m'⟩ := by
  obtain ⟨x, hx, -, h⟩ | ⟨hcontrol, h⟩ | ⟨hmark, hslash, hcontrol, h⟩ := escape_cases c
  · rw [h]
    exact ⟨_, stringFrom_backslash read (escape_of_shortEscape? hx rest _)⟩
  · obtain ⟨m', hread⟩ := exists_escape_numeric hcontrol rest (m.after '\\')
    rw [h]
    exact ⟨m', stringFrom_backslash read hread⟩
  · rw [h]
    exact ⟨_, stringFrom_plain read hmark hslash hcontrol rest m⟩

/-- A written string is read as that string, from its opening mark on. -/
theorem reads_string (s : String) (rest : List Char) :
    Reads (fun c => c.advance.string) (Text.Json.quotedChars s.toList ++ rest) s rest := by
  -- What has been read already is carried along with what is still to be read.
  have hfrom (cs : List Char) (read : String) (m : Mark) :
      ∃ m', stringFrom read ⟨cs.flatMap Text.Json.escape ++ stringMark :: rest, m⟩ =
        .ok (read ++ String.ofList cs, ⟨rest, m'⟩) := by
    induction cs generalizing read m with
    | nil => exact ⟨m.after stringMark, by simp [stringFrom_mark]⟩
    | cons c cs ih =>
      rw [List.flatMap_cons, List.append_assoc]
      obtain ⟨m₁, hone⟩ := exists_stringFrom_escape read c
        (cs.flatMap Text.Json.escape ++ stringMark :: rest) m
      obtain ⟨m₂, hmore⟩ := ih (read.push c) m₁
      refine ⟨m₂, hone.trans (hmore.trans ?_)⟩
      rw [String.ofList_cons, ← String.append_assoc, String.push_eq_append]
  intro m
  obtain ⟨m', h⟩ := hfrom s.toList "" (m.after stringMark)
  refine ⟨m', ?_⟩
  rw [String.empty_append, String.ofList_toList] at h
  simpa [Text.Json.quotedChars, advance, string] using h

/-- Reads a string. -/
def text (c : Cursor) : Except ConfigError (String × Cursor) :=
  let c := c.skipBlanks
  match c.rest with
  | [] => c.fail (.unexpectedEnd .value)
  | '\x22' :: _ => c.advance.string
  | _ => .error (c.wrongType "a string")

/-- Reads a natural number of any size. -/
def natural (c : Cursor) : Except ConfigError (Nat × Cursor) :=
  let c := c.skipBlanks
  match c.rest with
  | [] => c.fail (.unexpectedEnd .value)
  | x :: _ =>
    if x.isDigit then
      let (ds, after) := c.digits
      .ok (Nat.ofDigitChars 10 ds 0, after)
    else .error (c.wrongType "a natural number")

/-- A written string begins with its mark. -/
theorem notBlank_quotedChars (cs rest : List Char) :
    NotBlank (Text.Json.quotedChars cs ++ rest) := by
  rintro c ⟨rfl⟩
  rfl

/-- A written string is read as that string. -/
theorem reads_text (s : String) (rest : List Char) :
    Reads text (Text.Json.quotedChars s.toList ++ rest) s rest := by
  intro m
  obtain ⟨m', h⟩ := reads_string s rest m
  refine ⟨m', ?_⟩
  rw [text, skipBlanks_of_notBlank (notBlank_quotedChars s.toList rest)]
  exact h

/-- A decimal numeral is read as its number, if no digit follows it. -/
theorem reads_natural (n : Nat) {rest : List Char} (h : ∀ c ∈ rest.head?, c.isDigit = false) :
    Reads natural (Nat.toDigits 10 n ++ rest) n rest := by
  intro m
  obtain ⟨m', hskip⟩ := exists_skip (Nat.toDigits 10 n) rest m
  have hdigits : digits ⟨Nat.toDigits 10 n ++ rest, m⟩ = (Nat.toDigits 10 n, ⟨rest, m'⟩) := by
    simp only [digits, Text.takeWhile_isDigit_toDigits n h, hskip]
  have hne : Nat.toDigits 10 n ≠ [] := Nat.toDigits_ne_nil
  obtain ⟨d, ds, hcons⟩ := List.exists_cons_of_ne_nil hne
  have hmem : d ∈ Nat.toDigits 10 n := by
    rw [hcons]
    exact List.mem_cons_self
  have hd : d.isDigit := Nat.isDigit_of_mem_toDigits (by decide) (by decide) hmem
  have hstart : NotBlank (Nat.toDigits 10 n ++ rest) := by
    rw [hcons]
    rintro c ⟨rfl⟩
    exact isBlank_of_isDigit hd
  refine ⟨m', ?_⟩
  rw [natural, skipBlanks_of_notBlank hstart]
  simp only [hdigits]
  simp only [hcons, List.cons_append, if_pos hd]
  rw [← hcons, Nat.ofDigitChars_toDigits (by decide) (by decide)]

/-- A name is read as what it stands for. -/
theorem reads_variant {α : Type} {variants : List (String × α)} {name : String} {a : α}
    (h : variants.find? (·.1 = name) = some (name, a)) (rest : List Char) :
    Reads (·.variant variants) (Text.Json.quotedChars name.toList ++ rest) a rest := by
  intro m
  obtain ⟨m', hname⟩ := reads_string name rest m
  refine ⟨m', ?_⟩
  have hvariant : variantName ⟨Text.Json.quotedChars name.toList ++ rest, m⟩ variants =
      .ok (a, ⟨rest, m'⟩) := by
    simp only at hname
    simp [variantName, hname, h, bind, Except.bind, pure, Except.pure]
  simp only
  rw [variant, skipBlanks_of_notBlank (notBlank_quotedChars name.toList rest)]
  exact hvariant

/-! ## Objects -/

/-- An entry of an object: a comma unless it is the first, its key, and the text that its value
begins. -/
def entry (first : Bool) (key : String) (cs : List Char) : List Char :=
  (if first then [] else [',']) ++ (Text.Json.quotedChars key.toList ++ ':' :: cs)

@[simp] theorem entry_append (first : Bool) (key : String) (cs ds : List Char) :
    entry first key cs ++ ds = entry first key (cs ++ ds) := by
  simp [entry]

/-- The line that an entry stands on ends with what follows its key. -/
@[simp] theorem newline_mem_entry (first : Bool) (key : String) (cs : List Char) :
    '\n' ∈ entry first key cs ↔ '\n' ∈ cs := by
  cases first <;> simp [entry, newline_not_mem_quotedChars]

/-- A numeral ends where the next entry begins. -/
theorem isDigit_head?_entry (key : String) (cs : List Char) :
    ∀ c ∈ (entry false key cs).head?, c.isDigit = false :=
  Text.isDigit_head?_cons rfl _

/-- The key of an entry is read as its name. -/
theorem reads_nextKey (first : Bool) (key : String) (cs : List Char) :
    Reads (·.nextKey first) (entry first key cs) (some key) (':' :: cs) := by
  intro m
  cases first with
  | true =>
    obtain ⟨m', hstring⟩ := reads_string key (':' :: cs) m
    have hkey : nextKey ⟨entry true key cs, m⟩ true =
        (advance ⟨Text.Json.quotedChars key.toList ++ ':' :: cs, m⟩).string.map
          (fun p => (some p.1, p.2)) := rfl
    exact ⟨m', hkey.trans (congrArg _ hstring)⟩
  | false =>
    obtain ⟨m', hstring⟩ := reads_string key (':' :: cs) (m.after ',')
    have hkey : nextKey ⟨entry false key cs, m⟩ false =
        (advance ⟨Text.Json.quotedChars key.toList ++ ':' :: cs, m.after ','⟩).string.map
          (fun p => (some p.1, p.2)) := rfl
    exact ⟨m', hkey.trans (congrArg _ hstring)⟩

variable {β : Type} {fields left : List (Field β)} {value result : β}

/-- A field is read as the part that stands there, put in its place. -/
theorem reads_field {α : Type} {read : Cursor → Except ConfigError (α × Cursor)}
    {cs rest : List Char} {a : α} (h : Reads read cs a rest) (name : String) (set : α → β → β) :
    Reads (Field.of name read set).read cs (set a) rest := by
  intro m
  obtain ⟨m', hread⟩ := h m
  refine ⟨m', ?_⟩
  simp [Field.of, hread, bind, Except.bind, pure, Except.pure]

/-- The closing brace ends an object. -/
theorem reads_entries_nil (first : Bool) (rest : List Char) :
    Reads (entries fields left value first) ('\x7d' :: rest) value rest := by
  intro m
  have hkey : nextKey ⟨'\x7d' :: rest, m⟩ first = .ok (none, ⟨'\x7d' :: rest, m⟩) := rfl
  refine ⟨m.after '\x7d', ?_⟩
  rw [entries, hkey]
  rfl

/-- An entry is read into its field, which is not looked for any more in the entries after it. -/
theorem reads_entries_cons {first : Bool} {key : String} {field : Field β} {set : β → β}
    {cs others rest : List Char} (hfind : left.find? (·.name = key) = some field)
    (hfield : Reads field.read cs set others)
    (hothers : Reads (entries fields (Field.without left key) (set value) false) others result
      rest) :
    Reads (entries fields left value first) (entry first key cs) result rest := by
  intro m
  obtain ⟨m₁, h₁⟩ := reads_nextKey first key cs m
  obtain ⟨m₂, h₂⟩ := hfield (m₁.after ':')
  obtain ⟨m₃, h₃⟩ := hothers m₂
  have hcolon : colon ⟨':' :: cs, m₁⟩ = .ok ⟨cs, m₁.after ':'⟩ := rfl
  refine ⟨m₃, ?_⟩
  dsimp only at h₁
  rw [entries, h₁]
  dsimp only
  split
  next f hf =>
    cases hf.symm.trans hfind
    simp [hcolon, h₂, h₃, bind, Except.bind]
  next hf => cases hf.symm.trans hfind

/-- An object is read as the section that its entries make. -/
theorem reads_readSection {title : String} {cs rest : List Char}
    (h : Reads (entries fields fields value true) cs result rest) :
    Reads (·.readSection title fields value) ('\x7b' :: cs) result rest := by
  intro m
  exact h (m.after '\x7b')

end Cursor

end StyleScan.Config
