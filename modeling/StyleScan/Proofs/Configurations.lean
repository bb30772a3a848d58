import StyleScan.Config.Reader
import StyleScan.Proofs.Describing

/-! # Texts of configurations

How the settings of a configuration are written, and what is read from a text that describes one:
the configuration itself, in whatever order, spacing and spelling it is written, and an issue as
soon as one more entry is put into any of its objects that has no place there. -/

namespace StyleScan

open Config

/-! ## How settings are written -/

/-- A truth value is written as its name. -/
def WritesBool (b : Bool) (v : List Char) : Prop :=
  v = if b then ['t', 'r', 'u', 'e'] else ['f', 'a', 'l', 's', 'e']

/-- A text is written as a string that spells it. -/
def WritesText (s : String) (v : List Char) : Prop :=
  ∃ body, Spells body s.toList ∧ v = stringText body

/-- A text is written as a string, and none as null. -/
def WritesOptionalText : Option String → List Char → Prop
  | none, v => v = ['n', 'u', 'l', 'l']
  | some s, v => WritesText s v

/-- A number is written with its decimal digits. -/
def WritesCount (n : UInt64) (v : List Char) : Prop :=
  IsInteger v ∧ Nat.ofDigitChars 10 v 0 = n.toNat

theorem WritesBool.isJson {b : Bool} {v : List Char} (h : WritesBool b v) : IsJson v := by
  cases b with
  | true => exact h ▸ .truth
  | false => exact h ▸ .falsehood

theorem WritesText.isJson {s : String} {v : List Char} (h : WritesText s v) : IsJson v := by
  obtain ⟨body, hbody, rfl⟩ := h
  exact .string hbody.isStringBody

theorem WritesOptionalText.isJson {s : Option String} {v : List Char}
    (h : WritesOptionalText s v) : IsJson v := by
  cases s with
  | none => exact h ▸ .null
  | some s => exact WritesText.isJson h

theorem WritesCount.isJson {n : UInt64} {v : List Char} (h : WritesCount n v) : IsJson v :=
  .number ⟨[], v, [], [], List.mem_cons_self, h.1, .inl rfl, .inl rfl, by simp⟩

/-- Every text can be written. -/
theorem exists_writesText (s : String) : ∃ v, WritesText s v := by
  obtain ⟨body, hbody⟩ := exists_spells s.toList
  exact ⟨_, body, hbody, rfl⟩

theorem exists_writesOptionalText : ∀ s, ∃ v, WritesOptionalText s v
  | none => ⟨_, rfl⟩
  | some s => exists_writesText s

/-- Every number can be written. -/
theorem exists_writesCount (n : UInt64) : ∃ v, WritesCount n v :=
  ⟨_, isInteger_toDigits n.toNat, Nat.ofDigitChars_toDigits (by decide) (by decide)⟩

theorem WritesBool.takes {b : Bool} {v : List Char} (h : WritesBool b v) :
    Takes Cursor.bool v b := by
  cases b with
  | true => exact h ▸ Cursor.takes_true
  | false => exact h ▸ Cursor.takes_false

theorem WritesText.takes_variant {α : Type} {variants : List (String × α)} {name : String} {a : α}
    {v : List Char} (h : WritesText name v)
    (hfind : variants.find? (·.1 = name) = some (name, a)) :
    Takes (·.variant variants) v a := by
  obtain ⟨body, hbody, rfl⟩ := h
  exact Cursor.takes_variant hfind hbody

theorem WritesOptionalText.takes {s : Option String} {v : List Char}
    (h : WritesOptionalText s v) : Takes Cursor.optionalText v s := by
  cases s with
  | none => exact h ▸ Cursor.takes_null
  | some s =>
    obtain ⟨body, hbody, rfl⟩ := h
    exact Cursor.takes_optionalText hbody

theorem WritesCount.takes {n : UInt64} {v : List Char} (h : WritesCount n v) :
    Takes Cursor.count v n :=
  Cursor.takes_count h.1 h.2

/-- Among the names of the verbosities, that of a verbosity stands for it. -/
theorem Verbosity.find?_names (v : Verbosity) :
    (all.map fun v => (v.name, v)).find? (·.1 = v.name) = some (v.name, v) := by
  cases v <;> rfl

/-- Among the names of the formats, that of a format stands for it. -/
theorem Format.find?_names (f : Format) :
    (all.map fun f => (f.name, f)).find? (·.1 = f.name) = some (f.name, f) := by
  cases f <;> rfl

/-! ## Sections -/

namespace ScanSettings

/-- The settings of the section on scanning. -/
def settings : List (Setting ScanSettings) :=
  [.scalar "trace_chars" (·.traceChars) WritesBool WritesBool.isJson]

theorem fit : Fit fields settings where
  fits := by
    refine .cons ?_ .nil
    exact .scalar WritesBool.isJson Cursor.readsWhole_bool WritesBool.takes (fun _ _ => rfl)
      (by simp [settings, Setting.scalar])
  nodup := by decide
  ext := by
    rintro ⟨b⟩ ⟨b'⟩ h
    simpa [settings, Setting.scalar] using h

theorem exists_writes (s : ScanSettings) : ∃ v, Writes settings standard s v :=
  Describes.exists_writes fit.nodup (by simpa [settings, Setting.scalar] using ⟨_, rfl⟩)

end ScanSettings

namespace LogSettings

/-- The settings of the section on logging. -/
def settings : List (Setting LogSettings) :=
  [.scalar "level" (·.level) (WritesText ·.name) WritesText.isJson,
    .scalar "file" (·.file) WritesOptionalText WritesOptionalText.isJson]

theorem fit : Fit fields settings where
  fits := by
    refine .cons ?_ (.cons ?_ .nil)
    · exact .scalar WritesText.isJson Cursor.readsWhole_variant
        (fun h => h.takes_variant (Verbosity.find?_names _)) (fun _ _ => rfl)
        (by simp [settings, Setting.scalar])
    · exact .scalar WritesOptionalText.isJson Cursor.readsWhole_optionalText
        WritesOptionalText.takes (fun _ _ => rfl) (by simp [settings, Setting.scalar])
  nodup := by decide
  ext := by
    rintro ⟨v, f⟩ ⟨v', f'⟩ h
    simpa [settings, Setting.scalar] using h

theorem exists_writes (s : LogSettings) : ∃ v, Writes settings standard s v :=
  Describes.exists_writes fit.nodup (by
    simpa [settings, Setting.scalar] using
      ⟨exists_writesText s.level.name, exists_writesOptionalText s.file⟩)

end LogSettings

namespace OutputSettings

/-- The settings of the section on the output. -/
def settings : List (Setting OutputSettings) :=
  [.scalar "format" (·.format) (WritesText ·.name) WritesText.isJson,
    .scalar "chunk_size" (·.chunkSize) WritesCount WritesCount.isJson]

theorem fit : Fit fields settings where
  fits := by
    refine .cons ?_ (.cons ?_ .nil)
    · exact .scalar WritesText.isJson Cursor.readsWhole_variant
        (fun h => h.takes_variant (Format.find?_names _)) (fun _ _ => rfl)
        (by simp [settings, Setting.scalar])
    · exact .scalar WritesCount.isJson Cursor.readsWhole_count WritesCount.takes (fun _ _ => rfl)
        (by simp [settings, Setting.scalar])
  nodup := by decide
  ext := by
    rintro ⟨f, n⟩ ⟨f', n'⟩ h
    simpa [settings, Setting.scalar] using h

theorem exists_writes (s : OutputSettings) : ∃ v, Writes settings standard s v :=
  Describes.exists_writes fit.nodup (by
    simpa [settings, Setting.scalar] using
      ⟨exists_writesText s.format.name, exists_writesCount s.chunkSize⟩)

end OutputSettings

namespace Config

/-- The sections of a configuration. -/
def settings : List (Setting Config) :=
  [.nested "lexer" (·.lexer) ScanSettings.settings .standard,
    .nested "logging" (·.logging) LogSettings.settings .standard,
    .nested "output" (·.output) OutputSettings.settings .standard]

theorem fit : Fit fields settings where
  fits := by
    refine .cons ?_ (.cons ?_ (.cons ?_ .nil))
    · exact .nested ScanSettings.fit (fun _ _ => rfl) (by simp [settings, Setting.nested])
    · exact .nested LogSettings.fit (fun _ _ => rfl) (by simp [settings, Setting.nested])
    · exact .nested OutputSettings.fit (fun _ _ => rfl) (by simp [settings, Setting.nested])
  nodup := by decide
  ext := by
    rintro ⟨l, g, o⟩ ⟨l', g', o'⟩ h
    simpa [settings, Setting.nested] using h

theorem exists_writes (c : Config) : ∃ v, Writes settings standard c v :=
  Describes.exists_writes fit.nodup (by
    simpa [settings, Setting.nested] using
      ⟨c.lexer.exists_writes, c.logging.exists_writes, c.output.exists_writes⟩)

/-! ## Whole texts -/

/-- The text is a value of the given kind, with nothing but blanks around it. -/
def Holds (P : List Char → Prop) (text : String) : Prop :=
  ∃ before v after, Blank before ∧ P v ∧ Blank after ∧ text.toList = before ++ (v ++ after)

theorem holds_ofList {P : List Char → Prop} {v : List Char} (h : P v) :
    Holds P (String.ofList v) :=
  ⟨[], v, [], blank_nil, h, blank_nil, by simp⟩

/-- Every configuration has texts that write it, and spoilt ones. -/
theorem exists_holds (c : Config) : (∃ text, Holds (Writes settings standard c) text) ∧
    ∃ text, Holds (Spoils settings standard c) text := by
  obtain ⟨v, hv⟩ := c.exists_writes
  obtain ⟨v', hv'⟩ := hv.exists_spoils (by simp [settings, Setting.nested])
  exact ⟨⟨_, holds_ofList hv⟩, ⟨_, holds_ofList hv'⟩⟩

theorem Blank.delimits {w : List Char} (h : Blank w) : Delimits w :=
  List.append_nil w ▸ h.delimits_append delimits_nil

theorem parse_eq (text : String) :
    parse text = (Cursor.readSection ⟨text.toList, ⟨1, 0⟩⟩ "NasstyConfig" fields standard).bind
      fun p => if p.2.skipBlanks.rest.isEmpty then .ok p.1
        else p.2.skipBlanks.failAhead .trailingCharacters := rfl

/-- Blanks may follow what a configuration is read from. -/
theorem parse_of_readSection {text : String} {c : Config} {after : List Char} {m : Mark}
    (hafter : Blank after) (h : Cursor.readSection ⟨text.toList, ⟨1, 0⟩⟩ "NasstyConfig" fields
      standard = .ok (c, ⟨after, m⟩)) : parse text = .ok c := by
  have hend : NotBlank [] := nofun
  obtain ⟨m', hskip⟩ := Cursor.exists_skipBlanks hafter hend m
  rw [List.append_nil] at hskip
  rw [parse_eq, h]
  exact if_pos (by rw [hskip]; rfl)

end Config

end StyleScan
