import Mathlib.Data.List.Basic
import StyleScan.Config.Cursor

/-! # JSON texts

Which texts are JSON values, without a reader: literals, numerals, strings with any escapes, arrays
and objects, with blanks between their parts.  Objects are given as lists of entries, each with the
blanks around its key and its value, so that an entry can be put in any place.

A string spells a text (`Spells`) if its escapes stand for characters; a numeric escape that is half
of a surrogate pair stands for none on its own, and a string with such an escape is still JSON
(`IsStringBody`). -/

namespace StyleScan.Config

/-- Nothing but blanks. -/
def Blank (cs : List Char) : Prop :=
  ∀ c ∈ cs, Cursor.isBlank c

/-- A value ends before `cs`. -/
def Delimits (cs : List Char) : Prop :=
  ∀ c ∈ cs.head?, Cursor.isBlank c ∨ c = ',' ∨ c = ']' ∨ c = '\x7d'

theorem blank_nil : Blank [] := nofun

theorem delimits_nil : Delimits [] := nofun

theorem Blank.append {cs ds : List Char} (hc : Blank cs) (hd : Blank ds) : Blank (cs ++ ds) :=
  List.forall_mem_append.mpr ⟨hc, hd⟩

/-- Blanks may stand before what a value ends at. -/
theorem Blank.delimits_append {cs ds : List Char} (hc : Blank cs) (hd : Delimits ds) :
    Delimits (cs ++ ds) := by
  cases cs with
  | nil => exact hd
  | cons c cs =>
    rintro c ⟨⟩
    exact .inl (hc c List.mem_cons_self)

/-! ## Strings -/

/-- The letters that may follow a backslash, with the characters that they stand for. -/
def letterEscapes : List (Char × Char) :=
  [('\x22', '\x22'), ('\\', '\\'), ('/', '/'), ('b', '\x08'), ('f', '\x0c'), ('n', '\n'),
    ('r', '\r'), ('t', '\t')]

/-- A hexadecimal digit in either case. -/
def IsHexDigit (c : Char) (n : Nat) : Prop :=
  n < 16 ∧ (c = Nat.digitChar n ∨ c = (Nat.digitChar n).toUpper)

/-- Four hexadecimal digits and the number that they write. -/
inductive IsFourDigits : List Char → Nat → Prop where
  | intro {a b c d : Char} {i j k l : Nat} : IsHexDigit a i → IsHexDigit b j → IsHexDigit c k →
    IsHexDigit d l → IsFourDigits [a, b, c, d] (((i * 16 + j) * 16 + k) * 16 + l)

/-- A character that stands for itself between the marks of a string. -/
def IsPlain (c : Char) : Prop :=
  c ≠ '\x22' ∧ c ≠ '\\' ∧ 0x20 ≤ c.toNat

/-- The ways to write a character between the marks of a string. -/
inductive SpellsChar : List Char → Char → Prop where
  | plain {c : Char} : IsPlain c → SpellsChar [c] c
  | letter {x c : Char} : (x, c) ∈ letterEscapes → SpellsChar ['\\', x] c
  | number {c : Char} {ds : List Char} : IsFourDigits ds c.toNat →
    SpellsChar ('\\' :: 'u' :: ds) c
  /-- The two halves of a surrogate pair. -/
  | pair {c : Char} {upper lower : Nat} {ds es : List Char} :
    0xd800 ≤ upper → upper < 0xdc00 → 0xdc00 ≤ lower → lower < 0xe000 →
    c.toNat = 0x10000 + (upper - 0xd800) * 0x400 + (lower - 0xdc00) →
    IsFourDigits ds upper → IsFourDigits es lower →
    SpellsChar ('\\' :: 'u' :: (ds ++ '\\' :: 'u' :: es)) c

/-- What stands between the marks of a string, and the characters that it spells. -/
inductive Spells : List Char → List Char → Prop where
  | nil : Spells [] []
  | cons {piece body cs : List Char} {c : Char} : SpellsChar piece c → Spells body cs →
    Spells (piece ++ body) (c :: cs)

/-- What may stand between the marks of a string: characters that stand for themselves, and escapes,
the numeric ones also for halves of surrogate pairs. -/
inductive IsStringBody : List Char → Prop where
  | nil : IsStringBody []
  | plain {c : Char} {body : List Char} : IsPlain c → IsStringBody body → IsStringBody (c :: body)
  | letter {x c : Char} {body : List Char} : (x, c) ∈ letterEscapes → IsStringBody body →
    IsStringBody ('\\' :: x :: body)
  | number {ds body : List Char} {n : Nat} : IsFourDigits ds n → IsStringBody body →
    IsStringBody ('\\' :: 'u' :: (ds ++ body))

theorem SpellsChar.length_pos {piece : List Char} {c : Char} (h : SpellsChar piece c) :
    0 < piece.length := by
  cases h <;> exact Nat.succ_pos _

theorem SpellsChar.isStringBody_append {piece body : List Char} {c : Char} (h : SpellsChar piece c)
    (hbody : IsStringBody body) : IsStringBody (piece ++ body) := by
  cases h with
  | plain hc => exact .plain hc hbody
  | letter hx => exact .letter hx hbody
  | number hds => exact .number hds hbody
  | pair _ _ _ _ _ hds hes =>
    rw [List.cons_append, List.cons_append, List.append_assoc]
    exact .number hds (.number hes hbody)

theorem Spells.isStringBody {body cs : List Char} (h : Spells body cs) : IsStringBody body := by
  induction h with
  | nil => exact .nil
  | cons hc _ ih => exact hc.isStringBody_append ih

theorem exists_isFourDigits {n : Nat} (h : n < 0x10000) : ∃ ds, IsFourDigits ds n := by
  have hdigit {i : Nat} (hi : i < 16) : IsHexDigit (Nat.digitChar i) i := ⟨hi, .inl rfl⟩
  have hvalue : ((n / 0x1000 * 16 + n / 0x100 % 16) * 16 + n / 0x10 % 16) * 16 + n % 16 = n := by
    omega
  have hds := IsFourDigits.intro (hdigit (i := n / 0x1000) (by omega))
    (hdigit (i := n / 0x100 % 16) (by omega)) (hdigit (i := n / 0x10 % 16) (by omega))
    (hdigit (i := n % 16) (by omega))
  rw [hvalue] at hds
  exact ⟨_, hds⟩

/-- Every character can be written. -/
theorem exists_spellsChar (c : Char) : ∃ piece, SpellsChar piece c := by
  by_cases hmark : c = '\x22'
  · exact ⟨_, .letter (x := '\x22') (by rw [hmark]; decide)⟩
  by_cases hslash : c = '\\'
  · exact ⟨_, .letter (x := '\\') (by rw [hslash]; decide)⟩
  by_cases hcontrol : c.toNat < 0x20
  · obtain ⟨ds, hds⟩ := exists_isFourDigits (n := c.toNat) (by omega)
    exact ⟨_, .number hds⟩
  · exact ⟨_, .plain ⟨hmark, hslash, Nat.not_lt.mp hcontrol⟩⟩

/-- Every text can be spelled. -/
theorem exists_spells (cs : List Char) : ∃ body, Spells body cs := by
  induction cs with
  | nil => exact ⟨[], .nil⟩
  | cons c cs ih =>
    obtain ⟨piece, hpiece⟩ := exists_spellsChar c
    obtain ⟨body, hbody⟩ := ih
    exact ⟨piece ++ body, .cons hpiece hbody⟩

/-- A string with the given body. -/
def stringText (body : List Char) : List Char :=
  '\x22' :: (body ++ ['\x22'])

/-! ## Numerals -/

/-- One decimal digit or more. -/
def IsDigits (cs : List Char) : Prop :=
  cs ≠ [] ∧ ∀ c ∈ cs, c.isDigit

/-- Decimal digits without a superfluous zero in front. -/
def IsInteger (cs : List Char) : Prop :=
  cs = ['0'] ∨ IsDigits cs ∧ cs.head? ≠ some '0'

/-- Decimal places, if there are any. -/
def IsFraction (cs : List Char) : Prop :=
  cs = [] ∨ ∃ ds, IsDigits ds ∧ cs = '.' :: ds

/-- An exponent, if there is one. -/
def IsExponent (cs : List Char) : Prop :=
  cs = [] ∨ ∃ mark sign ds, mark ∈ ['e', 'E'] ∧ sign ∈ [[], ['+'], ['-']] ∧ IsDigits ds ∧
    cs = mark :: (sign ++ ds)

/-- A number. -/
def IsNumeral (cs : List Char) : Prop :=
  ∃ sign whole fraction exponent, sign ∈ [[], ['-']] ∧ IsInteger whole ∧ IsFraction fraction ∧
    IsExponent exponent ∧ cs = sign ++ (whole ++ (fraction ++ exponent))

/-! ## Arrays and objects -/

/-- An item of an array, with the blanks around it. -/
structure Item where
  before : List Char
  value : List Char
  after : List Char

/-- An entry of an object: the body of its key, its value, and the blanks around both. -/
structure Entry where
  beforeKey : List Char
  key : List Char
  afterKey : List Char
  beforeValue : List Char
  value : List Char
  after : List Char

/-- Only blanks stand where blanks may stand. -/
def Item.Spaced (i : Item) : Prop :=
  Blank i.before ∧ Blank i.after

/-- Only blanks stand where blanks may stand. -/
def Entry.Spaced (e : Entry) : Prop :=
  Blank e.beforeKey ∧ Blank e.afterKey ∧ Blank e.beforeValue ∧ Blank e.after

/-- The keys of two entries do not spell the same text. -/
def Entry.Apart (e e' : Entry) : Prop :=
  ∀ name, Spells e.key name → ¬ Spells e'.key name

theorem Entry.Apart.symm {e e' : Entry} (h : e.Apart e') : e'.Apart e :=
  fun name hname' hname => h name hname hname'

/-- Items up to the end of their array, and `rest` after it.  The blanks `w` stand before the first
item or the end. -/
def itemsText (first : Bool) (w : List Char) (rest : List Char) : List Item → List Char
  | [] => w ++ ']' :: rest
  | i :: items =>
    w ++ ((if first then [] else [',']) ++
      (i.before ++ (i.value ++ itemsText false i.after rest items)))

/-- Entries up to the end of their object, and `rest` after it.  The blanks `w` stand before the
first entry or the end. -/
def entriesText (first : Bool) (w : List Char) (rest : List Char) : List Entry → List Char
  | [] => w ++ '\x7d' :: rest
  | e :: entries =>
    w ++ ((if first then [] else [',']) ++
      (e.beforeKey ++ '\x22' :: (e.key ++ '\x22' :: (e.afterKey ++ ':' ::
        (e.beforeValue ++ (e.value ++ entriesText false e.after rest entries))))))

/-- An array of the items, with blanks after its opening bracket. -/
def arrayText (w : List Char) (items : List Item) : List Char :=
  '[' :: itemsText true w [] items

/-- An object of the entries, with blanks after its opening brace. -/
def objectText (w : List Char) (entries : List Entry) : List Char :=
  '\x7b' :: entriesText true w [] entries

theorem itemsText_append (first : Bool) (w rest more : List Char) (items : List Item) :
    itemsText first w rest items ++ more = itemsText first w (rest ++ more) items := by
  induction items generalizing first w with
  | nil => simp [itemsText]
  | cons i items ih => simp [itemsText, ih]

theorem entriesText_append (first : Bool) (w rest more : List Char) (entries : List Entry) :
    entriesText first w rest entries ++ more = entriesText first w (rest ++ more) entries := by
  induction entries generalizing first w with
  | nil => simp [entriesText]
  | cons e entries ih => simp [entriesText, ih]

theorem objectText_append (w rest : List Char) (entries : List Entry) :
    objectText w entries ++ rest = '\x7b' :: entriesText true w rest entries :=
  congrArg ('\x7b' :: ·) (entriesText_append true w [] rest entries)

/-- A value ends where the next item or the end of its array comes. -/
theorem delimits_itemsText {w : List Char} (hw : Blank w) (rest : List Char) (items : List Item) :
    Delimits (itemsText false w rest items) := by
  cases items with
  | nil =>
    refine hw.delimits_append ?_
    rintro c ⟨⟩
    exact .inr (.inr (.inl rfl))
  | cons i items =>
    refine hw.delimits_append ?_
    rintro c ⟨⟩
    exact .inr (.inl rfl)

/-- A value ends where the next entry or the end of its object comes. -/
theorem delimits_entriesText {w : List Char} (hw : Blank w) (rest : List Char)
    (entries : List Entry) : Delimits (entriesText false w rest entries) := by
  cases entries with
  | nil =>
    refine hw.delimits_append ?_
    rintro c ⟨⟩
    exact .inr (.inr (.inr rfl))
  | cons e entries =>
    refine hw.delimits_append ?_
    rintro c ⟨⟩
    exact .inr (.inl rfl)

/-- The text is a JSON value. -/
inductive IsJson : List Char → Prop where
  | null : IsJson ['n', 'u', 'l', 'l']
  | truth : IsJson ['t', 'r', 'u', 'e']
  | falsehood : IsJson ['f', 'a', 'l', 's', 'e']
  | number {cs : List Char} : IsNumeral cs → IsJson cs
  | string {body : List Char} : IsStringBody body → IsJson (stringText body)
  | array {w : List Char} {items : List Item} : Blank w → (∀ i ∈ items, i.Spaced) →
    (∀ i ∈ items, IsJson i.value) → IsJson (arrayText w items)
  | object {w : List Char} {entries : List Entry} : Blank w → (∀ e ∈ entries, e.Spaced) →
    (∀ e ∈ entries, IsStringBody e.key) → (∀ e ∈ entries, IsJson e.value) →
    IsJson (objectText w entries)

/-- An entry of any object. -/
structure Entry.IsJson (e : Entry) : Prop where
  spaced : e.Spaced
  key : IsStringBody e.key
  value : Config.IsJson e.value

theorem isJson_objectText {w : List Char} (hw : Blank w) {entries : List Entry}
    (h : ∀ e ∈ entries, e.IsJson) : IsJson (objectText w entries) :=
  .object hw (fun e he => (h e he).spaced) (fun e he => (h e he).key) fun e he => (h e he).value

theorem IsInteger.exists_cons {cs : List Char} (h : IsInteger cs) :
    ∃ c ds, cs = c :: ds ∧ c.isDigit := by
  rcases h with rfl | ⟨⟨hne, hall⟩, -⟩
  · exact ⟨'0', [], rfl, rfl⟩
  · obtain ⟨c, ds, rfl⟩ := List.exists_cons_of_ne_nil hne
    exact ⟨c, ds, rfl, hall c List.mem_cons_self⟩

/-- The decimal digits of a number are an integer. -/
theorem isInteger_toDigits (n : Nat) : IsInteger (Nat.toDigits 10 n) := by
  have hhead : ∀ d < 10, d ≠ 0 → Nat.digitChar d ≠ '0' := by decide
  obtain rfl | hn := Nat.eq_zero_or_pos n
  · exact .inl rfl
  refine .inr ⟨⟨Nat.toDigits_ne_nil, fun c hc => Nat.isDigit_of_mem_toDigits (by decide)
    (by decide) hc⟩, ?_⟩
  induction n using Nat.strongRecOn with
  | ind n ih =>
    by_cases hlt : n < 10
    · rw [Nat.toDigits_of_lt_base hlt]
      exact fun h => hhead n hlt (by omega) (Option.some.inj h)
    · rw [Nat.toDigits_of_base_le (by decide) (by omega), List.head?_append_of_ne_nil _
        Nat.toDigits_ne_nil]
      exact ih (n / 10) (by omega) (by omega)

/-- A number begins with its sign or a digit. -/
theorem IsNumeral.exists_cons {cs : List Char} (h : IsNumeral cs) :
    ∃ c ds, cs = c :: ds ∧ (c = '-' ∨ c.isDigit) := by
  obtain ⟨sign, whole, fraction, exponent, hsign, hwhole, -, -, rfl⟩ := h
  obtain ⟨c, ds, rfl, hc⟩ := hwhole.exists_cons
  simp only [List.mem_cons, List.not_mem_nil, or_false] at hsign
  rcases hsign with rfl | rfl
  · exact ⟨c, _, rfl, .inr hc⟩
  · exact ⟨'-', _, rfl, .inl rfl⟩

end StyleScan.Config
