import StyleScan.Proofs.Encoded
import StyleScan.Proofs.JsonReading
import StyleScan.Proofs.Printing
import StyleScan.Proofs.Unquoting

/-! # Printed tokens, read back

Every token is printed on a line of its own, whatever its text holds: line feeds in it are escaped.
A line of JSON tells the whole token, and a line of text tells all of it but the offset, whichever
characters are escaped there besides those that have to be (`Printer.writeAll_tells`). -/

namespace StyleScan

open Config (Cursor Reads)

namespace Utf8

open String (utf8EncodeChar)

/-- Only the line feed is encoded with the byte of the line feed. -/
theorem lineFeed_not_mem_utf8EncodeChar {c : Char} (h : c ≠ '\n') : 0x0a ∉ utf8EncodeChar c := by
  have hv : c.toNat ≠ 10 := fun hc => h (Char.toNat_inj.mp hc)
  unfold utf8EncodeChar
  simp only [Char.toNat_val]
  generalize c.toNat = v at hv ⊢
  have hbyte (n : Nat) : 0x0a = UInt8.ofNat n ↔ n % 256 = 10 := by
    rw [← UInt8.toNat_inj, UInt8.toNat_ofNat', eq_comm]
    rfl
  -- A single byte is the number of the character; the bytes of longer sequences are all too big.
  split_ifs
  all_goals
    simp only [List.mem_cons, List.not_mem_nil, or_false, hbyte]
    omega

/-- There are as many bytes of line feeds as line feeds. -/
theorem count_encode (cs : List Char) : (encode cs).count 0x0a = cs.count '\n' := by
  induction cs with
  | nil => rfl
  | cons c cs ih =>
    have hcons : encode (c :: cs) = utf8EncodeChar c ++ encode cs := List.flatMap_cons
    rw [hcons, List.count_append, ih, List.count_cons]
    by_cases h : c = '\n'
    · have hone : (utf8EncodeChar '\n').count 0x0a = 1 := by decide
      rw [h, hone, beq_self_eq_true, if_pos rfl, Nat.add_comm]
    · rw [List.count_eq_zero_of_not_mem (lineFeed_not_mem_utf8EncodeChar h)]
      simp [h]

end Utf8

/-! ## Lines -/

/-- The lines of a text, all of which are ended. -/
def linesOf (output : String) : List (List Char) :=
  (output.toList.splitOn '\n').dropLast

@[simp] theorem linesOf_empty : linesOf "" = [] := by
  simp [linesOf]

theorem linesOf_append {line : String} (h : '\n' ∉ line.toList) (output : String) :
    linesOf (line ++ "\n" ++ output) = line.toList :: linesOf output := by
  have hsplit : (line.toList ++ '\n' :: output.toList).splitOn '\n' =
      line.toList :: output.toList.splitOn '\n' := by
    apply List.splitOnP_append_cons_of_forall_mem
    · intro c hc
      rw [beq_eq_false_iff_ne]
      rintro rfl
      exact h hc
    · exact beq_self_eq_true '\n'
  have hne : output.toList.splitOn '\n' ≠ [] := List.splitOnP_ne_nil _ _
  have htext : (line ++ "\n" ++ output).toList = line.toList ++ '\n' :: output.toList := by simp
  rw [linesOf, htext, hsplit, List.dropLast_cons_of_ne_nil hne, linesOf]

/-- A text has a line for each member of a list, and no more line feeds than those that end these
lines, and `read` takes the member from its line. -/
structure LinesTell {α : Type} (read : List Char → Option α) (output : String) (told : List α) :
    Prop where
  feeds : output.toUTF8.data.toList.count 0x0a = told.length
  lines : (linesOf output).map read = told.map some

namespace LinesTell

variable {α : Type} {read : List Char → Option α}

/-- A text tells one list at most. -/
theorem unique {output : String} {told others : List α} (h : LinesTell read output told)
    (hothers : LinesTell read output others) : told = others :=
  List.map_injective_iff.mpr (fun _ _ => Option.some.inj) (h.lines.symm.trans hothers.lines)

theorem nil : LinesTell read "" [] :=
  ⟨rfl, by simp⟩

theorem cons {line output : String} {a : α} {told : List α} (hline : '\n' ∉ line.toList)
    (hread : read line.toList = some a) (h : LinesTell read output told) :
    LinesTell read (line ++ "\n" ++ output) (a :: told) := by
  constructor
  · have hfeeds := h.feeds
    rw [Utf8.toList_toUTF8, Utf8.count_encode] at hfeeds ⊢
    simp [List.count_eq_zero_of_not_mem hline, hfeeds]
  · rw [linesOf_append hline, List.map_cons, List.map_cons, hread, h.lines]

/-- One line for each token. -/
theorem join {line : Token → String} {part : Token → α} (hline : ∀ t, '\n' ∉ (line t).toList)
    (hread : ∀ t, read (line t).toList = some (part t)) (ts : List Token) :
    LinesTell read (String.join (ts.map fun t => line t ++ "\n")) (ts.map part) := by
  induction ts with
  | nil => exact nil
  | cons t ts ih =>
    rw [List.map_cons, List.map_cons, String.join_cons]
    exact ih.cons (hline t) (hread t)

end LinesTell

/-! ## Tokens -/

theorem newline_not_mem_toDigits (n : Nat) : '\n' ∉ Nat.toDigits 10 n := by
  intro h
  exact absurd (Nat.isDigit_of_mem_toDigits (by decide) (by decide) h) (by decide)

namespace Kind

theorem ofName?_name (k : Kind) : ofName? k.name = some k := by
  cases k with
  | string q | unterminated q => cases q <;> rfl
  | _ => rfl

/-- Among the names of the kinds, that of a kind stands for it. -/
theorem find?_variants (k : Kind) :
    (all.map fun k => (k.name, k)).find? (·.1 = k.name) = some (k.name, k) := by
  cases k with
  | string q | unterminated q => cases q <;> rfl
  | _ => rfl

theorem not_mem_name (k : Kind) : ' ' ∉ k.name.toList ∧ '\n' ∉ k.name.toList := by
  cases k with
  | string q | unterminated q => cases q <;> decide
  | _ => decide

end Kind

namespace Token

/-- The fields of a token as an object. -/
def fields : List (Config.Field Token) :=
  [.of "kind" (·.variant (Kind.all.map fun k => (k.name, k))) fun k t => { t with kind := k },
    .of "text" Cursor.text fun s t => { t with text := s },
    .of "line" Cursor.natural fun n t => { t with start.line := n },
    .of "column" Cursor.natural fun n t => { t with start.column := n },
    .of "offset" Cursor.natural fun n t => { t with start.offset := n }]

/-- The token that a JSON text describes. -/
def ofJson? (cs : List Char) : Option Token :=
  match Cursor.readSection ⟨cs, ⟨1, 0⟩⟩ "Token" fields default with
  | .ok (t, c) => if c.skipBlanks.rest.isEmpty then some t else none
  | .error _ => none

/-- What a token on one line shows: its kind, its text, its line and its column. -/
def displayed (t : Token) : Kind × String × Nat × Nat :=
  (t.kind, t.text, t.line, t.column)

/-- What a line shows that displays a token. -/
def ofDisplay? (cs : List Char) : Option (Kind × String × Nat × Nat) :=
  let (line, afterLine) := Text.readDecimal cs
  let (column, afterColumn) := Text.readDecimal (afterLine.drop 1)
  let name := (afterColumn.drop 1).takeWhile (· ≠ ' ')
  let quoted := (afterColumn.drop 1).drop (name.length + 1)
  match Kind.ofName? (String.ofList name), Text.unquote? quoted.tail with
  | some kind, some text => some (kind, String.ofList text, line, column)
  | _, _ => none

theorem toList_json (t : Token) :
    t.json.toList = '\x7b' ::
      Cursor.entry true "kind" (Text.Json.quotedChars t.kind.name.toList ++
      Cursor.entry false "text" (Text.Json.quotedChars t.text.toList ++
      Cursor.entry false "line" (Nat.toDigits 10 t.start.line ++
      Cursor.entry false "column" (Nat.toDigits 10 t.start.column ++
      Cursor.entry false "offset" (Nat.toDigits 10 t.start.offset ++ ['\x7d']))))) := by
  -- What stands between the values is how the entries begin.
  have hkind : "\x7b\"kind\":".toList = '\x7b' :: Cursor.entry true "kind" [] := by decide
  have htext : ",\"text\":".toList = Cursor.entry false "text" [] := by decide
  have hline : ",\"line\":".toList = Cursor.entry false "line" [] := by decide
  have hcolumn : ",\"column\":".toList = Cursor.entry false "column" [] := by decide
  have hoffset : ",\"offset\":".toList = Cursor.entry false "offset" [] := by decide
  have hbrace : "\x7d".toList = ['\x7d'] := by decide
  unfold json
  simp only [String.toList_append, hkind, htext, hline, hcolumn, hoffset, hbrace,
    Text.Json.toList_quoted, Nat.toString_eq_repr, Nat.toList_repr, List.append_assoc,
    List.cons_append, Cursor.entry_append, List.nil_append]

theorem toList_display (shown : Char → Bool) (t : Token) :
    (t.display shown).toList = Nat.toDigits 10 t.start.line ++ ':' ::
      (Nat.toDigits 10 t.start.column ++ ' ' ::
        (t.kind.name.toList ++ ' ' :: Text.quotedChars shown t.text.toList)) := by
  simp [display, Position.text]

theorem newline_not_mem_json (t : Token) : '\n' ∉ t.json.toList := by
  simp [toList_json, Config.newline_not_mem_quotedChars, newline_not_mem_toDigits]

theorem newline_not_mem_display (shown : Char → Bool) (t : Token) :
    '\n' ∉ (t.display shown).toList := by
  simp [toList_display, Text.newline_not_mem_quotedChars, newline_not_mem_toDigits,
    t.kind.not_mem_name]

/-- The entries of a token are read into its fields. -/
theorem reads_json (t : Token) :
    Reads (·.readSection "Token" fields default) t.json.toList t [] := by
  have hbrace : ∀ c ∈ ['\x7d'].head?, c.isDigit = false := Text.isDigit_head?_cons rfl []
  rw [toList_json]
  apply Cursor.reads_readSection
  apply Cursor.reads_entries_cons rfl
    (Cursor.reads_field (Cursor.reads_variant t.kind.find?_variants _) _ _)
  apply Cursor.reads_entries_cons rfl (Cursor.reads_field (Cursor.reads_text t.text _) _ _)
  apply Cursor.reads_entries_cons rfl
    (Cursor.reads_field (Cursor.reads_natural t.start.line (Cursor.isDigit_head?_entry _ _)) _ _)
  apply Cursor.reads_entries_cons rfl
    (Cursor.reads_field (Cursor.reads_natural t.start.column (Cursor.isDigit_head?_entry _ _)) _ _)
  apply Cursor.reads_entries_cons rfl
    (Cursor.reads_field (Cursor.reads_natural t.start.offset hbrace) _ _)
  exact Cursor.reads_entries_nil false []

/-- A token is read from its JSON. -/
theorem ofJson?_json (t : Token) : ofJson? t.json.toList = some t := by
  obtain ⟨m, h⟩ := t.reads_json ⟨1, 0⟩
  dsimp only at h
  rw [ofJson?, h]
  rfl

/-- What a token displays is read from its line. -/
theorem ofDisplay?_display (shown : Char → Bool) (t : Token) :
    ofDisplay? (t.display shown).toList = some t.displayed := by
  have hline (cs : List Char) :
      Text.readDecimal (Nat.toDigits 10 t.start.line ++ ':' :: cs) = (t.start.line, ':' :: cs) :=
    Text.readDecimal_toDigits t.start.line (Text.isDigit_head?_cons rfl cs)
  have hcolumn (cs : List Char) :
      Text.readDecimal (Nat.toDigits 10 t.start.column ++ ' ' :: cs) =
        (t.start.column, ' ' :: cs) :=
    Text.readDecimal_toDigits t.start.column (Text.isDigit_head?_cons rfl cs)
  have hname (cs : List Char) :
      (t.kind.name.toList ++ ' ' :: cs).takeWhile (· ≠ ' ') = t.kind.name.toList := by
    apply Text.takeWhile_append_of_stop
    · intro c hc
      rw [decide_eq_true_eq]
      rintro rfl
      exact t.kind.not_mem_name.1 hc
    · rintro c ⟨rfl⟩
      rfl
  rw [toList_display, ofDisplay?]
  simp only [hline, hcolumn, hname, List.drop_succ_cons, List.drop_zero,
    List.drop_length_add_append, Kind.ofName?_name, Text.unquote?_quotedChars,
    String.ofList_toList]
  rfl

end Token

/-- Tokens displayed one on each line. -/
def displayAll (shown : Char → Bool) (ts : List Token) : String :=
  String.join (ts.map fun t => t.display shown ++ "\n")

/-- A line of JSON tells its token. -/
theorem linesTell_renderAll_json (ts : List Token) :
    LinesTell Token.ofJson? (Format.json.renderAll ts) ts := by
  have h := LinesTell.join Token.newline_not_mem_json Token.ofJson?_json ts
  rwa [List.map_id'] at h

/-- A line that displays a token tells what is displayed. -/
theorem linesTell_displayAll (shown : Char → Bool) (ts : List Token) :
    LinesTell Token.ofDisplay? (displayAll shown ts) (ts.map Token.displayed) :=
  LinesTell.join (Token.newline_not_mem_display shown) (Token.ofDisplay?_display shown) ts

/-- A destination that takes everything has taken the renderings of the tokens. -/
theorem Printer.writeAll_new (format : Format) (ts : List Token) :
    (Printer.new format).writeAll ts =
      (⟨format, format.renderAll ts, none, ts.length⟩, none) := by
  have h := (Printer.new format).writeAll_of_unlimited rfl ts
  simpa [Printer.new] using h

/-- Tokens are printed with one line feed for each, and what is printed tells them: from a line of
JSON the token is read, and from a line of text its kind, its text, its line and its column,
whichever characters are shown as they are there.  So different tokens are never printed as the
same JSON, and as the same text only if they differ in their offsets alone. -/
theorem Printer.writeAll_tells (ts : List Token) :
    let json := (Printer.new .json).writeAll ts
    let text := (Printer.new .text).writeAll ts
    (json.2 = none ∧ LinesTell Token.ofJson? json.1.output ts) ∧
      (text.2 = none ∧ text.1.output = displayAll Text.isShown ts) ∧
      (∀ shown, LinesTell Token.ofDisplay? (displayAll shown ts) (ts.map Token.displayed)) ∧
      (∀ us, ((Printer.new .json).writeAll us).1.output = json.1.output → us = ts) ∧
      ∀ shown us shown', displayAll shown' us = displayAll shown ts →
        us.map Token.displayed = ts.map Token.displayed := by
  intro json text
  have hlines (us : List Token) :
      LinesTell Token.ofJson? ((Printer.new .json).writeAll us).1.output us := by
    rw [writeAll_new]
    exact linesTell_renderAll_json us
  have htext : text = (⟨.text, displayAll Text.isShown ts, none, ts.length⟩, none) :=
    writeAll_new .text ts
  refine ⟨⟨?_, hlines ts⟩, ?_, fun shown => linesTell_displayAll shown ts, ?_, ?_⟩
  · exact congrArg Prod.snd (writeAll_new .json ts)
  · rw [htext]
    exact ⟨rfl, rfl⟩
  · intro us hus
    have hus' := hlines us
    rw [hus] at hus'
    exact hus'.unique (hlines ts)
  · intro shown us shown' hus
    have hus' := linesTell_displayAll shown' us
    rw [hus] at hus'
    exact hus'.unique (linesTell_displayAll shown ts)

/-- A text that looks like two lines is displayed on one. -/
example : (Token.display (fun _ => true) ⟨.identifier, "a\"\n0:1 S \"", ⟨0, 0, 0⟩⟩).toList =
    "0:0 IDENT \"a\\\"\\n0:1 S \\\"\"".toList := by
  decide

end StyleScan
