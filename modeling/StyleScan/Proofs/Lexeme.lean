import StyleScan.Proofs.Phase

/-! # Lexemes

The texts that each kind of token may have.  A closed lexeme is complete as it stands; a cut one is
a comment or a string that only the end of the input ends.  The rules do not mention the scanner.

Every text begins with a lexeme that is as long as its neighbour allows
(`hasFirst_cons`). -/

namespace StyleScan

/-- A comment that this follows is not over yet. -/
def NoClose (body : List Char) : Prop :=
  ¬ ['*', '/'] <:+: body

/-- What may stand between the marks of a string: characters other than the mark, a backslash and
the line breaks, and backslashes with any one character each. -/
inductive Items (quote : Quote) : List Char → Prop where
  | nil : Items quote []
  | escape (c : Char) {rest : List Char} (h : Items quote rest) : Items quote ('\\' :: c :: rest)
  | plain {c : Char} {rest : List Char} (hq : c ≠ quote.char) (hs : c ≠ '\\')
      (hb : breaksLine c = false) (h : Items quote rest) : Items quote (c :: rest)

/-- What ends a line, the end of the input apart. -/
def lineEnds : List (List Char) :=
  [['\n'], ['\x0c'], ['\r', '\n'], ['\r']]

/-- The lexemes that are complete as they stand. -/
inductive Closed : Kind → List Char → Prop where
  | whitespace {w : List Char} (hw : w ≠ []) (h : ∀ c ∈ w, isBlank c) : Closed .whitespace w
  | identifier {c : Char} (hb : isBlank c = false) (hs : c ≠ '/') (hq : Quote.ofChar? c = none) :
      Closed .identifier [c]
  | slash : Closed .slash ['/']
  /-- The first `*/` after the opening is the end. -/
  | block {body : List Char} (h : NoClose (body ++ ['*'])) :
      Closed .multiLineComment ('/' :: '*' :: (body ++ ['*', '/']))
  | line {body stop : List Char} (h : ∀ c ∈ body, breaksLine c = false) (hs : stop ∈ lineEnds) :
      Closed .singleLineComment ('/' :: '/' :: (body ++ stop))
  | string (quote : Quote) {items : List Char} (h : Items quote items) :
      Closed (.string quote) (quote.char :: (items ++ [quote.char]))
  | unterminated (quote : Quote) {items : List Char} {c : Char} (h : Items quote items)
      (hc : breaksLine c) : Closed (.unterminated quote) (quote.char :: (items ++ [c]))

/-- The lexemes that the end of the input cuts off. -/
inductive Cut : Kind → List Char → Prop where
  | block {body : List Char} (h : NoClose body) : Cut .multiLineComment ('/' :: '*' :: body)
  | line {body : List Char} (h : ∀ c ∈ body, breaksLine c = false) :
      Cut .singleLineComment ('/' :: '/' :: body)
  | string (quote : Quote) {items : List Char} (h : Items quote items) :
      Cut (.string quote) (quote.char :: items)
  /-- The last backslash has nothing left to escape. -/
  | escape (quote : Quote) {items : List Char} (h : Items quote items) :
      Cut (.string quote) (quote.char :: (items ++ ['\\']))

/-- The texts of each kind. -/
def Lexeme (kind : Kind) (w : List Char) : Prop :=
  Closed kind w ∨ Cut kind w

/-- A closed lexeme does not go on into the text after it. -/
def Bounded (kind : Kind) (w rest : List Char) : Prop :=
  match kind with
  | .whitespace => ∀ c ∈ rest.head?, isBlank c = false
  | .slash => ∀ c ∈ rest.head?, c ≠ '/' ∧ c ≠ '*'
  | .singleLineComment => w.getLast? = some '\r' → rest.head? ≠ some '\n'
  | _ => True

/-- The lexeme may stand directly before `rest`: it is closed and ends there, or the input does. -/
def Stands (kind : Kind) (w rest : List Char) : Prop :=
  Closed kind w ∧ Bounded kind w rest ∨ Cut kind w ∧ rest = []

/-- The text begins with a lexeme. -/
def HasFirst (cs : List Char) : Prop :=
  ∃ kind w rest, cs = w ++ rest ∧ Stands kind w rest

theorem noClose_nil : NoClose [] := by
  rw [NoClose, List.infix_nil]
  exact List.cons_ne_nil _ _

theorem noClose_cons {c : Char} {cs : List Char} :
    NoClose (c :: cs) ↔ ¬ (c = '*' ∧ cs.head? = some '/') ∧ NoClose cs := by
  unfold NoClose
  rw [List.infix_cons_iff, not_or, List.cons_prefix_cons, eq_comm (a := '*')]
  cases cs with
  | nil => simp
  | cons d cs => simp [List.cons_prefix_cons, eq_comm (a := '/')]

/-- A comment is closed for the first time somewhere, or never. -/
theorem exists_firstClose (cs : List Char) :
    NoClose cs ∨ ∃ body rest, cs = body ++ '*' :: '/' :: rest ∧ NoClose (body ++ ['*']) := by
  induction cs with
  | nil => exact .inl noClose_nil
  | cons c cs ih =>
    by_cases h : c = '*' ∧ cs.head? = some '/'
    · obtain ⟨rfl, hc⟩ := h
      obtain ⟨rest, rfl⟩ := List.head?_eq_some_iff.mp hc
      exact .inr ⟨[], rest, rfl, noClose_cons.mpr ⟨by simp, noClose_nil⟩⟩
    · rcases ih with ih | ⟨body, rest, rfl, ih⟩
      · exact .inl (noClose_cons.mpr ⟨h, ih⟩)
      · refine .inr ⟨c :: body, rest, rfl, ?_⟩
        rw [List.cons_append, noClose_cons]
        refine ⟨?_, ih⟩
        cases body with
        | nil => simp
        | cons d body => simpa using h

/-- The items of a string end at its mark, at a line break or at the end of the input. -/
theorem exists_items (quote : Quote) : ∀ cs : List Char, ∃ items rest, cs = items ++ rest ∧
    Items quote items ∧ (rest = [] ∨ rest = ['\\'] ∨
      ∃ c after, rest = c :: after ∧ (c = quote.char ∨ breaksLine c))
  | [] => ⟨[], [], rfl, .nil, .inl rfl⟩
  | c :: cs => by
    by_cases hs : c = '\\'
    · subst hs
      cases cs with
      | nil => exact ⟨[], ['\\'], rfl, .nil, .inr (.inl rfl)⟩
      | cons d cs =>
        obtain ⟨items, rest, rfl, hi, hr⟩ := exists_items quote cs
        exact ⟨'\\' :: d :: items, rest, rfl, .escape d hi, hr⟩
    by_cases he : c = quote.char ∨ breaksLine c
    · exact ⟨[], c :: cs, rfl, .nil, .inr (.inr ⟨c, cs, rfl, he⟩)⟩
    · rw [not_or, Bool.not_eq_true] at he
      obtain ⟨items, rest, rfl, hi, hr⟩ := exists_items quote cs
      exact ⟨c :: items, rest, rfl, .plain he.1 hs he.2 hi, hr⟩

/-- A text that begins with a quotation mark begins with a string. -/
theorem hasFirst_string (quote : Quote) (cs : List Char) : HasFirst (quote.char :: cs) := by
  obtain ⟨items, rest, rfl, hi, hr⟩ := exists_items quote cs
  rcases hr with rfl | rfl | ⟨c, after, rfl, rfl | hc⟩
  · exact ⟨.string quote, _, [], rfl, .inr ⟨by simpa using Cut.string quote hi, rfl⟩⟩
  · exact ⟨.string quote, quote.char :: (items ++ ['\\']), [], by simp,
      .inr ⟨.escape quote hi, rfl⟩⟩
  · exact ⟨.string quote, quote.char :: (items ++ [quote.char]), after, by simp,
      .inl ⟨.string quote hi, trivial⟩⟩
  · exact ⟨.unterminated quote, quote.char :: (items ++ [c]), after, by simp,
      .inl ⟨.unterminated quote hi hc, trivial⟩⟩

/-- A text that begins with `/*` begins with a comment. -/
theorem hasFirst_block (cs : List Char) : HasFirst ('/' :: '*' :: cs) := by
  rcases exists_firstClose cs with h | ⟨body, rest, rfl, h⟩
  · exact ⟨.multiLineComment, _, [], by simp, .inr ⟨.block h, rfl⟩⟩
  · exact ⟨.multiLineComment, '/' :: '*' :: (body ++ ['*', '/']), rest, by simp,
      .inl ⟨.block h, trivial⟩⟩

/-- A text that begins with a line break begins with an end of the line, which takes a carriage
return and the line feed after it together. -/
theorem exists_lineEnd {c : Char} (hc : breaksLine c) (cs : List Char) :
    ∃ stop rest, c :: cs = stop ++ rest ∧ stop ∈ lineEnds ∧
      (stop.getLast? = some '\r' → rest.head? ≠ some '\n') := by
  simp only [breaksLine, Bool.or_eq_true, decide_eq_true_eq] at hc
  rcases hc with (rfl | rfl) | rfl
  · by_cases h : cs.head? = some '\n'
    · obtain ⟨rest, rfl⟩ := List.head?_eq_some_iff.mp h
      exact ⟨['\r', '\n'], rest, rfl, by simp [lineEnds], by simp⟩
    · exact ⟨['\r'], cs, rfl, by simp [lineEnds], fun _ => h⟩
  · exact ⟨['\n'], cs, rfl, by simp [lineEnds], by simp⟩
  · exact ⟨['\x0c'], cs, rfl, by simp [lineEnds], by simp⟩

/-- A text that begins with `//` begins with a comment. -/
theorem hasFirst_line (cs : List Char) : HasFirst ('/' :: '/' :: cs) := by
  have hcs := List.takeWhile_append_dropWhile (p := fun c => !breaksLine c) (l := cs)
  have hbody : ∀ c ∈ cs.takeWhile (fun c => !breaksLine c), breaksLine c = false := by
    intro c hc
    simpa using List.all_eq_true.mp List.all_takeWhile c hc
  cases hr : cs.dropWhile (fun c => !breaksLine c) with
  | nil =>
    rw [hr, List.append_nil] at hcs
    rw [hcs] at hbody
    exact ⟨.singleLineComment, _, [], by simp, .inr ⟨.line hbody, rfl⟩⟩
  | cons c after =>
    have hc : breaksLine c := by
      have h := List.head?_dropWhile_not (fun c => !breaksLine c) cs
      simpa [hr] using h
    obtain ⟨stop, rest, he, hs, hb⟩ := exists_lineEnd hc after
    refine ⟨.singleLineComment, '/' :: '/' :: (_ ++ stop), rest, ?_, .inl ⟨.line hbody hs, ?_⟩⟩
    · rw [List.cons_append, List.cons_append, List.append_assoc, ← he, ← hr, hcs]
    · intro h
      apply hb
      cases stop with
      | nil => simp [lineEnds] at hs
      | cons d stop => simpa [List.getLast?_cons] using h

/-- A text that begins with a slash begins with a comment or the slash alone. -/
theorem hasFirst_slash (cs : List Char) : HasFirst ('/' :: cs) := by
  by_cases hs : cs.head? = some '*'
  · obtain ⟨rest, rfl⟩ := List.head?_eq_some_iff.mp hs
    exact hasFirst_block rest
  by_cases hl : cs.head? = some '/'
  · obtain ⟨rest, rfl⟩ := List.head?_eq_some_iff.mp hl
    exact hasFirst_line rest
  · refine ⟨.slash, ['/'], cs, rfl, .inl ⟨.slash, ?_⟩⟩
    intro c hc
    constructor
    · rintro rfl
      exact hl hc
    · rintro rfl
      exact hs hc

/-- A text that begins with a blank begins with a run of blanks. -/
theorem hasFirst_blanks {c : Char} (hc : isBlank c) (cs : List Char) : HasFirst (c :: cs) := by
  refine ⟨.whitespace, (c :: cs).takeWhile isBlank, (c :: cs).dropWhile isBlank,
    List.takeWhile_append_dropWhile.symm, .inl ⟨.whitespace ?_ ?_, ?_⟩⟩
  · simp [hc]
  · intro d hd
    exact List.all_eq_true.mp List.all_takeWhile d hd
  · intro d hd
    have h := List.head?_dropWhile_not isBlank (c :: cs)
    rw [Option.mem_def.mp hd] at h
    simpa using h

/-- Every text begins with a lexeme. -/
theorem hasFirst_cons (c : Char) (cs : List Char) : HasFirst (c :: cs) := by
  cases hq : Quote.ofChar? c with
  | some quote =>
    obtain rfl := Quote.ofChar?_eq_some_iff.mp hq
    exact hasFirst_string quote cs
  | none =>
    by_cases hs : c = '/'
    · subst hs
      exact hasFirst_slash cs
    by_cases hb : isBlank c
    · exact hasFirst_blanks hb cs
    · rw [Bool.not_eq_true] at hb
      exact ⟨.identifier, [c], cs, rfl, .inl ⟨.identifier hb hs hq, trivial⟩⟩

end StyleScan
