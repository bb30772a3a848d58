import StyleScan.Proofs.Tokenization

/-! # One kind of line break

A carriage return with a line feed after it, a carriage return alone and a form feed all count as one
line break, and so does a line feed.  Writing each of them as a line feed changes no token but for
its text, and no line and no column (`tokenize_unified`).

The one exception is a string.  It takes up a single character after a backslash and at the end of
its line, so that a carriage return there is parted from the line feed after it; the condition
`PairsIntact` leaves this out.

## Implementation notes

While one tracker goes over a text and another over the unified text, they stand at the same line and
column wherever no pair of a carriage return and a line feed is parted, which is why lexemes are
followed and not characters. -/

namespace StyleScan

/-- A line break becomes a line feed. -/
def unifiedChar (c : Char) : Char :=
  if breaksLine c then '\n' else c

/-- Every line break becomes a line feed, a carriage return and the line feed after it together. -/
def unified : List Char → List Char
  | [] => []
  | '\r' :: '\n' :: cs => '\n' :: unified cs
  | c :: cs => unifiedChar c :: unified cs

/-- The token that takes up character `i` of the text that tokens make up. -/
def tokenAt? : List Token → Nat → Option Token
  | [], _ => none
  | t :: ts, i => if i < t.text.length then some t else tokenAt? ts (i - t.text.length)

/-- No string takes up a carriage return that a line feed follows. -/
def PairsIntact (ts : List Token) (cs : List Char) : Prop :=
  ∀ i < cs.length, ∀ t ∈ tokenAt? ts i, t.kind.isString → cs[i]? = some '\r' →
    cs[i + 1]? ≠ some '\n'

instance (ts : List Token) (cs : List Char) : Decidable (PairsIntact ts cs) :=
  inferInstanceAs (Decidable (∀ i < cs.length, ∀ t ∈ tokenAt? ts i, t.kind.isString →
    cs[i]? = some '\r' → cs[i + 1]? ≠ some '\n'))

/-- No pair lies across the end of `cs`. -/
def Apart (cs ds : List Char) : Prop :=
  cs.getLast? = some '\r' → ds.head? ≠ some '\n'

/-- None of the first `n` characters is a carriage return that a line feed follows. -/
def Unpaired (n : Nat) (cs : List Char) : Prop :=
  ∀ i < n, cs[i]? = some '\r' → cs[i + 1]? ≠ some '\n'

/-! ## Characters -/

section Characters

variable {c d : Char}

theorem unifiedChar_of_breaksLine (h : breaksLine c) : unifiedChar c = '\n' := by
  simp [unifiedChar, h]

theorem unifiedChar_of_not_breaksLine (h : breaksLine c = false) : unifiedChar c = c := by
  simp [unifiedChar, h]

/-- Only line breaks become others. -/
theorem unifiedChar_eq_iff (hd : breaksLine d = false) : unifiedChar c = d ↔ c = d := by
  cases h : breaksLine c with
  | false => rw [unifiedChar_of_not_breaksLine h]
  | true =>
    rw [unifiedChar_of_breaksLine h]
    constructor
    · rintro rfl
      cases hd
    · rintro rfl
      rw [h] at hd
      cases hd

@[simp] theorem breaksLine_unifiedChar (c : Char) : breaksLine (unifiedChar c) = breaksLine c := by
  cases h : breaksLine c with
  | false => rw [unifiedChar_of_not_breaksLine h, h]
  | true =>
    rw [unifiedChar_of_breaksLine h]
    rfl

@[simp] theorem isBlank_unifiedChar (c : Char) : isBlank (unifiedChar c) = isBlank c := by
  cases h : breaksLine c with
  | false => rw [unifiedChar_of_not_breaksLine h]
  | true =>
    rw [unifiedChar_of_breaksLine h]
    simp only [breaksLine, Bool.or_eq_true, decide_eq_true_eq] at h
    rcases h with (rfl | rfl) | rfl <;> rfl

theorem unifiedChar_ne_return (c : Char) : unifiedChar c ≠ '\r' := by
  cases h : breaksLine c with
  | false =>
    rw [unifiedChar_of_not_breaksLine h]
    rintro rfl
    cases h
  | true =>
    rw [unifiedChar_of_breaksLine h]
    decide

end Characters

/-! ## Texts -/

theorem unified_cons {c : Char} {cs : List Char} (h : c = '\r' → cs.head? ≠ some '\n') :
    unified (c :: cs) = unifiedChar c :: unified cs := by
  rw [unified]
  rintro ds rfl rfl
  exact h rfl rfl

theorem unified_append {cs ds : List Char} (h : Apart cs ds) :
    unified (cs ++ ds) = unified cs ++ unified ds := by
  fun_induction unified cs with
  | case1 => rfl
  | case2 cs ih =>
    have hcs : Apart cs ds := by
      intro hlast
      apply h
      simp [List.getLast?_cons, hlast]
    rw [List.cons_append, List.cons_append, unified, ih hcs, List.cons_append]
  | case3 c cs hpair ih =>
    have hcs : Apart cs ds := by
      intro hlast
      apply h
      simp [List.getLast?_cons, hlast]
    rw [List.cons_append, unified_cons, ih hcs, List.cons_append]
    rintro rfl hhead
    cases cs with
    | nil => exact h rfl hhead
    | cons d cs =>
      obtain rfl : d = '\n' := by simpa using hhead
      exact hpair cs rfl rfl

@[simp] theorem head?_unified (cs : List Char) :
    (unified cs).head? = cs.head?.map unifiedChar := by
  fun_induction unified cs with
  | case1 => rfl
  | case2 cs ih => rfl
  | case3 c cs hpair ih => rfl

theorem ne_return_of_mem_unified {c : Char} {cs : List Char} (h : c ∈ unified cs) : c ≠ '\r' := by
  fun_induction unified cs with
  | case1 => cases h
  | case2 cs ih =>
    rcases List.mem_cons.mp h with rfl | h
    · decide
    · exact ih h
  | case3 d cs hpair ih =>
    rcases List.mem_cons.mp h with rfl | h
    · exact unifiedChar_ne_return d
    · exact ih h

theorem unified_of_not_breaksLine {cs : List Char} (h : ∀ c ∈ cs, breaksLine c = false) :
    unified cs = cs := by
  induction cs with
  | nil => rfl
  | cons c cs ih =>
    have hc := h c List.mem_cons_self
    have hcs : ∀ d ∈ cs, breaksLine d = false := fun d hd => h d (List.mem_cons_of_mem c hd)
    rw [unified_cons, unifiedChar_of_not_breaksLine hc, ih hcs]
    rintro rfl
    cases hc

theorem isBlank_of_mem_unified {cs : List Char} (h : ∀ c ∈ cs, isBlank c) :
    ∀ c ∈ unified cs, isBlank c := by
  fun_induction unified cs with
  | case1 => exact h
  | case2 cs ih =>
    rw [List.forall_mem_cons, List.forall_mem_cons] at h
    exact List.forall_mem_cons.mpr ⟨rfl, ih h.2.2⟩
  | case3 c cs hpair ih =>
    rw [List.forall_mem_cons] at h
    exact List.forall_mem_cons.mpr ⟨by simpa using h.1, ih h.2⟩

theorem unified_ne_nil {cs : List Char} (h : cs ≠ []) : unified cs ≠ [] := by
  intro hnil
  have hhead := head?_unified cs
  rw [hnil] at hhead
  exact h (List.head?_eq_none_iff.mp (Option.map_eq_none_iff.mp hhead.symm))

/-- Every end of a line becomes a line feed. -/
theorem unified_of_mem_lineEnds {stop : List Char} (h : stop ∈ lineEnds) :
    unified stop = ['\n'] := by
  simp only [lineEnds, List.mem_cons, List.not_mem_nil, or_false] at h
  rcases h with rfl | rfl | rfl | rfl <;> rfl

/-! ## Lexemes -/

theorem NoClose.unified {cs : List Char} (h : NoClose cs) : NoClose (unified cs) := by
  fun_induction StyleScan.unified cs with
  | case1 => exact h
  | case2 cs ih =>
    rw [noClose_cons, noClose_cons] at h
    rw [noClose_cons]
    exact ⟨by simp, ih h.2.2⟩
  | case3 c cs hpair ih =>
    rw [noClose_cons] at h ⊢
    refine ⟨?_, ih h.2⟩
    rintro ⟨hc, hhead⟩
    rw [unifiedChar_eq_iff rfl] at hc
    rw [head?_unified, Option.map_eq_some_iff] at hhead
    obtain ⟨d, hd, hslash⟩ := hhead
    rw [unifiedChar_eq_iff rfl] at hslash
    exact h.1 ⟨hc, hslash ▸ hd⟩

namespace Unpaired

variable {n : Nat} {c : Char} {cs ds : List Char}

theorem tail (h : Unpaired (n + 1) (c :: cs)) : Unpaired n cs := by
  intro i hi hreturn
  exact h (i + 1) (Nat.succ_lt_succ hi) hreturn

theorem head (h : Unpaired (n + 1) (c :: cs)) : c = '\r' → cs.head? ≠ some '\n' := by
  rintro rfl
  have hzero := h 0 (Nat.succ_pos n) rfl
  rwa [List.getElem?_cons_succ, ← List.head?_eq_getElem?] at hzero

theorem apart (h : Unpaired n (cs ++ ds)) (hn : cs.length ≤ n) : Apart cs ds := by
  induction cs generalizing n with
  | nil => nofun
  | cons c cs ih =>
    obtain ⟨m, rfl⟩ : ∃ m, n = m + 1 := ⟨n - 1, by simp at hn; omega⟩
    intro hlast
    cases cs with
    | nil => exact h.head (by simpa using hlast)
    | cons d cs => exact ih h.tail (by simpa using hn) (by simpa using hlast)

/-- A part at the front has no pairs of its own either. -/
theorem of_append (h : Unpaired n (cs ++ ds)) (hn : cs.length ≤ n) : Unpaired cs.length cs := by
  intro i hi hreturn hfeed
  obtain ⟨hlt, -⟩ := List.getElem?_eq_some_iff.mp hfeed
  apply h i (Nat.lt_of_lt_of_le hi hn)
  · rwa [List.getElem?_append_left hi]
  · rwa [List.getElem?_append_left hlt]

end Unpaired

/-- The items of a string stay items. -/
theorem Items.unified {quote : Quote} {items : List Char} (h : Items quote items)
    (hpairs : Unpaired items.length items) : Items quote (unified items) := by
  induction h with
  | nil => exact .nil
  | @escape c rest _ ih =>
    rw [unified_cons (by simp), unified_cons hpairs.tail.head,
      unifiedChar_of_not_breaksLine (c := '\\') rfl]
    exact .escape _ (ih hpairs.tail.tail)
  | @plain c rest hq hs hb _ ih =>
    rw [unified_cons hpairs.head, unifiedChar_of_not_breaksLine hb]
    exact .plain hq hs hb (ih hpairs.tail)

theorem breaksLine_of_not_isBlank {c : Char} (h : isBlank c = false) : breaksLine c = false := by
  simp only [isBlank, Bool.or_eq_false_iff] at h
  simp only [breaksLine, h.1.1.2, h.1.2, h.2, Bool.or_self]

/-- What stands between two delimiters is unified by itself if it is not parted from the second. -/
theorem unified_delimited {a c : Char} {body : List Char} (ha : breaksLine a = false)
    (h : Apart body [c]) : unified (a :: (body ++ [c])) = a :: (unified body ++ [unifiedChar c]) := by
  have hone : unified [c] = [unifiedChar c] := unified_cons (by simp)
  rw [unified_cons, unifiedChar_of_not_breaksLine ha, unified_append h, hone]
  rintro rfl
  cases ha

/-- The opening of a comment is no part of a pair. -/
theorem unified_opening {c : Char} (hc : breaksLine c = false) (cs : List Char) :
    unified ('/' :: c :: cs) = '/' :: c :: unified cs := by
  rw [unified_cons (by simp), unified_cons, unifiedChar_of_not_breaksLine hc]
  · rfl
  · rintro rfl
    cases hc

section Lexemes

variable {kind : Kind} {w rest : List Char}

/-- The text after a closed lexeme does not complete a pair that the lexeme began. -/
theorem Closed.apart (h : Closed kind w) (hbounded : Bounded kind w rest)
    (hpairs : kind.isString → Unpaired w.length (w ++ rest)) : Apart w rest := by
  intro hlast hhead
  cases h with
  | whitespace _ _ =>
    have hblank := hbounded '\n' hhead
    cases hblank
  | identifier hb _ _ =>
    obtain rfl := Option.some.inj hlast
    cases hb
  | slash => cases hlast
  | block _ => simp [List.getLast?_cons] at hlast
  | line _ _ => exact hbounded hlast hhead
  | string quote _ => cases quote <;> simp [List.getLast?_cons, Quote.char, Text.charMark,
      Text.stringMark] at hlast
  | unterminated quote _ _ => exact (hpairs rfl).apart (Nat.le_refl _) hlast hhead

/-- A closed lexeme stays one of its kind. -/
theorem Closed.unified (h : Closed kind w) (hpairs : kind.isString → Unpaired w.length w) :
    Closed kind (unified w) := by
  cases h with
  | whitespace hw h => exact .whitespace (unified_ne_nil hw) (isBlank_of_mem_unified h)
  | @identifier c hb hs hq =>
    rw [unified_of_not_breaksLine (by simpa using breaksLine_of_not_isBlank hb)]
    exact .identifier hb hs hq
  | slash => exact .slash
  | @block body h =>
    have hstar : unified (body ++ ['*']) = unified body ++ ['*'] := unified_append (by simp [Apart])
    have hend : unified (body ++ ['*', '/']) = unified body ++ ['*', '/'] :=
      unified_append (by simp [Apart])
    rw [unified_opening rfl, hend]
    apply Closed.block
    rw [← hstar]
    exact h.unified
  | @line body stop h hs =>
    have hbody : Apart body stop := by
      intro hlast
      cases h _ (List.mem_of_mem_getLast? hlast)
    rw [unified_opening rfl, unified_append hbody, unified_of_not_breaksLine h,
      unified_of_mem_lineEnds hs]
    exact .line h (by simp [lineEnds])
  | @string quote items h =>
    have hitems := (hpairs rfl).tail
    rw [unified_delimited (Progress.breaksLine_char quote) (hitems.apart (by simp)),
      unifiedChar_of_not_breaksLine (Progress.breaksLine_char quote)]
    exact .string quote (h.unified (hitems.of_append (by simp)))
  | @unterminated quote items c h hc =>
    have hitems := (hpairs rfl).tail
    rw [unified_delimited (Progress.breaksLine_char quote) (hitems.apart (by simp)),
      unifiedChar_of_breaksLine hc]
    exact .unterminated quote (h.unified (hitems.of_append (by simp))) rfl

/-- It goes on into the unified text no more than it did. -/
theorem Bounded.unified (h : Bounded kind w rest) : Bounded kind (unified w) (unified rest) := by
  have hhead {c : Char} (hc : c ∈ (StyleScan.unified rest).head?) :
      ∃ d ∈ rest.head?, unifiedChar d = c := by
    rw [head?_unified] at hc
    exact Option.map_eq_some_iff.mp hc
  cases kind with
  | whitespace =>
    intro c hc
    obtain ⟨d, hd, rfl⟩ := hhead hc
    rw [isBlank_unifiedChar]
    exact h d hd
  | slash =>
    intro c hc
    obtain ⟨d, hd, rfl⟩ := hhead hc
    rw [ne_eq, ne_eq, unifiedChar_eq_iff rfl, unifiedChar_eq_iff rfl]
    exact h d hd
  | singleLineComment =>
    intro hlast
    exact absurd rfl (ne_return_of_mem_unified (List.mem_of_mem_getLast? hlast))
  | identifier | multiLineComment | string _ | unterminated _ => trivial

/-- A lexeme that the end of the input cuts off stays one of its kind. -/
theorem Cut.unified (h : Cut kind w) (hpairs : kind.isString → Unpaired w.length w) :
    Cut kind (unified w) := by
  cases h with
  | block h =>
    rw [unified_opening rfl]
    exact .block h.unified
  | line h =>
    rw [unified_opening rfl, unified_of_not_breaksLine h]
    exact .line h
  | string quote h =>
    rw [unified_cons (hpairs rfl).head, unifiedChar_of_not_breaksLine (Progress.breaksLine_char quote)]
    exact .string quote (h.unified (hpairs rfl).tail)
  | escape quote h =>
    have hitems := (hpairs rfl).tail
    rw [unified_delimited (Progress.breaksLine_char quote) (hitems.apart (by simp)),
      unifiedChar_of_not_breaksLine (c := '\\') rfl]
    exact .escape quote (h.unified (hitems.of_append (by simp)))

end Lexemes

/-! ## Positions -/

/-- A line break that completes no pair leads to the start of the next line. -/
theorem Position.after_of_breaksLine (p : Position) {afterReturn : Bool} {c : Char}
    (hc : breaksLine c) (h : afterReturn → c ≠ '\n') :
    p.after (.of afterReturn c) c = ⟨p.line + 1, 0, p.offset + c.utf8Size⟩ := by
  simp only [breaksLine, Bool.or_eq_true, decide_eq_true_eq] at hc
  rcases hc with (rfl | rfl) | rfl
  · rfl
  · have hfalse : afterReturn = false := by simpa using h
    simp [LineBreak.of, after, hfalse]
  · rfl

/-- The trackers stand at the same line and column, and the second not after a carriage return. -/
structure Aligned (t u : Tracker) : Prop where
  line : u.next.line = t.next.line
  column : u.next.column = t.next.column
  settled : u.afterReturn = false

namespace Aligned

variable {t u : Tracker}

/-- A pair is one line break. -/
theorem pair (h : Aligned t u) :
    Aligned ((t.advance '\r').advance '\n') (u.advance '\n') := by
  obtain ⟨hline, -, hsettled⟩ := h
  constructor
  · simp [Tracker.advance, LineBreak.of, Position.after, hsettled, hline]
  · simp [Tracker.advance, LineBreak.of, Position.after, hsettled]
  · rfl

/-- Any other character is unified by itself. -/
theorem advance (h : Aligned t u) {c : Char} (hc : t.afterReturn → c ≠ '\n') :
    Aligned (t.advance c) (u.advance (unifiedChar c)) := by
  obtain ⟨hline, hcolumn, hsettled⟩ := h
  have hreturn : (u.advance (unifiedChar c)).afterReturn = false := by
    simp [unifiedChar_ne_return]
  cases hb : breaksLine c with
  | false =>
    have hnone := Progress.of_eq_none_of_breaksLine hb
    rw [unifiedChar_of_not_breaksLine hb] at hreturn ⊢
    refine ⟨?_, ?_, hreturn⟩
    · simp [Tracker.advance, hnone, Position.after, hline]
    · simp [Tracker.advance, hnone, Position.after, hcolumn]
  | true =>
    have hu : u.afterReturn → unifiedChar c ≠ '\n' := by simp [hsettled]
    refine ⟨?_, ?_, hreturn⟩
    · simp only [Tracker.advance]
      rw [Position.after_of_breaksLine _ hb hc, Position.after_of_breaksLine _ (by simpa) hu, hline]
    · simp only [Tracker.advance]
      rw [Position.after_of_breaksLine _ hb hc, Position.after_of_breaksLine _ (by simpa) hu]

/-- A text and its unified form lead to the same line and column. -/
theorem advanceAll (h : Aligned t u) {cs : List Char}
    (hcs : t.afterReturn → cs.head? ≠ some '\n') :
    Aligned (t.advanceAll cs) (u.advanceAll (unified cs)) := by
  fun_induction unified cs generalizing t u with
  | case1 => exact h
  | case2 cs ih => exact ih h.pair nofun
  | case3 c cs hpair ih =>
    refine ih (h.advance fun ht => by simpa using hcs ht) ?_
    intro hreturn hhead
    obtain rfl : c = '\r' := by simpa using hreturn
    obtain ⟨ds, rfl⟩ := List.head?_eq_some_iff.mp hhead
    exact hpair ds rfl rfl

end Aligned

namespace Tracker

theorem afterReturn_advanceAll (t : Tracker) {cs : List Char} (h : cs ≠ []) :
    (t.advanceAll cs).afterReturn = decide (cs.getLast? = some '\r') := by
  rcases List.eq_nil_or_concat cs with rfl | ⟨init, c, rfl⟩
  · exact absurd rfl h
  · rw [List.concat_eq_append, advanceAll_append, List.getLast?_concat]
    simp

end Tracker

/-! ## Tokens -/

/-- The unified form of a text. -/
def unifiedText (s : String) : String :=
  String.ofList (unified s.toList)

/-- What the condition says of a first token, and of those after it. -/
theorem PairsIntact.cons {t : Token} {ts : List Token} {w rest : List Char}
    (h : PairsIntact (t :: ts) (w ++ rest)) (hw : t.text.length = w.length) :
    (t.kind.isString → Unpaired w.length (w ++ rest)) ∧ PairsIntact ts rest := by
  constructor
  · intro hstring i hi
    have hlt : i < (w ++ rest).length := by
      rw [List.length_append]
      omega
    refine h i hlt t ?_ hstring
    simp [tokenAt?, hw, hi]
  · intro i hi u hu hstring
    have hlt : w.length + i < (w ++ rest).length := by
      rw [List.length_append]
      omega
    have hat : tokenAt? (t :: ts) (w.length + i) = tokenAt? ts i := by
      simp [tokenAt?, hw]
    have hreturn := h (w.length + i) hlt u (by rwa [hat]) hstring
    rwa [Nat.add_assoc, List.getElem?_append_right (by omega),
      List.getElem?_append_right (by omega), Nat.add_sub_cancel_left,
      Nat.add_sub_cancel_left] at hreturn

/-- The tokens of a text and those of its unified form are the same but for the line breaks in their
texts and the offsets that they reach. -/
theorem IsTokenization.lex_unified {cs : List Char} {ls : List (Kind × List Char)}
    (h : IsTokenization cs ls) {t u : Tracker} (htu : Aligned t u)
    (hcs : t.afterReturn → cs.head? ≠ some '\n')
    (hpairs : PairsIntact (Progress.lex ⟨t, .between⟩ cs) cs) :
    (Progress.lex ⟨u, .between⟩ (unified cs)).map
        (fun v => (v.kind, v.line, v.column, v.text)) =
      (Progress.lex ⟨t, .between⟩ cs).map
        fun v => (v.kind, v.line, v.column, unifiedText v.text) := by
  induction ls generalizing cs t u with
  | nil =>
    rw [h.eq_nil]
    rfl
  | cons l ls ih =>
    obtain ⟨kind, w⟩ := l
    obtain ⟨rest, rfl, hrest, ⟨hl, hbounded⟩ | ⟨hl, rfl⟩⟩ := cons_iff.mp h
    · rw [Progress.lex_closed t hl rest hbounded] at hpairs ⊢
      obtain ⟨hw, hintact⟩ := hpairs.cons (w := w) (by simp [Token.ofList])
      have hapart := hl.apart hbounded hw
      have hne := Lexeme.ne_nil (.inl hl)
      have hwhead : t.afterReturn → w.head? ≠ some '\n' := by
        rwa [List.head?_append_of_ne_nil _ hne] at hcs
      have halone : kind.isString → Unpaired w.length w := by
        intro hstring
        exact (hw hstring).of_append (Nat.le_refl _)
      rw [unified_append hapart,
        Progress.lex_closed u (hl.unified halone) (unified rest) hbounded.unified]
      rw [List.map_cons, List.map_cons, ih hrest (htu.advanceAll hwhead) ?_ hintact]
      · simp [Token.ofList, Token.line, Token.column, htu.line, htu.column, unifiedText]
      · rw [Tracker.afterReturn_advanceAll t hne]
        simpa [Apart] using hapart
    · have hone : Progress.lex ⟨t, .between⟩ (w ++ []) = [.ofList kind t.next w] := by
        rw [List.append_nil, Progress.lex_cut t hl]
      rw [hone] at hpairs ⊢
      have halone := (hpairs.cons (by simp [Token.ofList])).1
      rw [List.append_nil] at halone ⊢
      rw [Progress.lex_cut u (hl.unified halone)]
      simp [Token.ofList, Token.line, Token.column, htu.line, htu.column, unifiedText]

/-- If no string takes up a carriage return that a line feed follows, the unified text has the same
number of tokens, of the same kinds and at the same lines and columns, and their texts are those of
the tokens of the text in unified form. -/
theorem tokenize_unified (s : String) :
    ∃ ts, tokenize s = .ok ts ∧
      (PairsIntact ts s.toList →
        ∃ us, tokenize (unifiedText s) = .ok us ∧
          us.map (fun u => (u.kind, u.line, u.column, u.text)) =
            ts.map fun t => (t.kind, t.line, t.column, unifiedText t.text)) := by
  refine ⟨_, tokenize_eq_lex s, fun hpairs => ⟨_, tokenize_eq_lex _, ?_⟩⟩
  have hstart : Aligned .start .start := ⟨rfl, rfl, rfl⟩
  rw [unifiedText, String.toList_ofList]
  exact (isTokenization_lex s.toList).lex_unified hstart nofun hpairs

/-- All line breaks there are, in blanks, in both kinds of comments and in a string that has one
after a backslash and another at its end. -/
theorem tokenize_unified_of_mixed_breaks :
    let s := "a\r\n//b\r\x0c'c\\\r\"d\r/*\r\r\n*/"
    let unix := "a\n//b\n\n'c\\\n\"d\n/*\n\n*/"
    ∃ ts us, tokenize s = .ok ts ∧ tokenize unix = .ok us ∧ PairsIntact ts s.toList ∧
      us.map (fun u => (u.kind, u.line, u.column, u.text)) =
        ts.map fun t => (t.kind, t.line, t.column, unifiedText t.text) := by
  intro s unix
  have hunix : unifiedText s = unix := by decide +kernel
  have hintact : PairsIntact (Progress.start.lex s.toList) s.toList := by decide +kernel
  obtain ⟨ts, hts, hunified⟩ := tokenize_unified s
  obtain rfl : Progress.start.lex s.toList = ts := Except.ok.inj ((tokenize_eq_lex s).symm.trans hts)
  obtain ⟨us, hus, hsame⟩ := hunified hintact
  rw [hunix] at hus
  exact ⟨_, us, hts, hus, hintact, hsame⟩

end StyleScan
