import Mathlib.Data.List.Chain
import StyleScan.Proofs.Lexing
import StyleScan.Proofs.Operations
import StyleScan.Stream

/-! # Tokenizations

A tokenization of a text is a list of lexemes that make up the text and of which each may stand
next to the one after it.  Every text has one, no text has two, and the tokenizer finds it
(`tokenize_iff_isTokenization`). -/

namespace StyleScan

/-- What a token is apart from its position. -/
def Token.lexeme (t : Token) : Kind × List Char :=
  (t.kind, t.text.toList)

/-- The lexeme `a` may stand directly before `b`. -/
structure MayPrecede (a b : Kind × List Char) : Prop where
  /-- Nothing follows what the end of the input cuts off. -/
  closed : Closed a.1 a.2
  blanks : a.1 = .whitespace → b.1 ≠ .whitespace
  slash : a.1 = .slash → b.2.head? ≠ some '/' ∧ b.2.head? ≠ some '*'
  /-- A line feed belongs to the carriage return before it. -/
  lineFeed : a.1 = .singleLineComment → a.2.getLast? = some '\r' → b.2.head? ≠ some '\n'

/-- The lexemes make up the text, and each may stand where it does. -/
structure IsTokenization (cs : List Char) (ls : List (Kind × List Char)) : Prop where
  flatten : (ls.map Prod.snd).flatten = cs
  lexeme : ∀ l ∈ ls, Lexeme l.1 l.2
  adjacent : ls.IsChain MayPrecede

theorem Lexeme.ne_nil {kind : Kind} {w : List Char} (h : Lexeme kind w) : w ≠ [] := by
  rcases h with h | h
  · cases h with
    | whitespace hw _ => exact hw
    | _ => simp
  · cases h <;> simp

/-- Only a run of blanks begins with a blank. -/
theorem Lexeme.isBlank_head {kind : Kind} {w : List Char} (h : Lexeme kind w) {c : Char}
    (hc : c ∈ w.head?) : isBlank c = decide (kind = .whitespace) := by
  have hq (quote : Quote) : isBlank quote.char = false := by cases quote <;> rfl
  rcases h with h | h
  · cases h with
    | whitespace _ h => simpa using h c (List.mem_of_mem_head? hc)
    | identifier hb _ _ => simpa [← Option.mem_some_iff.mp hc] using hb
    | slash | block | line => cases hc; rfl
    | string quote | unterminated quote => cases hc; simpa using hq quote
  · cases h with
    | block | line => cases hc; rfl
    | string quote | escape quote => cases hc; simpa using hq quote

/-- A comment begins with a slash. -/
theorem Lexeme.head?_of_isComment {kind : Kind} {w : List Char} (h : Lexeme kind w)
    (hkind : kind.isComment) : w.head? = some '/' := by
  rcases h with h | h
  · cases h with
    | block | line => rfl
    | _ => cases hkind
  · cases h with
    | block | line => rfl
    | _ => cases hkind

namespace IsTokenization

theorem nil : IsTokenization [] [] :=
  ⟨rfl, by simp, .nil⟩

theorem eq_nil {cs : List Char} (h : IsTokenization cs []) : cs = [] :=
  h.flatten.symm

/-- The text begins like the first lexeme. -/
theorem head?_eq {cs : List Char} {l : Kind × List Char} {ls : List (Kind × List Char)}
    (h : IsTokenization cs (l :: ls)) : cs.head? = l.2.head? := by
  have hl := (h.lexeme l (by simp)).ne_nil
  rw [← h.flatten, List.map_cons, List.flatten_cons, List.head?_append_of_ne_nil _ hl]

/-- The empty text has no lexemes. -/
theorem eq_nil_of_nil {ls : List (Kind × List Char)} (h : IsTokenization [] ls) : ls = [] := by
  cases ls with
  | nil => rfl
  | cons l ls =>
    have hl := (h.lexeme l (by simp)).ne_nil
    exact absurd (List.head?_eq_none_iff.mp h.head?_eq.symm) hl

/-- A closed lexeme may stand before the first lexeme of a text exactly if it does not go on into
that text. -/
theorem mayPrecede_iff {l : Kind × List Char} (hl : Closed l.1 l.2) {rest : List Char}
    {ls : List (Kind × List Char)} (h : IsTokenization rest ls) :
    (∀ m ∈ ls.head?, MayPrecede l m) ↔ Bounded l.1 l.2 rest := by
  cases ls with
  | nil =>
    rw [h.eq_nil]
    obtain ⟨kind, w⟩ := l
    cases kind <;> simp [Bounded]
  | cons m ls =>
    have hm := h.lexeme m (by simp)
    obtain ⟨c, w, hw⟩ := List.exists_cons_of_ne_nil hm.ne_nil
    have hb := hm.isBlank_head (c := c) (by simp [hw])
    have hr : rest.head? = some c := by rw [h.head?_eq, hw, List.head?_cons]
    have hc : m.2.head? = some c := by rw [hw, List.head?_cons]
    obtain ⟨kind, v⟩ := l
    constructor
    · intro hp
      have hp := hp m rfl
      cases kind with
      | whitespace => simpa [Bounded, hr, hb] using hp.blanks rfl
      | slash => simpa [Bounded, hr, hc] using hp.slash rfl
      | singleLineComment => simpa [Bounded, hr, hc] using hp.lineFeed rfl
      | _ => trivial
    · intro hp m' hm'
      cases hm'
      refine ⟨hl, ?_, ?_, ?_⟩
      · rintro rfl
        simpa [Bounded, hr, hb] using hp
      · rintro rfl
        simpa [Bounded, hr, hc] using hp
      · rintro rfl
        simpa [Bounded, hr, hc] using hp

/-- A tokenization is a first lexeme and a tokenization of what comes after it. -/
theorem cons_iff {cs : List Char} {l : Kind × List Char} {ls : List (Kind × List Char)} :
    IsTokenization cs (l :: ls) ↔
      ∃ rest, cs = l.2 ++ rest ∧ IsTokenization rest ls ∧ Stands l.1 l.2 rest := by
  constructor
  · intro h
    have hc := List.isChain_cons.mp h.adjacent
    have hr : IsTokenization (ls.map Prod.snd).flatten ls :=
      ⟨rfl, fun m hm => h.lexeme m (List.mem_cons_of_mem _ hm), hc.2⟩
    refine ⟨(ls.map Prod.snd).flatten, h.flatten.symm, hr, ?_⟩
    cases ls with
    | nil =>
      rcases h.lexeme l (by simp) with hl | hl
      · exact .inl ⟨hl, (mayPrecede_iff hl hr).mp hc.1⟩
      · exact .inr ⟨hl, rfl⟩
    | cons m ls =>
      have hl := (hc.1 m rfl).closed
      exact .inl ⟨hl, (mayPrecede_iff hl hr).mp hc.1⟩
  · rintro ⟨rest, rfl, hr, ⟨hl, hb⟩ | ⟨hl, rfl⟩⟩
    · refine ⟨by simp [hr.flatten], ?_, ?_⟩
      · rintro m (_ | ⟨_, hm⟩)
        · exact .inl hl
        · exact hr.lexeme m hm
      · exact List.isChain_cons.mpr ⟨(mayPrecede_iff hl hr).mpr hb, hr.adjacent⟩
    · obtain rfl := hr.eq_nil_of_nil
      exact ⟨by simp, by simpa using .inr hl, .singleton _⟩

end IsTokenization

/-- Every text has a tokenization. -/
theorem exists_isTokenization (cs : List Char) : ∃ ls, IsTokenization cs ls := by
  induction h : cs.length using Nat.strongRecOn generalizing cs with
  | ind n ih =>
    cases cs with
    | nil => exact ⟨[], .nil⟩
    | cons c cs =>
      obtain ⟨kind, w, rest, hw, hl⟩ := hasFirst_cons c cs
      have hne : w ≠ [] := by
        rcases hl with ⟨hl, _⟩ | ⟨hl, _⟩
        · exact Lexeme.ne_nil (.inl hl)
        · exact Lexeme.ne_nil (.inr hl)
      have hlt : rest.length < n := by
        have := List.length_pos_of_ne_nil hne
        rw [← h, hw, List.length_append]
        omega
      obtain ⟨ls, hr⟩ := ih _ hlt rest rfl
      exact ⟨(kind, w) :: ls, IsTokenization.cons_iff.mpr ⟨rest, hw, hr, hl⟩⟩

@[simp] theorem Token.lexeme_ofList (kind : Kind) (start : Position) (text : List Char) :
    (Token.ofList kind start text).lexeme = (kind, text) := by
  simp [Token.lexeme]

/-- Reading a text between tokens yields its tokenization, whichever it is. -/
theorem IsTokenization.lex_eq {cs : List Char} {ls : List (Kind × List Char)}
    (h : IsTokenization cs ls) (t : Tracker) :
    (Progress.lex ⟨t, .between⟩ cs).map Token.lexeme = ls := by
  induction ls generalizing cs t with
  | nil =>
    rw [h.eq_nil]
    rfl
  | cons l ls ih =>
    obtain ⟨rest, rfl, hr, ⟨hl, hb⟩ | ⟨hl, rfl⟩⟩ := cons_iff.mp h
    · rw [Progress.lex_closed t hl rest hb, List.map_cons, ih hr, Token.lexeme_ofList]
    · have hn := ih hr t
      rw [Progress.lex_nil] at hn
      rw [List.append_nil, Progress.lex_cut t hl, ← hn]
      simp [Progress.flush]

/-- The tokens that reading a text yields are a tokenization of it. -/
theorem isTokenization_lex (cs : List Char) :
    IsTokenization cs ((Progress.start.lex cs).map Token.lexeme) := by
  obtain ⟨ls, h⟩ := exists_isTokenization cs
  have hls : (Progress.start.lex cs).map Token.lexeme = ls := h.lex_eq .start
  rwa [hls]

/-- The tokens of a text are those of its run from the start. -/
theorem tokenize_eq_lex (s : String) : tokenize s = .ok (Progress.start.lex s.toList) := by
  simp only [tokenize, tokenizeChunks, Tokenizer.feedAll, Tokenizer.new_eq_tokenizer,
    Tokenizer.feed_tokenizer, ok_bind, Tokenizer.close, Tokenizer.finish_tokenizer]
  simp [Progress.lex, Progress.tokenizer, Utf8.Decoder.carry, Utf8.Decoder.hasPending,
    Utf8.Decoder.empty]

/-- Every text is accepted, and the kinds and texts of its tokens are its only tokenization. -/
theorem tokenize_iff_isTokenization (s : String) :
    ∃ ts, tokenize s = .ok ts ∧
      ∀ ls, IsTokenization s.toList ls ↔ ls = ts.map Token.lexeme := by
  refine ⟨_, tokenize_eq_lex s, fun ls => ⟨fun h => (h.lex_eq .start).symm, ?_⟩⟩
  rintro rfl
  obtain ⟨ls, h⟩ := exists_isTokenization s.toList
  have he := h.lex_eq .start
  rw [← he] at h
  exact h

end StyleScan
