import StyleScan.Proofs.Layout

/-! # Token boundaries

A token boundary is a place to start over.  A tokenization asks something of lexemes and of
neighbours only, so that every part of it is the tokenization of its own text
(`IsTokenization.of_infix`), and where tokens stand depends on what is before them alone
(`Laid.eq_of_lexemes`).  What comes before a boundary is therefore tokenized as it was, positions
included, and what comes after it with the same kinds and texts (`tokenize_restarts`). -/

namespace StyleScan

/-- The text of tokens is that of their lexemes. -/
theorem toList_join_text (ts : List Token) :
    (String.join (ts.map Token.text)).toList =
      ((ts.map Token.lexeme).map Prod.snd).flatten := by
  rw [String.toList_join, List.flatMap_map, List.map_map]
  rfl

/-- Lexemes that follow one another in a tokenization are the tokenization of their text. -/
theorem IsTokenization.of_infix {cs : List Char} {ls ms : List (Kind × List Char)}
    (h : IsTokenization cs ls) (hms : ms <:+: ls) :
    IsTokenization (ms.map Prod.snd).flatten ms := by
  refine ⟨rfl, ?_, h.adjacent.infix hms⟩
  intro l hl
  exact h.lexeme l (hms.subset hl)

/-- The lexemes of tokens and where the first of them stands determine the tokens. -/
theorem Laid.eq_of_lexemes {t : Tracker} {ts us : List Token} (hts : Laid t (ts.map Token.piece))
    (hus : Laid t (us.map Token.piece)) (h : ts.map Token.lexeme = us.map Token.lexeme) :
    ts = us := by
  induction ts generalizing t us with
  | nil => exact (List.map_eq_nil_iff.mp h.symm).symm
  | cons a ts ih =>
    cases us with
    | nil => cases h
    | cons b us =>
      obtain ⟨hlexeme, hrest⟩ := List.cons.inj h
      obtain ⟨hkind, htext⟩ := Prod.mk.inj hlexeme
      obtain ⟨-, hastart, hts⟩ := hts
      obtain ⟨-, hbstart, hus⟩ := hus
      have htext : a.text = b.text := String.toList_injective htext
      have hstart : a.start = b.start := hastart.trans hbstart.symm
      have hab : a = b := by
        cases a
        cases b
        cases hkind
        cases htext
        cases hstart
        rfl
      subst hab
      rw [ih hts hus hrest]

/-- A text that tokens make up in a tokenization is tokenized into their lexemes. -/
theorem tokenize_of_infix {cs : List Char} {ts us : List Token}
    (h : IsTokenization cs (ts.map Token.lexeme)) (hus : us <:+: ts) :
    ∃ vs, tokenize (String.join (us.map Token.text)) = .ok vs ∧
      vs.map Token.lexeme = us.map Token.lexeme ∧ Laid .start (vs.map Token.piece) := by
  have hpart := h.of_infix (hus.map Token.lexeme)
  rw [← toList_join_text] at hpart
  exact ⟨_, tokenize_eq_lex _, hpart.lex_eq .start, (Progress.anchored_start.laid_lex _).1⟩

/-- Tokens up to a boundary are exactly the tokens of their text, and those from a boundary on have
the kinds and texts of the tokens of theirs.  Each token by itself is the only one of its text. -/
theorem tokenize_restarts (s : String) :
    ∃ ts, tokenize s = .ok ts ∧
      (∀ before after, ts = before ++ after →
        tokenize (String.join (before.map Token.text)) = .ok before ∧
          ∃ us, tokenize (String.join (after.map Token.text)) = .ok us ∧
            us.map Token.lexeme = after.map Token.lexeme) ∧
      ∀ t ∈ ts, ∃ u, tokenize t.text = .ok [u] ∧ u.kind = t.kind ∧ u.text = t.text := by
  have h := isTokenization_lex s.toList
  obtain ⟨hlaid, -⟩ := Progress.anchored_start.laid_lex s.toList
  refine ⟨_, tokenize_eq_lex s, ?_, ?_⟩
  · intro before after hsplit
    rw [hsplit] at h hlaid
    constructor
    · obtain ⟨us, hus, hlexemes, huslaid⟩ := tokenize_of_infix h (List.infix_append [] _ _)
      rw [List.map_append, laid_append] at hlaid
      rw [hus, huslaid.eq_of_lexemes hlaid.1 hlexemes]
    · obtain ⟨us, hus, hlexemes, -⟩ := tokenize_of_infix h (List.suffix_append _ _).isInfix
      exact ⟨us, hus, hlexemes⟩
  · intro t ht
    obtain ⟨before, after, hsplit⟩ := List.append_of_mem ht
    have hone : [t] <:+: Progress.start.lex s.toList := by
      rw [hsplit]
      exact ⟨before, after, by simp⟩
    obtain ⟨us, hus, hlexemes, -⟩ := tokenize_of_infix h hone
    obtain ⟨u, rfl, hu⟩ := List.map_eq_singleton_iff.mp hlexemes
    obtain ⟨hkind, htext⟩ := Prod.mk.inj hu
    refine ⟨u, ?_, hkind, String.toList_injective htext⟩
    simpa [String.join] using hus

end StyleScan
