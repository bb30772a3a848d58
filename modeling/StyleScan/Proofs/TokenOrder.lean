import Mathlib.Data.Prod.Lex
import StyleScan.Proofs.Layout
import StyleScan.Proofs.Tokenization

/-! # The order of tokens

Each token starts at a greater offset than the one before it.  Its line and column are greater too,
with one exception.  A line feed that belongs to the carriage return before it takes up no column, so
that the character after it has the same line and column; and the line feed is a token of its own
exactly if the carriage return has ended a string (`tokenize_ordered`). -/

namespace StyleScan

/-- Line and column, in lexicographic order. -/
def Position.place (p : Position) : ℕ ×ₗ ℕ :=
  toLex (p.line, p.column)

/-- Line and column of a token's first character. -/
def Token.place (t : Token) : ℕ ×ₗ ℕ :=
  toLex (t.line, t.column)

/-- After the tokens `before`, the token `t` is the line feed of a pair whose carriage return has
ended a string. -/
def ClosesPair (before : List Token) (t : Token) : Prop :=
  t.kind = .whitespace ∧ t.text = "\n" ∧
    ∃ s ∈ before.getLast?, s.kind.isUnterminated ∧ s.text.toList.getLast? = some '\r'

namespace Position

/-! ## Places in a text -/

variable {cs : List Char} {c : Char}

/-- A carriage return starts the column over. -/
theorem column_endOf_of_return (h : cs.getLast? = some '\r') : (endOf cs).column = 0 := by
  obtain ⟨ds, rfl⟩ := List.getLast?_eq_some_iff.mp h
  have hline : lastLine (ds ++ ['\r']) = [] := by
    rw [lastLine_append]
    rfl
  simp [endOf, hline]

/-- A line feed that belongs to a carriage return takes up no place. -/
theorem place_endOf_pair (h : cs.getLast? = some '\r') :
    (endOf (cs ++ ['\n'])).place = (endOf cs).place := by
  have hcolumn := column_endOf_of_return h
  rw [endOf_append]
  simp [place, after, LineBreak.of, h, hcolumn]

/-- Every other character takes up one. -/
theorem place_endOf_lt (h : ¬ (c = '\n' ∧ cs.getLast? = some '\r')) :
    (endOf cs).place < (endOf (cs ++ [c])).place := by
  rw [endOf_append, place, place, Prod.Lex.toLex_lt_toLex]
  cases hb : LineBreak.of (cs.getLast? = some '\r') c with
  | none =>
    right
    exact ⟨rfl, Nat.lt_succ_self _⟩
  | carriageReturn | lineFeed =>
    left
    exact Nat.lt_succ_self _
  | pairedLineFeed =>
    have hpair := (LineBreak.of_iff (cs.getLast? = some '\r') c).1.mp hb
    exact absurd ⟨hpair.1, of_decide_eq_true hpair.2⟩ h

theorem place_endOf_le (cs ds : List Char) : (endOf cs).place ≤ (endOf (cs ++ ds)).place := by
  induction ds using List.reverseRecOn with
  | nil => rw [List.append_nil]
  | append_singleton ds c ih =>
    rw [← List.append_assoc]
    apply ih.trans
    by_cases h : c = '\n' ∧ (cs ++ ds).getLast? = some '\r'
    · obtain ⟨rfl, hlast⟩ := h
      exact (place_endOf_pair hlast).ge
    · exact (place_endOf_lt h).le

/-- A text that takes up no place is the line feed that belongs to a carriage return. -/
theorem place_endOf_eq_iff (cs : List Char) {ds : List Char} (hne : ds ≠ []) :
    (endOf cs).place = (endOf (cs ++ ds)).place ↔ ds = ['\n'] ∧ cs.getLast? = some '\r' := by
  obtain ⟨c, ds, rfl⟩ := List.exists_cons_of_ne_nil hne
  constructor
  · intro heq
    have hpair : c = '\n' ∧ cs.getLast? = some '\r' := by
      by_contra h
      have hle := place_endOf_le (cs ++ [c]) ds
      rw [List.append_assoc, List.singleton_append] at hle
      exact ((place_endOf_lt h).trans_le hle).ne heq
    obtain ⟨rfl, hlast⟩ := hpair
    cases ds with
    | nil => exact ⟨rfl, hlast⟩
    | cons d ds =>
      -- The line feed does not end in a carriage return, so that `d` takes up a place.
      have hlt : (endOf (cs ++ ['\n'])).place < (endOf (cs ++ ['\n'] ++ [d])).place :=
        place_endOf_lt (by simp)
      have hle := place_endOf_le (cs ++ ['\n'] ++ [d]) ds
      rw [place_endOf_pair hlast] at hlt
      simp only [List.append_assoc, List.singleton_append] at hlt hle
      exact absurd heq (hlt.trans_le hle).ne
  · rintro ⟨hds, hlast⟩
    rw [hds, place_endOf_pair hlast]

end Position

/-! ## Pieces one after the other -/

/-- Two pieces start where the text before each of them ends. -/
theorem Laid.start_eq_endOf_of_between {before between after : List Piece} {p q : Piece}
    (h : Laid .start (before ++ p :: (between ++ q :: after))) :
    p.start = .endOf (textOfPieces before) ∧
      q.start = .endOf (textOfPieces before ++ textOfPieces (p :: between)) := by
  constructor
  · exact (h.of_eq_append rfl).2
  · have hsplit : before ++ p :: (between ++ q :: after) = (before ++ p :: between) ++ q :: after := by
      simp
    rw [(h.of_eq_append hsplit).2, textOfPieces_append]

/-- Pieces of one character are a single piece. -/
theorem textOfPieces_cons_eq_singleton_iff {p : Piece} {ps : List Piece} {c : Char}
    (h : ∀ q ∈ p :: ps, q.text ≠ []) :
    textOfPieces (p :: ps) = [c] ↔ p.text = [c] ∧ ps = [] := by
  rw [textOfPieces_cons, List.append_eq_singleton_iff]
  constructor
  · rintro (⟨hp, -⟩ | ⟨hp, hps⟩)
    · exact absurd hp (h p (by simp))
    · refine ⟨hp, List.eq_nil_iff_forall_not_mem.mpr fun q hq => ?_⟩
      exact h q (by simp [hq]) (List.flatMap_eq_nil_iff.mp hps q hq)
  · rintro ⟨hp, rfl⟩
    exact .inr ⟨hp, rfl⟩

theorem utf8Length_pos {cs : List Char} (h : cs ≠ []) : 0 < utf8Length cs := by
  obtain ⟨c, cs, rfl⟩ := List.exists_cons_of_ne_nil h
  have hc := c.utf8Size_pos
  simp only [utf8Length, List.map_cons, List.sum_cons]
  omega

/-! ## Neighbours in a tokenization -/

/-- Between a carriage return and its line feed, only a string that it cuts off can end. -/
theorem MayPrecede.isUnterminated {a b : Kind × List Char} (h : MayPrecede a b)
    (hb : Lexeme b.1 b.2) (hlast : a.2.getLast? = some '\r') (hhead : b.2.head? = some '\n') :
    a.1.isUnterminated := by
  obtain ⟨kind, w⟩ := a
  have hclosed := h.closed
  cases hclosed with
  | whitespace _ _ =>
    have hkind := hb.isBlank_head hhead
    exact absurd (of_decide_eq_true hkind.symm) (h.blanks rfl)
  | @identifier c hblank _ _ =>
    obtain rfl : c = '\r' := by simpa using hlast
    cases hblank
  | slash => simp at hlast
  | @block body _ => simp [List.getLast?_cons] at hlast
  | line _ _ => exact absurd hhead (h.lineFeed rfl hlast)
  | @string quote items _ =>
    have hquote : quote.char = '\r' := by simpa [List.getLast?_cons] using hlast
    cases quote <;> cases hquote
  | unterminated _ _ _ => rfl

/-- The last character of tokens is that of the last token. -/
theorem getLast?_textOfPieces_map_piece {ts : List Token} (h : ∀ t ∈ ts, t.text.toList ≠ []) :
    (textOfPieces (ts.map Token.piece)).getLast? =
      ts.getLast?.bind fun t => t.text.toList.getLast? := by
  rcases List.eq_nil_or_concat' ts with rfl | ⟨ss, s, rfl⟩
  · rfl
  · have hs : s.piece.text ≠ [] := h s (by simp)
    rw [List.map_append, textOfPieces_append, List.map_singleton, textOfPieces_cons,
      textOfPieces_nil, List.append_nil, List.getLast?_append_of_ne_nil _ hs, List.getLast?_concat]
    rfl

/-- A token is the line feed of a carriage return before it only in the one way that
`ClosesPair` describes. -/
theorem IsTokenization.closesPair_iff {cs : List Char} {before after : List Token} {t : Token}
    (h : IsTokenization cs ((before ++ t :: after).map Token.lexeme)) :
    ClosesPair before t ↔ t.text.toList = ['\n'] ∧
      (textOfPieces (before.map Token.piece)).getLast? = some '\r' := by
  have hlexeme (s : Token) (hs : s ∈ before ++ t :: after) : Lexeme s.kind s.text.toList :=
    h.lexeme s.lexeme (List.mem_map_of_mem hs)
  rw [getLast?_textOfPieces_map_piece fun s hs => (hlexeme s (by simp [hs])).ne_nil]
  constructor
  · rintro ⟨-, htext, s, hs, -, hlast⟩
    refine ⟨by rw [htext]; rfl, ?_⟩
    rw [Option.mem_def.mp hs, Option.bind_some, hlast]
  · rintro ⟨htext, hbefore⟩
    obtain ⟨s, hs, hlast⟩ := Option.bind_eq_some_iff.mp hbefore
    obtain ⟨ss, rfl⟩ := List.getLast?_eq_some_iff.mp hs
    have hhead : t.text.toList.head? = some '\n' := by rw [htext]; rfl
    have hkind := (hlexeme t (by simp)).isBlank_head hhead
    have hpair : MayPrecede s.lexeme t.lexeme := by
      have hinfix : [s.lexeme, t.lexeme] <:+: (ss ++ [s] ++ t :: after).map Token.lexeme :=
        ⟨ss.map Token.lexeme, after.map Token.lexeme, by simp⟩
      have hchain := h.adjacent.infix hinfix
      exact List.isChain_pair.mp hchain
    refine ⟨of_decide_eq_true hkind.symm, String.toList_injective htext, s, hs, ?_, hlast⟩
    exact hpair.isUnterminated (hlexeme t (by simp)) hlast hhead

/-- Of two tokens, the later one starts at a greater offset, and also at a greater line and column
unless it directly follows a line feed whose carriage return has ended a string; in that case, and
only then, both have the same line and column. -/
theorem tokenize_ordered (text : String) :
    ∃ ts, tokenize text = .ok ts ∧
      ∀ before t between u after, ts = before ++ t :: (between ++ u :: after) →
        t.start.offset < u.start.offset ∧
        (t.place < u.place ↔ ¬ (between = [] ∧ ClosesPair before t)) ∧
        (t.place = u.place ↔ between = [] ∧ ClosesPair before t) := by
  have h := isTokenization_lex text.toList
  obtain ⟨hlaid, -⟩ := Progress.anchored_start.laid_lex text.toList
  refine ⟨_, tokenize_eq_lex text, ?_⟩
  intro before t between u after hsplit
  rw [hsplit] at h hlaid
  have hpieces : (before ++ t :: (between ++ u :: after)).map Token.piece =
      before.map Token.piece ++
        t.piece :: (between.map Token.piece ++ u.piece :: after.map Token.piece) := by simp
  rw [hpieces] at hlaid
  obtain ⟨ht, hu⟩ := hlaid.start_eq_endOf_of_between
  have hne : ∀ p ∈ t.piece :: between.map Token.piece, p.text ≠ [] := by
    intro p hp
    obtain ⟨s, hs, rfl⟩ : ∃ s ∈ t :: between, s.piece = p := List.mem_map.mp hp
    have hmem : s ∈ before ++ t :: (between ++ u :: after) := by
      simp only [List.mem_append, List.mem_cons] at hs ⊢
      tauto
    exact (h.lexeme s.lexeme (List.mem_map_of_mem hmem)).ne_nil
  -- What lies between the two starts: the text of `t` and of the tokens after it, up to `u`.
  let gap := textOfPieces (t.piece :: between.map Token.piece)
  have hgap : gap ≠ [] := by
    have htne := hne t.piece (by simp)
    simp [gap, htne]
  have heq : t.place = u.place ↔ between = [] ∧ ClosesPair before t := by
    have hplace := Position.place_endOf_eq_iff (textOfPieces (before.map Token.piece)) hgap
    rw [← ht, ← hu, textOfPieces_cons_eq_singleton_iff hne, List.map_eq_nil_iff] at hplace
    rw [h.closesPair_iff]
    apply hplace.trans
    change (t.text.toList = ['\n'] ∧ between = []) ∧ _ ↔ _
    tauto
  have hle : t.place ≤ u.place := by
    calc
      t.place = (Position.endOf (textOfPieces (before.map Token.piece))).place := by rw [← ht]; rfl
      _ ≤ (Position.endOf (textOfPieces (before.map Token.piece) ++ gap)).place :=
        Position.place_endOf_le _ _
      _ = u.place := by rw [← hu]; rfl
  refine ⟨?_, ?_, heq⟩
  · calc
      t.start.offset = utf8Length (textOfPieces (before.map Token.piece)) :=
        congrArg Position.offset ht
      _ < utf8Length (textOfPieces (before.map Token.piece)) + utf8Length gap :=
        Nat.lt_add_of_pos_right (utf8Length_pos hgap)
      _ = utf8Length (textOfPieces (before.map Token.piece) ++ gap) := (utf8Length_append _ _).symm
      _ = u.start.offset := congrArg Position.offset hu.symm
  · rw [← heq, lt_iff_le_and_ne]
    exact and_iff_right hle

/-- The line feed after the cut string and the letter after it share a line and a column. -/
example : (tokenize "'\r\nb").map (·.map Token.start) =
    .ok [⟨0, 0, 0⟩, ⟨1, 0, 2⟩, ⟨1, 0, 3⟩] := by
  decide

end StyleScan
