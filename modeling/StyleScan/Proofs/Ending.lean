import StyleScan.Proofs.Continuation

/-! # Where the input ends

The input may end inside a comment or a string.  Whether it does shows in the last token: either the
end of the input cuts it off, or it is a line comment that ends in a carriage return, which a line
feed might still follow (`isInside_top_iff`).

## Implementation notes

One more character tells the phases apart.  What is open takes it up, and the longer lexeme ends as
no closed one does; where nothing is open, a line feed becomes a token of its own, and so the token
before it is closed and does not wait for that line feed. -/

namespace StyleScan

/-- The end of the input cuts the lexeme off, or leaves it waiting for a line feed. -/
def Unfinished (kind : Kind) (w : List Char) : Prop :=
  Cut kind w ∨ kind = .singleLineComment ∧ w.getLast? = some '\r'

namespace Context

/-- The context is that of a comment or a string. -/
def isInside : Context → Bool
  | .multiLineComment _ | .singleLineComment | .string _ _ => true
  | .general | .slashLookahead _ => false

end Context

/-- The innermost context of a phase. -/
def Phase.top (p : Phase) : Context :=
  p.contexts.headD .general

namespace Items

variable {quote : Quote} {items : List Char}

/-- What the inside of a string begins with. -/
theorem cons_cases {c : Char} {cs : List Char} (h : Items quote (c :: cs)) :
    (c = '\\' ∧ ∃ d rest, cs = d :: rest ∧ Items quote rest) ∨
      (c ≠ quote.char ∧ c ≠ '\\' ∧ Items quote cs) := by
  cases h with
  | escape d hrest => exact .inl ⟨rfl, d, _, rfl, hrest⟩
  | plain hq hs _ hrest => exact .inr ⟨hq, hs, hrest⟩

/-- The mark ends a string, whatever comes after it. -/
theorem not_append_mark (h : Items quote items) (rest : List Char) :
    ¬ Items quote (items ++ quote.char :: rest) := by
  induction h with
  | nil =>
    intro hmark
    rcases hmark.cons_cases with ⟨hc, -⟩ | ⟨hq, -, -⟩
    · exact Progress.char_ne_backslash quote hc
    · exact hq rfl
  | escape _ _ ih =>
    intro hmark
    rcases hmark.cons_cases with ⟨-, d, cs, hcs, hrest⟩ | ⟨-, hs, -⟩
    · obtain ⟨-, rfl⟩ := List.cons.inj hcs
      exact ih hrest
    · exact hs rfl
  | plain _ hs _ _ ih =>
    intro hmark
    rcases hmark.cons_cases with ⟨hc, -⟩ | ⟨-, -, hrest⟩
    · exact hs hc
    · exact ih hrest

/-- Without its last character, the inside of a string is one, or its last backslash has nothing
left to escape. -/
theorem of_append_singleton {w : List Char} {c : Char} (h : Items quote (w ++ [c])) :
    Items quote w ∨ ∃ items, w = items ++ ['\\'] ∧ Items quote items := by
  generalize hv : w ++ [c] = v at h
  induction h generalizing w with
  | nil => simp at hv
  | escape d _ ih =>
    cases w with
    | nil => simp at hv
    | cons a w =>
      simp only [List.cons_append, List.cons.injEq] at hv
      obtain ⟨rfl, hv⟩ := hv
      cases w with
      | nil => exact .inr ⟨[], rfl, .nil⟩
      | cons a w =>
        simp only [List.cons_append, List.cons.injEq] at hv
        obtain ⟨rfl, hv⟩ := hv
        rcases ih hv with hitems | ⟨items, rfl, hitems⟩
        · exact .inl (.escape a hitems)
        · exact .inr ⟨'\\' :: a :: items, rfl, .escape a hitems⟩
  | plain hq hs hb _ ih =>
    cases w with
    | nil => exact .inl .nil
    | cons a w =>
      simp only [List.cons_append, List.cons.injEq] at hv
      obtain ⟨rfl, hv⟩ := hv
      rcases ih hv with hitems | ⟨items, rfl, hitems⟩
      · exact .inl (.plain hq hs hb hitems)
      · exact .inr ⟨a :: items, rfl, .plain hq hs hb hitems⟩

end Items

/-- Every end of a line has a character that breaks it. -/
theorem exists_breaksLine_of_mem_lineEnds {stop : List Char} (h : stop ∈ lineEnds) :
    ∃ c ∈ stop, breaksLine c := by
  simp only [lineEnds, List.mem_cons, List.not_mem_nil, or_false] at h
  rcases h with rfl | rfl | rfl | rfl <;> exact ⟨_, List.mem_cons_self, rfl⟩

/-- No lexeme is both complete as it stands and cut off. -/
theorem Closed.not_cut {kind : Kind} {w : List Char} (h : Closed kind w) : ¬ Cut kind w := by
  intro hcut
  cases h with
  | whitespace _ _ | identifier _ _ _ | slash | unterminated _ _ _ => cases hcut
  | block _ =>
    cases hcut with
    | block hopen => exact hopen (List.infix_append' _ _ [])
  | line _ hs =>
    cases hcut with
    | line hopen =>
      obtain ⟨c, hc, hbreak⟩ := exists_breaksLine_of_mem_lineEnds hs
      rw [hopen c (List.mem_append_right _ hc)] at hbreak
      cases hbreak
  | @string quote items h =>
    generalize hw : quote.char :: (items ++ [quote.char]) = w at hcut
    cases hcut with
    | string _ hopen =>
      obtain ⟨-, rfl⟩ := List.cons.inj hw
      exact h.not_append_mark [] hopen
    | escape _ hopen =>
      obtain ⟨-, hlast⟩ := List.append_inj' (List.cons.inj hw).2 rfl
      exact Progress.char_ne_backslash quote (List.cons.inj hlast).1

namespace Lexeme

variable {body : List Char}

/-- A character that cannot close a comment leaves it cut off. -/
theorem cut_of_block (h : Lexeme .multiLineComment ('/' :: '*' :: (body ++ ['x']))) :
    Cut .multiLineComment ('/' :: '*' :: body) := by
  rcases h with hclosed | hcut
  · generalize hw : '/' :: '*' :: (body ++ ['x']) = w at hclosed
    cases hclosed with
    | block _ =>
      have hlast := congrArg List.getLast? (List.cons.inj (List.cons.inj hw).2).2
      simp at hlast
  · cases hcut with
    | block hopen =>
      refine .block fun hclose => ?_
      exact hopen (hclose.trans (List.prefix_append body ['x']).isInfix)

/-- A line feed closes a line comment, and may do so together with a carriage return. -/
theorem unfinished_of_line (h : Lexeme .singleLineComment ('/' :: '/' :: (body ++ ['\n']))) :
    Unfinished .singleLineComment ('/' :: '/' :: body) := by
  rcases h with hclosed | hcut
  · generalize hw : '/' :: '/' :: (body ++ ['\n']) = w at hclosed
    cases hclosed with
    | @line plain stop hplain hs =>
      simp only [List.cons.injEq, true_and] at hw
      simp only [lineEnds, List.mem_cons, List.not_mem_nil, or_false] at hs
      rcases hs with rfl | rfl | rfl | rfl
      · obtain ⟨rfl, -⟩ := List.append_inj' hw rfl
        exact .inl (.line hplain)
      · have hlast := congrArg List.getLast? hw
        simp at hlast
      · have hsplit : body ++ ['\n'] = (plain ++ ['\r']) ++ ['\n'] := by simpa using hw
        obtain ⟨rfl, -⟩ := List.append_inj' hsplit rfl
        exact .inr ⟨rfl, List.getLast?_concat (l := '/' :: '/' :: plain)⟩
      · have hlast := congrArg List.getLast? hw
        simp at hlast
  · cases hcut with
    | line hopen =>
      have hbreak := hopen '\n' (by simp)
      cases hbreak

/-- A character that cannot close a string leaves it cut off. -/
theorem cut_of_string {quote : Quote}
    (h : Lexeme (.string quote) (quote.char :: (body ++ ['x']))) :
    Cut (.string quote) (quote.char :: body) := by
  generalize hw : quote.char :: (body ++ ['x']) = w at h
  have hmark : quote.char ≠ 'x' := by cases quote <;> decide
  rcases h with hclosed | hcut
  · cases hclosed with
    | string _ _ =>
      have hlast := congrArg List.getLast? (List.cons.inj hw).2
      rw [List.getLast?_concat, List.getLast?_concat, Option.some.injEq] at hlast
      exact absurd hlast.symm hmark
  · cases hcut with
    | string _ hopen =>
      obtain ⟨-, rfl⟩ := List.cons.inj hw
      rcases hopen.of_append_singleton with hitems | ⟨items, rfl, hitems⟩
      · exact .string quote hitems
      · exact .escape quote hitems
    | escape _ _ =>
      have hlast := congrArg List.getLast? (List.cons.inj hw).2
      simp at hlast

end Lexeme

namespace Progress

variable {cs : List Char} {tracker : Tracker} {here : Position} {body : List Char}

theorem lexeme_of_mem_lex {t : Token} (h : t ∈ start.lex cs) : Lexeme t.kind t.text.toList :=
  (isTokenization_lex cs).lexeme t.lexeme (List.mem_map_of_mem h)

/-- What one more character makes of an open piece is a lexeme. -/
theorem lexeme_of_mem_lex_singleton {c : Char} {t : Token} (h : t ∈ (start.run cs).2.lex [c]) :
    Lexeme t.kind t.text.toList := by
  have hmem : t ∈ start.lex (cs ++ [c]) := by
    rw [lex_append]
    exact List.mem_append_right _ h
  exact lexeme_of_mem_lex hmem

/-- A comment or a string that is open at the end of the input is its last token, unfinished. -/
theorem exists_flush_of_isInside (h : (start.run cs).2.phase.top.isInside) :
    ∃ t, tokensOf (start.run cs).2.flush = [t] ∧ Unfinished t.kind t.text.toList := by
  have hgrown {t : Token} (ht : t ∈ (start.run cs).2.lex [(start.run cs).2.phase.growth]) :=
    lexeme_of_mem_lex_singleton ht
  generalize (start.run cs).2 = x at h hgrown
  obtain ⟨tracker, phase⟩ := x
  cases phase with
  | between | blanks _ _ | slash _ => cases h
  | block here body =>
    have hmem : .ofList .multiLineComment here ('/' :: '*' :: (body ++ ['x'])) ∈
        lex ⟨tracker, .block here body⟩ ['x'] := by
      rw [lex_mk_cons, lex_nil]
      simp [Phase.read, flush, Event.token?]
    have hlexeme := hgrown hmem
    refine ⟨_, rfl, ?_⟩
    rw [Token.ofList_kind, Token.toList_ofList_text] at hlexeme ⊢
    exact .inl hlexeme.cut_of_block
  | line here body =>
    have hmem : .ofList .singleLineComment here ('/' :: '/' :: (body ++ ['\n'])) ∈
        lex ⟨tracker, .line here body⟩ ['\n'] := by
      rw [lex_mk_cons]
      cases hreturn : tracker.afterReturn with
      | true => simp [Phase.read, hreturn, LineBreak.of, LineBreak.isComplete, Event.token?]
      | false => simp [Phase.read, hreturn, LineBreak.of, LineBreak.isComplete, Event.token?]
    have hlexeme := hgrown hmem
    refine ⟨_, rfl, ?_⟩
    rw [Token.ofList_kind, Token.toList_ofList_text] at hlexeme ⊢
    exact hlexeme.unfinished_of_line
  | string quote here body =>
    have hmark : 'x' ≠ quote.char := by cases quote <;> decide
    have hmem : .ofList (.string quote) here (quote.char :: (body ++ ['x'])) ∈
        lex ⟨tracker, .string quote here body⟩ ['x'] := by
      rw [lex_mk_cons, lex_nil]
      simp [Phase.read, breaksLine, hmark, flush, Event.token?]
    have hlexeme := hgrown hmem
    refine ⟨_, rfl, ?_⟩
    rw [Token.ofList_kind, Token.toList_ofList_text] at hlexeme ⊢
    exact .inl hlexeme.cut_of_string

/-- A token that is complete before a line feed is read is finished. -/
theorem not_unfinished_of_between (h : (start.run cs).2.phase = .between) :
    ∀ t ∈ (tokensOf (start.run cs).1).getLast?, ¬ Unfinished t.kind t.text.toList := by
  have hline : (start.run cs).2.lex ['\n'] =
      [.ofList .whitespace (start.run cs).2.tracker.next ['\n']] := by
    generalize (start.run cs).2 = x at h
    obtain ⟨tracker, phase⟩ := x
    obtain rfl : phase = .between := h
    have hblank : ∀ c ∈ ['\n'], isBlank c := List.forall_mem_singleton.mpr rfl
    exact lex_whitespace tracker (List.cons_ne_nil _ _) hblank [] (by simp)
  have hchain := (isTokenization_lex (cs ++ ['\n'])).adjacent
  rw [lex_append, hline, List.map_append, List.isChain_append] at hchain
  intro t ht hunfinished
  have hbefore : MayPrecede t.lexeme (.whitespace, ['\n']) := by
    apply hchain.2.2
    · rw [List.getLast?_map]
      exact Option.mem_map_of_mem _ ht
    · simp
  rcases hunfinished with hcut | ⟨hkind, hreturn⟩
  · exact hbefore.closed.not_cut hcut
  · exact hbefore.lineFeed hkind hreturn rfl

/-- A run of blanks or a slash is never unfinished. -/
theorem not_unfinished_of_concat (ts : List Token) {t : Token}
    (hkind : t.kind = .whitespace ∨ t.kind = .slash) :
    ∀ u ∈ (ts ++ [t]).getLast?, ¬ Unfinished u.kind u.text.toList := by
  intro u hu hunfinished
  rw [List.getLast?_concat, Option.mem_some_iff] at hu
  subst hu
  rcases hkind with hkind | hkind <;> rw [hkind] at hunfinished
  · rcases hunfinished with hcut | ⟨hline, -⟩
    · cases hcut
    · cases hline
  · rcases hunfinished with hcut | ⟨hline, -⟩
    · cases hcut
    · cases hline

/-- If the input does not end inside a comment or a string, the last token is finished. -/
theorem not_unfinished_of_top (h : (start.run cs).2.phase.top.isInside = false) :
    ∀ t ∈ (start.lex cs).getLast?, ¬ Unfinished t.kind t.text.toList := by
  have hbetween := @not_unfinished_of_between cs
  rw [lex]
  generalize (start.run cs) = run at h hbetween
  obtain ⟨events, tracker, phase⟩ := run
  cases phase with
  | block _ _ | line _ _ | string _ _ _ => cases h
  | between =>
    have hnone : tokensOf (flush ⟨tracker, .between⟩) = [] := rfl
    rw [hnone, List.append_nil]
    exact hbetween rfl
  | blanks _ _ => exact not_unfinished_of_concat _ (.inl rfl)
  | slash _ => exact not_unfinished_of_concat _ (.inr rfl)

/-- The input ends inside a comment or a string exactly if its last token is unfinished. -/
theorem isInside_top_iff (cs : List Char) :
    (start.run cs).2.phase.top.isInside ↔
      ∃ t ∈ (start.lex cs).getLast?, Unfinished t.kind t.text.toList := by
  constructor
  · intro h
    obtain ⟨t, hflush, hunfinished⟩ := exists_flush_of_isInside h
    refine ⟨t, ?_, hunfinished⟩
    rw [lex, hflush]
    exact List.getLast?_concat
  · rintro ⟨t, ht, hunfinished⟩
    by_contra h
    exact not_unfinished_of_top (Bool.eq_false_iff.mpr h) t ht hunfinished

end Progress

end StyleScan
