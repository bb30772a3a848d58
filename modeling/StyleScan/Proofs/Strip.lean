import StyleScan.Proofs.Printing
import StyleScan.Proofs.Tokenization

/-! # Style sheets without their comments

Leaving the comments out of a style sheet brings lexemes together that were apart.  Two runs of blanks
become one, and nothing else happens: of the other lexemes only a slash and a comment depend on what
follows them, and a slash is never followed by a comment, with whose first slash it would begin a
comment of its own.  The tokenization of what is left is therefore known
(`IsTokenization.mergeBlanks_uncommented`), and stripping it again changes nothing.

## Implementation notes

The proof goes from the last lexeme to the first.  What is left of the lexemes after `l` begins like
those lexemes themselves if they do not begin with a comment, and that is all that a slash asks
for. -/

namespace StyleScan

/-- The texts of the tokens that are no comments, one after the other. -/
def stripped (ts : List Token) : String :=
  String.join ((ts.filter fun t => !t.kind.isComment).map Token.text)

/-- The lexemes that are no comments. -/
def uncommented (ls : List (Kind × List Char)) : List (Kind × List Char) :=
  ls.filter fun l => !l.1.isComment

/-- Puts a lexeme in front of others; two runs of blanks that meet become one. -/
def glue (l : Kind × List Char) : List (Kind × List Char) → List (Kind × List Char)
  | [] => [l]
  | m :: ls =>
    if l.1 = .whitespace ∧ m.1 = .whitespace then (.whitespace, l.2 ++ m.2) :: ls
    else l :: m :: ls

/-- Makes one run of blanks of all that follow one another directly. -/
def mergeBlanks (ls : List (Kind × List Char)) : List (Kind × List Char) :=
  ls.foldr glue []

@[simp] theorem mergeBlanks_nil : mergeBlanks [] = [] := rfl

@[simp] theorem mergeBlanks_cons (l : Kind × List Char) (ls : List (Kind × List Char)) :
    mergeBlanks (l :: ls) = glue l (mergeBlanks ls) := rfl

theorem glue_of_ne_whitespace {l : Kind × List Char} (h : l.1 ≠ .whitespace)
    (ls : List (Kind × List Char)) : glue l ls = l :: ls := by
  cases ls with
  | nil => rfl
  | cons m ls => simp [glue, h]

/-! ## What merging keeps -/

theorem flatten_glue (l : Kind × List Char) (ls : List (Kind × List Char)) :
    ((glue l ls).map Prod.snd).flatten = l.2 ++ (ls.map Prod.snd).flatten := by
  cases ls with
  | nil => simp [glue]
  | cons m ls =>
    rw [glue]
    split <;> simp

/-- Merging keeps the text. -/
theorem flatten_mergeBlanks (ls : List (Kind × List Char)) :
    ((mergeBlanks ls).map Prod.snd).flatten = (ls.map Prod.snd).flatten := by
  induction ls with
  | nil => rfl
  | cons l ls ih => simp [flatten_glue, ih]

theorem filter_glue {keep : Kind → Bool} (h : keep .whitespace = false) (l : Kind × List Char)
    (ls : List (Kind × List Char)) :
    (glue l ls).filter (fun m => keep m.1) = (l :: ls).filter (fun m => keep m.1) := by
  cases ls with
  | nil => rfl
  | cons m ls =>
    rw [glue]
    split
    next hboth => simp [hboth.1, hboth.2, h]
    next => rfl

/-- Merging keeps the lexemes of other kinds. -/
theorem filter_mergeBlanks {keep : Kind → Bool} (h : keep .whitespace = false)
    (ls : List (Kind × List Char)) :
    (mergeBlanks ls).filter (fun m => keep m.1) = ls.filter (fun m => keep m.1) := by
  induction ls with
  | nil => rfl
  | cons l ls ih => rw [mergeBlanks_cons, filter_glue h, List.filter_cons, List.filter_cons, ih]

/-- No comment is left. -/
theorem isComment_of_mem_mergeBlanks {ls : List (Kind × List Char)} {l : Kind × List Char}
    (hl : l ∈ mergeBlanks (uncommented ls)) : l.1.isComment = false := by
  have h : (mergeBlanks (uncommented ls)).filter (fun m => m.1.isComment) = [] := by
    rw [filter_mergeBlanks rfl, uncommented, List.filter_filter]
    simp
  rw [List.filter_eq_nil_iff] at h
  simpa using h l hl

/-- There is nothing more to strip. -/
theorem uncommented_mergeBlanks (ls : List (Kind × List Char)) :
    uncommented (mergeBlanks (uncommented ls)) = mergeBlanks (uncommented ls) := by
  refine List.filter_eq_self.mpr fun l hl => ?_
  simp [isComment_of_mem_mergeBlanks hl]

/-- All strings are left. -/
theorem filter_isString_mergeBlanks (ls : List (Kind × List Char)) :
    (mergeBlanks (uncommented ls)).filter (fun m => m.1.isString) =
      ls.filter fun m => m.1.isString := by
  rw [filter_mergeBlanks rfl, uncommented, List.filter_filter]
  apply List.filter_congr
  intro l _
  cases l.1 <;> rfl

/-! ## The tokenization of what is left -/

namespace IsTokenization

variable {rest : List Char} {ls : List (Kind × List Char)}

/-- A run of blanks may be put in front of every tokenization. -/
theorem glue_blanks {w : List Char} (hw : Closed .whitespace w) (h : IsTokenization rest ls) :
    IsTokenization (w ++ rest) (glue (.whitespace, w) ls) := by
  cases ls with
  | nil =>
    rw [h.eq_nil]
    exact cons_iff.mpr ⟨[], rfl, .nil, .inl ⟨hw, by simp [Bounded]⟩⟩
  | cons m ls =>
    obtain ⟨kind, v⟩ := m
    by_cases hkind : kind = .whitespace
    · subst hkind
      obtain ⟨after, rfl, hafter, hv⟩ := cons_iff.mp h
      obtain ⟨hv, hbounded⟩ : Closed .whitespace v ∧ Bounded .whitespace v after := by
        rcases hv with hv | ⟨hv, -⟩
        · exact hv
        · cases hv
      have hwv : Closed .whitespace (w ++ v) := by
        obtain ⟨hne, hblank⟩ := hw
        obtain ⟨-, hblank'⟩ := hv
        refine .whitespace (by simp [hne]) fun c hc => ?_
        rcases List.mem_append.mp hc with hc | hc
        · exact hblank c hc
        · exact hblank' c hc
      exact cons_iff.mpr ⟨after, by simp, hafter, .inl ⟨hwv, hbounded⟩⟩
    · have hbounded : Bounded .whitespace w rest := by
        intro c hc
        rw [h.head?_eq] at hc
        rw [(h.lexeme _ (by simp)).isBlank_head hc]
        simpa using hkind
      have hglue : glue (.whitespace, w) ((kind, v) :: ls) =
          (.whitespace, w) :: (kind, v) :: ls := by
        simp [glue, hkind]
      rw [hglue]
      exact cons_iff.mpr ⟨rest, rfl, h, .inl ⟨hw, hbounded⟩⟩

/-- A slash is not followed by a comment, so that what is left after it begins as before. -/
theorem bounded_slash (h : IsTokenization rest ls) {w : List Char}
    (hb : Bounded .slash w rest) :
    Bounded .slash w ((uncommented ls).map Prod.snd).flatten := by
  cases ls with
  | nil => simp [uncommented, Bounded]
  | cons m ls =>
    have hm := h.lexeme m (by simp)
    have hkind : m.1.isComment = false := by
      by_contra hkind
      have hslash := hm.head?_of_isComment (by simpa using hkind)
      rw [← h.head?_eq] at hslash
      exact (hb '/' hslash).1 rfl
    have hleft : ((uncommented (m :: ls)).map Prod.snd).flatten.head? = rest.head? := by
      rw [h.head?_eq, uncommented, List.filter_cons, hkind]
      simp [List.head?_append_of_ne_nil _ hm.ne_nil]
    intro c hc
    rw [hleft] at hc
    exact hb c hc

/-- A lexeme that is no comment stands before what is left as it stood before what there was. -/
theorem stands_uncommented (h : IsTokenization rest ls) {l : Kind × List Char}
    (hl : Stands l.1 l.2 rest) (hcomment : l.1.isComment = false) (hblank : l.1 ≠ .whitespace) :
    Stands l.1 l.2 ((uncommented ls).map Prod.snd).flatten := by
  obtain ⟨kind, w⟩ := l
  rcases hl with ⟨hl, hbounded⟩ | ⟨hl, rfl⟩
  · refine .inl ⟨hl, ?_⟩
    cases kind with
    | slash => exact h.bounded_slash hbounded
    | whitespace => exact absurd rfl hblank
    | multiLineComment | singleLineComment => cases hcomment
    | identifier | string _ | unterminated _ => trivial
  · rw [h.eq_nil_of_nil]
    exact .inr ⟨hl, rfl⟩

/-- What is left without the comments has the lexemes that are left for its tokenization, but for the
runs of blanks that have come together. -/
theorem mergeBlanks_uncommented {cs : List Char} (h : IsTokenization cs ls) :
    IsTokenization ((uncommented ls).map Prod.snd).flatten (mergeBlanks (uncommented ls)) := by
  induction ls generalizing cs with
  | nil => exact .nil
  | cons l ls ih =>
    obtain ⟨rest, rfl, hrest, hl⟩ := cons_iff.mp h
    cases hcomment : l.1.isComment with
    | true => simpa [uncommented, hcomment] using ih hrest
    | false =>
      have hleft : uncommented (l :: ls) = l :: uncommented ls := by simp [uncommented, hcomment]
      rw [hleft, mergeBlanks_cons, List.map_cons, List.flatten_cons]
      by_cases hblank : l.1 = .whitespace
      · obtain ⟨kind, w⟩ := l
        subst hblank
        have hw : Closed .whitespace w := by
          rcases hl with hl | ⟨hl, -⟩
          · exact hl.1
          · cases hl
        exact (ih hrest).glue_blanks hw
      · rw [glue_of_ne_whitespace hblank]
        exact cons_iff.mpr ⟨_, rfl, ih hrest, hrest.stands_uncommented hl hcomment hblank⟩

end IsTokenization

/-! ## Stripping -/

theorem Format.renderAll_strip (ts : List Token) : Format.strip.renderAll ts = stripped ts := by
  induction ts with
  | nil => rfl
  | cons t ts ih =>
    rw [Format.renderAll_cons, ih]
    cases h : t.kind.isComment <;> simp [Format.render, stripped, h]

/-- The printer prints the style sheet without its comments. -/
theorem output_writeAll_strip (ts : List Token) :
    ((Printer.new .strip).writeAll ts).1.output = stripped ts := by
  rw [Printer.writeAll_of_unlimited _ rfl, ← Format.renderAll_strip]
  simp [Printer.new]

theorem toList_stripped (ts : List Token) :
    (stripped ts).toList = ((uncommented (ts.map Token.lexeme)).map Prod.snd).flatten := by
  rw [stripped, String.toList_join, uncommented, List.filter_map, List.flatMap_map, List.map_map]
  rfl

theorem map_lexeme_filter (keep : Kind → Bool) (ts : List Token) :
    (ts.filter fun t => keep t.kind).map Token.lexeme =
      (ts.map Token.lexeme).filter fun l => keep l.1 := by
  rw [List.filter_map]
  rfl

/-- The tokens of a stripped style sheet are those that are no comments, with one run of blanks for
all that come to follow one another.  So there is no comment among them, the strings are the same,
and there is nothing more to strip. -/
theorem tokenize_stripped (s : String) :
    ∃ ts us, tokenize s = .ok ts ∧ ((Printer.new .strip).writeAll ts).1.output = stripped ts ∧
      tokenize (stripped ts) = .ok us ∧
      us.map Token.lexeme =
        mergeBlanks ((ts.filter fun t => !t.kind.isComment).map Token.lexeme) ∧
      (∀ u ∈ us, u.kind.isComment = false) ∧
      (us.filter fun u => u.kind.isString).map Token.lexeme =
        (ts.filter fun t => t.kind.isString).map Token.lexeme ∧
      stripped us = stripped ts := by
  let ts := Progress.start.lex s.toList
  let us := Progress.start.lex (stripped ts).toList
  have hus : us.map Token.lexeme = mergeBlanks (uncommented (ts.map Token.lexeme)) := by
    have h := (isTokenization_lex s.toList).mergeBlanks_uncommented
    rw [← toList_stripped] at h
    exact h.lex_eq .start
  refine ⟨ts, us, tokenize_eq_lex s, output_writeAll_strip ts, tokenize_eq_lex _, ?_, ?_, ?_, ?_⟩
  · rw [hus, map_lexeme_filter (fun kind => !kind.isComment)]
    rfl
  · intro u hu
    have hlexeme := List.mem_map_of_mem (f := Token.lexeme) hu
    rw [hus] at hlexeme
    exact isComment_of_mem_mergeBlanks hlexeme
  · rw [map_lexeme_filter Kind.isString, hus, filter_isString_mergeBlanks,
      map_lexeme_filter Kind.isString]
  · apply String.toList_injective
    rw [toList_stripped, hus, uncommented_mergeBlanks, flatten_mergeBlanks, toList_stripped]

end StyleScan
