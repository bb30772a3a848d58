import StyleScan.Proofs.OpenPiece
import StyleScan.Proofs.Reports

/-! # The layout of the input

What has been read lies in pieces: the tokens that have been handed out, those in the queue, and the
open piece.  They follow one another without a gap and without an overlap, so they make up the text,
and each begins at the offset that those before it reach (`pieces_partition_text`). -/

namespace StyleScan

/-- The pieces follow one another from where the tracker stands, and none of them is empty. -/
def Laid : Tracker → List Piece → Prop
  | _, [] => True
  | t, piece :: ps =>
    piece.text ≠ [] ∧ piece.start = t.next ∧ Laid (t.advanceAll piece.text) ps

/-- The characters of pieces, in order. -/
def textOfPieces (ps : List Piece) : List Char :=
  ps.flatMap Piece.text

@[simp] theorem textOfPieces_nil : textOfPieces [] = [] := rfl

@[simp] theorem textOfPieces_cons (piece : Piece) (ps : List Piece) :
    textOfPieces (piece :: ps) = piece.text ++ textOfPieces ps := by
  simp [textOfPieces]

@[simp] theorem textOfPieces_append (ps qs : List Piece) :
    textOfPieces (ps ++ qs) = textOfPieces ps ++ textOfPieces qs := by
  simp [textOfPieces]

/-- Pieces may be laid in two parts. -/
theorem laid_append (t : Tracker) (ps qs : List Piece) :
    Laid t (ps ++ qs) ↔ Laid t ps ∧ Laid (t.advanceAll (textOfPieces ps)) qs := by
  induction ps generalizing t with
  | nil => simp [Laid]
  | cons piece ps ih => simp [Laid, ih, and_assoc, Tracker.advanceAll_append]

namespace Phase

/-- The pieces whose tokens a trace reports, and the open piece of `q` after them. -/
def made (T : List TraceEvent) (q : Phase) : List Piece :=
  (T.filterMap TraceEvent.token?).map Token.piece ++ q.piece.toList

theorem filterMap_token?_opened (p : Phase) : p.opened.filterMap TraceEvent.token? = [] := by
  cases p <;> rfl

variable {here : Position} {c : Char} {p q : Phase} {T : List TraceEvent}

/-- Where nothing is open, a character is a piece of its own. -/
theorem Begins.made_eq (h : Begins here c T q) : made T q = [⟨here, [c]⟩] := by
  cases h with
  | opens hq => simp [made, filterMap_token?_opened, hq]
  | single => simp [made, List.filterMap_cons, TraceEvent.token?, Token.piece, piece]

/-- The end of a piece makes a token of it. -/
theorem Ends.token_eq (h : Ends p T) :
    (T.filterMap TraceEvent.token?).map Token.piece = p.piece.toList := by
  obtain ⟨kind, hp, hT⟩ := h
  have htokens := congrArg (List.filterMap TraceEvent.token?) hT
  simp only [List.filterMap_append, filterMap_token?_opened, List.nil_append] at htokens
  simp [htokens, hp, TraceEvent.token?, Token.piece]

/-- A character is a piece of its own after the open one, or the last one of the open piece. -/
theorem Reads.made_eq (h : Reads here c p T q) :
    made T q = p.piece.toList ++ [⟨here, [c]⟩] ∨
      ∃ piece, p.piece = some piece ∧ made T q = [⟨piece.start, piece.text ++ [c]⟩] := by
  cases h with
  | begins hp h =>
    left
    rw [h.made_eq, hp]
    rfl
  | continues hp hq hT =>
    right
    have htokens := congrArg (List.filterMap TraceEvent.token?) hT
    simp only [List.filterMap_append, filterMap_token?_opened, List.nil_append] at htokens
    exact ⟨_, hp, by simp [made, htokens, hq]⟩
  | completes kind hp ho =>
    right
    exact ⟨_, hp, by simp [made, TraceEvent.token?, Token.piece, piece]⟩
  | precedes hE h =>
    left
    rw [made, List.filterMap_append, List.map_append, hE.token_eq, List.append_assoc]
    congr 1
    exact h.made_eq

end Phase

namespace Progress

/-- The open piece, if there is one. -/
def pieces (x : Progress) : List Piece :=
  x.phase.piece.toList

/-- What is open has been read from where `t` stands. -/
structure Anchored (t : Tracker) (x : Progress) : Prop where
  laid : Laid t x.pieces
  tracker : x.tracker = t.advanceAll (textOfPieces x.pieces)

theorem anchored_start : Anchored .start start :=
  ⟨trivial, rfl⟩

variable {t : Tracker} {x : Progress}

/-- The tokens of a character and what is open after it. -/
theorem made_step (x : Progress) (c : Char) :
    (tokensOf (x.step c).1).map Token.piece ++ (x.step c).2.pieces =
      Phase.made (traceOf (x.phase.read (x.tracker.place c) c).1)
        (x.phase.read (x.tracker.place c) c).2 := by
  rw [Phase.made, filterMap_token?_traceOf]
  simp [step, Event.token?, pieces]

theorem tracker_run (x : Progress) (cs : List Char) :
    (x.run cs).2.tracker = x.tracker.advanceAll cs := by
  induction cs generalizing x with
  | nil => rfl
  | cons c cs ih => exact ih (x.step c).2

/-- A character adds to what is laid, at its end. -/
theorem Anchored.laid_step (h : Anchored t x) (c : Char) :
    Laid t ((tokensOf (x.step c).1).map Token.piece ++ (x.step c).2.pieces) ∧
      textOfPieces ((tokensOf (x.step c).1).map Token.piece ++ (x.step c).2.pieces) =
        textOfPieces x.pieces ++ [c] := by
  rw [made_step]
  obtain ⟨hlaid, htracker⟩ := h
  rcases (Phase.reads_read c x.phase (x.tracker.place c)).made_eq with hmade | ⟨piece, hp, hmade⟩
  · rw [hmade]
    refine ⟨(laid_append t _ _).mpr ⟨hlaid, ?_⟩, by simp [pieces]⟩
    simp [Laid, htracker, pieces]
  · rw [hmade]
    simp only [pieces, hp, Option.toList_some, Laid] at hlaid ⊢
    exact ⟨⟨by simp, hlaid.2.1, trivial⟩, by simp⟩

/-- A text adds to what is laid, at its end. -/
theorem Anchored.laid_run (h : Anchored t x) (cs : List Char) :
    Laid t ((tokensOf (x.run cs).1).map Token.piece ++ (x.run cs).2.pieces) ∧
      textOfPieces ((tokensOf (x.run cs).1).map Token.piece ++ (x.run cs).2.pieces) =
        textOfPieces x.pieces ++ cs := by
  induction cs generalizing t x with
  | nil => simpa using h.laid
  | cons c cs ih =>
    obtain ⟨hlaid, htext⟩ := h.laid_step c
    obtain ⟨hmade, hopen⟩ := (laid_append t _ _).mp hlaid
    have hy : Anchored (t.advanceAll (textOfPieces ((tokensOf (x.step c).1).map Token.piece)))
        (x.step c).2 := by
      refine ⟨hopen, ?_⟩
      rw [← Tracker.advanceAll_append, ← textOfPieces_append, htext, Tracker.advanceAll_append,
        ← h.tracker]
      rfl
    obtain ⟨hrest, hrestText⟩ := ih hy
    rw [run_cons, tokensOf_append, List.map_append, List.append_assoc]
    refine ⟨(laid_append t _ _).mpr ⟨hmade, hrest⟩, ?_⟩
    rw [textOfPieces_append, hrestText, ← List.append_assoc, ← textOfPieces_append, htext,
      List.append_assoc, List.singleton_append]

/-- The end of the input makes a token of the open piece. -/
theorem pieces_flush (x : Progress) : (tokensOf x.flush).map Token.piece = x.pieces := by
  obtain ⟨tracker, phase⟩ := x
  cases phase <;> simp [flush, Event.token?, pieces, Phase.piece, Token.piece]

/-- The tokens of the rest of the input are laid after what has been read. -/
theorem Anchored.laid_lex (h : Anchored t x) (cs : List Char) :
    Laid t ((x.lex cs).map Token.piece) ∧
      textOfPieces ((x.lex cs).map Token.piece) = textOfPieces x.pieces ++ cs := by
  rw [lex, List.map_append, pieces_flush]
  exact h.laid_run cs

end Progress

theorem textOfPieces_map_piece (ts : List Token) :
    textOfPieces (ts.map Token.piece) = (String.join (ts.map Token.text)).toList := by
  rw [String.toList_join, textOfPieces, List.flatMap_map, List.flatMap_map]
  rfl

theorem utf8Length_textOfPieces (ps : List Piece) :
    utf8Length (textOfPieces ps) = (ps.map fun piece => utf8Length piece.text).sum := by
  induction ps with
  | nil => rfl
  | cons piece ps ih => simp [ih]

/-- A piece begins where those before it end. -/
theorem Laid.of_eq_append {ps before after : List Piece} {piece : Piece} (h : Laid .start ps)
    (hps : ps = before ++ piece :: after) :
    piece.text ≠ [] ∧ piece.start = .endOf (textOfPieces before) := by
  subst hps
  obtain ⟨hne, hstart, -⟩ := ((laid_append _ _ _).mp h).2
  rw [Tracker.advanceAll_start] at hstart
  exact ⟨hne, hstart⟩

namespace Intake

/-- The tokens of what has been given and what is open lie one after the other and make up the text,
which ends where the tracker stands. -/
theorem laid (r : Intake) :
    Laid .start (r.tokens.map Token.piece ++ r.progress.pieces) ∧
      textOfPieces (r.tokens.map Token.piece ++ r.progress.pieces) = r.decoded ∧
      r.progress.tracker.next = .endOf r.decoded := by
  have htracker : r.progress.tracker = Tracker.start.advanceAll r.decoded := by
    have hrun := Progress.start.tracker_run r.decoded
    unfold progress
    split <;> exact hrun
  rw [htracker, Tracker.advanceAll_start]
  cases h : r.ended with
  | false =>
    obtain ⟨hlaid, htext⟩ := Progress.anchored_start.laid_run r.decoded
    rw [tokens_of_open h, progress_of_open h]
    exact ⟨hlaid, htext, rfl⟩
  | true =>
    obtain ⟨hlaid, htext⟩ := Progress.anchored_start.laid_lex r.decoded
    have htokens : r.tokens = Progress.start.lex r.decoded := by simp [tokens, Progress.lex, h]
    have hpieces : r.progress.pieces = [] := by
      rw [progress, h]
      rfl
    rw [htokens, hpieces, List.append_nil]
    exact ⟨hlaid, htext, rfl⟩

end Intake

/-- After any operations, the tokens that have been handed out, those in the queue and the open
piece make up the characters that have been read.  No piece is empty, each begins at the offset
that those before it reach, and the tracker stands at the offset that all of them reach. -/
theorem pieces_partition_text {σ : Type} (logger : Log.Logger σ) (traceChars hooked : Bool)
    (ops : List Operation) :
    let s := (Session.new logger traceChars hooked).1
    let t := (s.performAll ops).1.tokenizer
    let tokens := s.tokenizer.handedOut ops ++ t.queue
    let pieces := tokens.map Token.piece ++ t.scanner.openPiece.toList
    let text := (Intake.start.takeAll ops).decoded
    textOfPieces pieces = text ∧
      ((traceOf (s.tokenizer.reportedAll ops)).filterMap TraceEvent.read?).map Prod.fst = text ∧
      (∀ before piece after, pieces = before ++ piece :: after → piece.text ≠ [] ∧
        piece.start.offset = (before.map fun p => utf8Length p.text).sum) ∧
      t.position.offset = (pieces.map fun p => utf8Length p.text).sum := by
  intro s t tokens pieces text
  obtain ⟨queue, hall, htokens⟩ := Intake.exists_performAll_new_eq ops
  have ht : t = (Intake.start.takeAll ops).tokenizer queue := by
    rw [← hall]
    exact Session.performAll_tokenizer s ops
  have hpieces : pieces = (Intake.start.takeAll ops).tokens.map Token.piece ++
      (Intake.start.takeAll ops).progress.pieces := by
    rw [← htokens]
    simp only [pieces, tokens, ht]
    congr 2
    exact Phase.openPiece_scanner _ _ _
  obtain ⟨hlaid, htext, hnext⟩ := (Intake.start.takeAll ops).laid
  rw [← hpieces] at hlaid htext
  refine ⟨htext, ?_, ?_, ?_⟩
  · have hreads := (Intake.start.takeAll ops).reads_events
    rw [← traceOf_reportedAll_new] at hreads
    rw [Session.new_tokenizer, hreads, List.map_fst_zip]
    simp
  · intro before piece after hsplit
    obtain ⟨hne, hstart⟩ := hlaid.of_eq_append hsplit
    refine ⟨hne, ?_⟩
    rw [hstart, ← utf8Length_textOfPieces]
    rfl
  · have hposition : t.position = .endOf text := by
      rw [ht]
      exact hnext
    rw [hposition, ← utf8Length_textOfPieces, htext]
    rfl

/-- A token starts where the tokens before it end: its line is the number of line breaks before
it, its column the number of characters after the last of them, its offset the number of bytes.
The tracker places each character of a text by the characters before it in the same way, and the
part of a character in breaking lines depends on whether a carriage return precedes it. -/
theorem start_eq_endOf (text : String) :
    (∃ ts, tokenize text = .ok ts ∧ ∀ before t after, ts = before ++ t :: after →
      let p := String.join (before.map Token.text)
      t.start = ⟨lineBreaks p.toList, (lastLine p.toList).length, p.utf8ByteSize⟩) ∧
    ∀ (k : Nat) (c : Char), text.toList[k]? = some c →
      ∃ spot, (Tracker.start.placements text.toList)[k]? = some spot ∧
        spot.position = .endOf (text.toList.take k) ∧
        (spot.afterReturn ↔ (text.toList.take k).getLast? = some '\r') ∧
        (spot.lineBreak = .pairedLineFeed ↔ c = '\n' ∧ spot.afterReturn) ∧
        (spot.lineBreak = .lineFeed ↔ c = '\n' ∧ ¬ spot.afterReturn ∨ c = '\x0c') ∧
        (spot.lineBreak = .carriageReturn ↔ c = '\r') ∧
        (spot.lineBreak = .none ↔ c ≠ '\n' ∧ c ≠ '\x0c' ∧ c ≠ '\r') := by
  constructor
  · refine ⟨_, tokenize_eq_lex text, ?_⟩
    intro before t after hsplit p
    obtain ⟨hlaid, -⟩ := Progress.anchored_start.laid_lex text.toList
    rw [hsplit, List.map_append, List.map_cons] at hlaid
    obtain ⟨-, hstart⟩ := hlaid.of_eq_append rfl
    rw [textOfPieces_map_piece, Position.endOf, utf8Length_toList] at hstart
    exact hstart
  · intro k c hc
    refine ⟨⟨.endOf (text.toList.take k), .of ((text.toList.take k).getLast? = some '\r') c,
      (text.toList.take k).getLast? = some '\r'⟩, ?_, rfl, decide_eq_true_iff, ?_⟩
    · rw [Tracker.getElem?_placements_start, hc]
      rfl
    · exact LineBreak.of_iff _ c

end StyleScan
