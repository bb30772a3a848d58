import StyleScan.Scanner

/-! # Actions of the scanner that succeed

Every action checks what it relies on.  Each lemma here says what an action does to a scanner whose
draft and contexts pass the check; the failing branches are of no use to the run of a scanner, which
never takes them.

## Implementation notes

The lemmas speak of a scanner as a value of its four fields, so that they rewrite one action after
the other.  Drafts and tokens are built from lists of characters, which are what the run appends
to. -/

namespace StyleScan

@[simp] theorem ok_bind {ε α β : Type} (a : α) (f : α → Except ε β) :
    (Except.ok a >>= f) = f a := rfl

@[simp] theorem pure_eq_ok {ε α : Type} (a : α) : (pure a : Except ε α) = .ok a := rfl

/-- A draft with the given characters. -/
def Draft.ofList (kind : Kind) (start : Position) (text : List Char) : Draft :=
  ⟨kind, start, String.ofList text⟩

/-- A token with the given characters. -/
def Token.ofList (kind : Kind) (start : Position) (text : List Char) : Token :=
  ⟨kind, String.ofList text, start⟩

namespace Token

@[simp] theorem ofList_kind (kind : Kind) (start : Position) (text : List Char) :
    (ofList kind start text).kind = kind := rfl

@[simp] theorem ofList_start (kind : Kind) (start : Position) (text : List Char) :
    (ofList kind start text).start = start := rfl

@[simp] theorem toList_ofList_text (kind : Kind) (start : Position) (text : List Char) :
    (ofList kind start text).text.toList = text := by
  simp [ofList]

end Token

namespace Draft

variable (kind : Kind) (start : Position) (text : List Char)

@[simp] theorem ofList_kind : (ofList kind start text).kind = kind := rfl

@[simp] theorem ofList_start : (ofList kind start text).start = start := rfl

@[simp] theorem toList_ofList_text : (ofList kind start text).text.toList = text := by
  simp [ofList]

@[simp] theorem ofList_push (c : Char) :
    (ofList kind start text).push c = ofList kind start (text ++ [c]) := by
  simp [ofList, push]

@[simp] theorem ofList_reclassify (other : Kind) :
    (ofList kind start text).reclassify other = ofList other start text := rfl

@[simp] theorem ofList_finish :
    (ofList kind start text).finish = Token.ofList kind start text := rfl

@[simp] theorem ofChar_eq_ofList (c : Char) : ofChar kind start c = ofList kind start [c] := by
  simp [ofChar, ofList]

theorem blockOpening_eq_ofList :
    (⟨kind, start, "/*"⟩ : Draft) = ofList kind start ['/', '*'] := by
  simp [ofList]

theorem lineOpening_eq_ofList :
    (⟨kind, start, "//"⟩ : Draft) = ofList kind start ['/', '/'] := by
  simp [ofList]

end Draft

@[simp] theorem Quote.kind_eq_string (quote : Quote) : quote.kind = .string quote := rfl

@[simp] theorem Quote.unterminatedKind_eq (quote : Quote) :
    quote.unterminatedKind = .unterminated quote := rfl

namespace Scanner

variable (tracker : Tracker) (contexts : ContextStack) (draft : Option Draft)
  (events : Array Event) (here : Position)

@[simp] theorem report_mk (e : Event) :
    report ⟨tracker, contexts, draft, events⟩ e = ⟨tracker, contexts, draft, events.push e⟩ := rfl

@[simp] theorem begin_of_none (d : Draft) :
    begin ⟨tracker, contexts, none, events⟩ here d =
      .ok ⟨tracker, contexts, some d, events.push (.started d.kind d.start)⟩ := rfl

@[simp] theorem append_of_some (d : Draft) (c : Char) :
    append ⟨tracker, contexts, some d, events⟩ here c =
      .ok ⟨tracker, contexts, some (d.push c), events⟩ := rfl

@[simp] theorem reclassify_of_some (d : Draft) (kind : Kind) :
    reclassify ⟨tracker, contexts, some d, events⟩ kind =
      ⟨tracker, contexts, some (d.reclassify kind), events⟩ := rfl

@[simp] theorem close_of_some (d : Draft) :
    close ⟨tracker, contexts, some d, events⟩ here =
      .ok ⟨tracker, contexts, none, events.push (.produced d.finish)⟩ := rfl

@[simp] theorem closeWhitespace_of_none :
    closeWhitespace ⟨tracker, contexts, none, events⟩ here =
      .ok ⟨tracker, contexts, none, events⟩ := rfl

@[simp] theorem closeWhitespace_of_some (start : Position) (text : List Char) :
    closeWhitespace ⟨tracker, contexts, some (.ofList .whitespace start text), events⟩ here =
      .ok ⟨tracker, contexts, none, events.push (.produced (.ofList .whitespace start text))⟩ := rfl

@[simp] theorem expectOpen_of_some (kind : Kind) (start : Position) (text : List Char) :
    expectOpen ⟨tracker, contexts, some (.ofList kind start text), events⟩ here kind = .ok () := by
  simp [expectOpen]

@[simp] theorem enter_mk (above : List Context) (c : Context) :
    enter ⟨tracker, ⟨above⟩, draft, events⟩ here c =
      ⟨tracker, ⟨c :: above⟩, draft, events.push (.entered c here)⟩ := rfl

@[simp] theorem leave_of_cons (c : Context) (below : List Context) :
    leave ⟨tracker, ⟨c :: below⟩, draft, events⟩ here =
      .ok ⟨tracker, ⟨below⟩, draft, events.push (.left c here)⟩ := rfl

@[simp] theorem update_of_cons (c next : Context) (below : List Context) :
    update ⟨tracker, ⟨c :: below⟩, draft, events⟩ next =
      ⟨tracker, ⟨next :: below⟩, draft, events⟩ := rfl

@[simp] theorem emitSlash_of_none (start : Position) :
    emitSlash ⟨tracker, contexts, none, events⟩ here start =
      .ok ⟨tracker, contexts, none,
        (events.push (.started .slash start)).push (.produced (.ofList .slash start ['/']))⟩ := by
  simp [emitSlash]

end Scanner

end StyleScan
