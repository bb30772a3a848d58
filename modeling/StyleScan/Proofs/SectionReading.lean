import StyleScan.Proofs.ValueReading

/-! # Reading objects and arrays as sections

The readers of sections on any JSON object or array.  An object that is accepted has been read
entirely, each of its keys spells a field of its own, and the field accepts the value that stands
there (`accepted_of_entries`).  Conversely an entry is read into the field that its key spells
(`reads_entries_spelled`). -/

namespace StyleScan.Config

variable {β : Type} {fields left : List (Field β)} {value result : β}

theorem Spells.unique {body cs ds : List Char} (hc : Spells body cs) (hd : Spells body ds) :
    cs = ds := by
  obtain ⟨m₁, h₁⟩ := Cursor.exists_stringFrom_spells hc "" [] ⟨1, 0⟩
  obtain ⟨m₂, h₂⟩ := Cursor.exists_stringFrom_spells hd "" [] ⟨1, 0⟩
  have hread := congrArg (Except.map fun p => p.1.toList) (h₁.symm.trans h₂)
  simpa [Except.map] using hread

/-- The entries of an object are accepted for the given fields: each key spells a field, no two keys
spell the same one, and every field accepts the value that stands there. -/
structure Accepted (left : List (Field β)) (entries : List Entry) : Prop where
  field : ∀ e ∈ entries, ∃ f ∈ left, Spells e.key f.name.toList ∧ ¬ Refuses f.read e.value
  distinct : entries.Pairwise Entry.Apart

namespace Cursor

/-! ## Keys -/

theorem skipsBlanks_nextKey (first : Bool) : SkipsBlanks (·.nextKey first) := fun c => by
  simp only [nextKey, skipBlanks_skipBlanks]

/-- The closing brace is found where no entry comes. -/
theorem exists_nextKey_end (first : Bool) {w : List Char} (hw : Blank w) (rest : List Char)
    (m : Mark) :
    ∃ m', nextKey ⟨w ++ '\x7d' :: rest, m⟩ first = .ok (none, ⟨'\x7d' :: rest, m'⟩) := by
  obtain ⟨m', hskip⟩ := (skipsBlanks_nextKey first).exists_eq hw ('\x7d' :: rest) m
  exact ⟨m', hskip⟩

/-- The next key is the string of the next entry. -/
theorem exists_nextKey_entry (first : Bool) {w before : List Char} (hw : Blank w)
    (hbefore : Blank before) (cs : List Char) (m : Mark) :
    ∃ m', nextKey ⟨w ++ ((if first then [] else [',']) ++ (before ++ '\x22' :: cs)), m⟩ first =
      (string ⟨cs, m'⟩).map fun p => (some p.1, p.2) := by
  cases first with
  | true =>
    obtain ⟨m', hskip⟩ := (skipsBlanks_nextKey true).exists_eq (hw.append hbefore) ('\x22' :: cs) m
    rw [List.append_assoc] at hskip
    exact ⟨m'.after '\x22', hskip⟩
  | false =>
    obtain ⟨m₁, hskip⟩ := (skipsBlanks_nextKey false).exists_eq hw
      (',' :: (before ++ '\x22' :: cs)) m
    obtain ⟨m₂, hmark⟩ := exists_skipBlanks hbefore (notBlank_cons (c := '\x22') rfl cs)
      (m₁.after ',')
    have hkey : nextKey ⟨',' :: (before ++ '\x22' :: cs), m₁⟩ false =
        (string ⟨cs, m₂.after '\x22'⟩).map fun p => (some p.1, p.2) := by
      unfold nextKey
      rw [skipBlanks_of_notBlank (notBlank_cons (c := ',') rfl _)]
      simp only [advance, hmark]
      rfl
    exact ⟨m₂.after '\x22', hskip.trans hkey⟩

/-! ## Objects -/

theorem entries_of_key {first : Bool} {c d : Cursor} {key : String}
    (h : c.nextKey first = .ok (some key, d)) :
    entries fields left value first c =
      match left.find? (·.name = key) with
      | some field => d.colon.bind fun c => (field.read c).bind fun p =>
        entries fields (Field.without left key) (p.1 value) false p.2
      | none =>
        if fields.any (·.name = key) then .error ⟨.duplicateField key, d.keyMark⟩
        else .error ⟨.unknownField key (fields.map (·.name)), d.keyMark⟩ := by
  rw [entries, h]
  dsimp only
  split
  next field hfield =>
    rw [hfield]
    rfl
  next hnone => rw [hnone]

theorem exists_key_of_entries {first : Bool} {c d : Cursor}
    {read : Except ConfigError (String × Cursor)}
    (hkey : c.nextKey first = read.map fun p => (some p.1, p.2))
    (h : entries fields left value first c = .ok (result, d)) :
    ∃ field after c₁ set c₂, field ∈ left ∧ read = .ok (field.name, after) ∧
      after.colon = .ok c₁ ∧ field.read c₁ = .ok (set, c₂) ∧
      entries fields (Field.without left field.name) (set value) false c₂ = .ok (result, d) := by
  cases read with
  | error e =>
    rw [entries, hkey] at h
    cases h
  | ok p =>
    obtain ⟨key, after⟩ := p
    rw [entries_of_key hkey] at h
    dsimp only at h
    split at h
    next field hfind =>
      obtain ⟨c₁, hcolon, h⟩ := exists_of_bind_eq_ok h
      obtain ⟨⟨set, c₂⟩, hset, h⟩ := exists_of_bind_eq_ok h
      have hname : field.name = key := by simpa using List.find?_some hfind
      subst hname
      exact ⟨field, after, c₁, set, c₂, List.mem_of_find?_eq_some hfind, rfl, hcolon, hset, h⟩
    next hnone => split at h <;> cases h

/-- The closing brace ends an object. -/
theorem reads_entries_end (first : Bool) {w : List Char} (hw : Blank w) (rest : List Char) :
    Reads (entries fields left value first) (w ++ '\x7d' :: rest) value rest := by
  intro m
  obtain ⟨m', hkey⟩ := exists_nextKey_end first hw rest m
  refine ⟨m'.after '\x7d', ?_⟩
  rw [entries, hkey]
  rfl

/-- An entry is read into the field that its key spells. -/
theorem reads_entries_spelled {first : Bool} {w rest : List Char} {e : Entry} {es : List Entry}
    {field : Field β} {set : β → β} (hw : Blank w) (he : e.Spaced)
    (hkey : Spells e.key field.name.toList)
    (hfind : left.find? (·.name = field.name) = some field) (hfield : Takes field.read e.value set)
    (hothers : Reads (entries fields (Field.without left field.name) (set value) false)
      (entriesText false e.after rest es) result rest) :
    Reads (entries fields left value first) (entriesText first w rest (e :: es)) result rest := by
  obtain ⟨hbefore, hafterKey, hbeforeValue, hafter⟩ := he
  have hend := delimits_entriesText hafter rest es
  rw [entriesText]
  generalize entriesText false e.after rest es = others at hothers hend
  intro m
  obtain ⟨m₁, hnext⟩ := exists_nextKey_entry first hw hbefore
    (e.key ++ '\x22' :: (e.afterKey ++ ':' :: (e.beforeValue ++ (e.value ++ others)))) m
  obtain ⟨m₂, hstring⟩ := reads_spelled hkey
    (e.afterKey ++ ':' :: (e.beforeValue ++ (e.value ++ others))) m₁
  obtain ⟨m₃, hcolon⟩ := exists_colon hafterKey (e.beforeValue ++ (e.value ++ others)) m₂
  obtain ⟨m₄, hset⟩ := hfield e.beforeValue others hbeforeValue hend m₃
  obtain ⟨m₅, hread⟩ := hothers m₄
  rw [hstring] at hnext
  refine ⟨m₅, ?_⟩
  rw [entries_of_key hnext, hfind]
  simp only [hcolon, hset, Except.bind]
  exact hread

/-- Entries that are read are all read, each into its own field. -/
theorem accepted_of_entries {es : List Entry} (hes : ∀ e ∈ es, e.IsJson)
    (hwhole : ∀ f ∈ left, ReadsWhole f.read) {first : Bool} {w rest : List Char} {m : Mark}
    {c : Cursor} (hw : Blank w)
    (h : entries fields left value first ⟨entriesText first w rest es, m⟩ = .ok (result, c)) :
    c.rest = rest ∧ Accepted left es := by
  induction es generalizing left value first w m with
  | nil => exact ⟨(reads_entries_end first hw rest).rest_eq h, ⟨nofun, .nil⟩⟩
  | cons e es ih =>
    obtain ⟨⟨⟨hbefore, hafterKey, hbeforeValue, hafter⟩, hbody, hvalue⟩, hes⟩ :=
      List.forall_mem_cons.mp hes
    rw [entriesText] at h
    obtain ⟨m₁, hnext⟩ := exists_nextKey_entry first hw hbefore (e.key ++ '\x22' :: (e.afterKey ++
      ':' :: (e.beforeValue ++ (e.value ++ entriesText false e.after rest es)))) m
    obtain ⟨field, ⟨_, m₂⟩, ⟨_, m₃⟩, set, ⟨_, m₄⟩, hfield, hstring, hcolon, hset, h⟩ :=
      exists_key_of_entries hnext h
    obtain ⟨rfl, hkey⟩ := spells_of_string hbody hstring
    obtain ⟨m', hcolon'⟩ := exists_colon hafterKey
      (e.beforeValue ++ (e.value ++ entriesText false e.after rest es)) m₂
    cases hcolon'.symm.trans hcolon
    have hend := delimits_entriesText hafter rest es
    obtain rfl := hwhole field hfield hvalue hbeforeValue hend hset
    have hwhole' : ∀ f ∈ Field.without left field.name, ReadsWhole f.read :=
      fun f hf => hwhole f (List.mem_of_mem_filter hf)
    obtain ⟨hrest, hothers⟩ := ih hes hwhole' hafter h
    refine ⟨hrest, List.forall_mem_cons.mpr ⟨?_, ?_⟩, List.pairwise_cons.mpr ⟨?_, hothers.distinct⟩⟩
    · exact ⟨field, hfield, hkey, fun hrefuse => hrefuse.ne_ok hbeforeValue hend hset⟩
    · intro e' he'
      obtain ⟨f, hf, hf'⟩ := hothers.field e' he'
      exact ⟨f, List.mem_of_mem_filter hf, hf'⟩
    · intro e' he' name hname hname'
      -- The fields of the other entries do not have the name that this key spells.
      obtain ⟨f, hf, hkey', -⟩ := hothers.field e' he'
      have hne : f.name ≠ field.name := by simpa using List.of_mem_filter hf
      have heq := (hkey'.unique hname').trans (hname.unique hkey)
      exact hne (String.toList_inj.mp heq)

/-! ## Arrays -/

theorem skipsBlanks_nextElement (first : Bool) : SkipsBlanks (·.nextElement first) := fun c => by
  simp only [nextElement, skipBlanks_skipBlanks]

theorem skipsBlanks_endOfList : SkipsBlanks endOfList := fun c => by
  simp only [endOfList, skipBlanks_skipBlanks]

/-- The closing bracket is found where no item comes. -/
theorem exists_nextElement_end (first : Bool) {w : List Char} (hw : Blank w) (rest : List Char)
    (m : Mark) :
    ∃ m', nextElement ⟨w ++ ']' :: rest, m⟩ first = .ok (false, ⟨']' :: rest, m'⟩) := by
  obtain ⟨m', hskip⟩ := (skipsBlanks_nextElement first).exists_eq hw (']' :: rest) m
  exact ⟨m', hskip⟩

/-- The value of the next item is found. -/
theorem exists_nextElement_item (first : Bool) {w before v : List Char} (hw : Blank w)
    (hbefore : Blank before) (hv : IsJson v) (cs : List Char) (m : Mark) :
    ∃ m', nextElement ⟨w ++ ((if first then [] else [',']) ++ (before ++ (v ++ cs))), m⟩ first =
      .ok (true, ⟨v ++ cs, m'⟩) := by
  obtain ⟨x, ds, rfl, hx⟩ := hv.exists_cons
  have hne : x ≠ ']' := by
    rintro rfl
    exact hv.not_bracket
  cases first with
  | true =>
    obtain ⟨m', hskip⟩ := exists_skipBlanks (hw.append hbefore) (notBlank_cons hx (ds ++ cs)) m
    rw [List.append_assoc] at hskip
    refine ⟨m', ?_⟩
    simp only [if_true, List.nil_append, List.cons_append, nextElement, hskip]
  | false =>
    obtain ⟨m₁, hskip⟩ := (skipsBlanks_nextElement false).exists_eq hw
      (',' :: (before ++ x :: (ds ++ cs))) m
    obtain ⟨m₂, hitem⟩ := exists_skipBlanks hbefore (notBlank_cons hx (ds ++ cs)) (m₁.after ',')
    have hnext : nextElement ⟨',' :: (before ++ x :: (ds ++ cs)), m₁⟩ false =
        .ok (true, ⟨x :: (ds ++ cs), m₂⟩) := by
      unfold nextElement
      rw [skipBlanks_of_notBlank (notBlank_cons (c := ',') rfl _)]
      simp only [advance, hitem]
      simp [hne]
    exact ⟨m₂, hskip.trans hnext⟩

theorem endOfList_ne_ok {x : Char} (hx : isBlank x = false) (hne : x ≠ ']') (cs : List Char)
    (m : Mark) (c : Cursor) : endOfList ⟨x :: cs, m⟩ ≠ .ok c := by
  rw [endOfList, skipBlanks_of_notBlank (notBlank_cons hx cs)]
  dsimp only
  split
  · simp_all
  · simp_all
  · split <;> simp [failAhead]
  · simp [failAhead]

/-- A list that ends where its fields end has no more items. -/
theorem rest_of_endOfList {items : List Item} (hspaced : ∀ i ∈ items, i.Spaced)
    (hvalue : ∀ i ∈ items, IsJson i.value) {first : Bool} {w rest : List Char} {m : Mark}
    {c : Cursor} (hw : Blank w) (h : endOfList ⟨itemsText first w rest items, m⟩ = .ok c) :
    c.rest = rest := by
  cases items with
  | nil =>
    obtain ⟨m', hskip⟩ := skipsBlanks_endOfList.exists_eq hw (']' :: rest) m
    cases hskip.symm.trans h
    rfl
  | cons i items =>
    have hbefore := (hspaced i List.mem_cons_self).1
    have hv := hvalue i List.mem_cons_self
    rw [itemsText] at h
    cases first with
    | true =>
      obtain ⟨x, ds, hxs, hx⟩ := hv.exists_cons
      rw [if_pos rfl, List.nil_append, ← List.append_assoc, hxs] at h
      obtain ⟨m', hskip⟩ := skipsBlanks_endOfList.exists_eq (hw.append hbefore) _ m
      have hne : x ≠ ']' := by
        rintro rfl
        exact (hxs ▸ hv).not_bracket
      exact absurd (hskip.symm.trans h) (endOfList_ne_ok hx hne _ _ _)
    | false =>
      obtain ⟨m', hskip⟩ := skipsBlanks_endOfList.exists_eq hw _ m
      exact absurd (hskip.symm.trans h) (endOfList_ne_ok rfl (by decide) _ _ _)

/-- Items that are read are all read. -/
theorem rest_of_elements {items : List Item} (hspaced : ∀ i ∈ items, i.Spaced)
    (hvalue : ∀ i ∈ items, IsJson i.value) (hwhole : ∀ f ∈ fields, ReadsWhole f.read)
    {first : Bool} {w rest : List Char} {m : Mark} {c : Cursor} (hw : Blank w)
    (h : elements value first ⟨itemsText first w rest items, m⟩ fields = .ok (result, c)) :
    c.rest = rest := by
  induction fields generalizing items value first w m with
  | nil =>
    obtain ⟨d, hend, hd⟩ := exists_of_bind_eq_ok h
    cases hd
    exact rest_of_endOfList hspaced hvalue hw hend
  | cons field fields ih =>
    obtain ⟨hfield, hwhole⟩ := List.forall_mem_cons.mp hwhole
    obtain ⟨⟨more, d⟩, hmore, h⟩ := exists_of_bind_eq_ok h
    cases items with
    | nil =>
      obtain ⟨m', hnext⟩ := exists_nextElement_end first hw rest m
      cases hnext.symm.trans hmore
      cases h
      rfl
    | cons i items =>
      obtain ⟨⟨hbefore, hafter⟩, hspaced⟩ := List.forall_mem_cons.mp hspaced
      obtain ⟨hv, hvalue⟩ := List.forall_mem_cons.mp hvalue
      obtain ⟨m', hnext⟩ := exists_nextElement_item first hw hbefore hv
        (itemsText false i.after rest items) m
      cases hnext.symm.trans hmore
      obtain ⟨⟨set, ⟨_, m₂⟩⟩, hset, h⟩ := exists_of_bind_eq_ok h
      obtain rfl := hfield hv blank_nil (delimits_itemsText hafter rest items) hset
      exact ih hspaced hvalue hwhole hafter h

/-! ## Sections -/

variable {title : String} {default : β}

theorem skipsBlanks_readSection : SkipsBlanks (·.readSection title fields default) := fun c => by
  simp only [readSection, skipBlanks_skipBlanks]

theorem readSection_ne_ok {x : Char} (hx : isBlank x = false) (hb : x ≠ '\x7b') (hl : x ≠ '[')
    (cs : List Char) (m : Mark) (r : β × Cursor) :
    readSection ⟨x :: cs, m⟩ title fields default ≠ .ok r := by
  rw [readSection, skipBlanks_of_notBlank (notBlank_cons hx cs)]
  dsimp only
  split <;> simp_all

/-- Sections are read entirely if their fields are. -/
theorem readsWhole_readSection (hwhole : ∀ f ∈ fields, ReadsWhole f.read) :
    ReadsWhole (·.readSection title fields default) := by
  refine skipsBlanks_readSection.readsWhole fun {v rest m a c} hv _ h => ?_
  obtain ⟨x, cs, rfl, hx⟩ := hv.exists_cons
  by_cases hb : x = '\x7b'
  · subst hb
    obtain ⟨w, es, hw, hes, rfl⟩ := hv.exists_object
    rw [List.cons_append, entriesText_append, List.nil_append] at h
    exact (accepted_of_entries hes hwhole hw h).1
  by_cases hl : x = '['
  · subst hl
    obtain ⟨w, items, hw, hspaced, hvalue, rfl⟩ := hv.exists_array
    rw [List.cons_append, itemsText_append, List.nil_append] at h
    exact rest_of_elements hspaced hvalue hwhole hw h
  · exact absurd h (readSection_ne_ok hx hb hl _ _ _)

/-- An object is read as the section that its entries make. -/
theorem takes_readSection {w : List Char} {es : List Entry}
    (h : ∀ rest, Reads (entries fields fields default true) (entriesText true w rest es) result
      rest) : Takes (·.readSection title fields default) (objectText w es) result := by
  refine skipsBlanks_readSection.takes fun rest _ => ?_
  rw [objectText_append]
  exact reads_readSection (h rest)

/-- An object is refused if its entries cannot all be read. -/
theorem refuses_readSection {w : List Char} {es : List Entry} (hw : Blank w)
    (hes : ∀ e ∈ es, e.IsJson) (hwhole : ∀ f ∈ fields, ReadsWhole f.read)
    (h : ¬ Accepted fields es) :
    Refuses (·.readSection title fields default) (objectText w es) := by
  refine refuses_of_ne_ok fun w' rest m r hw' _ hread => ?_
  obtain ⟨m', hskip⟩ := skipsBlanks_readSection.exists_eq hw' (objectText w es ++ rest) m
  rw [objectText_append] at hskip hread
  exact h (accepted_of_entries (m := m'.after '\x7b') hes hwhole hw (hskip.symm.trans hread)).2

end Cursor

end StyleScan.Config
