import Mathlib.Data.List.Forall2
import Mathlib.Data.List.Nodup
import StyleScan.Proofs.SectionReading

/-! # Objects that describe sections

Which objects describe a section is said without a reader.  A section has settings, each with a name
and with the JSON values that its value may be written as.  An object describes a section if its
entries, in any order, each write one of the settings, and only settings at their defaults are left
out (`Describes`).  One more entry that names no setting, or one that is named already, spoils the
object (`Spoils`), and so does a spoilt value of one of its settings.

If the fields that are read fit the settings (`Fit`), an object that describes a section is read as
that section, and a spoilt one is refused. -/

namespace StyleScan.Config

variable {β : Type}

/-- A setting of a section: its name, its value in a section, the JSON values that a value is
written as, and those that a spoilt value is written as. -/
structure Setting (β : Type) where
  name : String
  Value : Type
  get : β → Value
  Written : Value → List Char → Prop
  Spoilt : Value → List Char → Prop
  isJson_of_written : ∀ {a v}, Written a v → IsJson v
  isJson_of_spoilt : ∀ {a v}, Spoilt a v → IsJson v

/-- The entries of an object describe the section `b`. -/
structure Describes (settings : List (Setting β)) (default b : β) (es : List Entry) : Prop where
  /-- Every entry writes a setting. -/
  written : ∀ e ∈ es, e.Spaced ∧
    ∃ s ∈ settings, Spells e.key s.name.toList ∧ s.Written (s.get b) e.value
  /-- No setting is written twice. -/
  distinct : es.Pairwise Entry.Apart
  /-- A setting that is left out has its default. -/
  omitted : ∀ s ∈ settings, (∃ e ∈ es, Spells e.key s.name.toList) ∨ s.get b = s.get default

/-- The value is an object that describes the section `b`. -/
def Writes (settings : List (Setting β)) (default b : β) (v : List Char) : Prop :=
  ∃ w es, Blank w ∧ Describes settings default b es ∧ v = objectText w es

/-- The value is an object that described the section `b` before one more entry was put into it, or
into an object inside it. -/
inductive Spoils (settings : List (Setting β)) (default b : β) : List Char → Prop where
  /-- The key of the added entry names no setting, or one that is named by another entry. -/
  | added {w : List Char} {before after : List Entry} {e : Entry} : Blank w →
    Describes settings default b (before ++ after) → e.IsJson →
    (∀ s ∈ settings, Spells e.key s.name.toList →
      ∃ e' ∈ before ++ after, Spells e'.key s.name.toList) →
    Spoils settings default b (objectText w (before ++ e :: after))
  /-- The value of an entry is spoilt. -/
  | inside {w v : List Char} {before after : List Entry} {e : Entry} {s : Setting β} : Blank w →
    Describes settings default b (before ++ e :: after) → s ∈ settings →
    Spells e.key s.name.toList → s.Spoilt (s.get b) v →
    Spoils settings default b (objectText w (before ++ { e with value := v } :: after))

variable {settings : List (Setting β)} {default b : β} {v : List Char}

theorem Describes.isJson {es : List Entry} (h : Describes settings default b es) :
    ∀ e ∈ es, e.IsJson := by
  intro e he
  obtain ⟨hspaced, s, -, hkey, hvalue⟩ := h.written e he
  exact ⟨hspaced, hkey.isStringBody, s.isJson_of_written hvalue⟩

theorem Writes.isJson (h : Writes settings default b v) : IsJson v := by
  obtain ⟨w, es, hw, hes, rfl⟩ := h
  exact isJson_objectText hw hes.isJson

/-- An entry may be put anywhere between others. -/
theorem forall_isJson_insert {before after : List Entry} {e : Entry}
    (h : ∀ e ∈ before ++ after, e.IsJson) (he : e.IsJson) :
    ∀ e' ∈ before ++ e :: after, e'.IsJson := by
  obtain ⟨hbefore, hafter⟩ := List.forall_mem_append.mp h
  exact List.forall_mem_append.mpr ⟨hbefore, List.forall_mem_cons.mpr ⟨he, hafter⟩⟩

/-- The value of an entry may be any other one. -/
theorem forall_isJson_replace {before after : List Entry} {e : Entry} {v : List Char}
    (h : ∀ e' ∈ before ++ e :: after, e'.IsJson) (hv : IsJson v) :
    ∀ e' ∈ before ++ { e with value := v } :: after, e'.IsJson := by
  obtain ⟨hbefore, hrest⟩ := List.forall_mem_append.mp h
  obtain ⟨⟨hspaced, hkey, -⟩, hafter⟩ := List.forall_mem_cons.mp hrest
  exact List.forall_mem_append.mpr
    ⟨hbefore, List.forall_mem_cons.mpr ⟨⟨hspaced, hkey, hv⟩, hafter⟩⟩

theorem Spoils.isJson (h : Spoils settings default b v) : IsJson v := by
  cases h with
  | added hw hes he _ => exact isJson_objectText hw (forall_isJson_insert hes.isJson he)
  | @inside _ _ _ _ _ s hw hes _ _ hv =>
    exact isJson_objectText hw (forall_isJson_replace hes.isJson (s.isJson_of_spoilt hv))

/-- A setting whose value has no entries, so that it cannot be spoilt. -/
def Setting.scalar {α : Type} (name : String) (get : β → α) (Written : α → List Char → Prop)
    (h : ∀ {a v}, Written a v → IsJson v) : Setting β :=
  ⟨name, α, get, Written, fun _ _ => False, h, False.elim⟩

/-- A setting whose value is a section of its own. -/
def Setting.nested {α : Type} (name : String) (get : β → α) (settings : List (Setting α))
    (default : α) : Setting β :=
  ⟨name, α, get, Writes settings default, Spoils settings default, Writes.isJson, Spoils.isJson⟩

/-- A section can be described if all its settings can be written. -/
theorem Describes.exists_writes (hnodup : (settings.map (·.name)).Nodup)
    (h : ∀ s ∈ settings, ∃ v, s.Written (s.get b) v) : ∃ v, Writes settings default b v := by
  have hentry : ∀ s ∈ settings, ∃ e : Entry, e.Spaced ∧ Spells e.key s.name.toList ∧
      s.Written (s.get b) e.value := by
    intro s hs
    obtain ⟨v, hv⟩ := h s hs
    obtain ⟨key, hkey⟩ := exists_spells s.name.toList
    exact ⟨⟨[], key, [], [], v, []⟩, ⟨blank_nil, blank_nil, blank_nil, blank_nil⟩, hkey, hv⟩
  have : Nonempty Entry := ⟨⟨[], [], [], [], [], []⟩⟩
  choose! entry hspaced hkey hvalue using hentry
  refine ⟨_, [], settings.map entry, blank_nil, ⟨?_, ?_, ?_⟩, rfl⟩
  · intro e he
    obtain ⟨s, hs, rfl⟩ := List.mem_map.mp he
    exact ⟨hspaced s hs, s, hs, hkey s hs, hvalue s hs⟩
  · rw [List.pairwise_map]
    refine (List.pairwise_map.mp hnodup).imp_of_mem fun hs hs' hne name hname hname' => hne ?_
    have heq := ((hkey _ hs).unique hname).trans (hname'.unique (hkey _ hs'))
    exact String.toList_inj.mp heq
  · exact fun s hs => .inl ⟨entry s, List.mem_map_of_mem hs, hkey s hs⟩

/-- A section that can be described can be spoilt, if the empty key names none of its settings. -/
theorem Writes.exists_spoils (h : Writes settings default b v)
    (hname : ∀ s ∈ settings, s.name.toList ≠ []) : ∃ v, Spoils settings default b v := by
  obtain ⟨w, es, hw, hes, -⟩ := h
  have hentry : Entry.IsJson ⟨[], [], [], [], ['n', 'u', 'l', 'l'], []⟩ :=
    ⟨⟨blank_nil, blank_nil, blank_nil, blank_nil⟩, .nil, .null⟩
  have hes : Describes settings default b ([] ++ es) := hes
  exact ⟨_, .added hw hes hentry fun s hs hkey => absurd (hkey.unique .nil) (hname s hs)⟩

/-! ## Fields that fit settings -/

/-- A field is read as a setting is written: what is read is put where the setting is, and the other
settings keep their values. -/
structure Fits (settings : List (Setting β)) (field : Field β) (s : Setting β) : Prop where
  name : field.name = s.name
  whole : ReadsWhole field.read
  takes : ∀ {a v}, s.Written a v → ∃ set, Takes field.read v set ∧ (∀ x, s.get (set x) = a) ∧
    ∀ s' ∈ settings, s'.name ≠ s.name → ∀ x, s'.get (set x) = s'.get x
  refuses : ∀ {a v}, s.Spoilt a v → Refuses field.read v

/-- The fields of a section fit its settings, which have names of their own and make up the whole
section. -/
structure Fit (fields : List (Field β)) (settings : List (Setting β)) : Prop where
  fits : List.Forall₂ (Fits settings) fields settings
  nodup : (settings.map (·.name)).Nodup
  ext : ∀ x y, (∀ s ∈ settings, s.get x = s.get y) → x = y

namespace Fit

variable {fields : List (Field β)}

theorem exists_field (h : Fit fields settings) {s : Setting β} (hs : s ∈ settings) :
    ∃ f ∈ fields, Fits settings f s := by
  obtain ⟨i, hi, rfl⟩ := List.mem_iff_getElem.mp hs
  have hlen := h.fits.length_eq
  exact ⟨_, List.getElem_mem (by omega), h.fits.get (by omega) hi⟩

theorem exists_setting (h : Fit fields settings) {f : Field β} (hf : f ∈ fields) :
    ∃ s ∈ settings, Fits settings f s := by
  obtain ⟨i, hi, rfl⟩ := List.mem_iff_getElem.mp hf
  have hlen := h.fits.length_eq
  exact ⟨_, List.getElem_mem (by omega), h.fits.get hi (by omega)⟩

theorem whole (h : Fit fields settings) : ∀ f ∈ fields, ReadsWhole f.read := by
  intro f hf
  obtain ⟨s, -, hfits⟩ := h.exists_setting hf
  exact hfits.whole

theorem setting_inj (h : Fit fields settings) {s s' : Setting β} (hs : s ∈ settings)
    (hs' : s' ∈ settings) (hname : s.name = s'.name) : s = s' :=
  List.inj_on_of_nodup_map h.nodup hs hs' hname

theorem map_name (h : Fit fields settings) : fields.map (·.name) = settings.map (·.name) := by
  rw [← List.forall₂_eq_eq_eq, List.forall₂_map_left_iff, List.forall₂_map_right_iff]
  exact h.fits.imp fun _ _ hfits => hfits.name

theorem find?_name (h : Fit fields settings) {left : List (Field β)} (hleft : left ⊆ fields)
    {f : Field β} (hf : f ∈ left) : left.find? (·.name = f.name) = some f := by
  have hsome : (left.find? (·.name = f.name)).isSome := by
    rw [List.find?_isSome]
    exact ⟨f, hf, decide_eq_true rfl⟩
  obtain ⟨g, hg⟩ := Option.isSome_iff_exists.mp hsome
  have hname : g.name = f.name := by simpa using List.find?_some hg
  have hnodup : (fields.map (·.name)).Nodup := h.map_name ▸ h.nodup
  rw [hg, List.inj_on_of_nodup_map hnodup (hleft (List.mem_of_find?_eq_some hg)) (hleft hf) hname]

/-- Entries that write what a section still lacks are read as that section. -/
theorem reads_entries (h : Fit fields settings) {es : List Entry} {x : β} {left : List (Field β)}
    (hleft : left ⊆ fields)
    (hes : ∀ e ∈ es, e.Spaced ∧
      ∃ s ∈ settings, Spells e.key s.name.toList ∧ s.Written (s.get b) e.value)
    (hdistinct : es.Pairwise Entry.Apart)
    (hfields : ∀ e ∈ es, ∀ f ∈ fields, Spells e.key f.name.toList → f ∈ left)
    (hx : ∀ s ∈ settings, (∃ e ∈ es, Spells e.key s.name.toList) ∨ s.get b = s.get x)
    {first : Bool} {w : List Char} (hw : Blank w) (rest : List Char) :
    Reads (Cursor.entries fields left x first) (entriesText first w rest es) b rest := by
  induction es generalizing x left first w with
  | nil =>
    obtain rfl : b = x := h.ext b x fun s hs => (hx s hs).resolve_left (by simp)
    exact Cursor.reads_entries_end first hw rest
  | cons e es ih =>
    obtain ⟨⟨hspaced, s, hs, hkey, hvalue⟩, hes⟩ := List.forall_mem_cons.mp hes
    obtain ⟨hothers, hdistinct⟩ := List.pairwise_cons.mp hdistinct
    obtain ⟨hfirst, hfields⟩ := List.forall_mem_cons.mp hfields
    obtain ⟨f, hf, hfits⟩ := h.exists_field hs
    obtain ⟨set, htakes, hget, hkeep⟩ := hfits.takes hvalue
    have hkeyf : Spells e.key f.name.toList := hfits.name ▸ hkey
    refine Cursor.reads_entries_spelled hw hspaced hkeyf (h.find?_name hleft (hfirst f hf hkeyf))
      htakes (ih ?_ hes hdistinct ?_ ?_ hspaced.2.2.2)
    · exact fun g hg => hleft (List.mem_of_mem_filter hg)
    · -- The keys of the entries that follow spell other names.
      intro e' he' g hg hspells
      have hne : g.name ≠ f.name := fun heq => hothers e' he' _ hkeyf (heq ▸ hspells)
      exact List.mem_filter.mpr ⟨hfields e' he' g hg hspells, decide_eq_true hne⟩
    · intro s' hs'
      by_cases hname : s'.name = s.name
      · obtain rfl := h.setting_inj hs' hs hname
        exact .inr (hget x).symm
      · rw [hkeep s' hs' hname]
        refine (hx s' hs').imp_left fun ⟨e', he', hspells⟩ => ⟨e', ?_, hspells⟩
        refine (List.mem_cons.mp he').resolve_left ?_
        rintro rfl
        exact hname (String.toList_inj.mp (hspells.unique hkey))

/-- With an entry whose key names no setting, or one that another entry names, not all entries are
accepted. -/
theorem not_accepted_of_added (h : Fit fields settings) {before after : List Entry} {e : Entry}
    (hkey : ∀ s ∈ settings, Spells e.key s.name.toList →
      ∃ e' ∈ before ++ after, Spells e'.key s.name.toList) :
    ¬ Accepted fields (before ++ e :: after) := by
  rintro ⟨hfield, hdistinct⟩
  obtain ⟨f, hf, hspells, -⟩ := hfield e (List.mem_append_right _ List.mem_cons_self)
  obtain ⟨s, hs, hfits⟩ := h.exists_setting hf
  rw [hfits.name] at hspells
  obtain ⟨e', he', hspells'⟩ := hkey s hs hspells
  rw [List.pairwise_middle Entry.Apart.symm, List.pairwise_cons] at hdistinct
  exact hdistinct.1 e' he' _ hspells hspells'

/-- With a spoilt value, not all entries are accepted. -/
theorem not_accepted_of_spoilt (h : Fit fields settings) {es : List Entry} {e : Entry}
    {s : Setting β} {a : s.Value} (he : e ∈ es) (hs : s ∈ settings)
    (hkey : Spells e.key s.name.toList) (hvalue : s.Spoilt a e.value) : ¬ Accepted fields es := by
  rintro ⟨hfield, -⟩
  obtain ⟨f, hf, hspells, hnot⟩ := hfield e he
  obtain ⟨s', hs', hfits⟩ := h.exists_setting hf
  have hname : s.name = s'.name :=
    (String.toList_inj.mp (hkey.unique hspells)).trans hfits.name
  obtain rfl := h.setting_inj hs hs' hname
  exact hnot (hfits.refuses hvalue)

variable {title : String}

/-- An object that describes a section is read as that section. -/
theorem takes_of_writes (h : Fit fields settings) (hv : Writes settings default b v) :
    Takes (·.readSection title fields default) v b := by
  obtain ⟨w, es, hw, hes, rfl⟩ := hv
  exact Cursor.takes_readSection fun rest => h.reads_entries (List.Subset.refl _) hes.written
    hes.distinct (fun _ _ f hf _ => hf) hes.omitted hw rest

/-- A spoilt object is refused. -/
theorem refuses_of_spoils (h : Fit fields settings) (hv : Spoils settings default b v) :
    Refuses (·.readSection title fields default) v := by
  cases hv with
  | added hw hes he hkey =>
    exact Cursor.refuses_readSection hw (forall_isJson_insert hes.isJson he) h.whole
      (h.not_accepted_of_added hkey)
  | @inside _ _ _ _ _ s hw hes hs hkey hv =>
    exact Cursor.refuses_readSection hw
      (forall_isJson_replace hes.isJson (s.isJson_of_spoilt hv)) h.whole
      (h.not_accepted_of_spoilt (List.mem_append_right _ List.mem_cons_self) hs hkey hv)

end Fit

/-- A field that reads a part of the section and puts it where the setting is fits the setting. -/
theorem Fits.of {s : Setting β}
    {read : Cursor → Except ConfigError (s.Value × Cursor)} {set : s.Value → β → β}
    (hwhole : ReadsWhole read) (htakes : ∀ {a v}, s.Written a v → Takes read v a)
    (hrefuses : ∀ {a v}, s.Spoilt a v → Refuses read v) (hget : ∀ a x, s.get (set a x) = a)
    (hkeep : ∀ s' ∈ settings, s'.name ≠ s.name → ∀ a x, s'.get (set a x) = s'.get x) :
    Fits settings (Field.of s.name read set) s where
  name := rfl
  whole := by
    intro v w rest m set' c hv hw hrest h
    obtain ⟨⟨a, d⟩, hread, hset⟩ := exists_of_bind_eq_ok h
    cases hset
    exact hwhole hv hw hrest hread
  takes := by
    intro a v hv
    refine ⟨set a, ?_, hget a, fun s' hs' hname x => hkeep s' hs' hname a x⟩
    intro w rest hw hrest
    exact Cursor.reads_field (htakes hv w rest hw hrest) s.name set
  refuses := by
    intro a v hv
    refine refuses_of_ne_ok fun w rest m r hw hrest h => ?_
    obtain ⟨p, hread, -⟩ := exists_of_bind_eq_ok h
    exact (hrefuses hv).ne_ok hw hrest hread

theorem Fits.scalar {α : Type} {name : String} {get : β → α}
    {Written : α → List Char → Prop} {read : Cursor → Except ConfigError (α × Cursor)}
    {set : α → β → β} (hjson : ∀ {a v}, Written a v → IsJson v) (hwhole : ReadsWhole read)
    (htakes : ∀ {a v}, Written a v → Takes read v a) (hget : ∀ a x, get (set a x) = a)
    (hkeep : ∀ s ∈ settings, s.name ≠ name → ∀ a x, s.get (set a x) = s.get x) :
    Fits settings (Field.of name read set) (.scalar name get Written hjson) :=
  .of (s := .scalar name get Written hjson) hwhole htakes False.elim hget hkeep

theorem Fits.nested {α : Type} {name title : String} {get : β → α}
    {parts : List (Field α)} {inner : List (Setting α)} {default : α} {set : α → β → β}
    (h : Fit parts inner) (hget : ∀ a x, get (set a x) = a)
    (hkeep : ∀ s ∈ settings, s.name ≠ name → ∀ a x, s.get (set a x) = s.get x) :
    Fits settings (Field.of name (·.readSection title parts default) set)
      (.nested name get inner default) :=
  .of (s := .nested name get inner default) (Cursor.readsWhole_readSection h.whole)
    h.takes_of_writes h.refuses_of_spoils hget hkeep

end StyleScan.Config
