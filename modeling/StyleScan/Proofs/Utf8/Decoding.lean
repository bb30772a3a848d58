import StyleScan.Proofs.Utf8.Split
import StyleScan.Utf8.Decoder

/-! # Lossy decoding

The decoding of a byte sequence reads it from left to right: an encoded character stands for
itself, and other bytes are replaced, as many at once as `Replaced` says.  Every byte sequence has
exactly one decoding, and a decoder that is given the bytes in chunks arrives at it, however they
are cut. -/

namespace StyleScan.Utf8

open String (utf8EncodeChar)

/-- The segments are the decoding of the bytes. -/
inductive Decodes : List UInt8 → List Segment → Prop where
  | nil : Decodes [] []
  | char (c : Char) {rest : List UInt8} {ss : List Segment} :
    Decodes rest ss → Decodes (utf8EncodeChar c ++ rest) (⟨utf8EncodeChar c, some c⟩ :: ss)
  | invalid {bad rest : List UInt8} {ss : List Segment} :
    Replaced bad (bad ++ rest) → Decodes rest ss → Decodes (bad ++ rest) (⟨bad, none⟩ :: ss)

/-- The bytes end in a sequence that is unfinished but can still be completed. -/
def EndsOpen (bytes : List UInt8) : Prop :=
  ∃ ss bad, Decodes bytes (ss ++ [⟨bad, none⟩]) ∧ Viable bad

/-- What a tail stands for if nothing completes it: one invalid segment, or nothing. -/
def cutOff (tail : List UInt8) : List Segment :=
  if tail.isEmpty then [] else [⟨tail, none⟩]

/-- The segments of bytes that nothing comes after. -/
def segmentsOf (bytes : List UInt8) : List Segment :=
  (split bytes).1 ++ cutOff (split bytes).2

theorem segmentsOf_of_none {bytes : List UInt8} (h : next? bytes = none) :
    segmentsOf bytes = cutOff bytes := by
  simp [segmentsOf, split_of_none h]

theorem segmentsOf_of_some {bytes rest : List UInt8} {s : Segment}
    (h : next? bytes = some (s, rest)) : segmentsOf bytes = s :: segmentsOf rest := by
  simp [segmentsOf, split_of_some h]

/-- Bytes that stay open are replaced as one. -/
theorem replaced_of_open {bytes : List UInt8} (hne : bytes ≠ []) (h : next? bytes = none) :
    Replaced bytes bytes := by
  obtain ⟨hv, hill⟩ := (next?_eq_none_iff bytes).1 h
  exact ⟨List.prefix_rfl, hne, hill, .inl ⟨hv, fun p hp _ => hp.length_le⟩⟩

/-- Replaced bytes that could be completed stay open. -/
theorem split_of_replaced {bad : List UInt8} (hbad : Replaced bad bad) (hv : Viable bad) :
    split bad = ([], bad) :=
  split_of_none ((next?_eq_none_iff bad).2 ⟨hv, hbad.ill_formed⟩)

/-- Splitting decodes, if the tail is cut off. -/
theorem decodes_segmentsOf (bytes : List UInt8) : Decodes bytes (segmentsOf bytes) := by
  induction h : bytes.length using Nat.strongRecOn generalizing bytes with
  | ind n ih =>
    subst h
    rcases next?_cases bytes with ⟨h, -⟩ | ⟨c, rest, he, h⟩ | ⟨bad, rest, he, hbad, -, h⟩
    · rw [segmentsOf_of_none h]
      cases bytes with
      | nil => exact .nil
      | cons b tail =>
        have hall := replaced_of_open (List.cons_ne_nil b tail) h
        have hd : Decodes (b :: tail ++ []) [⟨b :: tail, none⟩] :=
          .invalid (by simpa using hall) .nil
        simpa [cutOff] using hd
    · have hrest := ih rest.length (length_lt_of_next? h) rest rfl
      rw [segmentsOf_of_some h, he]
      exact .char c hrest
    · have hrest := ih rest.length (length_lt_of_next? h) rest rfl
      rw [segmentsOf_of_some h]
      subst he
      exact .invalid hbad hrest

@[simp] theorem decodes_nil_iff (ss : List Segment) : Decodes [] ss ↔ ss = [] := by
  constructor
  · intro h
    generalize hb : ([] : List UInt8) = bytes at h
    cases h with
    | nil => rfl
    | char c hrest => exact absurd (List.append_eq_nil_iff.1 hb.symm).1 (encode_ne_nil c)
    | invalid hbad hrest => exact absurd (List.append_eq_nil_iff.1 hb.symm).1 hbad.nonempty
  · rintro rfl
    exact .nil

/-- There is no other decoding. -/
theorem Decodes.eq_segmentsOf {bytes : List UInt8} {ss : List Segment} (h : Decodes bytes ss) :
    ss = segmentsOf bytes := by
  induction h with
  | nil => simp [segmentsOf, cutOff]
  | char c hrest ih => rw [segmentsOf_of_some (next?_encode c _), ih]
  | @invalid bad rest ss hbad hrest ih =>
    by_cases hopen : Viable bad ∧ rest = []
    · obtain ⟨hv, rfl⟩ := hopen
      obtain rfl := (decodes_nil_iff ss).1 hrest
      rw [List.append_nil] at hbad ⊢
      simp [segmentsOf, split_of_replaced hbad hv, cutOff, hbad.nonempty]
    · rw [segmentsOf_of_some (next?_replaced hbad (not_and.1 hopen)), ih]

theorem decodes_iff (bytes : List UInt8) (ss : List Segment) :
    Decodes bytes ss ↔ ss = segmentsOf bytes := by
  constructor
  · exact Decodes.eq_segmentsOf
  · rintro rfl
    exact decodes_segmentsOf bytes

/-- An invalid last segment that could be completed is the tail. -/
theorem Decodes.tail_eq {bytes bad : List UInt8} {ss : List Segment}
    (h : Decodes bytes (ss ++ [⟨bad, none⟩])) (hv : Viable bad) :
    (split bytes).2 = bad ∧ bad ≠ [] := by
  induction ss generalizing bytes with
  | nil =>
    cases h with
    | invalid hbad hrest =>
      obtain ⟨⟩ | ⟨⟩ | ⟨⟩ := hrest
      rw [List.append_nil] at hbad ⊢
      exact ⟨by rw [split_of_replaced hbad hv], hbad.nonempty⟩
  | cons s ss ih =>
    cases h with
    | char c hrest =>
      rw [split_of_some (next?_encode c _)]
      exact ih hrest
    | @invalid bad' rest _ hbad hrest =>
      have hne : rest ≠ [] := by
        rintro rfl
        simp at hrest
      rw [split_of_some (next?_replaced hbad fun _ => hne)]
      exact ih hrest

/-- Exactly the bytes with a tail end in a sequence that can still be completed. -/
theorem endsOpen_iff (bytes : List UInt8) : EndsOpen bytes ↔ (split bytes).2 ≠ [] := by
  constructor
  · rintro ⟨ss, bad, hd, hv⟩
    obtain ⟨htail, hne⟩ := hd.tail_eq hv
    rwa [htail]
  · intro hne
    refine ⟨(split bytes).1, (split bytes).2, ?_, ?_⟩
    · have hd := decodes_segmentsOf bytes
      simpa [segmentsOf, cutOff, hne] using hd
    · exact ((next?_eq_none_iff _).1 (next?_tail bytes)).1

/-- Splitting yields the decoding, except that it leaves a last sequence that can still be
completed. -/
theorem split_eq_iff (bytes tail : List UInt8) (ss : List Segment) :
    split bytes = (ss, tail) ↔ Decodes bytes (ss ++ cutOff tail) ∧
      if tail = [] then ¬ EndsOpen bytes else Viable tail := by
  constructor
  · intro h
    have htail : (split bytes).2 = tail := by rw [h]
    refine ⟨?_, ?_⟩
    · have hd := decodes_segmentsOf bytes
      rwa [segmentsOf, h] at hd
    · split
      · rename_i hnil
        simp [endsOpen_iff, htail, hnil]
      · rw [← htail]
        exact ((next?_eq_none_iff _).1 (next?_tail bytes)).1
  · rintro ⟨hd, htail⟩
    have hrest : (split bytes).2 = tail := by
      split at htail
      · rename_i hnil
        rw [endsOpen_iff] at htail
        rw [hnil]
        simpa using htail
      · rename_i hne
        rw [cutOff, if_neg (by simpa using hne)] at hd
        exact (hd.tail_eq htail).1
    have hss := hd.eq_segmentsOf
    rw [segmentsOf, hrest, List.append_cancel_right_eq] at hss
    rw [hss, ← hrest]

/-- The characters of the decoding. -/
def lossy (bytes : List UInt8) : List Char :=
  (segmentsOf bytes).map Segment.char

/-- The characters of the decoding that more bytes cannot change: all but what stands for a last
sequence that can still be completed. -/
def settled (bytes : List UInt8) : List Char :=
  (split bytes).1.map Segment.char

theorem settled_append (bytes more : List UInt8) :
    settled (bytes ++ more) =
      settled bytes ++ (split ((split bytes).2 ++ more)).1.map Segment.char := by
  rw [settled, split_append, List.map_append]
  rfl

theorem textOf_append (ss ts : List Segment) : textOf (ss ++ ts) = textOf ss ++ textOf ts := by
  simp [textOf]

theorem invalidCount_append (ss ts : List Segment) :
    invalidCount (ss ++ ts) = invalidCount ss + invalidCount ts :=
  List.countP_append

theorem textOf_cutOff (tail : List UInt8) :
    textOf (cutOff tail) = if tail.isEmpty then "" else String.singleton replacement := by
  unfold cutOff
  split <;> rfl

theorem invalidCount_cutOff (tail : List UInt8) :
    invalidCount (cutOff tail) = if tail.isEmpty then 0 else 1 := by
  unfold cutOff
  split <;> rfl

/-- What comes of decoding chunks in order. -/
structure Decoded where
  text : String
  /-- The number of sequences that were replaced. -/
  invalid : Nat
  decoder : Decoder
deriving Repr, DecidableEq, Inhabited

namespace Decoder

/-- Decodes chunks in order. -/
def decodeAll (d : Decoder) : List (List UInt8) → Decoded
  | [] => ⟨"", 0, d⟩
  | chunk :: chunks =>
    let (segments, d) := d.decode chunk
    let rest := d.decodeAll chunks
    ⟨textOf segments ++ rest.text, invalidCount segments + rest.invalid, rest.decoder⟩

/-- Chunks are decoded as if they were one, in front of which stands what was held back. -/
theorem decodeAll_eq (d : Decoder) (hd : next? d.pending = none) (chunks : List (List UInt8)) :
    d.decodeAll chunks =
      ⟨textOf (split (d.pending ++ chunks.flatten)).1,
        invalidCount (split (d.pending ++ chunks.flatten)).1,
        ⟨(split (d.pending ++ chunks.flatten)).2⟩⟩ := by
  induction chunks generalizing d with
  | nil =>
    rw [List.flatten_nil, List.append_nil, split_of_none hd]
    rfl
  | cons chunk chunks ih =>
    have hrest := ih (d.decode chunk).2 (next?_tail (d.pending ++ chunk))
    rw [List.flatten_cons, ← List.append_assoc, split_append, textOf_append, invalidCount_append]
    simp only [decodeAll, hrest]
    rfl

end Decoder

/-- However bytes are cut into chunks, the decoder yields the text of their one decoding and counts
its replacements, if the end of the input counts as one when bytes are held back; and bytes are
held back after a chunk exactly if those so far end in a sequence that can still be completed. -/
theorem decodeAll_decodes (chunks : List (List UInt8)) :
    let all := Decoder.empty.decodeAll chunks
    let cut := all.decoder.finish.1
    ∃ ss, (∀ ts, Decodes chunks.flatten ts ↔ ts = ss) ∧
      all.text ++ (if cut then String.singleton '\ufffd' else "") = textOf ss ∧
      all.invalid + (if cut then 1 else 0) = invalidCount ss ∧
      ∀ n, (Decoder.empty.decodeAll (chunks.take n)).decoder.hasPending ↔
        EndsOpen (chunks.take n).flatten := by
  intro all cut
  have hall : ∀ cs, Decoder.empty.decodeAll cs =
      ⟨textOf (split cs.flatten).1, invalidCount (split cs.flatten).1,
        ⟨(split cs.flatten).2⟩⟩ := Decoder.decodeAll_eq .empty rfl
  have hcut : cut = !(split chunks.flatten).2.isEmpty := by
    simp only [cut, all, hall]
    rfl
  refine ⟨segmentsOf chunks.flatten, decodes_iff chunks.flatten, ?_, ?_, fun n => ?_⟩
  · simp only [all, hall]
    rw [segmentsOf, textOf_append, textOf_cutOff, hcut]
    cases (split chunks.flatten).2.isEmpty <;> rfl
  · simp only [all, hall]
    rw [segmentsOf, invalidCount_append, invalidCount_cutOff, hcut]
    cases (split chunks.flatten).2.isEmpty <;> rfl
  · rw [hall, endsOpen_iff]
    simp [Decoder.hasPending]

end StyleScan.Utf8
