import Mathlib.Algebra.Ring.Int.Defs
import StyleScan.Proofs.Encoded
import StyleScan.Proofs.Layout

/-! # Offsets in raw bytes

An offset counts the bytes of the decoded text.  In the raw bytes a token stands for a run of
segments, and its offset differs from the place of that run by what the replacements before it have
added: three bytes for each, less the bytes that it replaces (`offset_eq_raw_index`).  Where nothing
has been replaced, the offset is the place of the token in the raw bytes. -/

namespace StyleScan

namespace Utf8

open String (utf8EncodeChar)

/-- The bytes of segments, in order. -/
def bytesOf (ss : List Segment) : List UInt8 :=
  ss.flatMap Segment.bytes

/-- How many bytes replacements add: three for each, less the bytes that it replaces. -/
def drift (ss : List Segment) : Int :=
  ((ss.filter Segment.isInvalid).map fun s => (3 - s.bytes.length : Int)).sum

@[simp] theorem bytesOf_append (ss ts : List Segment) :
    bytesOf (ss ++ ts) = bytesOf ss ++ bytesOf ts := by
  simp [bytesOf]

/-- The segments of a decoding are made of its bytes. -/
theorem Decodes.bytesOf_eq {bytes : List UInt8} {ss : List Segment} (h : Decodes bytes ss) :
    bytesOf ss = bytes := by
  induction h with
  | nil => rfl
  | char c _ ih => rw [bytesOf, List.flatMap_cons, ← bytesOf, ih]
  | invalid _ _ ih => rw [bytesOf, List.flatMap_cons, ← bytesOf, ih]

/-- A segment with a scalar value is the encoding of that value. -/
theorem Decodes.bytes_eq_of_mem {bytes : List UInt8} {ss : List Segment} (h : Decodes bytes ss)
    {s : Segment} (hs : s ∈ ss) {c : Char} (hc : s.scalar = some c) :
    s.bytes = utf8EncodeChar c := by
  induction h with
  | nil => cases hs
  | char d _ ih =>
    rcases List.mem_cons.mp hs with rfl | hs
    · cases hc
      rfl
    · exact ih hs
  | invalid _ _ ih =>
    rcases List.mem_cons.mp hs with rfl | hs
    · cases hc
    · exact ih hs

section

variable {ss : List Segment} (h : ∀ s ∈ ss, ∀ c, s.scalar = some c → s.bytes = utf8EncodeChar c)

include h

/-- A text is as long as the bytes that it is decoded from and what replacements add. -/
theorem utf8Length_map_char :
    (utf8Length (ss.map Segment.char) : Int) = (bytesOf ss).length + drift ss := by
  induction ss with
  | nil => rfl
  | cons s ss ih =>
    obtain ⟨hs, hss⟩ := List.forall_mem_cons.mp h
    have hrest := ih hss
    have hlength : utf8Length ((s :: ss).map Segment.char) =
        s.char.utf8Size + utf8Length (ss.map Segment.char) := by
      simp [utf8Length]
    have hbytes : (bytesOf (s :: ss)).length = s.bytes.length + (bytesOf ss).length := by
      simp [bytesOf]
    rw [hlength, hbytes]
    cases hc : s.scalar with
    | none =>
      have hinvalid : s.isInvalid := by simp [Segment.isInvalid, hc]
      have hsize : s.char.utf8Size = 3 := by
        rw [Segment.char, hc]
        rfl
      have hdrift : drift (s :: ss) = 3 - s.bytes.length + drift ss := by
        simp [drift, hinvalid]
      omega
    | some c =>
      have hvalid : s.isInvalid = false := by simp [Segment.isInvalid, hc]
      have hsize : s.char.utf8Size = s.bytes.length := by
        rw [hs c hc, String.length_utf8EncodeChar, Segment.char, hc]
        rfl
      have hdrift : drift (s :: ss) = drift ss := by
        simp [drift, hvalid]
      omega

/-- Where nothing is replaced, the text encodes to the bytes that it is decoded from. -/
theorem encode_map_char (hvalid : ∀ s ∈ ss, s.isInvalid = false) :
    encode (ss.map Segment.char) = bytesOf ss := by
  rw [encode, List.flatMap_map, bytesOf]
  refine List.flatMap_congr fun s hs => ?_
  obtain ⟨c, hc⟩ := Option.isSome_iff_exists.mp (Option.isNone_eq_false_iff.mp (hvalid s hs))
  rw [h s hs c hc, Segment.char, hc]
  rfl

end

theorem drift_eq_zero {ss : List Segment} (hvalid : ∀ s ∈ ss, s.isInvalid = false) :
    drift ss = 0 := by
  rw [drift, List.filter_eq_nil_iff.mpr fun s hs => by simp [hvalid s hs]]
  rfl

end Utf8

open Utf8 (bytesOf drift textOf)

theorem Intake.takeAll_filter_isInput (r : Intake) (ops : List Operation) :
    r.takeAll (ops.filter Operation.isInput) = r.takeAll ops := by
  induction ops generalizing r with
  | nil => rfl
  | cons op ops ih =>
    have hcons : r.takeAll (op :: ops) = (r.take op).takeAll ops := rfl
    cases hop : op.isInput with
    | true =>
      rw [List.filter_cons_of_pos hop, hcons, ← ih]
      rfl
    | false => rw [List.filter_cons_of_neg (by simp [hop]), hcons, take_of_not_isInput hop, ih]

/-- Bytes that are fed in pieces up to the end of the input are decoded as a whole. -/
theorem Intake.takeAll_finished (chunks : List (List UInt8)) :
    start.takeAll (chunks.map .feedBytes ++ [.finish]) =
      ⟨Utf8.lossy chunks.flatten, [], true⟩ := by
  have hall : start.takeAll (chunks.map .feedBytes ++ [.finish]) =
      (start.takeAll (chunks.map .feedBytes)).take .finish := by
    simp [takeAll]
  rw [hall, takeAll_feedBytes rfl]
  simp [take, start]

/-- Once the input is finished, the tokens lie one after the other and make up the text. -/
theorem Intake.laid_tokens {r : Intake} (h : r.ended) :
    Laid .start (r.tokens.map Token.piece) ∧
      textOfPieces (r.tokens.map Token.piece) = r.decoded := by
  have hpieces : r.progress.pieces = [] := by
    rw [progress, h]
    rfl
  obtain ⟨hlaid, htext, -⟩ := r.laid
  rw [hpieces, List.append_nil] at hlaid htext
  exact ⟨hlaid, htext⟩

/-- A token that comes after `earlier` is decoded from the run of segments after those that its
predecessors are decoded from. -/
theorem exists_run_of_split {ss : List Utf8.Segment} {before after : List Token} {t : Token}
    (h : textOfPieces ((before ++ t :: after).map Token.piece) = ss.map Utf8.Segment.char) :
    ∃ earlier run later, ss = earlier ++ run ++ later ∧
      textOfPieces (before.map Token.piece) = earlier.map Utf8.Segment.char ∧
      t.text.toList = run.map Utf8.Segment.char := by
  rw [List.map_append, List.map_cons, textOfPieces_append, textOfPieces_cons] at h
  obtain ⟨earlier, rest, rfl, hearlier, hrest⟩ := List.map_eq_append_iff.mp h.symm
  obtain ⟨run, later, rfl, hrun, -⟩ := List.map_eq_append_iff.mp hrest
  exact ⟨earlier, run, later, (List.append_assoc _ _ _).symm, hearlier.symm, hrun.symm⟩

theorem toList_textOf (ss : List Utf8.Segment) : (textOf ss).toList = ss.map Utf8.Segment.char := by
  rw [textOf, String.toList_ofList]

/-- A text that is decoded from segments of which none is replaced stands where their bytes do. -/
theorem take_drop_bytesOf {earlier run later : List Utf8.Segment} {text : String}
    (hscalar : ∀ s ∈ run, ∀ c, s.scalar = some c → s.bytes = String.utf8EncodeChar c)
    (hvalid : ∀ s ∈ run, s.isInvalid = false)
    (htext : text.toList = run.map Utf8.Segment.char) :
    ((bytesOf (earlier ++ run ++ later)).drop (bytesOf earlier).length).take text.utf8ByteSize =
      text.toUTF8.data.toList := by
  have hbytes : text.toUTF8.data.toList = bytesOf run := by
    rw [Utf8.toList_toUTF8, htext, Utf8.encode_map_char hscalar hvalid]
  have hsize : text.utf8ByteSize = (bytesOf run).length := by
    rw [← hbytes]
    rfl
  rw [hsize, hbytes, Utf8.bytesOf_append, Utf8.bytesOf_append, List.append_assoc, List.drop_left,
    List.take_left]

/-- Bytes are fed in any pieces and then the input is finished, while tokens are pulled at any time.
Then every token is decoded from a run of segments of the bytes, and those before it from the
segments before the run.  Its offset is the number of bytes before the run and what the replacements
among them add.  If nothing is replaced up to its end, the token stands in the bytes at its
offset. -/
theorem offset_eq_raw_index {σ : Type} (logger : Log.Logger σ) (traceChars hooked : Bool)
    (chunks : List (List UInt8)) :
    let s := (Session.new logger traceChars hooked).1
    let bytes := chunks.flatten
    ∃ ss, (∀ ts, Utf8.Decodes bytes ts ↔ ts = ss) ∧ bytesOf ss = bytes ∧
      ∀ ops, ops.filter Operation.isInput = chunks.map .feedBytes ++ [.finish] →
        let tokens := s.tokenizer.handedOut ops ++ (s.performAll ops).1.tokenizer.queue
        String.join (tokens.map Token.text) = textOf ss ∧
        ∀ before t after, tokens = before ++ t :: after →
          ∃ earlier run later, ss = earlier ++ run ++ later ∧
            String.join (before.map Token.text) = textOf earlier ∧ t.text = textOf run ∧
            (t.start.offset : Int) = (bytesOf earlier).length + drift earlier ∧
            ((∀ segment ∈ earlier ++ run, segment.isInvalid = false) →
              t.start.offset = (bytesOf earlier).length ∧
              (bytes.drop t.start.offset).take t.text.utf8ByteSize = t.text.toUTF8.data.toList) := by
  intro s bytes
  have hdecodes := Utf8.decodes_segmentsOf bytes
  refine ⟨Utf8.segmentsOf bytes, Utf8.decodes_iff bytes, hdecodes.bytesOf_eq, ?_⟩
  intro ops hops tokens
  have hintake : Intake.start.takeAll ops = ⟨Utf8.lossy bytes, [], true⟩ := by
    rw [← Intake.takeAll_filter_isInput, hops, Intake.takeAll_finished]
  have htokens : tokens = (Intake.start.takeAll ops).tokens := by
    obtain ⟨queue, hall, hqueue⟩ := Intake.exists_performAll_new_eq ops
    rw [← hqueue]
    simp only [tokens, Session.performAll_tokenizer]
    congr 1
    exact congrArg Tokenizer.queue hall
  have hended : (Intake.start.takeAll ops).ended := by rw [hintake]
  have hdecoded : (Intake.start.takeAll ops).decoded =
      (Utf8.segmentsOf bytes).map Utf8.Segment.char := by
    simp [hintake, Intake.decoded, Utf8.lossy]
  obtain ⟨hlaid, htext⟩ := Intake.laid_tokens hended
  rw [← htokens] at hlaid htext
  rw [hdecoded] at htext
  refine ⟨?_, fun before t after hsplit => ?_⟩
  · rw [← String.toList_inj, ← textOfPieces_map_piece, htext, toList_textOf]
  · rw [hsplit] at hlaid htext
    obtain ⟨earlier, run, later, hss, hearlier, hrun⟩ := exists_run_of_split htext
    have hscalar : ∀ s ∈ earlier ++ run, ∀ c, s.scalar = some c →
        s.bytes = String.utf8EncodeChar c := fun s hs c =>
      hdecodes.bytes_eq_of_mem (hss ▸ List.mem_append_left later hs)
    obtain ⟨hscalarEarlier, hscalarRun⟩ := List.forall_mem_append.mp hscalar
    have hstart : t.start.offset = utf8Length (earlier.map Utf8.Segment.char) := by
      rw [List.map_append, List.map_cons] at hlaid
      obtain ⟨-, hend⟩ := hlaid.of_eq_append rfl
      rw [← hearlier]
      exact congrArg Position.offset hend
    have hoffset : (t.start.offset : Int) = (bytesOf earlier).length + drift earlier := by
      rw [hstart, Utf8.utf8Length_map_char hscalarEarlier]
    refine ⟨earlier, run, later, hss, ?_, ?_, hoffset, fun hvalid => ?_⟩
    · rw [← String.toList_inj, ← textOfPieces_map_piece, hearlier, toList_textOf]
    · rw [← String.toList_inj, hrun, toList_textOf]
    · obtain ⟨hvalidEarlier, hvalidRun⟩ := List.forall_mem_append.mp hvalid
      have hplace : t.start.offset = (bytesOf earlier).length := by
        rw [Utf8.drift_eq_zero hvalidEarlier, Int.add_zero] at hoffset
        exact Int.ofNat.inj hoffset
      refine ⟨hplace, ?_⟩
      rw [hplace, ← hdecodes.bytesOf_eq, hss]
      exact take_drop_bytesOf hscalarRun hvalidRun hrun

end StyleScan
