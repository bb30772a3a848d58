import StyleScan.Command.Pump
import StyleScan.Proofs.Chunking
import StyleScan.Proofs.Printing

/-! # From readings to output

Whatever pieces the input is read in, the pump writes the tokens of the whole input, in order, up to
the first that its destination does not take.

## Implementation notes

The tokenizer of a pump is described by its `Intake`, with nothing left in the queue between two
readings.  The lemmas about the pump hold of every destination; only the last theorem is about one
that takes everything. -/

namespace StyleScan.Command

/-- The readings deliver the bytes into a buffer of `size` bytes, or of one byte if that is zero, and
then stop at the end of the input or with an error.  No piece is empty, and an interrupted attempt
delivers nothing. -/
inductive Delivers (size : Nat) : List Reading → List UInt8 → Option SystemError → Prop where
  | used : Delivers size [] [] none
  | ended (later : List Reading) : Delivers size (.bytes [] :: later) [] none
  | failed (e : SystemError) (later : List Reading) : Delivers size (.failed e :: later) [] (some e)
  | interrupted {readings : List Reading} {bytes : List UInt8} {stop : Option SystemError}
      (h : Delivers size readings bytes stop) :
      Delivers size (.interrupted :: readings) bytes stop
  | piece {piece : List UInt8} {readings : List Reading} {bytes : List UInt8}
      {stop : Option SystemError} (hne : piece ≠ []) (hlen : piece.length ≤ max size 1)
      (h : Delivers size readings bytes stop) :
      Delivers size (.bytes piece :: readings) (piece ++ bytes) stop

/-! ## The readings of files -/

theorem Delivers.fileReadings_append {size : Nat} {readings : List Reading} {bytes : List UInt8}
    {stop : Option SystemError} (h : Delivers size readings bytes stop) (file : List UInt8) :
    Delivers size (fileReadings size file ++ readings) (file ++ bytes) stop := by
  unfold fileReadings
  fun_induction pieces (size - 1) file with
  | case1 file hempty =>
    obtain rfl := List.isEmpty_iff.mp hempty
    exact h
  | case2 file hne ih =>
    have hlen : (file.take (size - 1 + 1)).length ≤ max size 1 := by
      rw [List.length_take]
      omega
    have hfile : file ++ bytes =
        file.take (size - 1 + 1) ++ (file.drop (size - 1 + 1) ++ bytes) := by
      rw [← List.append_assoc, List.take_append_drop]
    rw [hfile]
    exact .piece (by simpa using hne) hlen ih

/-- A file is delivered as it is, whatever the size of the buffer. -/
theorem delivers_fileReadings (size : Nat) (file : List UInt8) :
    Delivers size (fileReadings size file) file none := by
  simpa using Delivers.fileReadings_append .used file

/-- So is the standard input, whether it is read ahead or not. -/
theorem delivers_inputReadings (size : Nat) (input : List UInt8) :
    Delivers size (inputReadings size input) input none := by
  unfold inputReadings
  split
  · exact delivers_fileReadings size input
  · fun_induction pieces (readAhead - 1) input with
    | case1 input hempty =>
      obtain rfl := List.isEmpty_iff.mp hempty
      exact .used
    | case2 input hne ih =>
      have h := ih.fileReadings_append (input.take (readAhead - 1 + 1))
      rwa [List.take_append_drop] at h

/-! ## Steps of the pump -/

namespace Pump

variable {σ : Type}

/-- What has come of a pump that had the tokens `ts` to write, up to the first that its destination
did not take, and then met with `stop`. -/
structure Wrote (p : Pump σ) (ts : List Token) (stop : Option SystemError)
    (result : Pump σ × Option CommandError) : Prop where
  printer : result.1.printer = (p.printer.writeAll ts).1
  failure : result.2 = ((p.printer.writeAll ts).2.or stop).map .io

variable (p : Pump σ) {r : Intake}

theorem perform_tokenizer (op : Operation) :
    (p.perform op).1.session.tokenizer = p.session.tokenizer.perform op :=
  p.session.perform_tokenizer op

/-- What is queued is written, and leaves the queue even if it is not taken. -/
theorem write_eq {ts : List Token} (ht : p.session.tokenizer = r.tokenizer ts) :
    p.write.1.session.tokenizer = r.tokenizer [] ∧ Wrote p ts none p.write := by
  have hdrain : p.session.tokenizer.drain.1 = ts := by
    rw [ht]
    rfl
  constructor
  · change (p.perform .drain).1.session.tokenizer = r.tokenizer []
    rw [perform_tokenizer, ht]
    rfl
  · subst hdrain
    constructor
    · rfl
    · rw [Option.or_none]
      rfl

/-- Input is accepted, and the tokens that it completes are written. -/
theorem exists_advance_eq (ht : p.session.tokenizer = r.tokenizer []) (hopen : r.ended = false)
    (op : Operation) (hop : op.isInput) :
    ∃ ts, (r.take op).tokens = r.tokens ++ ts ∧
      (p.advance op).1.session.tokenizer = (r.take op).tokenizer [] ∧
      Wrote p ts none (p.advance op) := by
  obtain ⟨ts, hperform, htokens⟩ := r.exists_perform_input_eq [] hop
  have hanswer : (p.perform op).2 = .accepted := by
    have hx : p.session.tokenizer =
        r.progress.tokenizer ⟨(Utf8.split r.block).2⟩ [] false := by
      rw [ht, Intake.tokenizer, hopen]
    exact p.session.answer_of_open hx hop
  have hadvance : p.advance op = (p.perform op).1.write := by
    unfold advance
    split
    next q e h =>
      rw [h] at hanswer
      cases hanswer
    next q answer _ h => rw [h]
  have hqueued : (p.perform op).1.session.tokenizer = (r.take op).tokenizer ts := by
    rw [perform_tokenizer, ht, hperform, List.nil_append]
  obtain ⟨htokenizer, hwrote⟩ := (p.perform op).1.write_eq hqueued
  rw [hadvance]
  exact ⟨ts, htokens, htokenizer, hwrote.printer, hwrote.failure⟩

theorem run_piece {piece : List UInt8} (hne : piece ≠ []) (readings : List Reading) :
    p.run (.bytes piece :: readings) =
      match p.feed piece with
      | (q, none) => q.run readings
      | (q, some e) => (q, some e) := by
  obtain ⟨b, bytes, rfl⟩ := List.exists_cons_of_ne_nil hne
  rfl

/-- A run goes on after a piece whose tokens have all been taken, and ends after any other. -/
theorem Wrote.run_piece {p : Pump σ} {piece : List UInt8} (hne : piece ≠ [])
    {readings : List Reading} {ts us : List Token} {stop : Option SystemError}
    (hfeed : Wrote p ts none (p.feed piece))
    (hrun : Wrote (p.feed piece).1 us stop ((p.feed piece).1.run readings)) :
    Wrote p (ts ++ us) stop (p.run (.bytes piece :: readings)) := by
  have hprinter := hrun.printer
  have hfailure := hrun.failure
  rw [hfeed.printer] at hprinter hfailure
  have hstep : p.feed piece = ((p.feed piece).1, (p.printer.writeAll ts).2.map .io) := by
    apply Prod.ext
    · rfl
    · simpa using hfeed.failure
  have htaken := hfeed.printer
  rw [p.run_piece hne, hstep]
  constructor
  · rw [Printer.writeAll_append]
    rcases hw : p.printer.writeAll ts with ⟨q, _ | e⟩
    · rw [hw] at hprinter
      exact hprinter
    · rw [hw] at htaken
      exact htaken
  · rw [Printer.writeAll_append]
    rcases hw : p.printer.writeAll ts with ⟨q, _ | e⟩
    · rw [hw] at hfailure
      exact hfailure
    · rfl

end Pump

/-! ## Runs of the pump -/

/-- The input that readings amount to: the bytes at once, and the end unless the readings fail. -/
def delivered (bytes : List UInt8) (stop : Option SystemError) : List Operation :=
  .feedBytes bytes :: if stop.isNone then [.finish] else []

section Delivered

variable {r : Intake} (hopen : r.ended = false) (stop : Option SystemError)

include hopen

theorem takeAll_delivered_nil :
    r.takeAll (delivered [] stop) = if stop.isNone then r.take .finish else r := by
  obtain ⟨text, block, ended⟩ := r
  cases hopen
  cases stop with
  | none => simp [Intake.takeAll, delivered, Intake.take]
  | some e => simp [Intake.takeAll, delivered, Intake.take]

theorem takeAll_delivered_append (piece bytes : List UInt8) :
    r.takeAll (delivered (piece ++ bytes) stop) =
      (r.take (.feedBytes piece)).takeAll (delivered bytes stop) := by
  simp [Intake.takeAll, delivered, Intake.take, hopen]

end Delivered

/-- The text of bytes that are delivered to the end is their decoding. -/
theorem decoded_delivered (bytes : List UInt8) :
    (Intake.start.takeAll (delivered bytes none)).decoded = Utf8.lossy bytes := by
  simp [Intake.takeAll, delivered, Intake.take, Intake.start, Intake.decoded, Utf8.settled,
    Utf8.lossy, Utf8.segmentsOf, Utf8.cutOff]

/-- A run writes the tokens that the delivered bytes complete, and with them its end, unless the
readings fail.  A failure of the destination comes before a failure of the readings. -/
theorem Delivers.exists_run_eq {σ : Type} {size : Nat} {readings : List Reading}
    {bytes : List UInt8} {stop : Option SystemError} (h : Delivers size readings bytes stop)
    (p : Pump σ) {r : Intake} (hopen : r.ended = false)
    (ht : p.session.tokenizer = r.tokenizer []) :
    ∃ ts, (r.takeAll (delivered bytes stop)).tokens = r.tokens ++ ts ∧
      p.Wrote ts stop (p.run readings) := by
  induction h generalizing p r with
  | used | ended later =>
    obtain ⟨ts, htokens, -, hwrote⟩ := p.exists_advance_eq ht hopen .finish rfl
    rw [takeAll_delivered_nil hopen]
    exact ⟨ts, htokens, hwrote⟩
  | failed e later =>
    rw [takeAll_delivered_nil hopen]
    exact ⟨[], by simp, rfl, rfl⟩
  | interrupted h ih => exact ih p hopen ht
  | @piece piece readings bytes stop hne hlen h ih =>
    have hfeed := p.exists_advance_eq ht hopen (.feedBytes piece) rfl
    obtain ⟨ts, htokens, htokenizer, hwrote⟩ := hfeed
    have hopen' : (r.take (.feedBytes piece)).ended = false := by simp [Intake.take, hopen]
    obtain ⟨us, hrest, hran⟩ := ih (p.feed piece).1 hopen' htokenizer
    refine ⟨ts ++ us, ?_, hwrote.run_piece hne hran⟩
    rw [takeAll_delivered_append hopen, hrest, htokens, List.append_assoc]

end StyleScan.Command
