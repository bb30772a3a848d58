import StyleScan.Proofs.Pump

/-! # Input that fails

Reading may fail anywhere, also inside a character, a comment or an escape.  The pump has then
written the tokens that were complete, and neither what is open nor the bytes that are held back.
More input only adds tokens, so that no input that goes on from there would have had anything else
written first (`run_failed`). -/

namespace StyleScan

@[simp] theorem Format.renderAll_append (format : Format) (ts us : List Token) :
    format.renderAll (ts ++ us) = format.renderAll ts ++ format.renderAll us := by
  induction ts with
  | nil => simp
  | cons t ts ih => simp [ih, String.append_assoc]

namespace Intake

/-- An operation keeps the tokens that are complete. -/
theorem tokens_isPrefix_take (r : Intake) (op : Operation) : r.tokens <+: (r.take op).tokens := by
  cases hop : op.isInput with
  | false =>
    exact ⟨[], by rw [List.append_nil, take_of_not_isInput hop]⟩
  | true =>
    obtain ⟨more, -, htokens⟩ := r.exists_perform_input_eq [] hop
    rw [htokens]
    exact List.prefix_append r.tokens more

/-- So do operations in order. -/
theorem tokens_isPrefix_takeAll (r : Intake) (ops : List Operation) :
    r.tokens <+: (r.takeAll ops).tokens := by
  induction ops generalizing r with
  | nil => exact List.prefix_rfl
  | cons op ops ih => exact (r.tokens_isPrefix_take op).trans (ih (r.take op))

end Intake

/-- Bytes that are fed to a new tokenizer leave the tokens in the queue that they complete. -/
theorem Tokenizer.queue_feedBytes_new (bytes : List UInt8) :
    (Tokenizer.new.feedBytes bytes).tokenizer.queue =
      (Intake.start.take (.feedBytes bytes)).tokens := by
  obtain ⟨more, hperform, htokens⟩ :=
    Intake.exists_feedBytes_eq (r := .start) rfl [] bytes
  rw [Intake.tokenizer_start] at hperform
  rw [Intake.tokens_start] at htokens
  calc
    (Tokenizer.new.feedBytes bytes).tokenizer.queue
        = ((Intake.start.take (.feedBytes bytes)).tokenizer ([] ++ more)).queue :=
      congrArg Tokenizer.queue hperform
    _ = (Intake.start.take (.feedBytes bytes)).tokens := htokens.symm

namespace Command

/-- A destination that takes everything gets the tokens that the delivered bytes complete, and the
run ends as the readings do. -/
theorem Delivers.run_new {σ : Type} (s : Session σ) (hs : s.tokenizer = .new) (format : Format)
    {size : Nat} {readings : List Reading} {bytes : List UInt8} {stop : Option SystemError}
    (h : Delivers size readings bytes stop) :
    let result := (Pump.new s (.new format)).run readings
    result.2 = stop.map .io ∧ result.1.printer.output =
      format.renderAll (Intake.start.takeAll (delivered bytes stop)).tokens := by
  intro result
  have ht : (Pump.new s (.new format)).session.tokenizer = Intake.start.tokenizer [] :=
    hs.trans Intake.tokenizer_start.symm
  obtain ⟨ts, htokens, hwrote⟩ := h.exists_run_eq _ rfl ht
  rw [Intake.tokens_start, List.nil_append] at htokens
  have hprinter := hwrote.printer
  have hfailure := hwrote.failure
  rw [Printer.writeAll_of_unlimited _ rfl] at hprinter hfailure
  constructor
  · exact hfailure
  · rw [htokens]
    exact (congrArg Printer.output hprinter).trans String.empty_append

/-- If reading fails, the pump reports why and has written the tokens that were in the queue by
then.  Where the same bytes come first in input that is read to its end, the same is written first,
however that input is read. -/
theorem run_failed {σ : Type} (logger : Log.Logger σ) (traceChars hooked : Bool) (format : Format)
    {size : Nat} {readings : List Reading} {bytes : List UInt8} {e : SystemError}
    (h : Delivers size readings bytes (some e)) :
    let result := (Pump.new (Session.new logger traceChars hooked).1 (.new format)).run readings
    let queue := (Tokenizer.new.feedBytes bytes).tokenizer.queue
    result.2 = some (.io e) ∧ result.1.printer.output = format.renderAll queue ∧
      ∀ {τ : Type} (logger' : Log.Logger τ) (traceChars' hooked' : Bool) {size' : Nat}
        {readings' : List Reading} {rest : List UInt8},
        Delivers size' readings' (bytes ++ rest) none →
        let whole :=
          (Pump.new (Session.new logger' traceChars' hooked').1 (.new format)).run readings'
        whole.2 = none ∧ ∃ more, whole.1.printer.output = result.1.printer.output ++ more := by
  intro result queue
  obtain ⟨hfailure, houtput⟩ := h.run_new (Session.new logger traceChars hooked).1 rfl format
  have hqueue : queue = (Intake.start.take (.feedBytes bytes)).tokens :=
    Tokenizer.queue_feedBytes_new bytes
  have hwritten : result.1.printer.output = format.renderAll queue := by
    rw [hqueue]
    exact houtput
  refine ⟨hfailure, hwritten, ?_⟩
  intro τ logger' traceChars' hooked' size' readings' rest hwhole whole
  obtain ⟨hsuccess, hall⟩ :=
    hwhole.run_new (Session.new logger' traceChars' hooked').1 rfl format
  have htake : Intake.start.takeAll (delivered (bytes ++ rest) none) =
      (Intake.start.take (.feedBytes bytes)).takeAll (delivered rest none) :=
    takeAll_delivered_append rfl none bytes rest
  obtain ⟨ts, hts⟩ :=
    (Intake.start.take (.feedBytes bytes)).tokens_isPrefix_takeAll (delivered rest none)
  refine ⟨hsuccess, format.renderAll ts, ?_⟩
  calc
    whole.1.printer.output
        = format.renderAll (Intake.start.takeAll (delivered (bytes ++ rest) none)).tokens := hall
    _ = format.renderAll (queue ++ ts) := by rw [htake, ← hts, hqueue]
    _ = result.1.printer.output ++ format.renderAll ts := by
      rw [Format.renderAll_append, hwritten]

/-- Reading fails inside a character of a comment, after an interrupted attempt. -/
theorem run_failed_inside_character :
    let bytes : List UInt8 := [0x61, 0x2f, 0x2a, 0xc3]
    let rest : List UInt8 := [0xa9, 0x2a, 0x2f]
    let readings : List Reading :=
      [.bytes [0x61, 0x2f], .interrupted, .bytes [0x2a, 0xc3], .failed .notText, .bytes rest]
    let logger : Log.Logger Unit := .new .trace
    let result := (Pump.new (Session.new logger true true).1 (.new .json)).run readings
    let queue := (Tokenizer.new.feedBytes bytes).tokenizer.queue
    let whole := (Pump.new (Session.new logger false false).1 (.new .json)).run
      [.bytes (bytes ++ rest)]
    Delivers 2 readings bytes (some .notText) ∧
      Delivers 7 [.bytes (bytes ++ rest)] (bytes ++ rest) none ∧
      result.2 = some (.io .notText) ∧ result.1.printer.output = Format.json.renderAll queue ∧
      whole.2 = none ∧ ∃ more, whole.1.printer.output = result.1.printer.output ++ more := by
  intro bytes rest readings logger result queue whole
  have h : Delivers 2 readings bytes (some .notText) := by
    apply Delivers.piece (by simp) (by simp)
    apply Delivers.interrupted
    apply Delivers.piece (by simp) (by simp)
    exact .failed .notText _
  have hwhole : Delivers 7 [.bytes (bytes ++ rest)] (bytes ++ rest) none := by
    apply Delivers.piece (by simp [bytes]) (by simp [bytes, rest])
    exact .used
  obtain ⟨hfailure, houtput, hprefix⟩ := run_failed logger true true .json h
  exact ⟨h, hwhole, hfailure, houtput, hprefix logger false false hwhole⟩

end Command

end StyleScan
