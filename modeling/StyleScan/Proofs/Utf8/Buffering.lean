import StyleScan.Proofs.Utf8.Encoding
import StyleScan.Utf8.Buffer

/-! # Four bytes of room

A decoder in memory has room for four bytes.  Each of its calls returns, no access leaves its
bounds, and the answers are those of a decoder that could hold back any number of bytes
(`performAll_in_bounds`).  The reason is that bytes which stay open are the beginning of a character
but not all of it: they are three at the most, and the first of them tells how many there will
be. -/

namespace StyleScan.Utf8

open String (utf8EncodeChar)

/-! ## Bytes that stay open -/

/-- A character that begins with open bytes is longer than they are. -/
theorem length_lt_of_open {bytes : List UInt8} (h : next? bytes = none) {c : Char}
    (hc : bytes <+: utf8EncodeChar c) : bytes.length < (utf8EncodeChar c).length := by
  obtain ⟨-, hill⟩ := (next?_eq_none_iff bytes).1 h
  refine Nat.lt_of_le_of_ne hc.length_le fun hlen => hill c ?_
  exact (hc.eq_of_length hlen).symm ▸ List.prefix_rfl

/-- In four bytes of room, open bytes leave one free. -/
theorem length_le_three_of_open {bytes : List UInt8} (h : next? bytes = none) :
    bytes.length ≤ 3 := by
  obtain ⟨c, hc⟩ := ((next?_eq_none_iff bytes).1 h).1
  have hlt := length_lt_of_open h hc
  have hsize : (utf8EncodeChar c).length ≤ 4 := by
    rw [String.length_utf8EncodeChar]
    exact c.utf8Size_le_four
  omega

/-- The first byte tells the length of every character that begins with it. -/
theorem sequenceLength_of_isPrefix {lead : UInt8} {rest : List UInt8} {c : Char}
    (hc : lead :: rest <+: utf8EncodeChar c) :
    sequenceLength lead = some (utf8EncodeChar c).length := by
  obtain ⟨a, tail, ranges, he, hr, hlen, -⟩ := exists_fits_of_encode c
  rw [he, List.cons_prefix_cons] at hc
  obtain ⟨rfl, -⟩ := hc
  rw [sequenceLength, hr, he, List.length_cons, hlen]
  rfl

/-! ## Validation -/

theorem validate_nil : validate [] = .ok "" := by
  rw [validate]
  rfl

theorem validate_of_open {bytes : List UInt8} (h : next? bytes = none) (hne : bytes ≠ []) :
    validate bytes = .error ⟨0, none⟩ := by
  rw [validate]
  split
  · simp [hne]
  · simp_all

theorem validate_of_invalid {bytes bad rest : List UInt8}
    (h : next? bytes = some (⟨bad, none⟩, rest)) :
    validate bytes = .error ⟨0, some bad.length⟩ := by
  rw [validate]
  split
  · simp_all
  · next s rest' hnext =>
    obtain ⟨rfl, rfl⟩ : ⟨bad, none⟩ = s ∧ rest = rest' := by simpa [h] using hnext
    rfl

/-- A character at the front is validated, and then the rest. -/
theorem validate_char (c : Char) (rest : List UInt8) :
    validate (utf8EncodeChar c ++ rest) =
      match validate rest with
      | .ok text => .ok (String.singleton c ++ text)
      | .error flaw =>
        .error { flaw with validUpTo := (utf8EncodeChar c).length + flaw.validUpTo } := by
  rw [validate]
  split
  · simp_all [next?_encode]
  · next s rest' hnext =>
    obtain ⟨rfl, rfl⟩ : ⟨utf8EncodeChar c, some c⟩ = s ∧ rest = rest' := by
      simpa [next?_encode] using hnext
    rfl

theorem validate_encode (cs : List Char) : validate (encode cs) = .ok (String.ofList cs) := by
  induction cs with
  | nil => exact validate_nil
  | cons c cs ih =>
    rw [encode_cons, validate_char, ih]
    simp

/-- Bytes encode a text, or they do so up to the first flaw: there they end in the middle of a
sequence, or those begin that are replaced as one. -/
theorem validate_cases (bytes : List UInt8) :
    (∃ cs, bytes = encode cs ∧ validate bytes = .ok (String.ofList cs)) ∨
    (∃ cs tail, bytes = encode cs ++ tail ∧
      (tail ≠ [] ∧ Viable tail ∧ ∀ c, ¬ utf8EncodeChar c <+: tail) ∧
      validate bytes = .error ⟨(encode cs).length, none⟩) ∨
    (∃ cs bad rest, bytes = encode cs ++ (bad ++ rest) ∧
      (Replaced bad (bad ++ rest) ∧ ¬ Viable (bad ++ rest)) ∧
      validate bytes = .error ⟨(encode cs).length, some bad.length⟩) := by
  induction h : bytes.length using Nat.strongRecOn generalizing bytes with
  | ind n ih =>
    subst h
    rcases next?_cases bytes with ⟨h, hopen⟩ | ⟨c, rest, rfl, h⟩ | ⟨bad, rest, rfl, hbad, hnot, h⟩
    · by_cases hne : bytes = []
      · exact .inl ⟨[], hne, by rw [hne]; exact validate_nil⟩
      · exact .inr (.inl ⟨[], bytes, rfl, ⟨hne, hopen⟩, validate_of_open h hne⟩)
    · have hshorter := length_lt_of_next? h
      rcases ih rest.length hshorter rest rfl with ⟨cs, rfl, -⟩ | ⟨cs, tail, rfl, hopen, hv⟩ |
        ⟨cs, bad, more, rfl, hbad, hv⟩
      · refine .inl ⟨c :: cs, (encode_cons c cs).symm, ?_⟩
        rw [← encode_cons, validate_encode]
      · refine .inr (.inl ⟨c :: cs, tail, ?_, hopen, ?_⟩)
        · rw [encode_cons, List.append_assoc]
        · rw [validate_char, hv, encode_cons, List.length_append]
      · refine .inr (.inr ⟨c :: cs, bad, more, ?_, hbad, ?_⟩)
        · rw [encode_cons, List.append_assoc]
        · rw [validate_char, hv, encode_cons, List.length_append]
    · exact .inr (.inr ⟨[], bad, rest, rfl, ⟨hbad, hnot⟩, validate_of_invalid h⟩)

/-! ## Rounds -/

theorem cut?_append (front rest : List UInt8) :
    cut? (front ++ rest) front.length = some (front, rest) :=
  cut?_eq_some_iff.mpr ⟨rfl, rfl⟩

namespace Buffer

theorem pending?_of_length_eq_zero {b : Buffer} (h : b.length = 0) : b.pending? = some [] := by
  simp [pending?, cut?, h]

/-- What is held back is as long as the buffer says. -/
theorem length_eq_of_pending? {b : Buffer} {bytes : List UInt8} (h : b.pending? = some bytes) :
    b.length = bytes.length := by
  obtain ⟨⟨held, rest⟩, hcut, rfl⟩ := Option.map_eq_some_iff.mp h
  exact (cut?_eq_some_iff.mp hcut).2

/-- Up to four bytes can be held back. -/
theorem exists_hold?_eq (b : Buffer) {bytes : List UInt8} (h : bytes.length ≤ 4) :
    ∃ held, b.hold? bytes = some held ∧ held.pending? = some bytes := by
  refine ⟨_, dif_pos h, ?_⟩
  simp [pending?, cut?_append]

end Buffer

/-- What a round does: it returns with the whole text, or with the text before an open end, which it
holds back, or it replaces the first invalid sequence and leaves the bytes behind it. -/
theorem round_cases (b : Buffer) (p : Stage) :
    (∃ cs, p.input = encode cs ∧
      round b p = some (.returned (p.out ++ String.ofList cs) p.invalid b)) ∨
    (∃ cs tail held, p.input = encode cs ++ tail ∧ next? tail = none ∧
      held.pending? = some tail ∧
      round b p = some (.returned (p.out ++ String.ofList cs) p.invalid held)) ∨
    (∃ cs bad rest, p.input = encode cs ++ (bad ++ rest) ∧
      next? (bad ++ rest) = some (⟨bad, none⟩, rest) ∧
      round b p = some (.again
        ⟨rest, (p.out ++ String.ofList cs).push replacement, p.invalid + 1⟩)) := by
  rcases validate_cases p.input with ⟨cs, hp, hv⟩ | ⟨cs, tail, hp, ⟨-, htail⟩, hv⟩ |
    ⟨cs, bad, rest, hp, ⟨hbad, hnot⟩, hv⟩
  · refine .inl ⟨cs, hp, ?_⟩
    simp [round, hv]
  · have hopen : next? tail = none := (next?_eq_none_iff tail).2 htail
    have hroom : tail.length ≤ 4 := Nat.le_succ_of_le (length_le_three_of_open hopen)
    obtain ⟨held, hhold, hpending⟩ := b.exists_hold?_eq hroom
    have hcut : cut? p.input (encode cs).length = some (encode cs, tail) :=
      cut?_eq_some_iff.mpr ⟨hp, rfl⟩
    refine .inr (.inl ⟨cs, tail, held, hp, hopen, hpending, ?_⟩)
    simp [round, hv, hcut, validate_encode, hhold]
  · have hnext : next? (bad ++ rest) = some (⟨bad, none⟩, rest) := by
      apply next?_replaced hbad
      rintro hv rfl
      exact hnot (by rwa [List.append_nil])
    have hcut : cut? p.input (encode cs).length = some (encode cs, bad ++ rest) :=
      cut?_eq_some_iff.mpr ⟨hp, rfl⟩
    refine .inr (.inr ⟨cs, bad, rest, hp, hnext, ?_⟩)
    simp [round, hv, hcut, validate_encode, cut?_append]

/-- The first byte that begins no character is replaced, and a later round reads the last one. -/
example : round .empty ⟨[0x78, 0xff, 0xe4], "a", 0⟩ = some (.again ⟨[0xe4], "ax\ufffd", 1⟩) := by
  cbv

theorem loop_of_again {b : Buffer} {p q : Stage} (h : round b p = some (.again q)) :
    loop b p = loop b q := by
  rw [loop]
  split <;> simp_all

theorem loop_of_returned {b held : Buffer} {p : Stage} {out : String} {invalid : Nat}
    (h : round b p = some (.returned out invalid held)) :
    loop b p = some (out, invalid, held) := by
  rw [loop]
  split <;> simp_all

/-- There is no run of rounds without end. -/
theorem wellFounded_again (b : Buffer) :
    WellFounded fun q p => round b p = some (.again q) := by
  have hshorter : Subrelation (fun q p => round b p = some (.again q))
      (measure fun p : Stage => p.input.length).rel := length_lt_of_round
  exact hshorter.wf (measure _).wf

/-- All rounds together append the text of the whole segments, count the invalid ones and hold back
the tail. -/
theorem exists_loop_eq {b : Buffer} (hb : b.length = 0) (p : Stage) :
    let segments := (split p.input).1
    ∃ held, loop b p = some (p.out ++ textOf segments, p.invalid + invalidCount segments, held) ∧
      held.pending? = some (split p.input).2 := by
  induction h : p.input.length using Nat.strongRecOn generalizing p with
  | ind n ih =>
    subst h
    rcases round_cases b p with ⟨cs, hp, hround⟩ | ⟨cs, tail, held, hp, hopen, hheld, hround⟩ |
      ⟨cs, bad, rest, hp, hbad, hround⟩
    · refine ⟨b, ?_, ?_⟩
      · rw [loop_of_returned hround, hp, textOf_split_encode, invalidCount_split_encode]
        rfl
      · rw [hp, split_encode]
        exact Buffer.pending?_of_length_eq_zero hb
    · have hsplit : split p.input = ((split (encode cs)).1, tail) := by
        rw [hp, split_encode_append, split_of_none hopen, List.append_nil]
      refine ⟨held, ?_, ?_⟩
      · rw [loop_of_returned hround, hsplit, textOf_split_encode, invalidCount_split_encode]
        rfl
      · rw [hsplit, hheld]
    · have hsplit : split p.input =
          ((split (encode cs)).1 ++ ([⟨bad, none⟩] ++ (split rest).1), (split rest).2) := by
        rw [hp, split_encode_append, split_of_some hbad]
        rfl
      -- the next round has fewer bytes, and reads what this one has left
      obtain ⟨held, hloop, hheld⟩ := ih _ (length_lt_of_round hround) _ rfl
      have hone : textOf [⟨bad, none⟩] = String.singleton replacement ∧
          invalidCount [⟨bad, none⟩] = 1 := ⟨rfl, rfl⟩
      refine ⟨held, ?_, ?_⟩
      · rw [loop_of_again hround, hloop, hsplit]
        simp only [textOf_append, invalidCount_append, textOf_split_encode,
          invalidCount_split_encode, hone, String.push_eq_append, String.append_assoc,
          Nat.add_assoc, Nat.zero_add]
      · rw [hheld, hsplit]

namespace Buffer

/-- The buffer holds back what the decoder does, and these bytes are open. -/
structure Agrees (b : Buffer) (d : Decoder) : Prop where
  isOpen : next? d.pending = none
  pending_eq : b.pending? = some d.pending

theorem agrees_empty : empty.Agrees .empty :=
  ⟨rfl, pending?_of_length_eq_zero rfl⟩

namespace Agrees

variable {b : Buffer} {d : Decoder} (h : b.Agrees d)

include h

theorem length_eq : b.length = d.pending.length :=
  length_eq_of_pending? h.pending_eq

theorem hasPending_eq : b.hasPending = d.hasPending := by
  rw [hasPending, Decoder.hasPending, h.length_eq]
  cases d.pending <;> rfl

/-- A call that decodes returns, in memory as well. -/
theorem exists_decode_eq (chunk : List UInt8) (out : String) :
    let segments := (d.decode chunk).1
    ∃ b', b.decode chunk out = some (out ++ textOf segments, invalidCount segments, b') ∧
      b'.Agrees (d.decode chunk).2 := by
  intro segments
  have hloop : ∃ cleared, cleared.length = 0 ∧
      b.decode chunk out = loop cleared ⟨d.pending ++ chunk, out, 0⟩ := by
    unfold decode
    split
    · refine ⟨{ b with length := 0 }, rfl, ?_⟩
      rw [h.pending_eq]
      rfl
    · next hnone =>
      have hzero : b.length = 0 := Nat.eq_zero_of_not_pos hnone
      have hnil : d.pending = [] := List.length_eq_zero_iff.mp (h.length_eq ▸ hzero)
      refine ⟨b, hzero, ?_⟩
      rw [hnil, List.nil_append]
  obtain ⟨cleared, hcleared, hdecode⟩ := hloop
  obtain ⟨b', hb', hpending⟩ := exists_loop_eq hcleared ⟨d.pending ++ chunk, out, 0⟩
  refine ⟨b', ?_, next?_tail _, hpending⟩
  rw [hdecode, hb', Nat.zero_add]
  rfl

theorem finish : b.finish.1 = d.finish.1 ∧ b.finish.2.Agrees d.finish.2 :=
  ⟨h.hasPending_eq, rfl, pending?_of_length_eq_zero rfl⟩

end Agrees

end Buffer

/-! ## Calls in order -/

/-- A call of a decoder. -/
inductive DecoderOperation where
  /-- Decodes a chunk and appends its text. -/
  | decode (chunk : List UInt8) (out : String)
  | finish
deriving Repr, DecidableEq, Inhabited

/-- What a call answers. -/
inductive DecoderAnswer where
  | decoded (out : String) (invalid : Nat)
  | finished (truncated : Bool)
deriving Repr, DecidableEq, Inhabited

/-- Performs an operation. -/
def Decoder.perform (d : Decoder) : DecoderOperation → DecoderAnswer × Decoder
  | .decode chunk out =>
    let (segments, d) := d.decode chunk
    (.decoded (out ++ textOf segments) (invalidCount segments), d)
  | .finish =>
    let (truncated, d) := d.finish
    (.finished truncated, d)

/-- Performs operations in order. -/
def Decoder.performAll (d : Decoder) : List DecoderOperation → List DecoderAnswer × Decoder
  | [] => ([], d)
  | op :: ops =>
    let (answer, d) := d.perform op
    let (answers, d) := d.performAll ops
    (answer :: answers, d)

namespace Buffer

/-- Performs an operation in memory. -/
def perform (b : Buffer) : DecoderOperation → Option (DecoderAnswer × Buffer)
  | .decode chunk out => do
    let (out, invalid, b) ← b.decode chunk out
    return (.decoded out invalid, b)
  | .finish =>
    let (truncated, b) := b.finish
    some (.finished truncated, b)

/-- Performs operations in order. -/
def performAll (b : Buffer) : List DecoderOperation → Option (List DecoderAnswer × Buffer)
  | [] => some ([], b)
  | op :: ops => do
    let (answer, b) ← b.perform op
    let (answers, b) ← b.performAll ops
    return (answer :: answers, b)

theorem Agrees.exists_perform_eq {b : Buffer} {d : Decoder} (h : b.Agrees d)
    (op : DecoderOperation) :
    ∃ b', b.perform op = some ((d.perform op).1, b') ∧ b'.Agrees (d.perform op).2 := by
  cases op with
  | decode chunk out =>
    obtain ⟨b', hdecode, hagrees⟩ := h.exists_decode_eq chunk out
    exact ⟨b', by simp [perform, hdecode, Decoder.perform], hagrees⟩
  | finish =>
    obtain ⟨htruncated, hagrees⟩ := h.finish
    exact ⟨b.finish.2, by simp [perform, htruncated, Decoder.perform], hagrees⟩

theorem Agrees.exists_performAll_eq {b : Buffer} {d : Decoder} (h : b.Agrees d)
    (ops : List DecoderOperation) :
    ∃ b', b.performAll ops = some ((d.performAll ops).1, b') ∧
      b'.Agrees (d.performAll ops).2 := by
  induction ops generalizing b d with
  | nil => exact ⟨b, rfl, h⟩
  | cons op ops ih =>
    obtain ⟨b₁, hperform, h₁⟩ := h.exists_perform_eq op
    obtain ⟨b₂, hperformAll, h₂⟩ := ih h₁
    exact ⟨b₂, by simp [performAll, hperform, hperformAll, Decoder.performAll], h₂⟩

end Buffer

/-- A round that replaces something takes at least one byte, so the rounds come to an end.  Whatever
calls are made of a new decoder, each of them returns in memory with the right answer, and no access
leaves its bounds.  Three bytes at the most are held back.  If there are any, they begin the
encoding of some character but are not all of it, and the first of them tells the length of every
such encoding. -/
theorem performAll_in_bounds (ops : List DecoderOperation) :
    let answers := (Decoder.empty.performAll ops).1
    let d := (Decoder.empty.performAll ops).2
    (∀ b, WellFounded (fun q p => round b p = some (.again q)) ∧
        ∀ p q, round b p = some (.again q) → q.input.length < p.input.length) ∧
      (∃ b, Buffer.empty.performAll ops = some (answers, b) ∧ b.pending? = some d.pending ∧
        b.hasPending = d.hasPending ∧ b.length ≤ 3) ∧
      (d.hasPending → ∃ lead rest k, d.pending = lead :: rest ∧ sequenceLength lead = some k ∧
        d.pending.length < k ∧
        (∃ c, d.pending <+: utf8EncodeChar c ∧ d.pending ≠ utf8EncodeChar c) ∧
        ∀ c, d.pending <+: utf8EncodeChar c → (utf8EncodeChar c).length = k) := by
  intro answers d
  obtain ⟨b, hperform, hagrees⟩ := Buffer.agrees_empty.exists_performAll_eq ops
  have hopen : next? d.pending = none := hagrees.isOpen
  refine ⟨fun b => ⟨wellFounded_again b, fun p q => length_lt_of_round⟩,
    ⟨b, hperform, hagrees.pending_eq, hagrees.hasPending_eq, ?_⟩, ?_⟩
  · rw [hagrees.length_eq]
    exact length_le_three_of_open hopen
  · intro hpending
    have hne : d.pending ≠ [] := by simpa [Decoder.hasPending] using hpending
    obtain ⟨lead, rest, hcons⟩ := List.exists_cons_of_ne_nil hne
    obtain ⟨c, hc⟩ := ((next?_eq_none_iff _).1 hopen).1
    have hlength (c' : Char) (hc' : d.pending <+: utf8EncodeChar c') :
        sequenceLength lead = some (utf8EncodeChar c').length := by
      apply sequenceLength_of_isPrefix
      rwa [← hcons]
    have hlt := length_lt_of_open hopen hc
    refine ⟨lead, rest, (utf8EncodeChar c).length, hcons, hlength c hc, hlt, ⟨c, hc, ?_⟩, ?_⟩
    · intro heq
      exact Nat.ne_of_lt hlt (congrArg List.length heq)
    · intro c' hc'
      exact Option.some_inj.mp ((hlength c' hc').symm.trans (hlength c hc))

end StyleScan.Utf8
