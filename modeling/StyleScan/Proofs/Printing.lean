import StyleScan.Printer

/-! # Printed tokens

A destination takes the renderings of the tokens one after the other.  Tokens may be handed to it in
several lists: what matters is the tokens in order, up to the first that does not fit. -/

namespace StyleScan

/-- What tokens are written as, one after the other. -/
def Format.renderAll (format : Format) (ts : List Token) : String :=
  String.join (ts.map format.render)

@[simp] theorem Format.renderAll_nil (format : Format) : format.renderAll [] = "" := rfl

@[simp] theorem Format.renderAll_cons (format : Format) (t : Token) (ts : List Token) :
    format.renderAll (t :: ts) = format.render t ++ format.renderAll ts := by
  simp [renderAll]

namespace Printer

variable (p : Printer)

/-- More tokens are written after the first ones, unless one of those does not fit. -/
theorem writeAll_append (ts us : List Token) :
    p.writeAll (ts ++ us) =
      match p.writeAll ts with
      | (q, none) => q.writeAll us
      | (q, some e) => (q, some e) := by
  induction ts generalizing p with
  | nil => rfl
  | cons t ts ih =>
    rw [List.cons_append, writeAll, writeAll]
    cases p.write t with
    | ok q => exact ih q
    | error e => rfl

theorem write_of_unlimited (h : p.room = none) (t : Token) :
    p.write t =
      .ok { p with output := p.output ++ p.format.render t, written := p.written + 1 } := by
  simp [write, h]

/-- A destination that takes everything gets the renderings of all tokens and counts them. -/
theorem writeAll_of_unlimited (h : p.room = none) (ts : List Token) :
    p.writeAll ts =
      ({ p with
          output := p.output ++ p.format.renderAll ts
          written := p.written + ts.length }, none) := by
  induction ts generalizing p with
  | nil => simp [writeAll]
  | cons t ts ih =>
    let q : Printer :=
      { p with output := p.output ++ p.format.render t, written := p.written + 1 }
    calc
      p.writeAll (t :: ts) = q.writeAll ts := by rw [writeAll, p.write_of_unlimited h t]
      _ = ({ q with
              output := q.output ++ q.format.renderAll ts
              written := q.written + ts.length }, none) := ih q h
      _ = _ := by simp [q, String.append_assoc, Nat.add_assoc, Nat.add_comm 1]

end Printer

end StyleScan
