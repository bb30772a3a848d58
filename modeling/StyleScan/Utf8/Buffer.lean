import StyleScan.Utf8.Decoder

/-! # The decoder in memory

In memory, a decoder has room for four bytes, and it decodes in rounds.  A round checks the bytes
that are left, up to the first flaw.  An invalid sequence is replaced, and the next round begins
behind it; a sequence in the middle of which the bytes end is copied into the room.

Each access is checked against its bounds, and what has no result has left them.  The rounds come to
an end because each of them but the last one leaves fewer bytes (`length_lt_of_round`). -/

namespace StyleScan.Utf8

/-- The place where bytes stop being well-formed. -/
structure Flaw where
  /-- The number of bytes before it, which are well-formed. -/
  validUpTo : Nat
  /-- The number of bytes that are replaced as one, or none if the bytes end too soon. -/
  length? : Option Nat
deriving Repr, DecidableEq, Inhabited

/-- The text that bytes encode, or the first flaw in them. -/
def validate (bytes : List UInt8) : Except Flaw String :=
  match _ : next? bytes with
  | none => if bytes.isEmpty then .ok "" else .error ⟨0, none⟩
  | some (s, rest) =>
    match s.scalar with
    | none => .error ⟨0, some s.bytes.length⟩
    | some c =>
      match validate rest with
      | .ok text => .ok (String.singleton c ++ text)
      | .error flaw => .error { flaw with validUpTo := s.bytes.length + flaw.validUpTo }
termination_by bytes.length
decreasing_by exact length_lt_of_next? (by assumption)

/-- An invalid sequence is never empty. -/
theorem pos_of_validate {bytes : List UInt8} {flaw : Flaw} {bad : Nat}
    (h : validate bytes = .error flaw) (hbad : flaw.length? = some bad) : 0 < bad := by
  fun_induction validate bytes generalizing flaw with
  | case1 => cases h
  | case2 =>
    cases h
    cases hbad
  | case3 _ s rest hnext _ =>
    cases h
    cases hbad
    exact List.length_pos_iff.mpr (ne_nil_of_next? hnext)
  | case4 => cases h
  | case5 _ _ _ _ _ _ _ hrest ih =>
    cases h
    exact ih hrest hbad

/-- The bytes before a place and those from there on, unless the place is out of bounds. -/
def cut? (bytes : List UInt8) (place : Nat) : Option (List UInt8 × List UInt8) :=
  if place ≤ bytes.length then some (bytes.splitAt place) else none

theorem cut?_eq_some_iff {bytes front rest : List UInt8} {place : Nat} :
    cut? bytes place = some (front, rest) ↔ bytes = front ++ rest ∧ place = front.length := by
  unfold cut?
  split
  · next hle =>
    rw [Option.some_inj, List.splitAt_eq, Prod.mk.injEq]
    constructor
    · rintro ⟨rfl, rfl⟩
      exact ⟨(List.take_append_drop place bytes).symm, (List.length_take_of_le hle).symm⟩
    · rintro ⟨rfl, rfl⟩
      exact ⟨List.take_left, List.drop_left⟩
  · next hlt =>
    refine iff_of_false (by simp) ?_
    rintro ⟨rfl, rfl⟩
    exact hlt (by simp)

/-- Room for four bytes, of which the first ones are held back. -/
structure Buffer where
  room : Vector UInt8 4
  length : Nat
deriving Repr, DecidableEq, Inhabited

namespace Buffer

/-- Nothing is held back. -/
def empty : Buffer :=
  ⟨Vector.replicate 4 0, 0⟩

/-- Whether bytes are held back. -/
def hasPending (b : Buffer) : Bool :=
  0 < b.length

/-- The bytes that are held back, unless they are more than there is room for. -/
def pending? (b : Buffer) : Option (List UInt8) :=
  (cut? b.room.toList b.length).map Prod.fst

/-- Holds bytes back, unless they are more than there is room for. -/
def hold? (b : Buffer) (bytes : List UInt8) : Option Buffer :=
  if h : bytes.length ≤ 4 then
    some ⟨⟨(bytes ++ b.room.toList.drop bytes.length).toArray, by simp; omega⟩, bytes.length⟩
  else none

end Buffer

/-- Where a call stands between two rounds. -/
structure Stage where
  /-- The bytes that are left. -/
  input : List UInt8
  /-- The text that is appended to. -/
  out : String
  /-- The number of replacements up to now. -/
  invalid : Nat
deriving Repr, DecidableEq, Inhabited

/-- What a round comes to. -/
inductive Round where
  | again (p : Stage)
  | returned (out : String) (invalid : Nat) (b : Buffer)
deriving Repr, DecidableEq, Inhabited

/-- One round. -/
def round (b : Buffer) (p : Stage) : Option Round :=
  match validate p.input with
  | .ok text => some (.returned (p.out ++ text) p.invalid b)
  | .error flaw => do
    let (valid, rest) ← cut? p.input flaw.validUpTo
    let out :=
      match validate valid with
      | .ok text => p.out ++ text
      | .error _ => p.out
    match flaw.length? with
    | some bad =>
      let (_, input) ← cut? rest bad
      return .again ⟨input, out.push replacement, p.invalid + 1⟩
    | none =>
      let b ← b.hold? rest
      return .returned out p.invalid b

/-- A round that is not the last one leaves fewer bytes. -/
theorem length_lt_of_round {b : Buffer} {p q : Stage} (h : round b p = some (.again q)) :
    q.input.length < p.input.length := by
  unfold round at h
  split at h
  · cases h
  · next flaw hflaw =>
    obtain ⟨⟨valid, rest⟩, hcut, h⟩ := Option.bind_eq_some_iff.mp h
    obtain ⟨hinput, -⟩ := cut?_eq_some_iff.mp hcut
    dsimp only at h
    split at h
    · next bad hbad =>
      have hpos := pos_of_validate hflaw hbad
      obtain ⟨⟨taken, input⟩, hcut', h⟩ := Option.bind_eq_some_iff.mp h
      obtain ⟨hrest, htaken⟩ := cut?_eq_some_iff.mp hcut'
      cases h
      rw [hinput, hrest, List.length_append, List.length_append, ← htaken]
      dsimp only
      omega
    · obtain ⟨_, -, h⟩ := Option.bind_eq_some_iff.mp h
      cases h

/-- The rounds up to the one that returns. -/
def loop (b : Buffer) (p : Stage) : Option (String × Nat × Buffer) :=
  match _ : round b p with
  | none => none
  | some (.again q) => loop b q
  | some (.returned out invalid b) => some (out, invalid, b)
termination_by p.input.length
decreasing_by exact length_lt_of_round (by assumption)

namespace Buffer

/-- Decodes a chunk and appends its text to `out`.  Yields the number of replacements, too. -/
def decode (b : Buffer) (chunk : List UInt8) (out : String) : Option (String × Nat × Buffer) :=
  if 0 < b.length then do
    let pending ← b.pending?
    loop { b with length := 0 } ⟨pending ++ chunk, out, 0⟩
  else loop b ⟨chunk, out, 0⟩

/-- Drops what is held back and tells whether there was anything. -/
def finish (b : Buffer) : Bool × Buffer :=
  (b.hasPending, { b with length := 0 })

end Buffer

end StyleScan.Utf8
