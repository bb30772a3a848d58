import StyleScan.Proofs.Utf8.Decoding

/-! # The bytes of a text

The encoding of a text is decoded without any replacement, and nothing of it is left over.  The same
holds of each part of it, whatever the part before it has left over. -/

namespace StyleScan.Utf8

open String (utf8EncodeChar)

/-- The bytes that encode characters. -/
def encode (cs : List Char) : List UInt8 :=
  cs.flatMap utf8EncodeChar

theorem encode_cons (c : Char) (cs : List Char) :
    encode (c :: cs) = utf8EncodeChar c ++ encode cs :=
  List.flatMap_cons

theorem toList_toUTF8 (s : String) : s.toUTF8.data.toList = encode s.toList := by
  have hs : s.toUTF8 = s.toList.utf8Encode := by
    rw [String.toUTF8_eq_toByteArray, ← String.toByteArray_ofList, String.ofList_toList]
  rw [hs, List.utf8Encode, List.data_toByteArray, encode]

/-- The segments of encoded characters are the characters. -/
theorem split_encode (cs : List Char) :
    split (encode cs) = (cs.map fun c => ⟨utf8EncodeChar c, some c⟩, []) := by
  induction cs with
  | nil => exact split_nil
  | cons c cs ih =>
    rw [encode_cons, split_of_some (next?_encode c _), ih]
    rfl

theorem settled_encode (cs : List Char) : settled (encode cs) = cs := by
  rw [settled, split_encode, List.map_map]
  exact List.map_id cs

/-- Encoded characters leave nothing over, so the bytes behind them are split for themselves. -/
theorem split_encode_append (cs : List Char) (rest : List UInt8) :
    split (encode cs ++ rest) = ((split (encode cs)).1 ++ (split rest).1, (split rest).2) := by
  rw [split_append, split_encode]
  rfl

theorem textOf_split_encode (cs : List Char) :
    textOf (split (encode cs)).1 = String.ofList cs :=
  congrArg String.ofList (settled_encode cs)

/-- Nothing is replaced in encoded characters. -/
theorem invalidCount_split_encode (cs : List Char) : invalidCount (split (encode cs)).1 = 0 := by
  rw [split_encode, invalidCount, List.countP_eq_zero]
  intro s hs
  obtain ⟨c, -, rfl⟩ := List.mem_map.mp hs
  simp [Segment.isInvalid]

/-- Nothing is replaced in a part of them that comes first. -/
theorem invalidCount_of_isPrefix {bytes : List UInt8} {cs : List Char} (h : bytes <+: encode cs) :
    invalidCount (split bytes).1 = 0 := by
  obtain ⟨more, hmore⟩ := h
  have hall := invalidCount_split_encode cs
  rw [← hmore, split_append, invalidCount_append] at hall
  omega

/-- Nor in the part after it, which is decoded behind the bytes that the first left over. -/
theorem invalidCount_decode {bytes chunk : List UInt8} {cs : List Char}
    (h : bytes ++ chunk <+: encode cs) :
    invalidCount (Decoder.decode ⟨(split bytes).2⟩ chunk).1 = 0 := by
  have hall := invalidCount_of_isPrefix h
  rw [split_append, invalidCount_append] at hall
  exact (Nat.add_eq_zero_iff.mp hall).2

end StyleScan.Utf8
