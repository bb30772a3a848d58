import StyleScan.Tokenizer

/-! # Token streams

A token stream pulls tokens out of a sequence of text chunks.  A chunk is taken only when no token
is ready, and the input is finished once the chunks are used up. -/

namespace StyleScan

/-- A tokenizer with the chunks that it has not been given yet. -/
structure TokenStream where
  chunks : List String
  tokenizer : Tokenizer
  /-- An error has ended the stream. -/
  failed : Bool
deriving Repr, DecidableEq, Inhabited

namespace TokenStream

/-- The stream of the given chunks, continuing with `tokenizer`. -/
def withTokenizer (chunks : List String) (tokenizer : Tokenizer) : TokenStream :=
  ⟨chunks, tokenizer, false⟩

/-- The stream of the given chunks. -/
def new (chunks : List String) : TokenStream :=
  withTokenizer chunks .new

/-- The item after the end of the input has been handed to the tokenizer. -/
def afterFinish (reply : Reply) : Option (Except ScanError Token) × TokenStream :=
  match reply.error with
  | some e => (some (.error e), ⟨[], reply.tokenizer, true⟩)
  | none =>
    match reply.tokenizer.next with
    | (.token token, t) => (some (.ok token), ⟨[], t, false⟩)
    | (_, t) => (none, ⟨[], t, false⟩)

/-- Pulls until there is a token or the end, taking chunks as needed. -/
def advance (chunks : List String) (t : Tokenizer) :
    Option (Except ScanError Token) × TokenStream :=
  match t.next with
  | (.token token, t) => (some (.ok token), ⟨chunks, t, false⟩)
  | (.eof, t) => (none, ⟨chunks, t, false⟩)
  | (.incomplete, t) =>
    match chunks with
    | [] => afterFinish t.finish
    | chunk :: rest =>
      let reply := t.feed chunk
      match reply.error with
      | some e => (some (.error e), ⟨rest, reply.tokenizer, true⟩)
      | none => advance rest reply.tokenizer

/-- The next token, if there is one. -/
def next (s : TokenStream) : Option (Except ScanError Token) × TokenStream :=
  if s.failed then (none, s) else advance s.chunks s.tokenizer

end TokenStream

namespace Tokenizer

/-- Feeds chunks one after the other, up to the first that fails. -/
def feedAll (t : Tokenizer) : List String → Except ScanError Tokenizer
  | [] => .ok t
  | chunk :: rest =>
    let reply := t.feed chunk
    match reply.error with
    | some e => .error e
    | none => feedAll reply.tokenizer rest

/-- Ends the input and hands over every token that is ready then. -/
def close (t : Tokenizer) : Except ScanError (List Token) :=
  let reply := t.finish
  match reply.error with
  | some e => .error e
  | none => .ok reply.tokenizer.queue

end Tokenizer

/-- The tokens of a text that arrives in chunks. -/
def tokenizeChunks (chunks : List String) : Except ScanError (List Token) := do
  let t ← Tokenizer.new.feedAll chunks
  t.close

/-- The tokens of a complete text. -/
def tokenize (text : String) : Except ScanError (List Token) :=
  tokenizeChunks [text]

end StyleScan
