import SparsePattern.Image.Encoding
import SparsePattern.Stream.Sink
import SparsePattern.Stream.Source
import SparsePattern.Trouble

/-!
# Images on streams

Writing puts exactly the image of a pattern on a sink; reading takes exactly one image off a source,
so that several patterns can share a stream.
-/

namespace SparsePattern

/-- Writes the image of `p`. -/
def Sink.putPattern (s : Sink) (p : Pattern) : Sink × Option Trouble :=
  let (s, failure) := s.put p.toBytes
  (s, failure.map .io)

/-- Takes exactly `wanted` bytes off the source.  What it means that there are fewer is up to the
caller. -/
def Source.readExactly (s : Source) (wanted : Nat) (short : Defect) :
    Source × Except Trouble Bytes :=
  let haul := s.collect wanted
  match haul.failure with
  | some reason => (haul.source, .error (.io reason))
  | none =>
    if haul.bytes.length < wanted then (haul.source, .error (.fault (.malformed short)))
    else (haul.source, .ok haul.bytes)

/-- Takes one image off the source and decodes it: the header first, then as many bytes as that asks
for. -/
def Source.readPattern (s : Source) : Source × Except Trouble Pattern :=
  match s.readExactly Header.size .truncatedHeader with
  | (s, .error trouble) => (s, .error trouble)
  | (s, .ok head) =>
    match do let h ← Header.ofBytes head; h.imageSize with
    | .error fault => (s, .error (.fault fault))
    | .ok size =>
      match s.readExactly (size - Header.size) .truncatedImage with
      | (s, .error trouble) => (s, .error trouble)
      | (s, .ok body) => (s, (Pattern.ofBytes (head ++ body)).mapError .fault)

end SparsePattern
