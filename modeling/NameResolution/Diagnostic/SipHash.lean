/-!
# SipHash

The hash SipHash-1-3 under the zero key: one round for each word of the input and three at the end.
-/

namespace NameResolution

/-- The words a hash is computed in, at first those for the zero key. -/
structure SipState where
  v0 : UInt64 := 0x736f6d6570736575
  v1 : UInt64 := 0x646f72616e646f6d
  v2 : UInt64 := 0x6c7967656e657261
  v3 : UInt64 := 0x7465646279746573

namespace SipState

def rotate (x bits : UInt64) : UInt64 := (x <<< bits) ||| (x >>> (64 - bits))

def round (s : SipState) : SipState :=
  let v0 := s.v0 + s.v1
  let v1 := rotate s.v1 13 ^^^ v0
  let v0 := rotate v0 32
  let v2 := s.v2 + s.v3
  let v3 := rotate s.v3 16 ^^^ v2
  let v0 := v0 + v3
  let v3 := rotate v3 21 ^^^ v0
  let v2 := v2 + v1
  let v1 := rotate v1 17 ^^^ v2
  ⟨v0, v1, rotate v2 32, v3⟩

def absorb (s : SipState) (word : UInt64) : SipState :=
  let s := { s with v3 := s.v3 ^^^ word }.round
  { s with v0 := s.v0 ^^^ word }

/-- At most eight bytes as a word, the first one lowest. -/
def word (bytes : List UInt8) : UInt64 := bytes.foldr (fun b w => (w <<< 8) ||| b.toUInt64) 0

/-- Mixes in the bytes by words. The last word has what is left over, and in its highest byte the
length of the whole. -/
def absorbAll (length : UInt64) (s : SipState) : List UInt8 → SipState
  | a :: b :: c :: d :: e :: f :: g :: h :: rest =>
    absorbAll length (s.absorb (word [a, b, c, d, e, f, g, h])) rest
  | rest => s.absorb (word rest ||| (length <<< 56))

def finish (s : SipState) : UInt64 :=
  let s := { s with v2 := s.v2 ^^^ 0xff }.round.round.round
  s.v0 ^^^ s.v1 ^^^ s.v2 ^^^ s.v3

end SipState

/-- The hash of a text: of its bytes and one more that no text contains. -/
def sipHash (text : List Char) : UInt64 :=
  let bytes := text.flatMap String.utf8EncodeChar ++ [0xff]
  (SipState.absorbAll bytes.length.toUInt64 {} bytes).finish

/-- Different texts may have the same hash. -/
example : sipHash "not found: TptdCiVSFIj".toList = 0xb4842f89839d098f ∧
    sipHash "not found: 23SnYb66$_o".toList = 0xb4842f89839d098f := by
  decide +kernel

end NameResolution
