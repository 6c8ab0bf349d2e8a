/-!
# Text digests

A keyed 64-bit hash of a byte stream (SipHash with one compression round and
three finalization rounds, under the all-zero key). Texts are hashed as their
UTF-8 bytes and an end mark, so that no text is a continuation of another.
-/

namespace PreparedSql.Text

/-- The four words of hash state. -/
structure DigestState where
  v0 : UInt64
  v1 : UInt64
  v2 : UInt64
  v3 : UInt64

namespace DigestState

def initial : DigestState :=
  ⟨0x736f6d6570736575, 0x646f72616e646f6d, 0x6c7967656e657261, 0x7465646279746573⟩

def rotateLeft (x n : UInt64) : UInt64 := (x <<< n) ||| (x >>> (64 - n))

/-- One mixing round. -/
def round (s : DigestState) : DigestState :=
  let v0 := s.v0 + s.v1
  let v1 := rotateLeft s.v1 13 ^^^ v0
  let v0 := rotateLeft v0 32
  let v2 := s.v2 + s.v3
  let v3 := rotateLeft s.v3 16 ^^^ v2
  let v0 := v0 + v3
  let v3 := rotateLeft v3 21 ^^^ v0
  let v2 := v2 + v1
  let v1 := rotateLeft v1 17 ^^^ v2
  ⟨v0, v1, rotateLeft v2 32, v3⟩

/-- Takes in one word. -/
def absorb (s : DigestState) (word : UInt64) : DigestState :=
  let mixed := round { s with v3 := s.v3 ^^^ word }
  { mixed with v0 := mixed.v0 ^^^ word }

def finish (s : DigestState) : UInt64 :=
  let s := round (round (round { s with v2 := s.v2 ^^^ 0xff }))
  s.v0 ^^^ s.v1 ^^^ s.v2 ^^^ s.v3

end DigestState

/-- The number whose base-256 digits are `bytes`, least significant first. -/
def littleEndian : List UInt8 → UInt64
  | [] => 0
  | b :: rest => b.toUInt64 ||| (littleEndian rest <<< 8)

/-- Takes in the bytes eight at a time; the last word holds what is left over
and, in its top byte, the length of the whole. -/
def digestBytes (length : UInt64) (s : DigestState) : List UInt8 → UInt64
  | a :: b :: c :: d :: e :: f :: g :: h :: rest =>
    digestBytes length (s.absorb (littleEndian [a, b, c, d, e, f, g, h])) rest
  | rest => (s.absorb (littleEndian rest ||| (length <<< 56))).finish

/-- The digest of a text. -/
def digest (s : String) : UInt64 :=
  let bytes := s.toUTF8.toList ++ [0xff]
  digestBytes bytes.length.toUInt64 .initial bytes

end PreparedSql.Text
