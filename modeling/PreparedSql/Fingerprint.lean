import PreparedSql.Text.Digest
import PreparedSql.Text.Hex

/-!
# Fingerprints

Prepared statements are kept under 64-bit fingerprints, ordered as numbers and
shown as sixteen hexadecimal digits.
-/

namespace PreparedSql

structure Fingerprint where
  bits : UInt64
deriving DecidableEq, Repr

namespace Fingerprint

/-- The fingerprint of a text that identifies a statement. -/
def ofText (s : String) : Fingerprint := ⟨Text.digest s⟩

def text (f : Fingerprint) : String := String.ofList (Text.hexDigits 'a' 16 f.bits.toNat)

def order (f g : Fingerprint) : Ordering := compare f.bits g.bits

end Fingerprint

end PreparedSql
