import PreparedSql.Literal
import PreparedSql.Proofs.Reading.Quoted

/-!
# Reading literals

A string literal is read back by the rules of the dialect it was written for, and the reader stops
at its closing quote. A gap here would let the content of a value be read as a part of the statement.

MySQL takes a backslash for the beginning of an escape: it keeps its own table of them, and a
backslash in front of any other character is dropped. In the other dialects a backslash is a
character like any other. The reader knows these rules from the dialect's name; what the writer
doubles is its own decision.

Bytes are written as pairs of capital hexadecimal digits, from which they are read back.
-/

namespace PreparedSql

/-- What a backslash makes of the character behind it. The two characters that stand for anything in
a pattern keep their backslash, so that patterns can be written. -/
def Literal.mysqlEscape : Char → List Char
  | '0' => ['\x00']
  | 'b' => ['\x08']
  | 'n' => ['\n']
  | 'r' => ['\r']
  | 't' => ['\t']
  | 'Z' => ['\x1a']
  | '%' => ['\\', '%']
  | '_' => ['\\', '_']
  | c => [c]

/-- The escapes of a dialect, if it has any. -/
def Dialect.escape? : Dialect → Option (Char → List Char)
  | .mysql => some Literal.mysqlEscape
  | .sqlite | .postgresql => none

namespace Text

/-- Capital hexadecimal digits. -/
def isCapitalHex (c : Char) : Bool := c.isDigit || ('A' ≤ c && c ≤ 'F')

/-- The value of a hexadecimal digit; capital and small letters are both read. -/
def hexValue? (c : Char) : Option Nat :=
  if c.isDigit then some (c.toNat - '0'.toNat)
  else if 'A' ≤ c ∧ c ≤ 'F' then some (c.toNat - 'A'.toNat + 10)
  else if 'a' ≤ c ∧ c ≤ 'f' then some (c.toNat - 'a'.toNat + 10)
  else none

/-- Reads bytes from pairs of digits, the more significant one first. -/
def readHex : List Char → Option (List UInt8)
  | [] => some []
  | [_] => none
  | high :: low :: rest =>
    match hexValue? high, hexValue? low with
    | some h, some l => (readHex rest).map (UInt8.ofNat (16 * h + l) :: ·)
    | _, _ => none

theorem hexDigit_mod (ten : Char) (n : Nat) : hexDigit ten (n % 16) = hexDigit ten n := by
  simp [hexDigit]

/-- A capital digit has the value that it was written for. -/
theorem hexDigit_capital (n : Nat) :
    hexValue? (hexDigit 'A' n) = some (n % 16) ∧ isCapitalHex (hexDigit 'A' n) = true := by
  have hall : ∀ d < 16, hexValue? (hexDigit 'A' d) = some d ∧
      isCapitalHex (hexDigit 'A' d) = true := by decide
  have hdigit := hall (n % 16) (Nat.mod_lt n (by decide))
  rwa [hexDigit_mod] at hdigit

theorem hexBytes_cons (byte : UInt8) (bytes : List UInt8) :
    hexBytes (byte :: bytes) =
      hexDigit 'A' (byte.toNat / 16) :: hexDigit 'A' byte.toNat :: hexBytes bytes := by
  simp [hexBytes, hexDigits]

theorem length_hexBytes (bytes : List UInt8) : (hexBytes bytes).length = 2 * bytes.length := by
  induction bytes with
  | nil => rfl
  | cons byte bytes ih =>
    rw [hexBytes_cons, List.length_cons, List.length_cons, List.length_cons, ih]
    omega

theorem isCapitalHex_of_mem_hexBytes {c : Char} {bytes : List UInt8} (h : c ∈ hexBytes bytes) :
    isCapitalHex c = true := by
  induction bytes with
  | nil => cases h
  | cons byte bytes ih =>
    rw [hexBytes_cons, List.mem_cons, List.mem_cons] at h
    rcases h with rfl | rfl | h
    · exact (hexDigit_capital _).2
    · exact (hexDigit_capital _).2
    · exact ih h

theorem readHex_hexBytes (bytes : List UInt8) : readHex (hexBytes bytes) = some bytes := by
  induction bytes with
  | nil => rfl
  | cons byte bytes ih =>
    have hbound : byte.toNat < 256 := byte.toNat_lt
    have hhigh : byte.toNat / 16 % 16 = byte.toNat / 16 := Nat.mod_eq_of_lt (by omega)
    have hbyte : 16 * (byte.toNat / 16) + byte.toNat % 16 = byte.toNat := Nat.div_add_mod _ _
    simp [hexBytes_cons, readHex, (hexDigit_capital _).1, hhigh, hbyte, ih]

end Text

namespace Literal

/-- What the writer doubles is what the reader does not take for itself. -/
theorem special_iff (d : Dialect) (c : Char) :
    special d c = true ↔ c = '\'' ∨ c = '\\' ∧ d.escape?.isSome = true := by
  cases d <;> simp [special, Dialect.escapesBackslash, Dialect.escape?]

theorem escape_backslash (d : Dialect) : ∀ value ∈ d.escape?, value '\\' = ['\\'] := by
  cases d <;> simp [Dialect.escape?, mysqlEscape]

theorem readQuoted_text (d : Dialect) (s : List Char) {rest : List Char}
    (hrest : rest.head? ≠ some '\'') :
    Text.readQuoted '\'' d.escape? (text d s ++ rest) = some (s, rest) :=
  Text.readQuoted_double (by decide) (special_iff d) (escape_backslash d) s hrest

/-- String and byte literals are written for every value and read back. A string literal ends where
it was meant to end, whatever follows but a quote. A literal of bytes has two capital digits for
each byte between what opens it and its closing quote. -/
theorem literals_read_back (d : Dialect) :
    (∀ (s : String) (rest : List Char), rest.head? ≠ some '\'' →
      ∃ w, (Value.text s).literal d = .ok w ∧
        Text.readQuoted '\'' d.escape? (w.toList ++ rest) = some (s.toList, rest)) ∧
    ∀ bytes : List UInt8,
      ∃ w digits, (Value.bytes bytes).literal d = .ok w ∧
        w.toList = (if d = .postgresql then "'\\x" else "X'").toList ++ digits ++ ['\''] ∧
        digits.length = 2 * bytes.length ∧ (∀ c ∈ digits, Text.isCapitalHex c = true) ∧
        Text.readHex digits = some bytes := by
  constructor
  · intro s rest hrest
    refine ⟨_, rfl, ?_⟩
    rw [String.toList_ofList]
    exact readQuoted_text d s.toList hrest
  · intro bytes
    refine ⟨_, Text.hexBytes bytes, rfl, ?_, Text.length_hexBytes bytes,
      fun c => Text.isCapitalHex_of_mem_hexBytes, Text.readHex_hexBytes bytes⟩
    rw [String.toList_ofList]
    cases d <;> rfl

/-- A text that ends in backslashes and quotes, before text that would close it too early if one of
them were read wrongly. -/
theorem literals_read_back_mixed :
    let s := "a\\'\\\\''"
    let rest := " OR 'x' = 'x".toList
    (∃ w, (Value.text s).literal .mysql = .ok w ∧ w = "'a\\\\''\\\\\\\\'''''" ∧
        Text.readQuoted '\'' Dialect.mysql.escape? (w.toList ++ rest) = some (s.toList, rest)) ∧
      ∃ w digits, (Value.bytes [0xde, 0x0a]).literal .postgresql = .ok w ∧
        w.toList = "'\\x".toList ++ digits ++ ['\''] ∧ digits = "DE0A".toList ∧
        Text.readHex digits = some [0xde, 0x0a] := by
  intro s rest
  have hmysql := literals_read_back .mysql
  have hpostgresql := literals_read_back .postgresql
  obtain ⟨w, hw, hread⟩ := hmysql.1 s rest (by decide)
  refine ⟨⟨w, hw, ?_, hread⟩, ?_⟩
  · cases hw
    decide +kernel
  · obtain ⟨w, digits, hw, htext, -, -, hdigits⟩ := hpostgresql.2 [0xde, 0x0a]
    refine ⟨w, digits, hw, htext, ?_, hdigits⟩
    cases hw
    have hquoted : digits ++ ['\''] = "DE0A".toList ++ ['\''] := by
      simpa [bytes, bytesOpening, Text.hexBytes, Text.hexDigits, Text.hexDigit] using htext.symm
    exact List.append_cancel_right hquoted

end Literal

end PreparedSql
