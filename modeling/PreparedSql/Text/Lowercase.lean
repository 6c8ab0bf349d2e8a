import PreparedSql.Text.Casing

/-!
# Lowercasing

Names are compared without regard to case, so they are stored in lower case.
The mapping is the full one of Unicode: most characters have a lower case of
their own, a dotted capital I becomes two characters, and a capital sigma
becomes a final sigma at the end of a word.
-/

namespace PreparedSql.Text

/-- Membership of a character in one of the ranges of a table. -/
def inRanges (ranges : List (Nat × Nat)) (c : Char) : Bool :=
  ranges.any fun (first, last) => first ≤ c.toNat && c.toNat ≤ last

def isCased (c : Char) : Bool := inRanges casedRanges c

def isCaseIgnorable (c : Char) : Bool := inRanges caseIgnorableRanges c

/-- A run covers the characters at whole strides from its first one. -/
def CaseRun.covers (run : CaseRun) (n : Nat) : Bool :=
  run.first ≤ n && n ≤ run.last && (n - run.first) % run.stride == 0

/-- The lower case of a character, out of context. -/
def lowerChar (c : Char) : Char :=
  if c.toNat < 128 then c.toLower
  else match lowerRuns.find? (·.covers c.toNat) with
    | some run => Char.ofNat (c.toNat + run.offset).toNat
    | none => c

/-- Whether the first character that is not skipped is a cased one. -/
def startsCased (cs : List Char) : Bool :=
  match cs.dropWhile isCaseIgnorable with
  | [] => false
  | c :: _ => isCased c

/-- Lowercases `cs`, where `before` holds what precedes it, nearest first. A
capital sigma is final when a cased letter precedes it and none follows. -/
def lowerAfter (before : List Char) : List Char → List Char
  | [] => []
  | c :: rest =>
    let lowered :=
      if c == 'Σ' then
        if startsCased before && !startsCased rest then ['ς'] else ['σ']
      else if c == 'İ' then ['i', '\u0307']
      else [lowerChar c]
    lowered ++ lowerAfter (c :: before) rest

/-- The lower case of a text. -/
def lower (s : String) : String := String.ofList (lowerAfter [] s.toList)

/-- In the ASCII range, lowercasing is core's. -/
theorem lowerChar_of_lt {c : Char} (h : c.toNat < 128) : lowerChar c = c.toLower := by
  simp [lowerChar, h]

end PreparedSql.Text
