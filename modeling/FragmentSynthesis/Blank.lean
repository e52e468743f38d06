namespace FragmentSynthesis.Blank

/-- Spaces, line and paragraph separators of every script, and the control characters that
separate lines and pages. -/
def isWhiteSpace (c : Char) : Bool :=
  let n := c.toNat
  (9 ≤ n && n ≤ 13) || n == 32 || n == 0x85 || n == 0xA0 || n == 0x1680 ||
    (0x2000 ≤ n && n ≤ 0x200A) || n == 0x2028 || n == 0x2029 || n == 0x202F || n == 0x205F ||
    n == 0x3000

/-- White space, and the control characters that separate files, groups, records and units. -/
def isBlank (c : Char) : Bool :=
  isWhiteSpace c || (28 ≤ c.toNat && c.toNat ≤ 31)

/-- Leaves out what the end of a list has of some characters. -/
def dropEnd (p : Char → Bool) (cs : List Char) : List Char :=
  (cs.reverse.dropWhile p).reverse

/-- Leaves out what both ends of a text have of some characters. -/
def dropEnds (p : Char → Bool) (text : String) : String :=
  String.ofList (dropEnd p (text.toList.dropWhile p))

/-- The text between the blanks at its two ends. -/
def trim (text : String) : String :=
  dropEnds isBlank text

/-- The text between the white space at its two ends. -/
def trimWhiteSpace (text : String) : String :=
  dropEnds isWhiteSpace text

def trimEndLines (text : String) : String :=
  String.ofList (dropEnd (· == '\n') text.toList)

end FragmentSynthesis.Blank
