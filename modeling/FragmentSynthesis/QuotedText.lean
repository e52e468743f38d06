namespace FragmentSynthesis.QuotedText

/-- The hexadecimal digits of a number, with zeros in front up to a width. -/
def hexDigits (width n : Nat) : List Char :=
  let ds := Nat.toDigits 16 n
  List.replicate (width - ds.length) '0' ++ ds

/-- A character that is not printed as it is. -/
def isControl (c : Char) : Bool :=
  c.toNat < 32 || (127 ≤ c.toNat && c.toNat ≤ 160) || c.toNat == 173

/-- A character as it stands in quoted text. -/
def escapeChar (quote c : Char) : List Char :=
  if c = quote ∨ c = '\\' then ['\\', c]
  else if c = '\n' then ['\\', 'n']
  else if c = '\r' then ['\\', 'r']
  else if c = '\t' then ['\\', 't']
  else if isControl c then '\\' :: 'x' :: hexDigits 2 c.toNat
  else [c]

/-- Single quotes, unless the text has one of these and no double quote. -/
def quoteFor (text : String) : Char :=
  if text.contains '\'' && !text.contains '"' then '"' else '\''

/-- A text in quotes, as it is shown in maps. -/
def quoted (text : String) : String :=
  let quote := quoteFor text
  String.ofList (quote :: text.toList.flatMap (escapeChar quote) ++ [quote])

end FragmentSynthesis.QuotedText
