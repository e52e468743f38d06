namespace FragmentSynthesis.LiteralEscape

/-- The letter that stands for a character after a backslash. -/
def letter? (c : Char) : Option Char :=
  if c = '\\' then some '\\'
  else if c = '\n' then some 'n'
  else if c = '\t' then some 't'
  else if c = '\r' then some 'r'
  else if c = '\x08' then some 'b'
  else if c = '\x0c' then some 'f'
  else none

/-- A character as it stands in a literal, with a backslash before the quote and the letter of a
character that has one. -/
def escapeChar (quote c : Char) : List Char :=
  if c = quote then ['\\', c]
  else
    match letter? c with
    | some l => ['\\', l]
    | none => [c]

/-- A text with each character escaped for a literal. -/
def escape (quote : Char) (cs : List Char) : List Char :=
  cs.flatMap (escapeChar quote)

@[simp] theorem escape_nil (quote : Char) : escape quote [] = [] := rfl

@[simp] theorem escape_cons (quote c : Char) (cs : List Char) :
    escape quote (c :: cs) = escapeChar quote c ++ escape quote cs := rfl

/-- A literal between quotes of one sort. -/
def delimited (quote : Char) (text : String) : String :=
  String.ofList (quote :: escape quote text.toList ++ [quote])

end FragmentSynthesis.LiteralEscape
