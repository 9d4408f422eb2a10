namespace DocTemplate

/-- The entity that stands for a reserved character. -/
def escapeChar : Char → List Char
  | '&' => ['&', 'a', 'm', 'p', ';']
  | '<' => ['&', 'l', 't', ';']
  | '>' => ['&', 'g', 't', ';']
  | '"' => ['&', 'q', 'u', 'o', 't', ';']
  | '\x27' => ['&', 'a', 'p', 'o', 's', ';']
  | c => [c]

def escape (cs : List Char) : List Char := cs.flatMap escapeChar

def escapeText (text : String) : String := String.ofList (escape text.toList)

@[simp]
theorem escape_nil : escape [] = [] := rfl

@[simp]
theorem escape_append (cs ds : List Char) : escape (cs ++ ds) = escape cs ++ escape ds :=
  List.flatMap_append

end DocTemplate
