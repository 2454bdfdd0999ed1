import CallMetrics.Json.Literal

/-! Lexemes of TOML: blanks and comments, quoted texts, keys, and scalars without quotes. -/

namespace CallMetrics.Toml

def isBlankChar (c : Char) : Bool := c == ' ' || c == '\t'

def skipBlanks (cs : List Char) : List Char := cs.dropWhile isBlankChar

/-- Characters that may stand in comments and on one line of a quoted text. -/
def isLineChar (c : Char) : Bool := (32 ≤ c.toNat && c.toNat != 127) || c == '\t'

def lineEnd? : List Char → Option (List Char)
  | '\n' :: rest => some rest
  | '\r' :: '\n' :: rest => some rest
  | _ => none

/-- Skips blanks and a comment; stands at the end of the line after it. -/
def skipComment (cs : List Char) : List Char :=
  match skipBlanks cs with
  | '#' :: rest => rest.dropWhile isLineChar
  | rest => rest

/-- The rest of the text after what may follow a statement on its line. -/
def finishLine? (cs : List Char) : Option (List Char) :=
  match skipComment cs with
  | [] => some []
  | rest => lineEnd? rest

/-- Skips blanks, comments and line ends. The fuel bounds the number of lines. -/
def skipLines : Nat → List Char → List Char
  | 0, cs => cs
  | fuel + 1, cs =>
    match lineEnd? (skipComment cs) with
    | some rest => skipLines fuel rest
    | none => skipBlanks cs

def cons (c : Char) : List Char × List Char → List Char × List Char
  | (text, rest) => (c :: text, rest)

def scalar? (n : Nat) : Option Char := if n.isValidChar then some (Char.ofNat n) else none

def scalar2? (a b : Char) : Option Char := (Json.hexValue4? '0' '0' a b).bind scalar?

def scalar4? (a b c d : Char) : Option Char := (Json.hexValue4? a b c d).bind scalar?

def scalar8? (a b c d e f g h : Char) : Option Char := do
  let high ← Json.hexValue4? a b c d
  let low ← Json.hexValue4? e f g h
  scalar? (high * 65536 + low)

def unescape? (c : Char) : Option Char :=
  if c = '"' ∨ c = '\\' then some c
  else if c = 'b' then some (Char.ofNat 8)
  else if c = 'e' then some (Char.ofNat 27)
  else if c = 'f' then some (Char.ofNat 12)
  else if c = 'n' then some '\n'
  else if c = 'r' then some '\r'
  else if c = 't' then some '\t'
  else none

def readBasic : List Char → Option (List Char × List Char)
  | [] => none
  | '"' :: rest => some ([], rest)
  | '\\' :: 'x' :: a :: b :: rest =>
    match scalar2? a b with
    | none => none
    | some x => (readBasic rest).map (cons x)
  | '\\' :: 'u' :: a :: b :: c :: d :: rest =>
    match scalar4? a b c d with
    | none => none
    | some x => (readBasic rest).map (cons x)
  | '\\' :: 'U' :: a :: b :: c :: d :: e :: f :: g :: h :: rest =>
    match scalar8? a b c d e f g h with
    | none => none
    | some x => (readBasic rest).map (cons x)
  | '\\' :: c :: rest =>
    match unescape? c with
    | none => none
    | some x => (readBasic rest).map (cons x)
  | c :: rest => if isLineChar c && c != '\\' then (readBasic rest).map (cons c) else none

def readPlain : List Char → Option (List Char × List Char)
  | [] => none
  | '\x27' :: rest => some ([], rest)
  | c :: rest => if isLineChar c then (readPlain rest).map (cons c) else none

def endsLine (cs : List Char) : Bool := (lineEnd? (skipBlanks cs)).isSome

/-- Reads up to the closing triple of basic quotes; up to two quotes may stand right before it.
After a backslash at the end of a line, blanks and line ends are skipped. -/
def readMultiBasic : Bool → List Char → Option (List Char × List Char)
  | _, [] => none
  | _, '"' :: '"' :: '"' :: '"' :: '"' :: rest => some (['"', '"'], rest)
  | _, '"' :: '"' :: '"' :: '"' :: rest => some (['"'], rest)
  | _, '"' :: '"' :: '"' :: rest => some ([], rest)
  | _, '\\' :: 'x' :: a :: b :: rest =>
    match scalar2? a b with
    | none => none
    | some x => (readMultiBasic false rest).map (cons x)
  | _, '\\' :: 'u' :: a :: b :: c :: d :: rest =>
    match scalar4? a b c d with
    | none => none
    | some x => (readMultiBasic false rest).map (cons x)
  | _, '\\' :: 'U' :: a :: b :: c :: d :: e :: f :: g :: h :: rest =>
    match scalar8? a b c d e f g h with
    | none => none
    | some x => (readMultiBasic false rest).map (cons x)
  | _, '\\' :: c :: rest =>
    match unescape? c with
    | some x => (readMultiBasic false rest).map (cons x)
    | none => if endsLine (c :: rest) then readMultiBasic true (c :: rest) else none
  | skipping, '\r' :: '\n' :: rest =>
    if skipping then readMultiBasic true rest
    else (readMultiBasic false rest).map fun p => cons '\r' (cons '\n' p)
  | skipping, c :: rest =>
    if skipping && (isBlankChar c || c == '\n') then readMultiBasic true rest
    else if (isLineChar c || c == '\n') && c != '\\' then (readMultiBasic false rest).map (cons c)
    else none

def readMultiPlain : List Char → Option (List Char × List Char)
  | [] => none
  | '\x27' :: '\x27' :: '\x27' :: '\x27' :: '\x27' :: rest => some (['\x27', '\x27'], rest)
  | '\x27' :: '\x27' :: '\x27' :: '\x27' :: rest => some (['\x27'], rest)
  | '\x27' :: '\x27' :: '\x27' :: rest => some ([], rest)
  | '\r' :: '\n' :: rest => (readMultiPlain rest).map fun p => cons '\r' (cons '\n' p)
  | c :: rest => if isLineChar c || c == '\n' then (readMultiPlain rest).map (cons c) else none

/-- A line end right after opening triple quotes is not part of the text. -/
def skipFirstLineEnd (cs : List Char) : List Char := (lineEnd? cs).getD cs

def readText : List Char → Option (List Char × List Char)
  | '"' :: '"' :: '"' :: rest => readMultiBasic false (skipFirstLineEnd rest)
  | '"' :: rest => readBasic rest
  | '\x27' :: '\x27' :: '\x27' :: rest => readMultiPlain (skipFirstLineEnd rest)
  | '\x27' :: rest => readPlain rest
  | _ => none

def isBareKeyChar (c : Char) : Bool := c.isAlphanum || c == '_' || c == '-'

def readKeyPart (cs : List Char) : Option (String × List Char) :=
  match cs with
  | '"' :: rest => (readBasic rest).map fun (text, rest) => (String.ofList text, rest)
  | '\x27' :: rest => (readPlain rest).map fun (text, rest) => (String.ofList text, rest)
  | _ =>
    let name := cs.takeWhile isBareKeyChar
    if name = [] then none else some (String.ofList name, cs.dropWhile isBareKeyChar)

/-- Reads a key of so many parts at most: dots stand between the parts, blanks around each. -/
def readParts : Nat → List Char → Option (List String × List Char)
  | 0, _ => none
  | most + 1, cs =>
    match readKeyPart (skipBlanks cs) with
    | none => none
    | some (part, rest) =>
      match skipBlanks rest with
      | '.' :: rest => (readParts most rest).map fun (parts, rest) => (part :: parts, rest)
      | rest => some ([part], rest)

def maxKeyParts : Nat := 80

def readKey (cs : List Char) : Option (List String × List Char) := readParts maxKeyParts cs

/-! Words: runs of characters without quotes around them. -/

/-- Whether a character may stand in a word. Quotes may, but not at its start. -/
def isWordChar (c : Char) : Bool :=
  c ∉ ['=', ',', '[', ']', '{', '}', '#', ' ', '\t', '\r', '\n']

/-- Whether a word begins here that blanks connect to the one before. -/
def continuesWord : List Char → Bool
  | c :: _ => isWordChar c && c ∉ ['.', '"', '\x27']
  | [] => false

/-- Splits off a scalar: words with blanks between them. The fuel bounds the number of words. -/
def splitScalar : Nat → List Char → List Char × List Char
  | 0, cs => ([], cs)
  | fuel + 1, cs =>
    let word := cs.takeWhile isWordChar
    let rest := cs.dropWhile isWordChar
    let more := skipBlanks rest
    if more ≠ rest ∧ continuesWord more then
      let (words, left) := splitScalar fuel more
      (word ++ rest.takeWhile isBlankChar ++ words, left)
    else (word, rest)

end CallMetrics.Toml
