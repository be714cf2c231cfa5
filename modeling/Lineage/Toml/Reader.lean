import Lineage.Json.Basic
import Lineage.Toml.Basic

namespace Lineage.Toml

def isSpace (c : Char) : Bool := c = ' ' || c = '\t'

def skipSpace (cs : List Char) : List Char := cs.dropWhile isSpace

def isControl (c : Char) : Bool := c != '\t' && (c.toNat < 0x20 || c.toNat = 0x7f)

def lineBreak? : List Char → Option (List Char)
  | '\n' :: rest => some rest
  | '\r' :: '\n' :: rest => some rest
  | _ => none

def skipComment : List Char → List Char
  | '#' :: rest => rest.dropWhile fun c => !isControl c
  | cs => cs

def skipLines : Nat → List Char → List Char
  | 0, cs => cs
  | fuel + 1, cs =>
    let rest := skipComment (skipSpace cs)
    match lineBreak? rest with
    | some rest => skipLines fuel rest
    | none => rest

def endOfLine? (cs : List Char) : Option (List Char) :=
  match skipComment (skipSpace cs) with
  | [] => some []
  | rest => lineBreak? rest

def hexValue? (digits : List Char) : Option Nat :=
  digits.foldlM (fun value c => do pure (value * 16 + (← Json.hexDigit? c))) 0

def charOfCode? (code : Nat) : Option Char :=
  if code.isValidChar then some (Char.ofNat code) else none

def escape? : List Char → Option (Char × List Char)
  | '"' :: rest => some ('"', rest)
  | '\\' :: rest => some ('\\', rest)
  | 'b' :: rest => some (Char.ofNat 8, rest)
  | 'f' :: rest => some (Char.ofNat 12, rest)
  | 'n' :: rest => some ('\n', rest)
  | 'r' :: rest => some ('\r', rest)
  | 't' :: rest => some ('\t', rest)
  | 'u' :: rest => escapeCode? 4 rest
  | 'U' :: rest => escapeCode? 8 rest
  | _ => none
where
  escapeCode? (digits : Nat) (cs : List Char) : Option (Char × List Char) :=
    if cs.length < digits then none
    else do
      let c ← charOfCode? (← hexValue? (cs.take digits))
      pure (c, cs.drop digits)

def scanBasic : Nat → List Char → Option (List Char × List Char)
  | 0, _ => none
  | fuel + 1, cs =>
    match cs with
    | [] => none
    | '"' :: rest => some ([], rest)
    | '\\' :: rest => do
      let (c, rest) ← escape? rest
      let (text, rest) ← scanBasic fuel rest
      pure (c :: text, rest)
    | c :: rest =>
      if isControl c then none
      else do
        let (text, rest) ← scanBasic fuel rest
        pure (c :: text, rest)

def scanLiteral : List Char → Option (List Char × List Char)
  | [] => none
  | '\'' :: rest => some ([], rest)
  | c :: rest =>
    if isControl c then none
    else do
      let (text, rest) ← scanLiteral rest
      pure (c :: text, rest)

def skipBreaks : Nat → List Char → List Char
  | 0, cs => cs
  | fuel + 1, cs =>
    match lineBreak? (skipSpace cs) with
    | some rest => skipBreaks fuel rest
    | none => skipSpace cs

def continuation? (cs : List Char) : Option (List Char) := do
  let rest ← lineBreak? (skipSpace cs)
  pure (skipBreaks rest.length rest)

/-- Three quotes end a text of many lines; up to two more before them belong to it. -/
def closing? (quote : Char) (cs : List Char) : Option (List Char × List Char) :=
  let quotes := cs.takeWhile (· = quote)
  if quotes.length < 3 then none
  else
    let inside := min 2 (quotes.length - 3)
    some (quotes.take inside, cs.drop (inside + 3))

def scanLong (quote : Char) : Nat → List Char → Option (List Char × List Char)
  | 0, _ => none
  | fuel + 1, cs =>
    match closing? quote cs with
    | some ended => some ended
    | none =>
      match lineBreak? cs, cs with
      | some rest, _ => do
        let (text, rest) ← scanLong quote fuel rest
        pure ('\n' :: text, rest)
      | none, [] => none
      | none, c :: rest =>
        if c = '\\' && quote = '"' then
          match continuation? rest with
          | some rest => scanLong quote fuel rest
          | none => do
            let (c, rest) ← escape? rest
            let (text, rest) ← scanLong quote fuel rest
            pure (c :: text, rest)
        else if isControl c then none
        else do
          let (text, rest) ← scanLong quote fuel rest
          pure (c :: text, rest)

def scanLongText (quote : Char) (cs : List Char) : Option (List Char × List Char) :=
  scanLong quote (cs.length + 1) ((lineBreak? cs).getD cs)

def isBareKey (c : Char) : Bool := c.isAlphanum || c = '_' || c = '-'

def scanKeyPart : List Char → Option (String × List Char)
  | '"' :: rest => do
    let (text, rest) ← scanBasic (rest.length + 1) rest
    pure (String.ofList text, rest)
  | '\'' :: rest => do
    let (text, rest) ← scanLiteral rest
    pure (String.ofList text, rest)
  | cs =>
    match cs.takeWhile isBareKey with
    | [] => none
    | bare => some (String.ofList bare, cs.dropWhile isBareKey)

def scanKey : Nat → List Char → Option (List String × List Char)
  | 0, _ => none
  | fuel + 1, cs => do
    let (part, rest) ← scanKeyPart (skipSpace cs)
    match skipSpace rest with
    | '.' :: rest =>
      let (parts, rest) ← scanKey fuel rest
      pure (part :: parts, rest)
    | rest => pure ([part], rest)

mutual

/-- The text, list or table in braces at the start of a text. No setting is a number, a truth value
    or a date, so these are refused here. -/
def scanValue : Nat → List Char → Option (Toml × List Char)
  | 0, _ => none
  | fuel + 1, cs =>
    match cs with
    | '"' :: '"' :: '"' :: rest => do
      let (text, rest) ← scanLongText '"' rest
      pure (.string (String.ofList text), rest)
    | '\'' :: '\'' :: '\'' :: rest => do
      let (text, rest) ← scanLongText '\'' rest
      pure (.string (String.ofList text), rest)
    | '"' :: rest => do
      let (text, rest) ← scanBasic (rest.length + 1) rest
      pure (.string (String.ofList text), rest)
    | '\'' :: rest => do
      let (text, rest) ← scanLiteral rest
      pure (.string (String.ofList text), rest)
    | '[' :: rest => do
      let (items, rest) ← scanItems fuel rest
      pure (.array items, rest)
    | '\x7b' :: rest =>
      match skipSpace rest with
      | '\x7d' :: rest => some (.inline [], rest)
      | rest => do
        let (entries, rest) ← scanEntries fuel rest
        pure (.inline entries, rest)
    | _ => none

def scanItems : Nat → List Char → Option (List Toml × List Char)
  | 0, _ => none
  | fuel + 1, cs =>
    match skipLines cs.length cs with
    | ']' :: rest => some ([], rest)
    | rest => do
      let (item, rest) ← scanValue fuel rest
      match skipLines rest.length rest with
      | ',' :: rest =>
        let (items, rest) ← scanItems fuel rest
        pure (item :: items, rest)
      | ']' :: rest => pure ([item], rest)
      | _ => none

/-- The entries of a table in braces, on one line and each key once. A dotted key would put a table
    where a setting has none, so it is refused. -/
def scanEntries : Nat → List Char → Option (List (String × Toml) × List Char)
  | 0, _ => none
  | fuel + 1, cs => do
    let (key, rest) ← scanKeyPart (skipSpace cs)
    match skipSpace rest with
    | '=' :: rest =>
      let (value, rest) ← scanValue fuel (skipSpace rest)
      match skipSpace rest with
      | ',' :: rest =>
        let (entries, rest) ← scanEntries fuel rest
        if (entries.lookup key).isSome then none else pure ((key, value) :: entries, rest)
      | '\x7d' :: rest => pure ([(key, value)], rest)
      | _ => none
    | _ => none

end

inductive Line where
  | entry (path : List String) (value : Toml)
  | header (path : List String)

def scanLine (cs : List Char) : Option (Line × List Char) :=
  match cs with
  | '[' :: '[' :: _ => none
  | '[' :: rest => do
    let (path, rest) ← scanKey rest.length rest
    match rest with
    | ']' :: rest => pure (.header path, ← endOfLine? rest)
    | _ => none
  | cs => do
    let (path, rest) ← scanKey cs.length cs
    match rest with
    | '=' :: rest =>
      let (value, rest) ← scanValue (2 * rest.length + 2) (skipSpace rest)
      pure (.entry path value, ← endOfLine? rest)
    | _ => none

def scanDocument : Nat → List Char → Option (List Line)
  | 0, _ => none
  | fuel + 1, cs =>
    match skipLines cs.length cs with
    | [] => some []
    | rest => do
      let (line, rest) ← scanLine rest
      let lines ← scanDocument fuel rest
      pure (line :: lines)

def build (document : TomlTable) (here : List String) : List Line → Option TomlTable
  | [] => some document
  | .header path :: rest => do
    let document ← document.openAt path
    build document path rest
  | .entry path value :: rest => do
    let document ← document.update .implied (fun _ => true) (TomlTable.assign path value) here
    build document here rest

def read? (text : String) : Option TomlTable := do
  let cs := match text.toList with
    | '\ufeff' :: rest => rest
    | cs => cs
  let lines ← scanDocument (cs.length + 1) cs
  build (.empty .opened) [] lines

end Lineage.Toml
