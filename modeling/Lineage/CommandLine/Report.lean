namespace Lineage.CommandLine

inductive Color where
  | green
  | yellow
  | cyan
  | white
deriving DecidableEq, Repr

def Color.code : Color → Char
  | .green => '2'
  | .yellow => '3'
  | .cyan => '6'
  | .white => '7'

structure Style where
  color : Option Color
  bold : Bool
deriving DecidableEq, Repr

structure Span where
  text : String
  style : Option Style := none

namespace Span

def success (text : String) : Span := ⟨text, some ⟨some .green, true⟩⟩

def warning (text : String) : Span := ⟨text, some ⟨some .yellow, true⟩⟩

def info (text : String) : Span := ⟨text, some ⟨some .cyan, false⟩⟩

def dim (text : String) : Span := ⟨text, some ⟨some .white, false⟩⟩

def bold (text : String) : Span := ⟨text, some ⟨none, true⟩⟩

def plain (text : String) : Span := ⟨text, none⟩

def newline : Span := plain "\n"

def control (code : String) : String := "\x1b[" ++ code ++ "m"

def render (colored : Bool) (s : Span) : String :=
  match colored, s.style with
  | true, some style =>
    control "0" ++ (if style.bold then control "1" else "") ++
      (match style.color with
        | some color => control (String.ofList ['3', color.code])
        | none => "") ++
      s.text ++ control "0"
  | _, _ => s.text

end Span

def render (colored : Bool) (report : List Span) : String :=
  String.join (report.map (·.render colored))

def indented (mark indent message : String) : String :=
  mark ++ ("\n" ++ indent).intercalate (message.splitOn "\n")

def failureText : List String → String
  | [] => ""
  | [message] => "Error: " ++ message ++ "\n"
  | [message, cause] =>
    "Error: " ++ message ++ "\n\nCaused by:\n" ++ indented "    " "    " cause ++ "\n"
  | message :: causes =>
    "Error: " ++ message ++ "\n\nCaused by:\n" ++
      String.join (causes.zipIdx.map fun (cause, index) =>
        let mark := "".pushn ' ' (5 - index.repr.length) ++ index.repr ++ ": "
        indented mark "       " cause ++ "\n")

end Lineage.CommandLine
