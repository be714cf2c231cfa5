import Lineage.CommandLine.Help
import Lineage.Scan.Strategy
import Lineage.Text.Cut

namespace Lineage.CommandLine

structure Options where
  config : Option String
  verbose : Bool
  color : Option String

inductive Command where
  | scan (model element : String) (strategy : Strategy)
  | attributes (model kind : String)
  | knownEmpty (model element : String) (strategy : Strategy)

inductive Request where
  | run (options : Options) (command : Command)
  | version
  | help (topic : Option Subcommand)
  /-- The arguments do not fit the usage. -/
  | misuse

inductive Argument where
  | long (name : String) (value : Option String)
  | shorts (letters : List Char)
  /-- Two hyphens: everything after them is plain. -/
  | divider
  | plain (text : String)

def Argument.ofText (text : String) : Argument :=
  match text.toList with
  | ['-', '-'] => .divider
  | '-' :: '-' :: rest =>
    match Text.cut '=' rest with
    | some (name, value) => .long (String.ofList name) (some (String.ofList value))
    | none => .long (String.ofList rest) none
  | '-' :: letter :: letters => .shorts (letter :: letters)
  | _ => .plain text

structure Given where
  config : Option String := none
  verbose : Bool := false
  color : Option String := none
  strategy : Option Strategy := none
  plain : List String := []

inductive Setting where
  | config
  | color
  | strategy
deriving DecidableEq, Repr

inductive Switch where
  | verbose
  | help
  | version
deriving DecidableEq, Repr

def Setting.ofLong? (sub : Option Subcommand) : String → Option Setting
  | "config" => some .config
  | "color" => some .color
  | "strategy" => if sub.any (·.hasStrategy) then some .strategy else none
  | _ => none

def Setting.ofShort? (sub : Option Subcommand) : Char → Option Setting
  | 's' => if sub.any (·.hasStrategy) then some .strategy else none
  | _ => none

def Switch.ofLong? (sub : Option Subcommand) : String → Option Switch
  | "verbose" => some .verbose
  | "help" => some .help
  | "version" => if sub.isNone then some .version else none
  | _ => none

def Switch.ofShort? (sub : Option Subcommand) : Char → Option Switch
  | 'v' => some .verbose
  | 'h' => some .help
  | 'V' => if sub.isNone then some .version else none
  | _ => none

abbrev Reading := Except Request

namespace Given

def set (g : Given) : Setting → String → Reading Given
  | .config, value =>
    if g.config.isSome || value.isEmpty then .error .misuse
    else .ok { g with config := some value }
  | .color, value =>
    if g.color.isSome then .error .misuse else .ok { g with color := some value }
  | .strategy, value =>
    match g.strategy, Strategy.ofName? value with
    | none, some strategy => .ok { g with strategy := some strategy }
    | _, _ => .error .misuse

def turnOn (g : Given) (sub : Option Subcommand) : Switch → Reading Given
  | .verbose => if g.verbose then .error .misuse else .ok { g with verbose := true }
  | .help => .error (.help sub)
  | .version => .error .version

def letters (g : Given) (sub : Option Subcommand) : List Char → Reading (Given × Option Setting)
  | [] => .ok (g, none)
  | letter :: rest =>
    match Setting.ofShort? sub letter with
    | some setting =>
      match rest with
      | [] => .ok (g, some setting)
      | '=' :: value => do
        let g ← g.set setting (String.ofList value)
        pure (g, none)
      | value => do
        let g ← g.set setting (String.ofList value)
        pure (g, none)
    | none =>
      match Switch.ofShort? sub letter with
      | some switch => do
        let g ← g.turnOn sub switch
        g.letters sub rest
      | none => .error .misuse

def long (g : Given) (sub : Option Subcommand) (name : String) (value : Option String) :
    Reading (Given × Option Setting) :=
  match Setting.ofLong? sub name, value with
  | some setting, some value => do
    let g ← g.set setting value
    pure (g, none)
  | some setting, none => .ok (g, some setting)
  | none, some _ => .error .misuse
  | none, none =>
    match Switch.ofLong? sub name with
    | some switch => do
      let g ← g.turnOn sub switch
      pure (g, none)
    | none => .error .misuse

def push (g : Given) (text : String) : Reading Given :=
  match g.plain with
  | [] => if text.isEmpty then .error .misuse else .ok { g with plain := [text] }
  | [first] => .ok { g with plain := [first, text] }
  | _ => .error .misuse

end Given

abbrev Held := Setting × String

def valueFor : Option Setting → List String → Reading (Option Held × List String)
  | none, rest => .ok (none, rest)
  | some _, [] => .error .misuse
  | some setting, text :: rest =>
    match Argument.ofText text with
    | .plain value => .ok (some (setting, value), rest)
    | _ => .error .misuse

def Given.take (g : Given) : Option Held → Reading Given
  | none => .ok g
  | some (setting, value) => g.set setting value

def readAfter (sub : Subcommand) : Nat → Given → List String → Reading Given
  | 0, g, _ => .ok g
  | _, g, [] => .ok g
  | fuel + 1, g, text :: rest =>
    match Argument.ofText text with
    | .divider => rest.foldlM Given.push g
    | .plain text => do
      let g ← g.push text
      readAfter sub fuel g rest
    | .long name value => do
      let (g, waiting) ← g.long (some sub) name value
      let (held, rest) ← valueFor waiting rest
      let g ← g.take held
      readAfter sub fuel g rest
    | .shorts letters => do
      let (g, waiting) ← g.letters (some sub) letters
      let (held, rest) ← valueFor waiting rest
      let g ← g.take held
      readAfter sub fuel g rest

structure Opening where
  given : Given
  /-- The value right before the subcommand, not looked at yet. -/
  held : Option Held
  sub : Subcommand
  rest : List String

/-- A value in an argument of its own is looked at when the next option is read. -/
def readBefore : Nat → Given → Option Held → List String → Reading Opening
  | 0, _, _, _ => .error .misuse
  | _, _, _, [] => .error .misuse
  | fuel + 1, g, held, text :: rest =>
    match Argument.ofText text with
    | .divider => .error .misuse
    | .plain text =>
      match Subcommand.ofName? text with
      | some sub => .ok ⟨g, held, sub, rest⟩
      | none => .error .misuse
    | .long name value => do
      let g ← g.take held
      let (g, waiting) ← g.long none name value
      let (held, rest) ← valueFor waiting rest
      readBefore fuel g held rest
    | .shorts letters => do
      let g ← g.take held
      let (g, waiting) ← g.letters none letters
      let (held, rest) ← valueFor waiting rest
      readBefore fuel g held rest

def joinOptions (before after : Given) : Options :=
  ⟨after.config.or before.config, before.verbose || after.verbose, after.color.or before.color⟩

def command (sub : Subcommand) (given : Given) : Reading Command :=
  match sub, given.plain with
  | .scan, [model, element] => .ok (.scan model element (given.strategy.getD .hierarchy))
  | .attributes, [model, kind] => .ok (.attributes model kind)
  | .knownEmpty, [model, element] =>
    .ok (.knownEmpty model element (given.strategy.getD .hierarchy))
  | _, _ => .error .misuse

def helpFor : List String → Request
  | [] => .help none
  | [word] =>
    match Subcommand.ofName? word with
    | some sub => .help (some sub)
    | none => .misuse
  | _ => .misuse

/-- The value right before the subcommand is looked at after all that the subcommand is given, so
    a call for help there comes first. -/
def readRequest (args : List String) : Reading Request := do
  let before ← readBefore args.length {} none args
  if before.sub = .help then pure (helpFor before.rest)
  else
    let after ← readAfter before.sub before.rest.length {} before.rest
    let command ← command before.sub after
    let given ← before.given.take before.held
    pure (.run (joinOptions given after) command)

def Request.ofArgs (args : List String) : Request :=
  match readRequest args with
  | .ok request => request
  | .error request => request

end Lineage.CommandLine
