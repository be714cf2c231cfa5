namespace Lineage.CommandLine

def versionText : String := "heritage 0.2.0\n"

inductive Subcommand where
  | scan
  | attributes
  | knownEmpty
  | help
deriving DecidableEq, Repr

namespace Subcommand

def name : Subcommand → String
  | .scan => "scan"
  | .attributes => "attributes"
  | .knownEmpty => "known-empty"
  | .help => "help"

def ofName? (word : String) : Option Subcommand :=
  [scan, attributes, knownEmpty, help].find? (·.name = word)

def hasStrategy : Subcommand → Bool
  | .scan | .knownEmpty => true
  | .attributes | .help => false

end Subcommand

def lines (ls : List String) : String := String.join (ls.map (· ++ "\n"))

def mainHelp : String := lines
  ["Metadata discovery across type hierarchies",
   "",
   "Usage: heritage [OPTIONS] <COMMAND>",
   "",
   "Commands:",
   "  scan         Scan an element and print every level that carries records",
   "  attributes   Print the attribute model of a record kind",
   "  known-empty  Check whether a scan is certain to find nothing",
   "  help         Print this message or the help of the given subcommand(s)",
   "",
   "Options:",
   "      --config <CONFIG>  Scanner configuration file (TOML)",
   "  -v, --verbose          Log scan decisions and contained failures",
   "      --color <COLOR>    When to use colors: auto, always, never",
   "  -h, --help             Print help",
   "  -V, --version          Print version"]

def elementHelp (about command : String) : String := lines
  [about,
   "",
   "Usage: heritage " ++ command ++ " [OPTIONS] <MODEL> <ELEMENT>",
   "",
   "Arguments:",
   "  <MODEL>    JSON type model",
   "  <ELEMENT>  Element: `acme.B`, `acme.B#save`, or `acme.B#save(acme.Item)`",
   "",
   "Options:",
   "      --config <CONFIG>      Scanner configuration file (TOML)",
   "  -s, --strategy <STRATEGY>  Search strategy [default: type-hierarchy]",
   "  -v, --verbose              Log scan decisions and contained failures",
   "      --color <COLOR>        When to use colors: auto, always, never",
   "  -h, --help                 Print help"]

def attributesHelp : String := lines
  ["Print the attribute model of a record kind",
   "",
   "Usage: heritage attributes [OPTIONS] <MODEL> <KIND>",
   "",
   "Arguments:",
   "  <MODEL>  JSON type model",
   "  <KIND>   Record kind name",
   "",
   "Options:",
   "      --config <CONFIG>  Scanner configuration file (TOML)",
   "  -v, --verbose          Log scan decisions and contained failures",
   "      --color <COLOR>    When to use colors: auto, always, never",
   "  -h, --help             Print help"]

def helpHelp : String := lines
  ["Print this message or the help of the given subcommand(s)",
   "",
   "Usage: heritage help [COMMAND]...",
   "",
   "Arguments:",
   "  [COMMAND]...  Print help for the subcommand(s)"]

def helpText : Option Subcommand → String
  | none => mainHelp
  | some .scan => elementHelp "Scan an element and print every level that carries records" "scan"
  | some .knownEmpty =>
    elementHelp "Check whether a scan is certain to find nothing" "known-empty"
  | some .attributes => attributesHelp
  | some .help => helpHelp

end Lineage.CommandLine
