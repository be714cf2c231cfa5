namespace Lineage

inductive TableOrigin where
  /-- By a header of its own, or as the whole document. -/
  | opened
  /-- By a key with dots. -/
  | dotted
  /-- By the header of a table inside it. -/
  | implied
deriving DecidableEq, Repr

mutual

inductive Toml where
  | string (s : String)
  | array (items : List Toml)
  /-- A table in braces, to which nothing can be added. -/
  | inline (entries : List (String × Toml))
  | table (t : TomlTable)

structure TomlTable where
  origin : TableOrigin
  entries : List (String × Toml)

end

instance : Inhabited Toml := ⟨.string ""⟩

namespace TomlTable

def empty (origin : TableOrigin) : TomlTable := ⟨origin, []⟩

def find? (t : TomlTable) (key : String) : Option Toml := t.entries.lookup key

def put (t : TomlTable) (key : String) (value : Toml) : TomlTable :=
  if (t.find? key).isSome then
    { t with entries := t.entries.map fun (k, v) => if k = key then (k, value) else (k, v) }
  else { t with entries := t.entries ++ [(key, value)] }

/-- Changes the table at a path. Tables that are missing are made, and those on the way must be such
    that they may be entered. -/
def update (missing : TableOrigin) (enter : TableOrigin → Bool)
    (change : TomlTable → Option TomlTable) : List String → TomlTable → Option TomlTable
  | [], t => change t
  | key :: path, t =>
    match t.find? key with
    | none => do
      let inner ← update missing enter change path (empty missing)
      pure (t.put key (.table inner))
    | some (.table inner) =>
      if enter inner.origin then do
        let inner ← update missing enter change path inner
        pure (t.put key (.table inner))
      else none
    | some _ => none

def add (key : String) (value : Toml) (t : TomlTable) : Option TomlTable :=
  if (t.find? key).isSome then none else some (t.put key value)

def assign (path : List String) (value : Toml) (t : TomlTable) : Option TomlTable :=
  match path.getLast?, path.dropLast with
  | none, _ => none
  | some key, [] => t.add key value
  | some key, outer =>
    let change (inner : TomlTable) : Option TomlTable :=
      if inner.origin = .dotted then inner.add key value else none
    t.update .dotted (· != .opened) change outer

def openAt (path : List String) (t : TomlTable) : Option TomlTable := do
  let key ← path.getLast?
  let begin (outer : TomlTable) : Option TomlTable :=
    match outer.find? key with
    | none => some (outer.put key (.table (empty .opened)))
    | some (.table inner) =>
      if inner.origin = .implied then some (outer.put key (.table { inner with origin := .opened }))
      else none
    | some _ => none
  update .implied (fun _ => true) begin path.dropLast t

end TomlTable

end Lineage
