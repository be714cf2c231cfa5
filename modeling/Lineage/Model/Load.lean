import Lineage.Model.Basic
import Lineage.ValueType.Syntax

namespace Lineage.Model

def resolve (c : Catalog) (context name : String) : Except ModelError TypeId :=
  match c.lookup name with
  | some id => .ok id
  | none => .error (.unknownTypeName name context)

def typeArg (c : Catalog) (owner : TypeSpec) (arg : String) : Except ModelError TypeArg :=
  if owner.params.any (·.name = arg) then .ok (.var arg)
  else .concrete <$> resolve c owner.name arg

def superRef (c : Catalog) (owner : TypeSpec) (s : SuperSpec) : Except ModelError SuperRef := do
  let target ← resolve c owner.name s.name
  let args ← s.args.mapM (typeArg c owner)
  pure ⟨target, args⟩

mutual

def value (c : Catalog) (context : String) : ValueSpec → Except ModelError Value
  | .bool b => .ok (.bool b)
  | .int i => .ok (.int i)
  | .float x => .ok (.float x)
  | .string s => .ok (.string s)
  | .type name => do
    let id ← resolve c context name
    pure (.type id)
  | .enum name constant => do
    let id ← resolve c context name
    pure (.enum id constant)
  | .record r => do
    let r ← record c context r
    pure (.record r)
  | .array items => do
    let items ← valueItems c context items
    pure (.array items)
termination_by structural v => v

def valueItems (c : Catalog) (context : String) :
    List ValueSpec → Except ModelError (List Value)
  | [] => .ok []
  | v :: vs => do
    let first ← value c context v
    let others ← valueItems c context vs
    pure (first :: others)
termination_by structural vs => vs

def record (c : Catalog) (context : String) : RecordSpec → Except ModelError Record
  | ⟨kind, values⟩ => do
    let kind ← resolve c context kind
    let values ← recordValues c context values
    pure (values.foldl (fun r (name, v) => r.set name v) (.ofKind kind))
termination_by structural r => r

def recordValues (c : Catalog) (context : String) :
    List (String × ValueSpec) → Except ModelError (List (String × Value))
  | [] => .ok []
  | v :: vs => do
    let first ← recordValue c context v
    let others ← recordValues c context vs
    pure (first :: others)
termination_by structural vs => vs

def recordValue (c : Catalog) (context : String) :
    String × ValueSpec → Except ModelError (String × Value)
  | (name, v) => do
    let v ← value c context v
    pure (name, v)
termination_by structural v => v

end

def typeParam (c : Catalog) (owner : TypeSpec) (p : ParamSpec) : Except ModelError TypeParam := do
  let bound ← p.bound.mapM (resolve c owner.name)
  pure ⟨p.name, bound⟩

def typeDef (c : Catalog) (t : TypeSpec) : Except ModelError TypeDef := do
  let params ← t.params.mapM (typeParam c t)
  let superclass ← t.superclass.mapM (superRef c t)
  let interfaces ← t.interfaces.mapM (superRef c t)
  let enclosing ← t.enclosing.mapM (resolve c t.name)
  let records ← t.records.mapM (record c t.name)
  pure ⟨t.name, t.flavor, params, superclass, interfaces, enclosing, t.inherited, records⟩

/-- A member that a later bridge of its type may stand for, if it is no bridge itself. -/
structure Added where
  name : String
  id : MemberId
  isBridge : Bool

def bridgeTarget (owner : TypeSpec) (earlier : List Added) (name : String) :
    Except ModelError MemberId :=
  match earlier.find? fun m => m.name = name && !m.isBridge with
  | some m => .ok m.id
  | none => .error (.unknownMemberName name owner.name)

def paramRecords (c : Catalog) (context : String) :
    List (Nat × List RecordSpec) → Except ModelError (List (Nat × Record))
  | [] => .ok []
  | (index, specs) :: rest => do
    let first ← specs.mapM (record c context)
    let others ← paramRecords c context rest
    pure (first.map (index, ·) ++ others)

def memberDef (c : Catalog) (owner : TypeSpec) (earlier : List Added) (m : MemberSpec) :
    Except ModelError MemberDef := do
  let context := owner.name ++ "#" ++ m.name
  let params ← m.params.mapM (typeArg c owner)
  let returns ← m.returns.mapM (ValueType.ofText c)
  let default ← m.default.mapM (value c context)
  let bridgeOf ← m.bridgeOf.mapM (bridgeTarget owner earlier)
  let records ← m.records.mapM (record c context)
  let paramRecords ← paramRecords c context m.paramRecords
  pure ⟨m.name, m.visibility, params, returns.getD .void, default, bridgeOf, records, paramRecords⟩

def addMembers (owner : TypeSpec) (on : TypeId) :
    Catalog → List Added → List MemberSpec → Except ModelError Catalog
  | c, _, [] => .ok c
  | c, earlier, m :: rest => do
    let d ← memberDef c owner earlier m
    match c.addMember on d with
    | some (id, c) => addMembers owner on c (earlier ++ [⟨m.name, id, d.bridgeOf.isSome⟩]) rest
    | none => addMembers owner on c earlier rest

def reserve (c : Catalog) : List TypeSpec → Except ModelError Catalog
  | [] => .ok c
  | t :: rest =>
    if (c.lookup t.name).isSome then .error (.duplicateType t.name)
    else reserve (c.declareAbsent t.name).2 rest

def addType (c : Catalog) (t : TypeSpec) : Except ModelError Catalog :=
  if t.absent then .ok c
  else do
    let d ← typeDef c t
    let (id, c) := c.define d
    addMembers t id c [] t.members

def load (m : Model) : Except ModelError Catalog := do
  let reserved ← reserve .initial m.types
  m.types.foldlM addType reserved

end Lineage.Model
