import SourceDoc.Toml.Basic

namespace SourceDoc.Toml

mutual

/-- An entry of a table. -/
inductive Node where
  /-- A finished value, which nothing can be added to. -/
  | value (v : Toml)
  | table (t : Tree)
  /-- The tables of an array of tables. -/
  | tables (ts : List Tree)

/-- A table that can grow. It remembers how it came about, because that decides whether it may still
    be extended: a table that only arose on the way to another one may be defined later, and one
    that arose from a dotted key may only be extended by dotted keys. -/
inductive Tree where
  /-- `implicit`: the table has not been defined itself. `dotted`: it arose from a dotted key. -/
  | mk (implicit dotted : Bool) (entries : List (Text × Node))

end

namespace Tree

/-- Whether the table has not been defined itself. -/
def isImplicit : Tree → Bool
  | .mk implicit _ _ => implicit

/-- Whether the table arose from a dotted key. -/
def isDotted : Tree → Bool
  | .mk _ dotted _ => dotted

/-- The entries in the order of their first appearance. -/
def entries : Tree → List (Text × Node)
  | .mk _ _ es => es

/-- A table defined in its own right, without entries. -/
def empty : Tree :=
  .mk false false []

/-- The same entries in a table defined in its own right. -/
def defined (t : Tree) : Tree :=
  .mk false false t.entries

/-- Gives a key an entry, in place of the one it has. -/
def put (t : Tree) (key : Text) (node : Node) : Tree :=
  let rec go : List (Text × Node) → List (Text × Node)
    | [] => [(key, node)]
    | (k, n) :: rest => if k = key then (k, node) :: rest else (k, n) :: go rest
  .mk t.isImplicit t.isDotted (go t.entries)

/-- The entry of a key. -/
def get? (t : Tree) (key : Text) : Option Node :=
  t.entries.lookup key

/-- Changes the table a path of keys leads to. Tables missing on the way arise; the last table of an
    array of tables is entered; a finished value stops the way, and for dotted keys so does a table
    defined in its own right. -/
def update (dotted : Bool) (change : Tree → Option Tree) : List Text → Tree → Option Tree
  | [], t => change t
  | key :: keys, t =>
    match t.get? key with
    | none => (update dotted change keys (.mk true dotted [])).map fun c => t.put key (.table c)
    | some (.value _) => none
    | some (.table c) =>
      if dotted && !c.isImplicit then none
      else (update dotted change keys c).map fun c => t.put key (.table c)
    | some (.tables ts) =>
      match ts.getLast? with
      | none => none
      | some c =>
        (update dotted change keys c).map fun c => t.put key (.tables (ts.dropLast ++ [c]))

/-- Adds a value under a dotted key. The key has to be new, and the table it goes to has to have
    arisen from dotted keys exactly if the key is dotted. -/
def insert (keys : List Text) (v : Toml) (t : Tree) : Option Tree :=
  match keys.getLast? with
  | none => none
  | some last =>
    let way := keys.dropLast
    update (!way.isEmpty) (fun c =>
      if c.isDotted == way.isEmpty || (c.get? last).isSome then none
      else some (c.put last (.value v))) way t

/-- Adds values under dotted keys. -/
def insertAll (pairs : List (List Text × Toml)) (t : Tree) : Option Tree :=
  pairs.foldlM (fun t pair => t.insert pair.1 pair.2) t

/-- Defines a table with the given content. A table that has only arisen on the way to another one,
    and not from dotted keys, may be defined. -/
def define (keys : List Text) (pairs : List (List Text × Toml)) (t : Tree) : Option Tree :=
  match keys.getLast? with
  | none => none
  | some last =>
    update false (fun c =>
      match c.get? last with
      | none => (insertAll pairs empty).map fun new => c.put last (.table new)
      | some (.table old) =>
        if old.isImplicit && !old.isDotted then
          (insertAll pairs old.defined).map fun new => c.put last (.table new)
        else none
      | some _ => none) keys.dropLast t

/-- Adds a table with the given content to an array of tables. -/
def append (keys : List Text) (pairs : List (List Text × Toml)) (t : Tree) : Option Tree :=
  match keys.getLast? with
  | none => none
  | some last =>
    update false (fun c =>
      match c.get? last with
      | none => (insertAll pairs empty).map fun new => c.put last (.tables [new])
      | some (.tables ts) => (insertAll pairs empty).map fun new => c.put last (.tables (ts ++ [new]))
      | some _ => none) keys.dropLast t

end Tree

mutual

/-- The value of an entry. -/
def Node.toToml : Node → Toml
  | .value v => v
  | .table t => .table t.members
  | .tables ts => .array (membersOfAll ts)

/-- The members of a table. -/
def Tree.members : Tree → List (Text × Toml)
  | .mk _ _ es => membersOfEntries es

/-- The members of the entries of a table. -/
def membersOfEntries : List (Text × Node) → List (Text × Toml)
  | [] => []
  | (key, node) :: rest => (key, node.toToml) :: membersOfEntries rest

/-- The tables of an array of tables. -/
def membersOfAll : List Tree → List Toml
  | [] => []
  | t :: ts => .table t.members :: membersOfAll ts

end

end SourceDoc.Toml
