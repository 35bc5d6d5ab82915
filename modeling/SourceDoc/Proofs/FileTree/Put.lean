import SourceDoc.FileTree.Basic

namespace SourceDoc.FileTree

/-- What stands at a place, apart from the entries of a directory. -/
inductive Node where
  | file (content : ByteArray)
  | device (device : Device)
  | dir

/-- What a tree is at its top. -/
def node : FileTree → Node
  | .file content => .file content
  | .device d => .device d
  | .dir _ => .dir

/-- What stands at a place of a tree. -/
def node? (t : FileTree) (place : List Text) : Option Node :=
  (t.at? place).map node

theorem node?_nil (t : FileTree) : t.node? [] = some t.node :=
  rfl

theorem node?_cons (t : FileTree) (name : Text) (place : List Text) :
    t.node? (name :: place) = (t.entries.lookup name).bind (·.node? place) := by
  rw [node?, at?, Option.map_bind]
  rfl

variable {t : FileTree} {place : List Text}

/-- A directory is seen as one, whatever its entries are. -/
theorem node?_eq_dir_iff : t.node? place = some .dir ↔ ∃ es, t.at? place = some (.dir es) := by
  rw [node?]
  cases t.at? place with
  | none => simp
  | some tree => cases tree <;> simp [node]

theorem node?_eq_file_iff {content : ByteArray} :
    t.node? place = some (.file content) ↔ t.at? place = some (.file content) := by
  rw [node?]
  cases t.at? place with
  | none => simp
  | some tree => cases tree <;> simp [node]

theorem node_eq_dir_of_entries {name : Text} {child : FileTree}
    (h : t.entries.lookup name = some child) : t.node = .dir := by
  cases t with
  | dir es => rfl
  | file | device => cases h

theorem node?_cons_of_node_ne_dir (h : t.node ≠ .dir) (name : Text)
    (place : List Text) : t.node? (name :: place) = none := by
  rw [node?_cons]
  cases t with
  | dir es => exact absurd rfl h
  | file | device => rfl

/-- A place below another one is looked up from there. -/
theorem node?_append (t : FileTree) (place more : List Text) :
    t.node? (place ++ more) = (t.at? place).bind (·.node? more) := by
  induction place generalizing t with
  | nil => rfl
  | cons name place ih =>
    rw [List.cons_append, node?_cons, at?, Option.bind_assoc]
    exact congrArg _ (funext ih)

/-- There is nothing below a place where no directory stands, be it empty or taken by a file. -/
theorem node?_append_eq_none (h : t.node? place ≠ some .dir) (name : Text) (more : List Text) :
    t.node? (place ++ name :: more) = none := by
  rw [node?_append]
  rw [node?] at h
  cases hat : t.at? place with
  | none => rfl
  | some tree =>
    rw [hat] at h
    exact node?_cons_of_node_ne_dir (fun htree => h (congrArg some htree)) name more

/-- Below a name stands what was put there, below any other what stood there before. -/
theorem node?_cons_put (t new : FileTree) (name : Text) (place : List Text) (first : Text)
    (rest : List Text) :
    (t.put new (name :: place)).node? (first :: rest) =
      if first = name then
        (((t.entries.lookup name).getD (.dir [])).put new place).node? rest
      else t.node? (first :: rest) := by
  rw [put, node?_cons, entries, Dictionary.lookup_put, node?_cons]
  split <;> rfl

/-- A file that is put into a directory, where no directory stands, stands there, and nothing else
    changes. -/
theorem node?_put {dir : List Text} {name : Text} (hdir : t.node? dir = some .dir)
    (hplace : t.node? (dir ++ [name]) ≠ some .dir) (content : ByteArray) (place : List Text) :
    (t.put (.file content) (dir ++ [name])).node? place =
      if place = dir ++ [name] then some (.file content) else t.node? place := by
  induction dir generalizing t place with
  | nil =>
    cases place with
    | nil =>
      rw [if_neg (by simp), hdir]
      rfl
    | cons first rest =>
      rw [List.nil_append, node?_cons_put]
      by_cases hfirst : first = name
      · subst hfirst
        rw [if_pos rfl]
        cases rest with
        | nil =>
          rw [if_pos rfl]
          rfl
        | cons second rest =>
          -- what stood there is no directory either, so nothing stands below it
          have hnone : t.node? (first :: second :: rest) = none :=
            node?_append_eq_none hplace second rest
          rw [if_neg (by simp), hnone]
          rfl
      · rw [if_neg hfirst, if_neg (by simp [hfirst])]
  | cons first dir ih =>
    rw [node?_cons] at hdir
    obtain ⟨child, hchild, hbelow⟩ := Option.bind_eq_some_iff.mp hdir
    rw [List.cons_append, node?_cons, hchild, Option.bind_some] at hplace
    cases place with
    | nil =>
      rw [if_neg (by simp), node?_nil, node?_nil, node_eq_dir_of_entries hchild]
      rfl
    | cons other rest =>
      rw [List.cons_append, node?_cons_put, hchild, Option.getD_some]
      by_cases hother : other = first
      · subst hother
        rw [if_pos rfl, ih hbelow hplace, node?_cons, hchild, Option.bind_some]
        simp only [List.cons.injEq, true_and]
      · rw [if_neg hother, if_neg (by simp [hother])]

end SourceDoc.FileTree
