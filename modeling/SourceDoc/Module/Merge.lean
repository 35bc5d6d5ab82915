import SourceDoc.Keyed
import SourceDoc.Module.Draft

namespace SourceDoc.ModuleDraft

/-- Files of both lists, each place once. -/
def mergeFiles (files more : List Path) : List Path :=
  more.foldl (fun acc file => if acc.any (·.same file) then acc else acc ++ [file]) files

/-- A module with a later one of the same name: what the first says is kept, and what it does not
    say is taken from the later one. -/
def absorb (m other : ModuleDraft) : ModuleDraft :=
  { m with
    summary := Text.orElse m.summary other.summary
    description := Text.orElse m.description other.description
    tags := m.tags.fillMissing other.tags
    files := mergeFiles m.files other.files
    items := m.items ++ other.items }

/-- Adds a module to modules with distinct names. -/
def mergeInto (m : ModuleDraft) (ms : List ModuleDraft) : List ModuleDraft :=
  Keyed.upsert name (·.absorb m) m ms

/-- One module for each name, in order of first appearance. -/
def merge (ms : List ModuleDraft) : List ModuleDraft :=
  ms.foldl (fun acc m => mergeInto m acc) []

/-- What adding a module reports: that there is one of its name, and if so, a different kind. -/
def mergeIntoEvents (m : ModuleDraft) (seen : List ModuleDraft) : List Event :=
  match seen.find? (·.name = m.name) with
  | none => []
  | some first =>
    .mergedModule m.name
      :: if m.kind = first.kind then [] else [.kindConflict m.name first.kind m.kind]

/-- What merging reports, given the modules seen before. -/
def mergeEvents (seen : List ModuleDraft) : List ModuleDraft → List Event
  | [] => []
  | m :: ms => mergeIntoEvents m seen ++ mergeEvents (mergeInto m seen) ms

/-- A module without its local functions. -/
def hideLocals (m : ModuleDraft) : ModuleDraft :=
  { m with items := m.items.filter (!·.isLocal) }

end SourceDoc.ModuleDraft
