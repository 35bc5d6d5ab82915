import SourceDoc.Failure
import SourceDoc.Keyed
import SourceDoc.Language.Basic

namespace SourceDoc

/-- The registered languages, and the language of each known extension. -/
structure LanguageTable where
  registered : List Language
  extensions : List (Text × Language)
  deriving DecidableEq, Repr

namespace LanguageTable

/-- The languages and extensions known from the start. -/
def standard : LanguageTable where
  registered := [.lua, .c]
  extensions :=
    [("lua", .lua), ("luadoc", .lua), ("c", .c), ("h", .c), ("cc", .c), ("cpp", .c), ("cxx", .c),
     ("hpp", .c)]

/-- Registers a language; one that is registered already stays. -/
def register (t : LanguageTable) (lang : Language) : LanguageTable :=
  if lang ∈ t.registered then t else { t with registered := t.registered ++ [lang] }

/-- Gives an extension, with or without points before it, the registered language of a name. -/
def addExtension (t : LanguageTable) (extension language : Text) : Except Failure LanguageTable :=
  match t.registered.find? (·.name = language) with
  | none => .error (.config (.unknownLanguage language extension))
  | some lang =>
    let bare := extension.dropWhile (· == '.')
    .ok { t with extensions := Dictionary.put bare lang t.extensions }

/-- The language of a file. -/
def ofPath? (t : LanguageTable) (path : Path) : Option Language :=
  path.extension?.bind fun extension => t.extensions.lookup extension

/-- The known extensions in the order of code points. -/
def sortedExtensions (t : LanguageTable) : List Text :=
  (t.extensions.map (·.1)).mergeSort Text.le

end LanguageTable

end SourceDoc
