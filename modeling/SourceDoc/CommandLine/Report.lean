import SourceDoc.Failure
import SourceDoc.Glob.Pattern

namespace SourceDoc

/-- What went wrong in a run: what could not be done, and the causes of that, outermost first. -/
structure Report where
  summary : Text
  causes : List Text := []
  deriving DecidableEq, Repr

/-- A failure as a chain of causes. Where another fault lies behind a failure, it is named once
    more on its own. -/
def Failure.chain (f : Failure) : List Text :=
  match f with
  | .access fault => [f.message, fault.message]
  | .toml => [f.message, Failure.tomlDetail]
  | _ => [f.message]

namespace Report

/-- The report of a failure without further context. -/
def ofFailure (f : Failure) : Report :=
  match f.chain with
  | [] => ⟨f.message, []⟩
  | first :: rest => ⟨first, rest⟩

/-- The report of something that could not be done because of a failure. -/
def because (summary : Text) (f : Failure) : Report :=
  ⟨summary, f.chain⟩

/-- Lines after the first start with an indentation. -/
def indented (indentation t : Text) : Text :=
  Text.join ('\n' :: indentation) (Text.split '\n' t)

/-- A number that ends at the fifth place of its line. -/
def numbered (n : Nat) : Text :=
  let digits := Text.ofNat n
  List.replicate (5 - digits.length) ' ' ++ digits ++ ": ".toList

/-- The lines of causes that are counted from a number on. -/
def numberedCauses (n : Nat) : List Text → Text
  | [] => []
  | cause :: rest =>
    numbered n ++ indented (List.replicate 7 ' ') cause ++ '\n' :: numberedCauses (n + 1) rest

/-- The lines of causes; a single one has no number. -/
def causeLines : List Text → Text
  | [cause] => List.replicate 4 ' ' ++ indented (List.replicate 4 ' ') cause ++ ['\n']
  | causes => numberedCauses 0 causes

/-- Text of a report. -/
def text (r : Report) : Text :=
  "Error: " ++ r.summary ++ '\n' ::
    if r.causes.isEmpty then [] else "\nCaused by:\n" ++ causeLines r.causes

end Report

end SourceDoc
