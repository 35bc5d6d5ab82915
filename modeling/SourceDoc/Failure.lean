import SourceDoc.Path

namespace SourceDoc

/-- What is wrong with a configuration that can be read. -/
inductive ConfigFault where
  | unknownLanguage (language extension : Text)
  | unknownFormat (format : Text)
  /-- The output format asked for does not exist. -/
  | unsupportedFormat (format : Text)
  | incompleteType
  | selfAlias (tag : Text)
  deriving DecidableEq, Repr

/-- How a fault of a configuration is worded. -/
def ConfigFault.message : ConfigFault → Text
  | .unknownLanguage language extension =>
    "unknown language '" ++ language ++ "' for .".toList ++ extension
  | .unknownFormat format => "unknown format '" ++ format ++ "'".toList
  | .unsupportedFormat format => "unknown format: " ++ format ++ ". Use json".toList
  | .incompleteType => "types need an id and a title"
  | .selfAlias tag => "alias '" ++ tag ++ "' maps to itself".toList

/-- Why a file can not be read or written. -/
inductive FileFault where
  | notFound
  | notDirectory
  | isDirectory
  /-- A name or the whole path is longer than the file system allows. -/
  | nameTooLong
  | noSpace
  | notText
  deriving DecidableEq, Repr

/-- How a fault of a file is worded, with the number of the system error if there is one. -/
def FileFault.message : FileFault → Text
  | .notFound => "No such file or directory (os error 2)"
  | .notDirectory => "Not a directory (os error 20)"
  | .isDirectory => "Is a directory (os error 21)"
  | .nameTooLong => "File name too long (os error 36)"
  | .noSpace => "No space left on device (os error 28)"
  | .notText => "stream did not contain valid UTF-8"

/-- Why reading the documentation stopped. -/
inductive Failure where
  /-- The first comment of a file documents nothing. -/
  | plainFirstComment (file : Path) (line : Nat)
  /-- A class is not among the registered kinds of a group. -/
  | unknownKind (group kind : Text) (file : Path) (line : Nat)
  | unsupportedFile (path : Path)
  | config (fault : ConfigFault)
  /-- A file can not be read or written. -/
  | access (fault : FileFault)
  /-- A configuration is not valid TOML, or a value in it has the wrong type. -/
  | toml
  deriving DecidableEq, Repr

/-- Place of a failure in a file. -/
def place (file : Path) (line : Nat) : Text :=
  file.text ++ ':' :: Text.ofNat line ++ ": ".toList

/-- What is said about a configuration that can not be read. -/
def Failure.tomlDetail : Text :=
  "not a valid configuration"

/-- How a failure is worded. The place comes first if there is one, else the area it belongs to. -/
def Failure.message : Failure → Text
  | .plainFirstComment file line => place file line ++ "first comment is not a doc comment".toList
  | .unknownKind group kind file line =>
    place file line ++ "unknown ".toList ++ group ++ " '".toList ++ kind ++ "'".toList
  | .unsupportedFile path => "unsupported file type: " ++ path.text
  | .config fault => "configuration error: " ++ fault.message
  | .access fault => "IO error: " ++ fault.message
  | .toml => "TOML error: " ++ Failure.tomlDetail

end SourceDoc
