import CssResources.Text.Basic

/-!
# Errors

Converting a text never fails; reading files, reading a configuration and reading the
command line may. An error names its cause, and `CssResources.ConvertError.message` is its
wording.
-/

namespace CssResources

/-- **Why a file could not be read or written.** -/
inductive FileFault where
  /-- There is no such file, or no such directory to put it in. -/
  | notFound
  /-- It is a directory. -/
  | isDirectory
  /-- A part of its path is no directory. -/
  | notDirectory
  /-- It may not be read or written. -/
  | permissionDenied
  /-- A part of its path is too long, or the path is. -/
  | nameTooLong
  /-- Its path holds a character that no path may have. -/
  | nulInPath
  /-- Its bytes are no text. -/
  | notUtf8
  /-- Another cause, in the system's words. -/
  | other (description : Text)
  deriving DecidableEq, Repr

/-- The system's wording of a fault. -/
def FileFault.message : FileFault → Text
  | notFound => "No such file or directory (os error 2)".toList
  | isDirectory => "Is a directory (os error 21)".toList
  | notDirectory => "Not a directory (os error 20)".toList
  | permissionDenied => "Permission denied (os error 13)".toList
  | nameTooLong => "File name too long (os error 36)".toList
  | nulInPath => "file name contained an unexpected NUL byte".toList
  | notUtf8 => "stream did not contain valid UTF-8".toList
  | other description => description

/-- **A file that is needed and cannot be read.** -/
inductive MissingFile where
  /-- The configuration. -/
  | configuration (path : Text) (fault : FileFault)
  /-- The stylesheet, which is not there. -/
  | input (path : Text)
  /-- The stylesheet. -/
  | source (path : Text) (fault : FileFault)
  /-- Another file, in words. -/
  | other (description : Text)
  deriving DecidableEq, Repr

/-- The wording of a missing file. -/
def MissingFile.message : MissingFile → Text
  | configuration path fault => "Config file ".toList ++ path ++ ": ".toList ++ fault.message
  | input path => "Input CSS file '".toList ++ path ++ "' not found.".toList
  | source path fault => path ++ ": ".toList ++ fault.message
  | other description => description

/-- **A text that does not have the form it should.** -/
inductive FormatFault where
  /-- The name of a configuration says neither of the two formats. -/
  | configurationName
  /-- A configuration is not in the JSON it should be. -/
  | json
  /-- A configuration is not in the TOML it should be. -/
  | toml
  /-- A definition without an equals sign. -/
  | definition (text : Text)
  /-- A definition without a name. -/
  | definitionName (text : Text)
  /-- Another fault, in words. -/
  | other (description : Text)
  deriving DecidableEq, Repr

/-- The wording of a fault. -/
def FormatFault.message : FormatFault → Text
  | configurationName => "Config file must be .json or .toml format".toList
  | json => "Invalid JSON config: not a configuration".toList
  | toml => "Invalid TOML config: not a configuration".toList
  | definition text =>
    "Invalid custom property definition: ".toList ++ text ++ ". Use NAME=VALUE format.".toList
  | definitionName text => "Missing custom property name in: ".toList ++ text
  | other description => description

/-- **Why a conversion of files fails.** -/
inductive ConvertError where
  /-- The document cannot be written. -/
  | io (fault : FileFault)
  /-- A file cannot be read. -/
  | fileNotFound (file : MissingFile)
  /-- A text has the wrong form. -/
  | invalidFormat (fault : FormatFault)
  /-- A file cannot be watched. -/
  | watch (description : Text)
  deriving DecidableEq, Repr

/-- **The wording of an error.** -/
def ConvertError.message : ConvertError → Text
  | io fault => "IO error: ".toList ++ fault.message
  | fileNotFound file => "File not found: ".toList ++ file.message
  | invalidFormat fault => "Invalid format: ".toList ++ fault.message
  | watch description => "Watch error: ".toList ++ description

end CssResources
