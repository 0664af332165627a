import CssResources.Config.Basic
import CssResources.Conversion

/-!
# Files

What a conversion of files needs of the system it runs on is a `CssResources.Host`:
looking for a path, reading bytes, writing a text, and a clock. The conversion is
written for every host, so it is the same on a real disk and on one that is a value.
-/

namespace CssResources

/-- **A system with files.** -/
class Host (m : Type → Type) where
  /-- There is a file or a directory at a path. -/
  hasPath : Text → m Bool
  /-- The bytes of a file. -/
  readBytes : Text → m (Except FileFault ByteArray)
  /-- Makes a text the whole content of a file. -/
  writeText : Text → Text → m (Except FileFault Unit)
  /-- The milliseconds since some moment. -/
  clock : m Nat

variable {m : Type → Type} [Monad m] [Host m]

/-- The bytes of a text in UTF-8. -/
def utf8Bytes (t : Text) : ByteArray := (String.ofList t).toUTF8

/-- The text of bytes in UTF-8. -/
def textOfUtf8? (bytes : ByteArray) : Option Text := (String.fromUTF8? bytes).map String.toList

/-- The text of a file. -/
def readText (path : Text) : m (Except FileFault Text) := do
  match ← Host.readBytes path with
  | .error fault => return .error fault
  | .ok bytes =>
    match textOfUtf8? bytes with
    | some t => return .ok t
    | none => return .error .notUtf8

/-- **Converts a file**: reads the stylesheet, converts it, and writes the document. -/
def convertFile (options : Options) (input output : Text) :
    m (Except ConvertError Statistics) := do
  match ← readText (m := m) input with
  | .error fault => return .error (.fileNotFound (.source input fault))
  | .ok source =>
    let conversion := convert options source
    match ← Host.writeText output conversion.document with
    | .error fault => return .error (.io fault)
    | .ok _ => return .ok conversion.statistics

/-- Reads a configuration from its file. -/
def loadConfig (path : Text) : m (Except ConvertError Config) := do
  match ← readText (m := m) path with
  | .error fault => return .error (.fileNotFound (.configuration path fault))
  | .ok t =>
    match Config.ofText path t with
    | .error fault => return .error (.invalidFormat fault)
    | .ok config => return .ok config

end CssResources
