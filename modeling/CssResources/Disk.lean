import CssResources.Host

/-!
# A disk that is a value

Directories and files as a value: the host on which the program can be run and reasoned
about. A path is read as a `CssResources.Route`, and `CssResources.Disk.find` follows it
name by name, from the root or from the directory that the program runs in; a dot stays
where it is, two dots go up. A slash at the end of a route says that a directory is
meant. Reading looks at what is there (`CssResources.Disk.readBytes`); writing refuses
such a route before it looks at the last name (`CssResources.Disk.findToWrite`).
-/

namespace CssResources

/-- The names from the root to a file or directory. -/
abbrev Place := List Text

/-- **What a path says.** -/
structure Route where
  /-- It starts at the root. -/
  fromRoot : Bool
  /-- The names that are followed one after the other; none of them is empty. -/
  names : List Text
  /-- It ends with a slash, so that it can only lead to a directory. -/
  endsInSlash : Bool
  deriving DecidableEq, Repr

namespace Route

/-- The greatest number of bytes of a name. -/
def nameLimit : Nat := 255

/-- The number of bytes of a path that is too long. -/
def pathLimit : Nat := 4096

/-- **Reads a path.** Slashes side by side count as one. -/
def ofText (path : Text) : Except FileFault Route :=
  if path.contains '\x00' then .error .nulInPath
  else if path.isEmpty then .error .notFound
  else if pathLimit ≤ utf8Size path then .error .nameTooLong
  else .ok {
    fromRoot := path.head? == some '/'
    names := (splitAll (· == '/') path).filter (!·.isEmpty)
    endsInSlash := path.getLast? == some '/' }

/-- The route to the directory that the last name is looked for in. -/
def parent (r : Route) : Route := { r with names := r.names.dropLast }

end Route

/-- **A disk.** -/
structure Disk where
  /-- The directories below the root. -/
  directories : List Place := []
  /-- The files with their bytes. -/
  files : OrderedMap Place ByteArray := ∅
  /-- The directory that the program runs in. -/
  workingDirectory : Place := []

/-- **What a route leads to.** -/
inductive Target where
  /-- A directory. -/
  | directory
  /-- A file. -/
  | file (place : Place)
  /-- Nothing, in a directory where a file may be made. -/
  | vacant (place : Place)
  deriving DecidableEq, Repr

namespace Disk

/-- **Follows names** from a directory. With `toDirectory`, the last name too can only be
that of a directory. Above the root is the root. -/
def follow (d : Disk) (toDirectory : Bool) (here : Place) : List Text → Except FileFault Target
  | [] => .ok .directory
  | name :: names =>
    if name = ['.'] then d.follow toDirectory here names
    else if name = ['.', '.'] then d.follow toDirectory here.dropLast names
    else if Route.nameLimit < utf8Size name then .error .nameTooLong
    else
      let place := here ++ [name]
      let isLast := names.isEmpty && !toDirectory
      if place ∈ d.directories then d.follow toDirectory place names
      else if (d.files.get? place).isSome then
        if isLast then .ok (.file place) else .error .notDirectory
      else if isLast then .ok (.vacant place)
      else .error .notFound

/-- **What a route leads to.** -/
def find (d : Disk) (r : Route) : Except FileFault Target :=
  d.follow r.endsInSlash (if r.fromRoot then [] else d.workingDirectory) r.names

/-- **Where a route leads a writer**, who would make a missing file. A route that ends with a
slash is no place for a file, whatever is there and however long its last name; only the
directory before the last name has to exist. -/
def findToWrite (d : Disk) (r : Route) : Except FileFault Target :=
  if r.endsInSlash then (d.find r.parent).map fun _ => .directory else d.find r

/-- There is a file or a directory at a path. -/
def hasPath (d : Disk) (path : Text) : Bool :=
  match Route.ofText path >>= d.find with
  | .ok .directory => true
  | .ok (.file _) => true
  | _ => false

/-- The bytes of the file at a path. -/
def readBytes (d : Disk) (path : Text) : Except FileFault ByteArray :=
  match Route.ofText path >>= d.find with
  | .error fault => .error fault
  | .ok .directory => .error .isDirectory
  | .ok (.file place) =>
    match d.files.get? place with
    | some bytes => .ok bytes
    | none => .error .notFound
  | .ok (.vacant _) => .error .notFound

/-- **The disk after a text is made the whole content of a file.** A write that fails
changes nothing. -/
def writeText (d : Disk) (path t : Text) : Except FileFault Disk :=
  match Route.ofText path >>= d.findToWrite with
  | .error fault => .error fault
  | .ok .directory => .error .isDirectory
  | .ok (.file place) => .ok { d with files := d.files.insert place (utf8Bytes t) }
  | .ok (.vacant place) => .ok { d with files := d.files.insert place (utf8Bytes t) }

/-- A disk is a host. Its clock stands still. -/
instance : Host (StateM Disk) where
  hasPath path := return (← get).hasPath path
  readBytes path := return (← get).readBytes path
  writeText path t := do
    match (← get).writeText path t with
    | .error fault => return .error fault
    | .ok d => set d; return .ok ()
  clock := return 0

end Disk

end CssResources
