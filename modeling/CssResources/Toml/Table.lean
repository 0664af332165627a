import CssResources.OrderedMap
import CssResources.Toml.Basic

/-!
# Building TOML tables

The entries of a document come one by one, under keys that may be dotted and under
headers that may be. **Each table is defined once**: a header cannot name a table that
has a header already or that a dotted key has made, and a dotted key cannot add to a
table that has a header or stands between braces. Tables that a longer header only
implied may still get a header of their own.
-/

namespace CssResources

namespace TomlEntries

/-- The entries with one more pair. -/
def add (es : TomlEntries) (k : Text) (v : TomlValue) : TomlEntries := es ++ [(k, v)]

/-! ### Dotted keys -/

/-- The last part of a dotted key: a name that is not taken. -/
def insertNew (v : TomlValue) (k : Text) (es : TomlEntries) : Option TomlEntries :=
  match es.lookup k with
  | none => some (es.add k v)
  | some _ => none

/-- **Adds a value under a dotted key.** The parts before the last name tables, which are
made if they are not there. The table that gets the value is one that dotted keys have
made, or one that the entries are of. -/
def insertDotted (v : TomlValue) : List Text → TomlEntries → Option TomlEntries
  | [], _ => none
  | [k], es => insertNew v k es
  | k :: ks, es =>
    match es.lookup k with
    | none => (insertDotted v ks []).map fun sub => es.add k (.table .dotted sub)
    | some (.table .header _) => none
    | some (.table .implied sub) =>
      if ks.length = 1 then none
      else (insertDotted v ks sub).map fun sub => putEntry k (.table .implied sub) es
    | some (.table .dotted sub) =>
      (insertDotted v ks sub).map fun sub => putEntry k (.table .dotted sub) es
    | some (.tables items) =>
      if ks.length = 1 then none
      else
        (insertDotted v ks (items.getLastD [])).map fun sub =>
          putEntry k (.tables (items.dropLast ++ [sub])) es
    | some _ => none

/-- Adds pairs of dotted keys and values, in order. -/
def insertAll (pairs : List (List Text × TomlValue)) (es : TomlEntries) : Option TomlEntries :=
  pairs.foldlM (fun es p => insertDotted p.2 p.1 es) es

/-! ### Headers -/

/-- **Changes the table at a path of names.** Tables on the path that are not there are
implied; of tables under the same header the path goes through the last. -/
def changeAt (f : TomlEntries → Option TomlEntries) : List Text → TomlEntries → Option TomlEntries
  | [], es => f es
  | k :: ks, es =>
    match es.lookup k with
    | none => (changeAt f ks []).map fun sub => es.add k (.table .implied sub)
    | some (.table origin sub) =>
      (changeAt f ks sub).map fun sub => putEntry k (.table origin sub) es
    | some (.tables items) =>
      (changeAt f ks (items.getLastD [])).map fun sub =>
        putEntry k (.tables (items.dropLast ++ [sub])) es
    | some _ => none

/-- A table under a header of its own, with its pairs: a new one, or one implied before. -/
def placeTable (pairs : List (List Text × TomlValue)) (k : Text) (es : TomlEntries) :
    Option TomlEntries :=
  match es.lookup k with
  | none => (insertAll pairs []).map fun sub => es.add k (.table .header sub)
  | some (.table .implied sub) =>
    (insertAll pairs sub).map fun sub => putEntry k (.table .header sub) es
  | some _ => none

/-- One more table under a header that several tables have. -/
def placeItem (pairs : List (List Text × TomlValue)) (k : Text) (es : TomlEntries) :
    Option TomlEntries :=
  match es.lookup k with
  | none => (insertAll pairs []).map fun sub => es.add k (.tables [sub])
  | some (.tables items) =>
    (insertAll pairs []).map fun sub => putEntry k (.tables (items ++ [sub])) es
  | some _ => none

end TomlEntries

/-! ### Documents -/

/-- **A line of a document** that says something. -/
inductive TomlLine where
  /-- A dotted key and its value. -/
  | pair (path : List Text) (value : TomlValue)
  /-- The header of a table. -/
  | tableHeader (path : List Text)
  /-- The header of one of several tables. -/
  | itemHeader (path : List Text)

/-- A header, and the pairs up to the next. -/
structure TomlSection where
  /-- The header is one of several tables. -/
  isItem : Bool
  /-- The names of the header. -/
  path : List Text
  /-- The pairs below the header. -/
  pairs : List (List Text × TomlValue)

/-- The pairs in front of the first header, and the sections. -/
def TomlSection.split : List TomlLine → List (List Text × TomlValue) × List TomlSection
  | [] => ([], [])
  | l :: ls =>
    let (pairs, sections) := TomlSection.split ls
    match l with
    | .pair path value => ((path, value) :: pairs, sections)
    | .tableHeader path => ([], { isItem := false, path, pairs } :: sections)
    | .itemHeader path => ([], { isItem := true, path, pairs } :: sections)

/-- Adds a section to a document. -/
def TomlEntries.addSection (es : TomlEntries) (s : TomlSection) : Option TomlEntries :=
  match s.path.getLast? with
  | none => none
  | some k =>
    let place := if s.isItem then placeItem else placeTable
    changeAt (place s.pairs k) s.path.dropLast es

/-- **The table of a document's lines.** -/
def TomlEntries.ofLines? (lines : List TomlLine) : Option TomlEntries := do
  let (pairs, sections) := TomlSection.split lines
  sections.foldlM TomlEntries.addSection (← TomlEntries.insertAll pairs [])

end CssResources
