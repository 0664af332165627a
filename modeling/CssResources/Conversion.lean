import CssResources.Resource.Document
import CssResources.Session
import CssResources.Stylesheet.Reading

/-!
# Conversion

The whole way from the text of a stylesheet to the document of its resources. Every text
is converted; what could not be is listed among the diagnostics, those of reading first.
-/

namespace CssResources

/-- **Counts and sizes of a conversion.** -/
structure Statistics where
  /-- The bytes of the stylesheet. -/
  sourceSize : Nat
  /-- The bytes of the document. -/
  outputSize : Nat
  /-- The rules read. -/
  ruleCount : Nat
  /-- The styles written. -/
  styleCount : Nat
  /-- The items of all styles. -/
  itemCount : Nat
  /-- The colors written. -/
  colorCount : Nat
  /-- The custom properties defined. -/
  customPropertyCount : Nat
  /-- The items and colors written inside comments. -/
  unresolvedCount : Nat
  /-- The diagnostics. -/
  diagnosticCount : Nat
  deriving DecidableEq, Repr

/-- The statistics by name, in the order in which they are written. -/
def Statistics.fields (s : Statistics) : List (Text × Nat) :=
  [("source_size".toList, s.sourceSize), ("output_size".toList, s.outputSize),
   ("rule_count".toList, s.ruleCount), ("style_count".toList, s.styleCount),
   ("item_count".toList, s.itemCount), ("color_count".toList, s.colorCount),
   ("custom_property_count".toList, s.customPropertyCount),
   ("unresolved_count".toList, s.unresolvedCount),
   ("diagnostic_count".toList, s.diagnosticCount)]

/-- **A conversion.** -/
structure Conversion where
  /-- The document. -/
  document : Text
  /-- The styles in the document. -/
  styles : List Style
  /-- The colors in the document. -/
  colors : List ColorResource
  /-- The diagnostics of reading, then those of converting. -/
  diagnostics : List Diagnostic
  /-- Counts and sizes. -/
  statistics : Statistics

/-- The document of what was gathered. -/
def Gathered.document (mode : Mode) (g : Gathered) : Text :=
  match mode with
  | .styles => stylesDocument g.styles
  | .colors => colorsDocument g.colors

/-- **Converts a stylesheet.** -/
def convert (options : Options) (source : Text) : Conversion :=
  let sheet := Stylesheet.ofText source
  let gathered := gather options sheet.rules
  let document := gathered.document options.mode
  let items := gathered.styles.flatMap Style.items
  let diagnostics := sheet.diagnostics ++ gathered.diagnostics
  { document
    styles := gathered.styles
    colors := gathered.colors
    diagnostics
    statistics :=
      { sourceSize := utf8Size source
        outputSize := utf8Size document
        ruleCount := sheet.rules.length
        styleCount := gathered.styles.length
        itemCount := items.length
        colorCount := gathered.colors.length
        customPropertyCount := gathered.table.size
        unresolvedCount :=
          items.countP Item.commented + gathered.colors.countP ColorResource.commented
        diagnosticCount := diagnostics.length } }

end CssResources
