import CssResources.Disk
import CssResources.Main
import CssResources.Proofs.Variable.Budget
import CssResources.Proofs.Variable.PlainExpansion
import CssResources.Proofs.Session.AttributeMerge
import CssResources.Proofs.Session.Unresolved
import CssResources.Proofs.Stylesheet.Writing
import CssResources.Proofs.Markup.Document
import CssResources.Proofs.Stylesheet.Lines
import CssResources.Proofs.Stylesheet.Concatenation
import CssResources.Proofs.Stylesheet.LooseDeclarations
import CssResources.Proofs.Stylesheet.AtRules
import CssResources.Proofs.Session.Lines
import CssResources.Proofs.Variable.Tokens
import CssResources.Proofs.Stylesheet.Definitions
import CssResources.Proofs.Session.Predefined
import CssResources.Proofs.Stylesheet.NestedRules
import CssResources.Proofs.ResourceName
import CssResources.Proofs.Session.ColorNames
import CssResources.Proofs.Selector
import CssResources.Proofs.Session.StyleNames
import CssResources.Proofs.Session.Characters
import CssResources.Proofs.CommandLine.Run
import CssResources.Proofs.Stylesheet.Places
import CssResources.Proofs.Markup.Counting
import CssResources.Proofs.Variable.Cycles
import CssResources.Proofs.Value.Markers
import CssResources.Proofs.Session.Keywords
import CssResources.Proofs.Session.SelectorGroups
import CssResources.Proofs.Variable.Dependence
import CssResources.Proofs.Variable.Limit
import CssResources.Proofs.Variable.Spelling
import CssResources.Proofs.Variable.Kept
import CssResources.Proofs.Variable.Naming
import CssResources.Proofs.Stylesheet.Shape
import CssResources.Proofs.Stylesheet.OpenEnds
import CssResources.Proofs.Stylesheet.QuotedValues
import CssResources.Proofs.Property.TextColor
import CssResources.Proofs.Property.Shorthand
import CssResources.Proofs.Selector.Grammar
import CssResources.Proofs.Property.Blank
import CssResources.Proofs.Session.EmptyValues
import CssResources.Proofs.Session.ResourceNames
import CssResources.Proofs.Value.Stripping
import CssResources.Proofs.Property.Opacity
import CssResources.Proofs.CommandLine.Order
import CssResources.Proofs.Checked
import CssResources.Proofs.Variable.IndexedTable
import CssResources.Proofs.Value.TokenSpans
import CssResources.Proofs.Variable.ReferenceOffsets
import CssResources.Proofs.Stylesheet.BlockReaders
import CssResources.Proofs.Stylesheet.CommentedText
