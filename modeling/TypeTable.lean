import TypeTable.Cli.Arguments
import TypeTable.Cli.Printing
import TypeTable.Cli.Run
import TypeTable.Decimal.Binary64
import TypeTable.Decimal.Layout
import TypeTable.Decimal.Numeral
import TypeTable.Decimal.Ratio
import TypeTable.Decimal.Shortest
import TypeTable.Definition.Basic
import TypeTable.Definition.Dump
import TypeTable.Definition.Equality
import TypeTable.Definition.Fields
import TypeTable.Definition.Reading
import TypeTable.Failure
import TypeTable.Fault
import TypeTable.Json.Basic
import TypeTable.Kind
import TypeTable.Log.Event
import TypeTable.Log.Filter
import TypeTable.Log.Traced
import TypeTable.Main
import TypeTable.Proofs.Cli.Agreement
import TypeTable.Proofs.Cli.Dump
import TypeTable.Proofs.Cli.Listing
import TypeTable.Proofs.Cli.Printing
import TypeTable.Proofs.Correspondence
import TypeTable.Proofs.Definition.Bare
import TypeTable.Proofs.Definition.Children
import TypeTable.Proofs.Definition.Distinct
import TypeTable.Proofs.Definition.Dump
import TypeTable.Proofs.Definition.Equality
import TypeTable.Proofs.Definition.Events
import TypeTable.Proofs.Definition.Faults
import TypeTable.Proofs.Definition.FieldKeys
import TypeTable.Proofs.Definition.Fields
import TypeTable.Proofs.Definition.Grammar
import TypeTable.Proofs.Definition.ListedTexts
import TypeTable.Proofs.Definition.Naming
import TypeTable.Proofs.Definition.Order
import TypeTable.Proofs.Definition.Paths
import TypeTable.Proofs.Definition.Places
import TypeTable.Proofs.Definition.Precedence
import TypeTable.Proofs.Definition.Properties
import TypeTable.Proofs.Definition.PropertyNames
import TypeTable.Proofs.Definition.Reading
import TypeTable.Proofs.Definition.Reword
import TypeTable.Proofs.Definition.StatedKind
import TypeTable.Proofs.Definition.WellFormed
import TypeTable.Proofs.Definition.Writing
import TypeTable.Proofs.Json.Compact
import TypeTable.Proofs.Json.Spread
import TypeTable.Proofs.Log.Filter
import TypeTable.Proofs.Log.Outcome
import TypeTable.Proofs.Table.Bare
import TypeTable.Proofs.Table.Composition
import TypeTable.Proofs.Table.Distinct
import TypeTable.Proofs.Table.Dump
import TypeTable.Proofs.Table.Equality
import TypeTable.Proofs.Table.Events
import TypeTable.Proofs.Table.Faults
import TypeTable.Proofs.Table.Grammar
import TypeTable.Proofs.Table.Image
import TypeTable.Proofs.Table.Insertion
import TypeTable.Proofs.Table.Order
import TypeTable.Proofs.Table.Reading
import TypeTable.Proofs.Table.References
import TypeTable.Proofs.Table.Renaming
import TypeTable.Proofs.Table.Reword
import TypeTable.Proofs.Tree.Bare
import TypeTable.Proofs.Tree.Change
import TypeTable.Proofs.Tree.Equality
import TypeTable.Proofs.Tree.Keys
import TypeTable.Proofs.Tree.Reword
import TypeTable.Proofs.Tree.Views
import TypeTable.Spelling
import TypeTable.Table.Basic
import TypeTable.Table.Loading
import TypeTable.Table.Reading
import TypeTable.Table.References
import TypeTable.Text.Blank
import TypeTable.Tree.Basic
import TypeTable.Tree.Equality
import TypeTable.Yaml.Cursor
import TypeTable.Yaml.Document
import TypeTable.Yaml.Error
import TypeTable.Yaml.Node.Basic
import TypeTable.Yaml.Node.Grammar
import TypeTable.Yaml.Resolve
import TypeTable.Yaml.Token.Basic
import TypeTable.Yaml.Token.Block
import TypeTable.Yaml.Token.Plain
import TypeTable.Yaml.Token.Property
import TypeTable.Yaml.Token.Quoted
import TypeTable.Yaml.Token.Scan
