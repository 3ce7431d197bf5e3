import Schemata.Logged
import Schemata.Text.UpperCase
import Schemata.Script.Batch
import Schemata.Model.Primitive
import Schemata.Model.Identity
import Schemata.Model.Description
import Schemata.Document.Resolve
import Schemata.RecordClass.Convert
import Schemata.Schema.Dependency
import Schemata.Relationship.Basic
import Schemata.Schema.Options
import Schemata.Schema.Derivation
import Schemata.Schema.Definition
import Schemata.Schema.Key
import Schemata.Schema.TableType
import Schemata.Procedure.Basic
import Schemata.Script.Schema
import Schemata.Report.Database
import Schemata.Report.Reading
import Schemata.Decimal.Shortest
import Schemata.Proofs.Digraph.Cycle
import Schemata.Proofs.Digraph.Order
import Schemata.Proofs.Schema.TableOrder
import Schemata.Proofs.Database
import Schemata.Proofs.Document.AttributeIds
import Schemata.Proofs.Faults
import Schemata.Proofs.Model.Loaded
import Schemata.Proofs.Procedure.ById
import Schemata.Proofs.Procedure.Insertion
import Schemata.Proofs.Procedure.Kept
import Schemata.Proofs.Procedure.Listed
import Schemata.Proofs.Procedure.Nullable
import Schemata.Proofs.Procedure.ParameterOrder
import Schemata.Proofs.Procedure.Rendered
import Schemata.Proofs.Procedure.ResultNames
import Schemata.Proofs.RecordClass.Layers
import Schemata.Proofs.RecordClass.Reachable
import Schemata.Proofs.Relationship.Convention
import Schemata.Proofs.Relationship.Grouped
import Schemata.Proofs.Relationship.Realized
import Schemata.Proofs.Schema.ColumnTypes
import Schemata.Proofs.Schema.ForeignKeys
import Schemata.Proofs.Schema.GivenColumns
import Schemata.Proofs.Schema.KeyNames
import Schemata.Proofs.Schema.Layout
import Schemata.Proofs.Schema.PrimaryColumns
import Schemata.Proofs.Schema.PrincipalKeys
import Schemata.Proofs.Schema.Narrowed
import Schemata.Proofs.Schema.Rearranged
import Schemata.Proofs.Schema.Selection
import Schemata.Proofs.Schema.SortedTables
import Schemata.Proofs.Schema.TableCycles
import Schemata.Proofs.Script.Batches
import Schemata.Proofs.Text.Quoted
import Schemata.Proofs.Procedure.Signature
import Schemata.Proofs.Script.Guards
import Schemata.Proofs.Schema.ValueTypes
