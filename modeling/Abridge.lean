import Abridge.Address
import Abridge.Binary64
import Abridge.Binary64.Shortest
import Abridge.Binary64.Text
import Abridge.Complex
import Abridge.Complex.Json
import Abridge.Derive.Attribute
import Abridge.Derive.Code
import Abridge.Derive.Definition
import Abridge.Derive.Entry
import Abridge.Derive.Fault
import Abridge.Derive.Lexeme
import Abridge.Derive.Literal
import Abridge.Derive.Plan
import Abridge.Derive.Present
import Abridge.Derive.Rename
import Abridge.Derive.Serializer
import Abridge.Derive.Serializer.Keys
import Abridge.Derive.Similar
import Abridge.Derive.Syntax.Attribute
import Abridge.Derive.Syntax.Expression
import Abridge.Derive.Syntax.Generic
import Abridge.Derive.Syntax.Grammar
import Abridge.Derive.Syntax.Item
import Abridge.Derive.Syntax.Member
import Abridge.Derive.Syntax.Operator
import Abridge.Derive.Syntax.Pattern
import Abridge.Derive.Syntax.Production
import Abridge.Derive.Syntax.Reading
import Abridge.Derive.Syntax.Statement
import Abridge.Derive.Syntax.Type
import Abridge.Derive.Token
import Abridge.Descriptor
import Abridge.Entries
import Abridge.Event
import Abridge.Fault
import Abridge.Json
import Abridge.Json.Decode
import Abridge.Json.Reader
import Abridge.Policy
import Abridge.Policy.Json
import Abridge.Proofs.Ascii
import Abridge.Proofs.Attributes
import Abridge.Proofs.Below
import Abridge.Proofs.Bindings
import Abridge.Proofs.Brackets
import Abridge.Proofs.Bytes
import Abridge.Proofs.Caseless
import Abridge.Proofs.Composed
import Abridge.Proofs.Contained
import Abridge.Proofs.Contents
import Abridge.Proofs.Conventions
import Abridge.Proofs.CutOff
import Abridge.Proofs.Distinct
import Abridge.Proofs.Document
import Abridge.Proofs.Ellipsis
import Abridge.Proofs.Emitted
import Abridge.Proofs.Ensures
import Abridge.Proofs.Entries
import Abridge.Proofs.Exclusion
import Abridge.Proofs.Folded
import Abridge.Proofs.Generated
import Abridge.Proofs.Granted
import Abridge.Proofs.Headers
import Abridge.Proofs.Hidden
import Abridge.Proofs.Implementations
import Abridge.Proofs.ItemLists
import Abridge.Proofs.Items
import Abridge.Proofs.Kept
import Abridge.Proofs.Keys
import Abridge.Proofs.LastWrites
import Abridge.Proofs.Legible
import Abridge.Proofs.Level
import Abridge.Proofs.Limits
import Abridge.Proofs.Literals
import Abridge.Proofs.Log
import Abridge.Proofs.Looser
import Abridge.Proofs.Lossless
import Abridge.Proofs.Lowering
import Abridge.Proofs.MapKeys
import Abridge.Proofs.Naming
import Abridge.Proofs.Nesting
import Abridge.Proofs.NormalForm
import Abridge.Proofs.Order
import Abridge.Proofs.Origins
import Abridge.Proofs.Outcome
import Abridge.Proofs.Overwritten
import Abridge.Proofs.Paired
import Abridge.Proofs.Panics
import Abridge.Proofs.ParameterTokens
import Abridge.Proofs.Parts
import Abridge.Proofs.PathTokens
import Abridge.Proofs.Readable
import Abridge.Proofs.Readings
import Abridge.Proofs.Records
import Abridge.Proofs.Rejected
import Abridge.Proofs.Renderings
import Abridge.Proofs.Replaced
import Abridge.Proofs.Room
import Abridge.Proofs.Saturation
import Abridge.Proofs.Segments
import Abridge.Proofs.Serializer
import Abridge.Proofs.Sessions
import Abridge.Proofs.Shuffled
import Abridge.Proofs.Sizes
import Abridge.Proofs.Snake
import Abridge.Proofs.Stable
import Abridge.Proofs.Structs
import Abridge.Proofs.Texts
import Abridge.Proofs.TypeTokens
import Abridge.Proofs.Values
import Abridge.Proofs.Variants
import Abridge.Proofs.WellFormed
import Abridge.Proofs.WholeNumbers
import Abridge.Proofs.Words
import Abridge.Proofs.Wrapped
import Abridge.Report
import Abridge.Sampling
import Abridge.Text.Case
import Abridge.Text.CaseTable
import Abridge.Text.Character
import Abridge.Text.Cluster
import Abridge.Text.ClusterTable
import Abridge.Text.Limit
import Abridge.Text.Quoted
import Abridge.Text.Utf8
import Abridge.Time.Span
import Abridge.Time.Stamp
import Abridge.Traffic
import Abridge.Traffic.Recorder
import Abridge.Tree
import Abridge.Trim
import Abridge.Value
import Abridge.Value.Inspect
import Abridge.Value.Standard
