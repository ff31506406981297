import Crosswalk.Accepted
import Crosswalk.Config
import Crosswalk.Date.Calendar
import Crosswalk.Date.Pattern
import Crosswalk.Date.Reading
import Crosswalk.Document
import Crosswalk.Entity
import Crosswalk.Entries
import Crosswalk.Error
import Crosswalk.Expression.Basic
import Crosswalk.Expression.Parser
import Crosswalk.Expression.Printer
import Crosswalk.Json.Basic
import Crosswalk.Json.Canonical
import Crosswalk.Json.Double
import Crosswalk.Json.Form
import Crosswalk.Json.Numeral
import Crosswalk.Json.Parser
import Crosswalk.Json.Printer
import Crosswalk.Json.Quoted
import Crosswalk.Json.Token
import Crosswalk.Mapping
import Crosswalk.Marc.Exchange
import Crosswalk.Marc.Record
import Crosswalk.Marc.Stored
import Crosswalk.Parameters
import Crosswalk.Path
import Crosswalk.Reading.Clause
import Crosswalk.Reading.Items
import Crosswalk.Reading.Rule
import Crosswalk.Reading.Setting
import Crosswalk.Rule.Basic
import Crosswalk.Rule.Form
import Crosswalk.Text.Ascii
import Crosswalk.Text.Blank
import Crosswalk.Text.Digit
import Crosswalk.Value
import Crosswalk.Zone
import Crosswalk.Proofs.Entries
import Crosswalk.Proofs.FailedWrite
import Crosswalk.Proofs.Frame
import Crosswalk.Proofs.KeyOrder
import Crosswalk.Proofs.Success
import Crosswalk.Proofs.Removal
import Crosswalk.Proofs.FirstAppearance
import Crosswalk.Proofs.Grouping
import Crosswalk.Proofs.Merging
import Crosswalk.Proofs.Fields
import Crosswalk.Proofs.Pruning
import Crosswalk.Proofs.Positions
import Crosswalk.Proofs.Faults
import Crosswalk.Proofs.FillingUp
import Crosswalk.Proofs.Trimming
import Crosswalk.Proofs.Destinations
import Crosswalk.Proofs.SingleOccurrence
import Crosswalk.Proofs.SingleValues
import Crosswalk.Proofs.Occurrences
import Crosswalk.Proofs.Grammar
import Crosswalk.Proofs.TokenForms
import Crosswalk.Proofs.Marking
import Crosswalk.Proofs.Language
import Crosswalk.Proofs.OccurrenceRuns
import Crosswalk.Proofs.SourcedItems
import Crosswalk.Proofs.GroupingFields
import Crosswalk.Proofs.FirstFields
import Crosswalk.Proofs.CleanValues
import Crosswalk.Proofs.NormalForm
import Crosswalk.Proofs.CleanDocuments
import Crosswalk.Proofs.CleanRuns
import Crosswalk.Proofs.Steps
import Crosswalk.Proofs.Containment
import Crosswalk.Proofs.NamedTags
import Crosswalk.Proofs.Deeds
import Crosswalk.Proofs.Outline
import Crosswalk.Proofs.RuleOrder
import Crosswalk.Proofs.Replay
import Crosswalk.Proofs.FanOut
import Crosswalk.Proofs.ListsOfOne
import Crosswalk.Proofs.Exchange
import Crosswalk.Proofs.WrittenTokens
import Crosswalk.Proofs.WrittenValues
import Crosswalk.Proofs.Forms
import Crosswalk.Proofs.StoredRules
import Crosswalk.Proofs.StoredForms
import Crosswalk.Proofs.Fallback
import Crosswalk.Proofs.Deletion
import Crosswalk.Proofs.Spreading
import Crosswalk.Proofs.SeparateGroups
import Crosswalk.Proofs.PathGrammar
import Crosswalk.Proofs.ReferenceTables
import Crosswalk.Proofs.StrictFields
import Crosswalk.Proofs.SuccessiveWrites
import Crosswalk.Proofs.Invariants
import Crosswalk.Proofs.Reloading
import Crosswalk.Proofs.CanonicalForms
import Crosswalk.Proofs.IsoDates
import Crosswalk.Proofs.StableTransforms
