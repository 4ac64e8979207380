import TaskGrammar.CommandLine.Options
import TaskGrammar.CommandLine.Run
import TaskGrammar.Dialogue
import TaskGrammar.Entity.Basic
import TaskGrammar.Entity.Dataset
import TaskGrammar.Entity.Entities
import TaskGrammar.Entity.Source
import TaskGrammar.Expansion
import TaskGrammar.Fault
import TaskGrammar.Generator
import TaskGrammar.Grammar.Basic
import TaskGrammar.Grammar.Lint
import TaskGrammar.Grammar.Source
import TaskGrammar.Json.Token
import TaskGrammar.Json.Value
import TaskGrammar.Main
import TaskGrammar.Markup.Attribute
import TaskGrammar.Markup.Namespace
import TaskGrammar.Markup.Node
import TaskGrammar.Markup.Reading
import TaskGrammar.Markup.Record
import TaskGrammar.Markup.Reference
import TaskGrammar.Markup.Token
import TaskGrammar.Markup.Writer
import TaskGrammar.Proofs.CommandLine.Agreement
import TaskGrammar.Proofs.Dialogue.IdleRequests
import TaskGrammar.Proofs.Dialogue.Lines
import TaskGrammar.Proofs.Dialogue.ReadBack
import TaskGrammar.Proofs.Dialogue.SharedValue
import TaskGrammar.Proofs.Dialogue.Streams
import TaskGrammar.Proofs.Entity.Built
import TaskGrammar.Proofs.Entity.Files
import TaskGrammar.Proofs.Entity.Index
import TaskGrammar.Proofs.Entity.Places
import TaskGrammar.Proofs.Expansion.Characters
import TaskGrammar.Proofs.Expansion.Completeness
import TaskGrammar.Proofs.Expansion.Derivation
import TaskGrammar.Proofs.Expansion.Equations
import TaskGrammar.Proofs.Expansion.Faults
import TaskGrammar.Proofs.Expansion.Limit
import TaskGrammar.Proofs.Expansion.Locality
import TaskGrammar.Proofs.Expansion.PlainSentences
import TaskGrammar.Proofs.Expansion.Success
import TaskGrammar.Proofs.Expansion.Tree
import TaskGrammar.Proofs.Expansion.Walk
import TaskGrammar.Proofs.Generator.Fairness
import TaskGrammar.Proofs.Generator.Selection
import TaskGrammar.Proofs.Grammar.Additions
import TaskGrammar.Proofs.Grammar.Alternatives
import TaskGrammar.Proofs.Grammar.Bars
import TaskGrammar.Proofs.Grammar.CycleSearch
import TaskGrammar.Proofs.Grammar.Forms
import TaskGrammar.Proofs.Grammar.Layout
import TaskGrammar.Proofs.Grammar.Outcome
import TaskGrammar.Proofs.Grammar.Parsed
import TaskGrammar.Proofs.Grammar.Printing
import TaskGrammar.Proofs.Grammar.Problems
import TaskGrammar.Proofs.Grammar.Reachability
import TaskGrammar.Proofs.Grammar.ReservedIds
import TaskGrammar.Proofs.Grammar.Splitting
import TaskGrammar.Proofs.Grammar.Table
import TaskGrammar.Proofs.Markup.Blanks
import TaskGrammar.Proofs.Markup.Children
import TaskGrammar.Proofs.Markup.Elements
import TaskGrammar.Proofs.Markup.Escapes
import TaskGrammar.Proofs.Markup.PlainReading
import TaskGrammar.Proofs.Markup.Records
import TaskGrammar.Proofs.Markup.Tags
import TaskGrammar.Proofs.Markup.Tree
import TaskGrammar.Proofs.Random.Draws
import TaskGrammar.Proofs.Random.Rolls
import TaskGrammar.Proofs.Random.Steering
import TaskGrammar.Proofs.Speech.Atomicity
import TaskGrammar.Proofs.Speech.Categories
import TaskGrammar.Proofs.Speech.Completeness
import TaskGrammar.Proofs.Speech.Content
import TaskGrammar.Proofs.Speech.Conversion
import TaskGrammar.Proofs.Speech.CrossReferences
import TaskGrammar.Proofs.Speech.Derivation
import TaskGrammar.Proofs.Speech.Lists
import TaskGrammar.Proofs.Speech.Publication
import TaskGrammar.Proofs.Speech.ReadBack
import TaskGrammar.Proofs.Speech.Reading
import TaskGrammar.Proofs.Speech.RuleIds
import TaskGrammar.Proofs.Speech.Signs
import TaskGrammar.Proofs.Speech.Wildcards
import TaskGrammar.Proofs.Storage.Changes
import TaskGrammar.Proofs.Storage.Failures
import TaskGrammar.Proofs.Storage.Listing
import TaskGrammar.Proofs.Task.Grouping
import TaskGrammar.Proofs.Task.Report
import TaskGrammar.Proofs.Template.Boundaries
import TaskGrammar.Proofs.Template.Cursor
import TaskGrammar.Proofs.Template.Keys
import TaskGrammar.Proofs.Template.Notation
import TaskGrammar.Proofs.Template.Remark
import TaskGrammar.Proofs.Template.Scanning
import TaskGrammar.Proofs.Text.Lines
import TaskGrammar.Proofs.Text.Order
import TaskGrammar.Proofs.Text.Positions
import TaskGrammar.Random.Keystream
import TaskGrammar.Random.Script
import TaskGrammar.Random.Source
import TaskGrammar.Settings
import TaskGrammar.Speech.Conversion
import TaskGrammar.Speech.Document
import TaskGrammar.Speech.Publication
import TaskGrammar.Storage.Basic
import TaskGrammar.Storage.FileTree
import TaskGrammar.Storage.Library
import TaskGrammar.Task
import TaskGrammar.Template.Segment
import TaskGrammar.Template.Wildcard
import TaskGrammar.Text.Basic
import TaskGrammar.Text.Printable
import TaskGrammar.Text.Quoted
import TaskGrammar.Tier
