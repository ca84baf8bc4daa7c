import AtomicCss.Batch.Render
import AtomicCss.Batch.Run
import AtomicCss.Breakpoint
import AtomicCss.Cascade
import AtomicCss.Catalog
import AtomicCss.Clause
import AtomicCss.CommandLine.Arguments
import AtomicCss.CommandLine.Report
import AtomicCss.CommandLine.Run
import AtomicCss.Config.Basic
import AtomicCss.Config.Builtin
import AtomicCss.Config.Decode
import AtomicCss.Declarations.Basic
import AtomicCss.Declarations.Layers
import AtomicCss.Declarations.Payload
import AtomicCss.Error
import AtomicCss.Json.Basic
import AtomicCss.Json.Lexeme
import AtomicCss.Json.Reader
import AtomicCss.Main
import AtomicCss.Markup
import AtomicCss.Number.Binary64
import AtomicCss.Number.Shortest
import AtomicCss.OrderedMap
import AtomicCss.Override
import AtomicCss.Proofs.Batch.Deciding
import AtomicCss.Proofs.Batch.Emission
import AtomicCss.Proofs.Batch.Gathered
import AtomicCss.Proofs.Batch.Pass
import AtomicCss.Proofs.Cascade
import AtomicCss.Proofs.Catalog.Construction
import AtomicCss.Proofs.Catalog.Stacking
import AtomicCss.Proofs.Clause
import AtomicCss.Proofs.Config
import AtomicCss.Proofs.Declarations
import AtomicCss.Proofs.Layers
import AtomicCss.Proofs.Merging
import AtomicCss.Proofs.OrderedMap
import AtomicCss.Proofs.Renaming
import AtomicCss.Proofs.RightToLeft.Catalog
import AtomicCss.Proofs.RightToLeft.Offsets
import AtomicCss.Proofs.RightToLeft.Resolution
import AtomicCss.Proofs.RightToLeft.Sides
import AtomicCss.Proofs.RuleStore
import AtomicCss.Proofs.RuleStore.Log
import AtomicCss.Proofs.RuleStore.Recognition
import AtomicCss.Proofs.Session.Batching
import AtomicCss.Proofs.Session.Chronicle
import AtomicCss.Proofs.Session.Consistency
import AtomicCss.Proofs.Session.Deduplication
import AtomicCss.Proofs.Session.EffectiveStyle
import AtomicCss.Proofs.Session.EventLog
import AtomicCss.Proofs.Session.Failure
import AtomicCss.Proofs.Session.Isolation
import AtomicCss.Proofs.Session.Numbering
import AtomicCss.Proofs.Session.Operation
import AtomicCss.Proofs.Session.Partition
import AtomicCss.Proofs.Session.Queue
import AtomicCss.Proofs.Session.Repetition
import AtomicCss.Proofs.Session.Restart
import AtomicCss.Proofs.Session.Running
import AtomicCss.Proofs.Sheet
import AtomicCss.Proofs.Text.Substitution
import AtomicCss.Proofs.Token.Overrides
import AtomicCss.Proofs.Token.Precedence
import AtomicCss.Proofs.Token.Settling
import AtomicCss.Proofs.Token.Spelling
import AtomicCss.RightToLeft.Catalog
import AtomicCss.RightToLeft.Text
import AtomicCss.RuleStore
import AtomicCss.Selector.Build
import AtomicCss.Selector.Escape
import AtomicCss.Selector.Qualifier
import AtomicCss.Session.Basic
import AtomicCss.Session.Run
import AtomicCss.Session.Setup
import AtomicCss.Sheet
import AtomicCss.Signal
import AtomicCss.Text.Blank
import AtomicCss.Text.Search
import AtomicCss.Token.Basic
import AtomicCss.Token.Reader
import AtomicCss.Proofs.Batch.Reordering
import AtomicCss.Proofs.Token.Reading
import AtomicCss.Proofs.Token.Identifier
import AtomicCss.Proofs.Selector.ClassName
import AtomicCss.Proofs.Selector.Quoted
import AtomicCss.Proofs.Selector.Grammar
import AtomicCss.Proofs.Token.Default
import AtomicCss.Proofs.OrderedMap.Listing
import AtomicCss.Proofs.Batch.Competition
import AtomicCss.Proofs.Session.Inertness
import AtomicCss.Proofs.Catalog.Overrides
import AtomicCss.Proofs.Token.Literal
import AtomicCss.Proofs.Declarations.LastWriter
import AtomicCss.Proofs.Token.Winners
import AtomicCss.Proofs.Batch.Importance
import AtomicCss.Proofs.Selector.Entries
import AtomicCss.Proofs.Cascade.Construction
import AtomicCss.Proofs.Markup
import AtomicCss.Proofs.Catalog.Overlay
import AtomicCss.Proofs.RightToLeft.Decimal
import AtomicCss.Proofs.RightToLeft.Translations
import AtomicCss.Proofs.Clause.Scan
import AtomicCss.Proofs.CommandLine
import AtomicCss.Proofs.Session.Delivery
import AtomicCss.Proofs.Session.Lifecycle
