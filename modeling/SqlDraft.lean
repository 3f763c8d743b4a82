import SqlDraft.Program.Trace
import SqlDraft.Program.Vocabulary
import SqlDraft.Store.Script
import SqlDraft.Proofs.Store.Forest
import SqlDraft.Proofs.Store.Linking
import SqlDraft.Proofs.Store.Growing
import SqlDraft.Proofs.Store.Detaching
import SqlDraft.Proofs.Store.Erasing
import SqlDraft.Proofs.Sketch.Tree
import SqlDraft.Proofs.Sketch.Drawn
import SqlDraft.Proofs.Sketch.Outline
import SqlDraft.Proofs.Store.Ranks
import SqlDraft.Proofs.Sketch.Clauses
import SqlDraft.Proofs.Sketch.Sketched
import SqlDraft.Proofs.Sketch.Growing
import SqlDraft.Proofs.Sketch.Columns
import SqlDraft.Proofs.Sketch.Sources
import SqlDraft.Proofs.Sketch.Names
import SqlDraft.Proofs.Sketch.Removals
import SqlDraft.Proofs.Sketch.Limits
import SqlDraft.Proofs.Sketch.Conditions
import SqlDraft.Proofs.Sketch.Opening
import SqlDraft.Proofs.Sketch.Closing
import SqlDraft.Proofs.Run.Moves
import SqlDraft.Proofs.Run.Story
import SqlDraft.Proofs.Run.Record
import SqlDraft.Proofs.Run.Reports
import SqlDraft.Proofs.Run.Kept
import SqlDraft.Proofs.Run.OneTree
import SqlDraft.Proofs.Run.Handles
import SqlDraft.Proofs.Run.ClauseOrder
import SqlDraft.Proofs.Text.Words
import SqlDraft.Proofs.Text.Rows
import SqlDraft.Proofs.Run.Conditions
import SqlDraft.Proofs.Run.Refusals
import SqlDraft.Proofs.Store.Nesting
import SqlDraft.Proofs.Store.Overwriting
import SqlDraft.Proofs.Store.Replacing
import SqlDraft.Proofs.Sketch.Plain
import SqlDraft.Proofs.Run.Parentheses
import SqlDraft.Proofs.Sheet.Basic
import SqlDraft.Proofs.Sheet.Saying
import SqlDraft.Proofs.Sheet.Frames
import SqlDraft.Proofs.Sheet.Drawing
import SqlDraft.Proofs.Sheet.Edits
import SqlDraft.Proofs.Sheet.Openings
import SqlDraft.Proofs.Sheet.Programs
import SqlDraft.Proofs.Sheet.Text
import SqlDraft.Proofs.Run.Nested
import SqlDraft.Proofs.Sheet.Failing
import SqlDraft.Proofs.Sheet.Regions
import SqlDraft.Proofs.Sheet.Passing
import SqlDraft.Proofs.Sheet.Blocks
import SqlDraft.Proofs.Sheet.Inside
import SqlDraft.Proofs.Run.Reordering
import SqlDraft.Proofs.Run.Unwinding
import SqlDraft.Proofs.Run.StartingOver
import SqlDraft.Proofs.Store.Tidy
import SqlDraft.Proofs.Store.Layout
import SqlDraft.Proofs.Store.ListOperations
import SqlDraft.Proofs.Store.Refinement
import SqlDraft.Proofs.Store.Within
import SqlDraft.Proofs.Run.Tending
import SqlDraft.Proofs.Run.Locality
import SqlDraft.Proofs.Run.Tokens
import SqlDraft.Proofs.Sheet.Telling
import SqlDraft.Proofs.Run.Diary
import SqlDraft.Proofs.Run.Paging
import SqlDraft.Proofs.Run.Lists
import SqlDraft.Proofs.Run.Commands
import SqlDraft.Proofs.Run.Rendering
import SqlDraft.Proofs.Run.Dialects
import SqlDraft.Proofs.Run.LastEdit
import SqlDraft.Proofs.Run.Chronicle
import SqlDraft.Proofs.Run.Recounting
import SqlDraft.Proofs.Store.Extending
import SqlDraft.Proofs.Run.Attaching
import SqlDraft.Proofs.Run.Invariants
import SqlDraft.Proofs.Run.Joining
import SqlDraft.Proofs.Run.LatestJoin
import SqlDraft.Proofs.Run.Naming
import SqlDraft.Proofs.Run.LatestName
import SqlDraft.Proofs.Template.Grammar
import SqlDraft.Proofs.Template.Offsets
import SqlDraft.Proofs.Template.Expansion
import SqlDraft.Proofs.Run.SortingDown
import SqlDraft.Proofs.Store.Discarding
import SqlDraft.Proofs.Store.Accounting
import SqlDraft.Proofs.Store.Placing
import SqlDraft.Proofs.Template.Recognition
import SqlDraft.Proofs.Json.Grammar
import SqlDraft.Proofs.Json.Scanning
import SqlDraft.Proofs.Json.Reading
import SqlDraft.Proofs.Json.Writing
import SqlDraft.Proofs.Settings.Listing
import SqlDraft.Proofs.Value.Decoding
import SqlDraft.Proofs.Store.Tangles
