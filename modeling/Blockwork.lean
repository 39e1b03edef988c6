import Blockwork.Archive
import Blockwork.Change
import Blockwork.Check
import Blockwork.Colour.Hsv
import Blockwork.Colour.Rgb
import Blockwork.Colour.Shade
import Blockwork.Compile.Basic
import Blockwork.Compile.Names
import Blockwork.Compile.Precedence
import Blockwork.Compile.Stock
import Blockwork.Declaration.Basic
import Blockwork.Declaration.Socket
import Blockwork.Declaration.Template
import Blockwork.Display
import Blockwork.Entries
import Blockwork.Entries.Cells
import Blockwork.Error
import Blockwork.Highlight
import Blockwork.Json.Reader
import Blockwork.Json.Writer
import Blockwork.Key
import Blockwork.Number
import Blockwork.Number.Binary64
import Blockwork.Number.Decimal
import Blockwork.Program.Basic
import Blockwork.Program.Expr
import Blockwork.Proofs.Answering
import Blockwork.Proofs.Awaiting
import Blockwork.Proofs.Blocks
import Blockwork.Proofs.Compiling
import Blockwork.Proofs.Connecting
import Blockwork.Proofs.Contents
import Blockwork.Proofs.Copying
import Blockwork.Proofs.Creating
import Blockwork.Proofs.Deleting
import Blockwork.Proofs.Drafting
import Blockwork.Proofs.Emptying
import Blockwork.Proofs.Faults
import Blockwork.Proofs.Forest
import Blockwork.Proofs.Fragments
import Blockwork.Proofs.Growing
import Blockwork.Proofs.Highlighting
import Blockwork.Proofs.History
import Blockwork.Proofs.Intact
import Blockwork.Proofs.Lasting
import Blockwork.Proofs.Linking
import Blockwork.Proofs.Loading
import Blockwork.Proofs.Magnitudes
import Blockwork.Proofs.Matching
import Blockwork.Proofs.Merging
import Blockwork.Proofs.Mirroring
import Blockwork.Proofs.Naming
import Blockwork.Proofs.Numerals
import Blockwork.Proofs.Outcome
import Blockwork.Proofs.Outlining
import Blockwork.Proofs.Overtaking
import Blockwork.Proofs.Plain
import Blockwork.Proofs.Reading
import Blockwork.Proofs.Rebuilding
import Blockwork.Proofs.Running
import Blockwork.Proofs.Scenes
import Blockwork.Proofs.Singles
import Blockwork.Proofs.Sorting
import Blockwork.Proofs.Sound
import Blockwork.Proofs.Speaking
import Blockwork.Proofs.Stages
import Blockwork.Proofs.Stepping
import Blockwork.Proofs.Storing
import Blockwork.Proofs.Superseding
import Blockwork.Proofs.Tops
import Blockwork.Proofs.Twins
import Blockwork.Proofs.Walks
import Blockwork.Proofs.Wiring
import Blockwork.Run
import Blockwork.Scene
import Blockwork.Session.Basic
import Blockwork.Session.Cycle
import Blockwork.Session.Desk
import Blockwork.Session.Studio
import Blockwork.Settings
import Blockwork.Snapshot.Encode
import Blockwork.Snapshot.Outline
import Blockwork.Snapshot.Rebuild
import Blockwork.Sorting
import Blockwork.Sorting.Merge
import Blockwork.Sorting.Runs
import Blockwork.Store.Disk
import Blockwork.Store.Host
import Blockwork.Store.Slots
import Blockwork.Text.Blank
import Blockwork.Text.Cased
import Blockwork.Text.Digit
import Blockwork.Text.Lower
import Blockwork.Text.Printable
import Blockwork.Text.Quoted
import Blockwork.Trace
import Blockwork.Value
import Blockwork.Value.Order
import Blockwork.Value.Parts
import Blockwork.Vocabulary
import Blockwork.Workspace.Audit
import Blockwork.Workspace.Basic
import Blockwork.Workspace.Block
import Blockwork.Workspace.Edit
import Blockwork.Workspace.Table
import Blockwork.Proofs.Covering
import Blockwork.Proofs.Refusing
import Blockwork.Proofs.Clearing
import Blockwork.Proofs.Declining
import Blockwork.Proofs.Typing
import Blockwork.Proofs.Turns
import Blockwork.Proofs.Relabelling
import Blockwork.Proofs.Renaming
import Blockwork.Proofs.Enduring
import Blockwork.Proofs.Lightening
import Blockwork.Proofs.Painting
import Blockwork.Proofs.Overlapping
import Blockwork.Proofs.Tinting
import Blockwork.Proofs.Showing
import Blockwork.Proofs.Chronicle
import Blockwork.Proofs.Rearranging
import Blockwork.Proofs.Reporting
import Blockwork.Proofs.Domains
import Blockwork.Proofs.Building
import Blockwork.Proofs.Nesting
import Blockwork.Proofs.Detaching
import Blockwork.Proofs.Splicing
import Blockwork.Proofs.Exactness
import Blockwork.Proofs.Removing
import Blockwork.Proofs.Settling
import Blockwork.Proofs.Inert
import Blockwork.Proofs.Nearest
import Blockwork.Proofs.Shortest
import Blockwork.Proofs.Printing
import Blockwork.Proofs.Spelling
import Blockwork.Proofs.Legible
import Blockwork.Proofs.Lines
import Blockwork.Proofs.Yielding
import Blockwork.Proofs.Discerning
import Blockwork.Proofs.Schemas
import Blockwork.Proofs.Bracketing
import Blockwork.Proofs.Dragging
import Blockwork.Proofs.Auditing
import Blockwork.Proofs.Depths
import Blockwork.Proofs.Searching
import Blockwork.Proofs.Describing
import Blockwork.Proofs.Filing
import Blockwork.Proofs.Hexadecimals
import Blockwork.Proofs.Loops
