import Gridbook.Batch.Journal
import Gridbook.Desk.Controller
import Gridbook.Main
import Gridbook.Proofs.Canonical
import Gridbook.Proofs.Concatenation
import Gridbook.Proofs.EditorRuns
import Gridbook.Proofs.Overlaps
import Gridbook.Proofs.OpenEnds
import Gridbook.Proofs.Returns
import Gridbook.Proofs.Terminated
import Gridbook.Proofs.LineEnds
import Gridbook.Proofs.LineStarts
import Gridbook.Proofs.BlockBodies
import Gridbook.Proofs.Comments
import Gridbook.Proofs.Documents
import Gridbook.Proofs.Saving
import Gridbook.Proofs.DeskRuns
import Gridbook.Proofs.Restart
import Gridbook.Proofs.Panels
import Gridbook.Proofs.StoreRuns
import Gridbook.Proofs.Wires
import Gridbook.Proofs.HistoryLogs
import Gridbook.Proofs.SheetPaths
import Gridbook.Proofs.Additions
import Gridbook.Proofs.Fronts
import Gridbook.Proofs.Declarations
import Gridbook.Proofs.OutlineEdits
import Gridbook.Proofs.Lookups
import Gridbook.Proofs.Renaming
import Gridbook.Proofs.Remarks
import Gridbook.Proofs.Expressions
import Gridbook.Proofs.Anchors
import Gridbook.Proofs.Appending
import Gridbook.Proofs.Moves
import Gridbook.Proofs.Cuts
import Gridbook.Proofs.Removal
import Gridbook.Proofs.SharedLines
import Gridbook.Proofs.Restoring
import Gridbook.Proofs.BlockCuts
import Gridbook.Proofs.Detached
import Gridbook.Proofs.Places
import Gridbook.Proofs.Overwrites
import Gridbook.Proofs.LineStyles
import Gridbook.Proofs.WritingBack
import Gridbook.Proofs.Grouping
import Gridbook.Proofs.Dockings
import Gridbook.Proofs.Menus
import Gridbook.Proofs.Writes
import Gridbook.Proofs.Batches
import Gridbook.Proofs.Colours
import Gridbook.Proofs.Listings
import Gridbook.Proofs.Spellings
import Gridbook.Proofs.Bytes
import Gridbook.Proofs.ByteReader
import Gridbook.Proofs.ByteTurns
import Gridbook.Proofs.ByteEdits
