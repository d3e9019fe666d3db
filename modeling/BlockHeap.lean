import BlockHeap.Arena.Client
import BlockHeap.Locked
import BlockHeap.Segment.Reservation
import BlockHeap.Segment.Script
import BlockHeap.Proofs.Progress
import BlockHeap.Proofs.Refusal
import BlockHeap.Proofs.Torn
import BlockHeap.Proofs.Lapse
import BlockHeap.Proofs.Cursor
import BlockHeap.Proofs.Audit
import BlockHeap.Proofs.Order
import BlockHeap.Proofs.Containment
import BlockHeap.Proofs.Diagnostics
import BlockHeap.Proofs.Locking
import BlockHeap.Proofs.Indifference
import BlockHeap.Proofs.Paging
import BlockHeap.Proofs.Findings
import BlockHeap.Proofs.Contents
import BlockHeap.Proofs.InPlace
import BlockHeap.Proofs.Choice
import BlockHeap.Proofs.Placing
import BlockHeap.Proofs.Merging
import BlockHeap.Proofs.Rounding
import BlockHeap.Proofs.Navigation
import BlockHeap.Proofs.Clearing
