import Toccata.Foundations.Slice
import Toccata.Foundations.DList
import Toccata.Foundations.Run
import Toccata.Foundations.Word
import Toccata.Foundations.Prog
import Toccata.Foundations.Transition
import Toccata.Foundations.Stepwise
import Toccata.Foundations.Packing
import Toccata.SpanPool
import Toccata.SpanPool.Occupancy
import Toccata.SpanPool.Refinement
import Toccata.SpanPool.Histories
import Toccata.Slab
import Toccata.Frame
import Toccata.Frame.Conservation
import Toccata.Frame.Histories
import Toccata.Frame.Capacity
import Toccata.Frame.Fit
import Toccata.Frame.Windows
import Toccata.Frame.Handles
import Toccata.Rseq.Restart
import Toccata.Rseq.Fallback
import Toccata.Rseq.Seize
import Toccata.SizeClass
import Toccata.Global
import Toccata.Foundations.Bitmap
import Toccata.Meta
import Toccata.Deposit
import Toccata.SubHeap
import Toccata.Tls
import Toccata.Foundations.Chain
import Toccata.Reserve
import Toccata.Registry
import Toccata.SubHeap.Cursor
import Toccata.Slab.Geometry
import Toccata.SubHeap.Ownership
import Toccata.SubHeap.Objects
import Toccata.SubHeap.Taking
import Toccata.SubHeap.Carving
import Toccata.SubHeap.Reclaim
import Toccata.SubHeap.Retiring
import Toccata.SubHeap.Large
import Toccata.SubHeap.Histories
import Toccata.SubHeap.Custody
import Toccata.SubHeap.Lists
import Toccata.SubHeap.Metered
import Toccata.SubHeap.Accounts
import Toccata.SubHeap.Seized
import Toccata.SubHeap.Requests
import Toccata.SubHeap.Placing
import Toccata.SubHeap.Sweeps
import Toccata.Magazine
import Toccata.Magazine.Conservation
import Toccata.SubHeap.Held
import Toccata.Allocator
import Toccata.Allocator.Classes
import Toccata.Allocator.Conservation
import Toccata.Allocator.Alignment
import Toccata.SubHeap.Steps
import Toccata.SubHeap.Hints
import Toccata.SubHeap.Interleaving
import Toccata.SubHeap.Uninterrupted
import Toccata.SubHeap.Budget
import Toccata.Allocator.Quiescence
import Toccata.Magazine.Interleaving
