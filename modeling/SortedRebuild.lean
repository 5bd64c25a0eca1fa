import SortedRebuild.Record
import SortedRebuild.Linkage
import SortedRebuild.Checkpoint
import SortedRebuild.Dram
import SortedRebuild.State
import SortedRebuild.Futures
import SortedRebuild.Rollback
import SortedRebuild.Headers
import SortedRebuild.HeaderScan
import SortedRebuild.ListRebuild
import SortedRebuild.Segment
import SortedRebuild.Recovery
import SortedRebuild.ListWalk
import SortedRebuild.Store
import SortedRebuild.Termination
import SortedRebuild.SegmentLink
import SortedRebuild.ListBased
import SortedRebuild.SegmentWalk
import SortedRebuild.SegmentPhaseA
import SortedRebuild.SegmentBased
import SortedRebuild.SegmentRecovery
