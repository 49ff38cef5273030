import Ragged.Report
import Ragged.Session
import Ragged.Proofs.Shape
import Ragged.Proofs.Dimensions
import Ragged.Proofs.Fill
import Ragged.Proofs.Lengths
import Ragged.Proofs.Scan
import Ragged.Proofs.Layout.Placement
import Ragged.Proofs.Layout.Tiling
import Ragged.Proofs.Layout.Bounds
import Ragged.Proofs.Layout.Coverage
import Ragged.Proofs.Layout.Consecutive
import Ragged.Proofs.Layout.Inverse
import Ragged.Proofs.Region
import Ragged.Proofs.Refusals
import Ragged.Proofs.Padding.Rewrite
import Ragged.Proofs.Engine
import Ragged.Proofs.Padding.Add
import Ragged.Proofs.Padding.Remove
import Ragged.Proofs.Segments
import Ragged.Proofs.Padding.Segmentwise
import Ragged.Proofs.Padding.RoundTrip
import Ragged.Proofs.Integral
import Ragged.Proofs.Padding.Sums
import Ragged.Proofs.Padding.Gather
import Ragged.Proofs.Bytes
import Ragged.Proofs.Batch
import Ragged.Proofs.Padding.Launch
import Ragged.Proofs.Padding.Into
import Ragged.Proofs.Room
import Ragged.Proofs.Padding.Partition
import Ragged.Proofs.Padding.Grains
import Ragged.Proofs.Session.Calls
import Ragged.Proofs.Session.Accounts
import Ragged.Proofs.Session.RunningSums
import Ragged.Proofs.Session.Refused
import Ragged.Proofs.Session.History
import Ragged.Proofs.Session.Segmented
import Ragged.Proofs.Session.Grains
import Ragged.Proofs.Padding.Repadding
import Ragged.Proofs.Padding.Composition
import Ragged.Proofs.Padding.GatherAdded
import Ragged.Proofs.Padding.Acceptance
import Ragged.Proofs.Padding.Reading
import Ragged.Proofs.Padding.StripAcceptance
