import MoshClient.Theorems.Admission
import MoshClient.Theorems.Arrival
import MoshClient.Theorems.Authority
import MoshClient.Theorems.Bootstrap
import MoshClient.Theorems.Checkpoints
import MoshClient.Theorems.Close
import MoshClient.Theorems.Decompression
import MoshClient.Theorems.Delivery
import MoshClient.Theorems.Differences
import MoshClient.Theorems.Echo
import MoshClient.Theorems.Endpoints
import MoshClient.Theorems.Envelope
import MoshClient.Theorems.Estimator
import MoshClient.Theorems.Exchange
import MoshClient.Theorems.Injection
import MoshClient.Theorems.Numbering
import MoshClient.Theorems.Pacing
import MoshClient.Theorems.Paint
import MoshClient.Theorems.Plans
import MoshClient.Theorems.Reachability
import MoshClient.Theorems.Reassembly
import MoshClient.Theorems.Replica
import MoshClient.Theorems.Replay
import MoshClient.Theorems.Run
import MoshClient.Theorems.Scheduler
import MoshClient.Theorems.Screen
import MoshClient.Theorems.Sealing
import MoshClient.Theorems.Slot
import MoshClient.Theorems.Vt100.Boundaries
import MoshClient.Theorems.Vt100.Difference
import MoshClient.Theorems.Vt100.Projection
import MoshClient.Theorems.Vt100.Repaint
import MoshClient.Theorems.Vt100.Sgr
import MoshClient.Theorems.Vt100.Strokes
import MoshClient.Theorems.Waiting
import MoshClient.Vt100.Diff
