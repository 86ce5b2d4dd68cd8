import GazeboRcll.Library.Prog
import GazeboRcll.Library.LTS
import GazeboRcll.Library.Multimap
import GazeboRcll.Library.Keyed
import GazeboRcll.Library.Loop
import GazeboRcll.Library.Strings
import GazeboRcll.Library.Replace
import GazeboRcll.Library.NumGet
import GazeboRcll.Library.Stoi
import GazeboRcll.Library.BigEndian
import GazeboRcll.Library.KeyTree
import GazeboRcll.Library.WorkQueue
import GazeboRcll.Library.Throttle
import GazeboRcll.Library.Intervals
import GazeboRcll.Messages
import GazeboRcll.Puck
import GazeboRcll.PuckReport
import GazeboRcll.PuckStack
import GazeboRcll.Mps.Station
import GazeboRcll.Mps.Commands
import GazeboRcll.Mps.Geometry
import GazeboRcll.Mps.Runs
import GazeboRcll.Mps.Slots
import GazeboRcll.Mps.Delivery
import GazeboRcll.Mps.WorkerLoop
import GazeboRcll.Mps.Handled
import GazeboRcll.Mps.Dispense
import GazeboRcll.Mps.Announcement
import GazeboRcll.Mps.Belt
import GazeboRcll.Mps.Caps
import GazeboRcll.Mps.Ready
import GazeboRcll.Mps.Storage
import GazeboRcll.Mps.StorageCount
import GazeboRcll.Mps.StorageConfig
import GazeboRcll.Mps.Orders
import GazeboRcll.Mps.Slide
import GazeboRcll.Mps.CapShelf
import GazeboRcll.Mps.Recolor
import GazeboRcll.Mps.SpawnPuck
import GazeboRcll.Mps.Areas
import GazeboRcll.LightControl
import GazeboRcll.LightSignalDetection
import GazeboRcll.ConveyorVision
import GazeboRcll.TagVision
import GazeboRcll.Publishers
import GazeboRcll.RefboxComm
import GazeboRcll.Protobuf.Framing
import GazeboRcll.Protobuf.SendQueue
import GazeboRcll.Protobuf.Crypto
import GazeboRcll.Protobuf.Peer
import GazeboRcll.Protobuf.Broadcast
import GazeboRcll.Protobuf.Register
import GazeboRcll.Protobuf.Server
import GazeboRcll.RefboxRelay
import GazeboRcll.Gripper
import GazeboRcll.MpsPlacement
import GazeboRcll.MpsLoader
import GazeboRcll.Odometry
import GazeboRcll.Config.Scalar
import GazeboRcll.Config.Node
import GazeboRcll.Config.Document
import GazeboRcll.Config.NodeKind
import GazeboRcll.Config.Visits
import GazeboRcll.Config.ScalarType
import GazeboRcll.Config.KeyOrder
import GazeboRcll.Config.Merge
import GazeboRcll.Config.Setters
import GazeboRcll.Config.HostFile
import GazeboRcll.Config.Leafs
import GazeboRcll.Config.CompoundKeys
import GazeboRcll.Config.Erase
import GazeboRcll.Config.Diff
import GazeboRcll.Config.Load
import GazeboRcll.Library.Chain
import GazeboRcll.Core.Exception
import GazeboRcll.Threading.Barrier
import GazeboRcll.Threading.Thread
import GazeboRcll.Threading.Finalization
import GazeboRcll.Threading.ThreadList
import GazeboRcll.Config.LeafStore
import GazeboRcll.Config.BothTrees
