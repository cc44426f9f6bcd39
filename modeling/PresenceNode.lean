import PresenceNode.Lib.Framing
import PresenceNode.Lib.LittleEndian
import PresenceNode.Lib.Durable
import PresenceNode.Lib.Machine
import PresenceNode.Lib.Mailbox
import PresenceNode.Lib.Script
import PresenceNode.Lib.Total
import PresenceNode.Lib.Chain
import PresenceNode.Lib.Rescan
import PresenceNode.Lib.Crc
import PresenceNode.Lib.Flips
import PresenceNode.Lib.Cadence
import PresenceNode.Lib.Sliding
import PresenceNode.Lib.Fifo
import PresenceNode.Lib.Delimited
import PresenceNode.Lib.Resumed
import PresenceNode.Spec.Tlv
import PresenceNode.Spec.Frame
import PresenceNode.Spec.Store
import PresenceNode.Spec.History
import PresenceNode.Spec.Life
import PresenceNode.Spec.Refused
import PresenceNode.Spec.Node
import PresenceNode.Spec.Ble
import PresenceNode.Spec.Radar
import PresenceNode.Spec.Decode
import PresenceNode.Spec.Walk
import PresenceNode.Spec.Thread
import PresenceNode.Spec.Encode
import PresenceNode.Spec.Sen5x
import PresenceNode.Spec.Flush
import PresenceNode.Spec.Loop
import PresenceNode.Spec.Adv
import PresenceNode.Spec.Reader
import PresenceNode.Spec.Sync
import PresenceNode.Spec.Tagged
import PresenceNode.Spec.Clock
import PresenceNode.Spec.Session
import PresenceNode.Spec.Cli
import PresenceNode.Spec.Wait
import PresenceNode.Spec.Configure
import PresenceNode.Spec.Uart
import PresenceNode.Spec.App
import PresenceNode.Spec.Device
import PresenceNode.Spec.Dates
import PresenceNode.Spec.Recorder
import PresenceNode.Spec.Halves
import PresenceNode.Spec.Station
import PresenceNode.Proof.Reasm
import PresenceNode.Proof.Stream
import PresenceNode.Proof.StoreOps
import PresenceNode.Proof.Migration
import PresenceNode.Proof.Ring
import PresenceNode.Proof.Cut
import PresenceNode.Proof.Refused
import PresenceNode.Proof.Served
import PresenceNode.Proof.Window
import PresenceNode.Proof.Dump
import PresenceNode.Proof.Chunk
import PresenceNode.Proof.Visible
import PresenceNode.Proof.Settled
import PresenceNode.Proof.Record
import PresenceNode.Proof.Air
import PresenceNode.Proof.Loop
import PresenceNode.Proof.Lookup
import PresenceNode.Proof.Listing
import PresenceNode.Proof.Decode
import PresenceNode.Proof.Hidden
import PresenceNode.Proof.Count
import PresenceNode.Proof.Thread
import PresenceNode.Proof.RoundTrip
import PresenceNode.Proof.Crc
import PresenceNode.Proof.Sync
import PresenceNode.Proof.Tagged
import PresenceNode.Proof.Clock
import PresenceNode.Proof.Handed
import PresenceNode.Proof.Session
import PresenceNode.Proof.Answer
import PresenceNode.Proof.Cli
import PresenceNode.Proof.Wait
import PresenceNode.Proof.Configure
import PresenceNode.Proof.Uart
import PresenceNode.Proof.Link
import PresenceNode.Proof.App
import PresenceNode.Proof.Device
import PresenceNode.Proof.Log
import PresenceNode.Proof.Dates
import PresenceNode.Proof.Recorder
import PresenceNode.Proof.Memory
import PresenceNode.Proof.Told
import PresenceNode.Proof.Flipped
import PresenceNode.Proof.Noise
import PresenceNode.Proof.Halves
import PresenceNode.Proof.Station
import PresenceNode.Proof.Partition
