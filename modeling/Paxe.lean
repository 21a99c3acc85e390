import Paxe.Lib.Wire
import Paxe.Lib.Table
import Paxe.Lib.Text
import Paxe.Lib.Stream
import Paxe.Lib.Mealy
import Paxe.Lib.Ledger
import Paxe.Lib.Shards
import Paxe.Lib.Regions
import Paxe.Lib.Aead
import Paxe.Lib.Etm
import Paxe.Sodium
import Paxe.Keystore
import Paxe.KeystoreSound
import Paxe.Codec
import Paxe.CodecSound
import Paxe.Stats
import Paxe.StatsSound
import Paxe.Standard
import Paxe.StandardSound
import Paxe.Dek
import Paxe.DekSound
import Paxe.AesGcm
import Paxe.FanoutSound
import Paxe.OpenSound
import Paxe.Verdict
import Paxe.Sealing
import Paxe.Acceptance
import Paxe.Rotation
import Paxe.Network
import Paxe.Authenticity
import Paxe.Ffi
import Paxe.FfiSound
import Paxe.Rejection
import Paxe.Counters
import Paxe.SessionSound
import Paxe.Windows
import Paxe.SealCall
import Paxe.Pipeline
import Paxe.Arrival
import Paxe.Secrecy
import Paxe.LockBudget
import Paxe.Guarded
import Paxe.Erasure
import Paxe.Fleet
import Paxe.Cutover
import Paxe.SixSeven.Kv
import Paxe.SixSeven.KvSound
import Paxe.SixSeven.Grammar
import Paxe.SixSeven.Peer
import Paxe.SixSeven.LinkKey
import Paxe.SixSeven.Stomp
import Paxe.SixSeven.StompSound
import Paxe.SixSeven.Reading
import Paxe.SixSeven.FrameLimit
import Paxe.SixSeven.FrameStream
import Paxe.SixSeven.LineEnds
import Paxe.SixSeven.Server
import Paxe.SixSeven.Launch
import Paxe.SixSeven.ServerSound
import Paxe.SixSeven.Placement
import Paxe.SixSeven.Reference
import Paxe.SixSeven.Hop
import Paxe.SixSeven.NulFree
import Paxe.SixSeven.Transparency
import Paxe.SixSeven.Runs
import Paxe.SixSeven.Correlation
import Paxe.SixSeven.Settlement
import Paxe.SixSeven.History
import Paxe.SixSeven.Register
import Paxe.SixSeven.Process
import Paxe.SixSeven.Link
import Paxe.SixSeven.Splitting
