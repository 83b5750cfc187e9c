import BitTorrent.Address
import BitTorrent.Arguments
import BitTorrent.Bencode
import BitTorrent.Bitfield
import BitTorrent.Bitfield.Packed
import BitTorrent.Bytes
import BitTorrent.Connection
import BitTorrent.Crew
import BitTorrent.Download
import BitTorrent.Download.Stored
import BitTorrent.Download.Turn
import BitTorrent.Engine
import BitTorrent.Engine.Clock
import BitTorrent.Engine.Control
import BitTorrent.Engine.Establish
import BitTorrent.Engine.Run
import BitTorrent.FarSide
import BitTorrent.Fault
import BitTorrent.Fault.Form
import BitTorrent.Fault.System
import BitTorrent.Framing
import BitTorrent.Handshake
import BitTorrent.Holdings
import BitTorrent.Json
import BitTorrent.Json.Access
import BitTorrent.Json.Writer
import BitTorrent.Layout
import BitTorrent.Main
import BitTorrent.Message
import BitTorrent.Metainfo
import BitTorrent.Metainfo.Reader
import BitTorrent.Network
import BitTorrent.Overview
import BitTorrent.Path
import BitTorrent.Proofs.Bitfield
import BitTorrent.Proofs.Holdings
import BitTorrent.Proofs.Layout
import BitTorrent.Rate.Bucket
import BitTorrent.Rate.Panel
import BitTorrent.Rate.Sampler
import BitTorrent.Rate.Shaper
import BitTorrent.Roster
import BitTorrent.Roster.Held
import BitTorrent.Seed
import BitTorrent.Selection
import BitTorrent.Session
import BitTorrent.Settings
import BitTorrent.Settings.Reader
import BitTorrent.Settings.Writer
import BitTorrent.Sha1
import BitTorrent.Simulation
import BitTorrent.Statistics
import BitTorrent.Store.Disk
import BitTorrent.Store.Files
import BitTorrent.Store.Memory
import BitTorrent.Text.Lossy
import BitTorrent.Text.Numeral
import BitTorrent.Text.Rounded
import BitTorrent.Transfer
import BitTorrent.View.Arguments
import BitTorrent.View.Fault
import BitTorrent.View.Peer
import BitTorrent.View.Rate
import BitTorrent.View.Torrent
import BitTorrent.View.Wire
import BitTorrent.Word
import BitTorrent.Proofs.Memory
import BitTorrent.Proofs.Move
import BitTorrent.Proofs.Exclusive
import BitTorrent.Proofs.Interest
import BitTorrent.Proofs.Ledger
import BitTorrent.Proofs.Verified
import BitTorrent.Proofs.Metering
import BitTorrent.Proofs.Codec
import BitTorrent.Proofs.Pursuit
import BitTorrent.Proofs.InFlight
import BitTorrent.Proofs.Worker
import BitTorrent.Proofs.Crowd
import BitTorrent.Proofs.Peace
import BitTorrent.Proofs.Dialogue
import BitTorrent.Proofs.Backed
import BitTorrent.Proofs.Honest
import BitTorrent.Proofs.Digest
import BitTorrent.Proofs.Blame
import BitTorrent.Proofs.Ceiling
import BitTorrent.Proofs.Hosting
import BitTorrent.Proofs.Marks
import BitTorrent.Proofs.Redundancy
import BitTorrent.Proofs.Removal
import BitTorrent.Proofs.Acts
import BitTorrent.Proofs.Divided
import BitTorrent.Proofs.Workshop
import BitTorrent.Proofs.Accounts
import BitTorrent.Proofs.Recall
import BitTorrent.Proofs.Purpose
import BitTorrent.Proofs.Greeting
import BitTorrent.Proofs.Paths
import BitTorrent.Proofs.Disk
import BitTorrent.Proofs.Segments
import BitTorrent.Proofs.Mirror
import BitTorrent.Proofs.Confinement
import BitTorrent.Proofs.Filling
import BitTorrent.Proofs.Rejection
import BitTorrent.Proofs.Words
import BitTorrent.Proofs.Tiling
import BitTorrent.Proofs.Containment
import BitTorrent.Proofs.Fates
import BitTorrent.Proofs.Uploads
import BitTorrent.Proofs.Service
import BitTorrent.Proofs.Pardon
import BitTorrent.Proofs.Exile
import BitTorrent.Proofs.Members
import BitTorrent.Proofs.Choice
import BitTorrent.Proofs.Pacing
import BitTorrent.Proofs.Recheck
import BitTorrent.Proofs.Progress
import BitTorrent.Proofs.Ascent
import BitTorrent.Proofs.Conservation
import BitTorrent.Proofs.Registry
import BitTorrent.Proofs.Numerals
import BitTorrent.Proofs.Spelling
import BitTorrent.Proofs.Reading
import BitTorrent.Proofs.InfoHash
import BitTorrent.Proofs.Trace
import BitTorrent.Proofs.Opening
import BitTorrent.Proofs.Blanks
import BitTorrent.Proofs.Ends
