import DogStatsD.Client.Calls
import DogStatsD.Client.Handles
import DogStatsD.Proofs.Aggregator.Window
import DogStatsD.Proofs.Client.Transparency
import DogStatsD.Proofs.Payload.History
import DogStatsD.Proofs.Shard.Packing
import DogStatsD.Recorder.Basic
import DogStatsD.Socket.LocalPeer
import DogStatsD.Transport.Scripted
import DogStatsD.Proofs.Outbox.Accounting
import DogStatsD.Proofs.Server.Grammar
import DogStatsD.Proofs.Server.Records
import DogStatsD.Proofs.Packer.HandedOver
import DogStatsD.Proofs.Client.Conservation
import DogStatsD.Proofs.Packer.Acts
import DogStatsD.Proofs.System.Basic
import DogStatsD.Proofs.System.Neat
import DogStatsD.Proofs.System.Orderly
import DogStatsD.Proofs.System.Shutdown
import DogStatsD.Proofs.System.Course
import DogStatsD.Proofs.System.Receivers
import DogStatsD.Proofs.System.Calls
import DogStatsD.Proofs.System.Sequence
import DogStatsD.Proofs.Payload.Newlines
import DogStatsD.Proofs.Aggregator.Interleaving
import DogStatsD.Proofs.System.Barrier
import DogStatsD.Proofs.System.Gauges
import DogStatsD.Proofs.Outbox.Depot
import DogStatsD.Proofs.Packer.Encoded
import DogStatsD.Proofs.Packer.Rows
import DogStatsD.Proofs.Pipeline.Freight
import DogStatsD.Proofs.Plant.Basic
import DogStatsD.Proofs.Plant.Order
import DogStatsD.Proofs.Plant.Refinement
import DogStatsD.Proofs.System.Closing
import DogStatsD.Proofs.Packer.Contents
import DogStatsD.Proofs.Packer.Batches
import DogStatsD.Proofs.Pipeline.Slips
import DogStatsD.Proofs.Pipeline.Routing
import DogStatsD.Proofs.Socket.Incidents
import DogStatsD.Proofs.Socket.Framing
import DogStatsD.Proofs.Sampling.Draws
import DogStatsD.Proofs.Sampling.Effects
import DogStatsD.Proofs.Sampling.Pending
import DogStatsD.Proofs.Sampling.Fairness
import DogStatsD.Proofs.Payload.Prefixes
import DogStatsD.Proofs.Server.Notices
import DogStatsD.Proofs.Server.Pieces
import DogStatsD.Proofs.Server.Events
import DogStatsD.Proofs.Pipeline.Stock
import DogStatsD.Proofs.Server.Checks
import DogStatsD.Proofs.Aggregator.Reservoirs
import DogStatsD.Proofs.Recorder.Windows
import DogStatsD.Proofs.Decimal.Printer
