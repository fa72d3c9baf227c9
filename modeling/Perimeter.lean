import Perimeter.Address.Basic
import Perimeter.Address.Text
import Perimeter.Book.Basic
import Perimeter.Book.Catalog
import Perimeter.Book.Key
import Perimeter.Book.Resolution
import Perimeter.Book.Resolver
import Perimeter.Book.Table
import Perimeter.CommandLine.Arguments
import Perimeter.CommandLine.Ending
import Perimeter.Counting
import Perimeter.Digest.Blake3
import Perimeter.Engine
import Perimeter.Flow
import Perimeter.Interval.Membership
import Perimeter.Interval.Range
import Perimeter.Interval.Set
import Perimeter.Json.Decoding
import Perimeter.Json.Number
import Perimeter.Json.Printing
import Perimeter.Json.Reading
import Perimeter.Json.Token
import Perimeter.Json.Value
import Perimeter.Main
import Perimeter.Network.Basic
import Perimeter.Network.Cover
import Perimeter.Network.Set
import Perimeter.Proofs.Address.Text
import Perimeter.Proofs.Book.Answers
import Perimeter.Proofs.Book.Catalog
import Perimeter.Proofs.Book.Course
import Perimeter.Proofs.Book.Errors
import Perimeter.Proofs.Book.Evidence
import Perimeter.Proofs.Book.Expansion
import Perimeter.Proofs.Book.Extension
import Perimeter.Proofs.Book.Growth
import Perimeter.Proofs.Book.History
import Perimeter.Proofs.Book.Index
import Perimeter.Proofs.Book.Meaning
import Perimeter.Proofs.Book.Ownership
import Perimeter.Proofs.Book.Pursuit
import Perimeter.Proofs.Book.Questions
import Perimeter.Proofs.Book.Reordering
import Perimeter.Proofs.Book.Resolution
import Perimeter.Proofs.Book.Work
import Perimeter.Proofs.Checked
import Perimeter.Proofs.CommandLine.Options
import Perimeter.Proofs.Interval.Operations
import Perimeter.Proofs.Interval.Tests
import Perimeter.Proofs.Json.Codec
import Perimeter.Proofs.Json.RoundTrip
import Perimeter.Proofs.Json.Writing
import Perimeter.Proofs.Network.Agreement
import Perimeter.Proofs.Network.Blocks
import Perimeter.Proofs.Network.Membership
import Perimeter.Proofs.Network.Rendering
import Perimeter.Proofs.Reachability.Account
import Perimeter.Proofs.Reachability.Answer
import Perimeter.Proofs.Reachability.Canonical
import Perimeter.Proofs.Reachability.Certificate
import Perimeter.Proofs.Reachability.Completeness
import Perimeter.Proofs.Reachability.Connection
import Perimeter.Proofs.Reachability.Counterpart
import Perimeter.Proofs.Reachability.Course
import Perimeter.Proofs.Reachability.Decision
import Perimeter.Proofs.Reachability.Denial
import Perimeter.Proofs.Reachability.Earliest
import Perimeter.Proofs.Reachability.Explanation
import Perimeter.Proofs.Reachability.Export
import Perimeter.Proofs.Reachability.Location
import Perimeter.Proofs.Reachability.Naming
import Perimeter.Proofs.Reachability.Passage
import Perimeter.Proofs.Reachability.Placement
import Perimeter.Proofs.Reachability.Portwise
import Perimeter.Proofs.Reachability.Rearrangement
import Perimeter.Proofs.Reachability.Relay
import Perimeter.Proofs.Reachability.Reordering
import Perimeter.Proofs.Reachability.Routes
import Perimeter.Proofs.Reachability.Termination
import Perimeter.Proofs.Reachability.Trail
import Perimeter.Proofs.Reachability.Widening
import Perimeter.Proofs.Rule.Envelope
import Perimeter.Proofs.Rule.FirstMatch
import Perimeter.Proofs.Rule.Meaning
import Perimeter.Proofs.Rule.Wildcard
import Perimeter.Proofs.Service.Canonical
import Perimeter.Proofs.Service.Exactness
import Perimeter.Proofs.Service.Pointwise
import Perimeter.Proofs.Service.Rendering
import Perimeter.Proofs.Service.Tests
import Perimeter.Proofs.Snapshot.Acceptance
import Perimeter.Proofs.Snapshot.Builtins
import Perimeter.Proofs.Snapshot.Document
import Perimeter.Proofs.Snapshot.Loading
import Perimeter.Proofs.Snapshot.Order
import Perimeter.Proofs.Snapshot.Rendering
import Perimeter.Proofs.Snapshot.Reordering
import Perimeter.Proofs.Snapshot.Resolution
import Perimeter.Proofs.Snapshot.RuleSets
import Perimeter.Proofs.Text.Names
import Perimeter.Proofs.Topology.Build
import Perimeter.Proofs.Topology.Crossing
import Perimeter.Proofs.Topology.Declared
import Perimeter.Proofs.Topology.Distinct
import Perimeter.Proofs.Topology.Itinerary
import Perimeter.Proofs.Topology.Listing
import Perimeter.Proofs.Topology.NextHop
import Perimeter.Proofs.Topology.Reordering
import Perimeter.Proofs.Topology.Representation
import Perimeter.Proofs.Topology.Segments
import Perimeter.Proofs.Topology.Walk
import Perimeter.Reachability.Explored
import Perimeter.Reachability.Path
import Perimeter.Reachability.Query
import Perimeter.Reachability.Search
import Perimeter.Report
import Perimeter.Rule.Basic
import Perimeter.Rule.Evaluation
import Perimeter.Service.Growth
import Perimeter.Service.Membership
import Perimeter.Service.Ports
import Perimeter.Service.Protocol
import Perimeter.Service.Set
import Perimeter.Settings.Engine
import Perimeter.Settings.Path
import Perimeter.Settings.Source
import Perimeter.Settings.Value
import Perimeter.Snapshot.Basic
import Perimeter.Snapshot.Document
import Perimeter.Snapshot.Resolution
import Perimeter.Snapshot.Validation
import Perimeter.Text.Decimal
import Perimeter.Text.Numeral
import Perimeter.Toml.Marked
import Perimeter.Toml.Moment
import Perimeter.Toml.Reading
import Perimeter.Toml.Table
import Perimeter.Toml.Token
import Perimeter.Toml.Word
import Perimeter.Topology.Export
import Perimeter.Topology.Graph
import Perimeter.Topology.Link
import Perimeter.Topology.Marking
import Perimeter.Uuid
import Perimeter.Zone
