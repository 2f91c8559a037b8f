import FlowLink.Main
import FlowLink.Synthetic
import FlowLink.Proofs.Tree.DepthFirst
import FlowLink.Proofs.Tree.Reachability
import FlowLink.Proofs.Tree.Visits
import FlowLink.Proofs.Tree.Walks
import FlowLink.Proofs.Tree.Discovery
import FlowLink.Proofs.Tree.Ancestry
import FlowLink.Proofs.Tree.Subtrees
import FlowLink.Proofs.Graph.Edges
import FlowLink.Proofs.Graph.Counting
import FlowLink.Proofs.Graph.Validation
import FlowLink.Proofs.Tree.Validation
import FlowLink.Proofs.Graph.Skeleton
import FlowLink.Proofs.Link.Actions
import FlowLink.Proofs.Link.DataflowEdges
import FlowLink.Proofs.Link.ReturnEdges
import FlowLink.Proofs.Link.Relinking
import FlowLink.Proofs.Link.Growth
import FlowLink.Proofs.Document.Json.Number
import FlowLink.Proofs.Document.Json.RoundTrip
import FlowLink.Proofs.Codec.Tree
import FlowLink.Proofs.Codec.Graph
import FlowLink.Proofs.Codec.Facts
import FlowLink.Proofs.Bundle.Validation
import FlowLink.Proofs.Bundle.Storage
import FlowLink.Proofs.Link.Independence
import FlowLink.Proofs.Codec.Bounds
import FlowLink.Proofs.Bundle.Loading
import FlowLink.Proofs.Command.Runs
import FlowLink.Proofs.Command.Relinking
import FlowLink.Proofs.Command.Summaries
import FlowLink.Proofs.Command.Effects
import FlowLink.Proofs.Document.Yaml.Quoting
import FlowLink.Proofs.Document.Yaml.Flow
import FlowLink.Proofs.Document.Yaml.Numeral
import FlowLink.Proofs.Document.Yaml.JsonText
import FlowLink.Proofs.Document.Yaml.Document
import FlowLink.Proofs.Document.Yaml.Records
import FlowLink.Proofs.Codec.Records
import FlowLink.Proofs.Bundle.Formats
import FlowLink.Proofs.Facts
import FlowLink.Proofs.Graph.Calls
import FlowLink.Proofs.Link.Consultation
import FlowLink.Proofs.Link.Scopes
import FlowLink.Proofs.Link.Counters
import FlowLink.Proofs.Tree.Parents
import FlowLink.Proofs.Link.DataflowCounters
import FlowLink.Proofs.Link.DataflowTraversal
import FlowLink.Proofs.Link.LastReturns
import FlowLink.Proofs.Link.ReturnOwners
import FlowLink.Proofs.Renumbering.Basic
import FlowLink.Proofs.Renumbering.Traversal
import FlowLink.Proofs.Renumbering.Linking
import FlowLink.Proofs.Link.Requests
import FlowLink.Proofs.Link.ReturnCounters
import FlowLink.Proofs.Graph.Representation
import FlowLink.Proofs.Bundle.FirstDefect
import FlowLink.Proofs.Link.Diagnostics
import FlowLink.Proofs.Link.SkeletonDegrees
import FlowLink.Proofs.Document.Presentation
import FlowLink.Proofs.Bundle.Presentation
import FlowLink.Proofs.Synthetic.Layout
import FlowLink.Proofs.Synthetic.Traversal
import FlowLink.Proofs.Synthetic.Linking
import FlowLink.Proofs.Tree.Blocks
import FlowLink.Proofs.Graph.Queries
import FlowLink.Proofs.Graph.Resolution
import FlowLink.Proofs.Insertions
