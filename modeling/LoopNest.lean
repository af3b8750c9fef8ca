import LoopNest.Export
import LoopNest.Workspace
import LoopNest.Proofs.Paths
import LoopNest.Proofs.Traversal.Basic
import LoopNest.Proofs.Traversal.Clusters
import LoopNest.Proofs.Gathering
import LoopNest.Proofs.Collapsing
import LoopNest.Proofs.Bounds
import LoopNest.Proofs.Traversal.Entries
import LoopNest.Proofs.Traversal.Pools
import LoopNest.Proofs.Sweeping
import LoopNest.Proofs.Shortening
import LoopNest.Proofs.Recursion
import LoopNest.Proofs.Exploration
import LoopNest.Proofs.Forest.Recording
import LoopNest.Proofs.Forest.WellFormed
import LoopNest.Proofs.Forest.Outlines
import LoopNest.Proofs.Program.Construction
import LoopNest.Proofs.Program.Reached
import LoopNest.Proofs.Program.Preorder
import LoopNest.Proofs.Program.Replay
import LoopNest.Proofs.Finder.Outcomes
import LoopNest.Proofs.Finder.Histories
import LoopNest.Proofs.Finder.Runs
import LoopNest.Proofs.Finder.Bounds
import LoopNest.Proofs.Finder.Bodies
import LoopNest.Proofs.Finder.Nesting
import LoopNest.Proofs.Finder.Headers
import LoopNest.Proofs.Finder.SingleEntry
import LoopNest.Proofs.Finder.FanIn
import LoopNest.Proofs.Finder.Multiplicity
import LoopNest.Proofs.Traversal.Innermost
import LoopNest.Proofs.Finder.Innermost
import LoopNest.Proofs.Dominance
import LoopNest.Proofs.Traversal.Dominance
import LoopNest.Proofs.Finder.EdgeOrder
import LoopNest.Proofs.Finder.Footprint
import LoopNest.Proofs.Finder.Lookups
import LoopNest.Proofs.Relabeling
import LoopNest.Proofs.Finder.Relabeling
import LoopNest.Proofs.Finder.Interleaving
import LoopNest.Proofs.Forest.Levels
import LoopNest.Proofs.Forest.Checksum
import LoopNest.Proofs.Forest.Routes
import LoopNest.Proofs.Finder.Levels
import LoopNest.Proofs.Digraph
import LoopNest.Proofs.Program.Export
import LoopNest.Proofs.Forest.Export
import LoopNest.Proofs.Links
import LoopNest.Proofs.Finder.Pauses
import LoopNest.Proofs.Finder.Outermost
import LoopNest.Proofs.Finder.WaysIn
import LoopNest.Proofs.Forest.Accumulator
