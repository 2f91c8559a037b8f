import FlowLink.Bundle.Basic
import FlowLink.Codec.Facts
import FlowLink.Codec.Graph
import FlowLink.Document.Json.Printer
import FlowLink.Document.Json.Reader

/-! # Bundles as documents -/

namespace FlowLink.Bundle

open Dialect

/-- The orders of the maps in a bundle. -/
structure Orders extends Analysis.Orders where
  treeNodes : FieldOrder := .ascending

def encode (bundle : Bundle) (orders : Orders := {}) : Datum :=
  .record [("tree", bundle.tree.encode), ("graph", bundle.graph.encode orders.treeNodes),
    ("analysis", bundle.analysis.encode orders.toOrders)]

def decode? (dialect : Dialect) (value : Datum) : Option Bundle := do
  match ← dialect.fields ["tree", "graph", "analysis"] value with
  | [tree, graph, analysis] =>
    return ⟨← required (SyntaxTree.decode? dialect) tree,
      ← required (FeatureGraph.decode? dialect) graph,
      ← defaulted .empty (Analysis.decode? dialect) analysis⟩
  | _ => none

def toJson (bundle : Bundle) (orders : Orders := {}) : String :=
  Json.pretty (bundle.encode orders)

def ofJson? (text : String) : Option Bundle := (Json.read? text).bind (decode? json)

end FlowLink.Bundle
