import FlowLink.Tree.Basic

/-! # Depth-first traversal

`SyntaxTree.traverse` visits an arena depth first and left to right from a start element, each
element at most once, and keeps the pending elements on a stack of its own.  Every pending element
carries the context its parent handed down, so siblings never see each other's.  Ids outside the
arena are passed over.  The other traversals are instances of it.
-/

namespace FlowLink

structure Marks where
  visited : Array Bool

namespace Marks

def fresh (size : Nat) : Marks := ⟨Array.replicate size false⟩

def isFresh (marks : Marks) (id : TreeId) : Bool := marks.visited[id.index]? == some false

def mark (marks : Marks) (id : TreeId) : Marks := ⟨marks.visited.setIfInBounds id.index true⟩

/-- How many slots remain to be visited. -/
def remaining (marks : Marks) : Nat := marks.visited.count false

theorem remaining_mark_lt {marks : Marks} {id : TreeId} (unvisited : marks.isFresh id = true) :
    (marks.mark id).remaining < marks.remaining := by
  have found : marks.visited[id.index]? = some false := by simpa [isFresh] using unvisited
  obtain ⟨bound, value⟩ := Array.getElem?_eq_some_iff.mp found
  have present : false ∈ marks.visited := value ▸ Array.getElem_mem bound
  have positive : 0 < marks.visited.count false := Array.count_pos_iff.mpr present
  simp only [remaining, mark, Array.setIfInBounds, bound, ↓reduceDIte, Array.count_set, value]
  simp
  omega

end Marks

namespace SyntaxTree

variable {κ σ : Type}

/-- Visits the pending elements, each with the context handed to it.  `visit` updates the state and
answers the context for the children, or `none` to leave them alone. -/
def traverseFrom (tree : SyntaxTree) (visit : TreeId → Shape → κ → σ → Option κ × σ)
    (marks : Marks) (pending : List (TreeId × κ)) (state : σ) : σ :=
  match pending with
  | [] => state
  | (id, context) :: rest =>
    match tree.shape? id with
    | none => traverseFrom tree visit marks rest state
    | some shape =>
      if _unvisited : marks.isFresh id = true then
        match visit id shape context state with
        | (none, next) => traverseFrom tree visit (marks.mark id) rest next
        | (some below, next) =>
          traverseFrom tree visit (marks.mark id)
            (shape.children.map (fun child => (child, below)) ++ rest) next
      else
        traverseFrom tree visit marks rest state
termination_by (marks.remaining, pending.length)
decreasing_by
  · exact Prod.Lex.right _ (by simp)
  · exact Prod.Lex.left _ _ (Marks.remaining_mark_lt (by assumption))
  · exact Prod.Lex.left _ _ (Marks.remaining_mark_lt (by assumption))
  · exact Prod.Lex.right _ (by simp)

def traverse (tree : SyntaxTree) (visit : TreeId → Shape → κ → σ → Option κ × σ)
    (start : TreeId) (context : κ) (state : σ) : σ :=
  tree.traverseFrom visit (Marks.fresh tree.size) [(start, context)] state

/-- The ids reached from `start` in order, and the final state of `descend`, which is asked once
for each of them whether its children are to be walked. -/
def walkWith (tree : SyntaxTree) (descend : TreeId → Shape → σ → Bool × σ) (start : TreeId)
    (state : σ) : List TreeId × σ :=
  let (reached, final) := tree.traverse
    (fun id shape _ (reached, state) =>
      let (enter, next) := descend id shape state
      (if enter then some () else none, reached.push id, next))
    start () ((#[] : Array TreeId), state)
  (reached.toList, final)

/-- The ids reached from `start` in depth-first pre-order, below the elements that `descend`
accepts only. -/
def walk (tree : SyntaxTree) (descend : TreeId → Shape → Bool) (start : TreeId) : List TreeId :=
  (tree.walkWith (fun id shape _ => (descend id shape, ())) start ()).1

/-- The ids reachable from `start` in depth-first pre-order. -/
def preorder (tree : SyntaxTree) (start : TreeId) : List TreeId :=
  tree.walk (fun _ _ => true) start

end SyntaxTree

end FlowLink
