import QuadGraph.Path.Filter
import QuadGraph.Quad

/-!
Paths through a graph. A path begins at some nodes; every other path takes the matches of the path
it goes on from, its source, and moves them, names nodes, or keeps some.
-/
namespace QuadGraph

/-- Which way quads are followed: from subject to object, or back. -/
inductive Way
  | forward
  | backward
deriving DecidableEq

namespace Way

/-- The position of the node from which a quad is followed. -/
def near : Way → Position
  | .forward => .subject
  | .backward => .object

/-- The node that a quad is followed to. -/
def far (way : Way) (q : IndexedQuad) : NodeId :=
  match way with
  | .forward => q.object
  | .backward => q.subject

end Way

/-- Following quads one way, or both ways at once. -/
inductive Route
  | one (way : Way)
  | both
deriving DecidableEq

inductive Path
  /-- Every node. -/
  | all
  /-- The given nodes, repeated ones too. -/
  | fixed (nodes : List NodeId)
  /-- The match from which a path is walked that does not begin by itself. -/
  | here
  /-- Follows quads whose predicate is one that another path comes to. -/
  | follow (source : Path) (route : Route) (via : Path)
  /-- Moves to the distinct predicates of quads. -/
  | predicates (source : Path) (way : Way)
  /-- Names each distinct predicate of quads in turn, and stays. -/
  | savePredicates (source : Path) (way : Way) (tag : String)
  /-- Names the far end of each quad that could be followed, and stays. -/
  | save (source : Path) (way : Way) (via : Path) (tag : String)
  /-- Names the far ends of all quads after their predicates, in all combinations, and stays. -/
  | saveAll (source : Path) (way : Way)
  /-- Keeps nodes with a quad that could be followed, to one of the targets if there are any. -/
  | has (source : Path) (way : Way) (via : Path) (targets : Option (List NodeId))
  /-- Keeps the given nodes. -/
  | isOneOf (source : Path) (nodes : List NodeId)
  /-- Names the node. -/
  | tag (source : Path) (name : String)
  /-- Moves to the node of a name, dropping matches without it, or to where the path began. -/
  | back (source : Path) (name : Option String)
  | union (left right : Path)
  /-- Keeps matches of the left path at nodes that the right one comes to, with its tags. -/
  | intersect (left right : Path)
  /-- Keeps matches of the left path at other nodes than the right one comes to. -/
  | except (left right : Path)
  | limit (source : Path) (count : Nat)
  | skip (source : Path) (count : Nat)
  /-- Keeps the first match at every node. -/
  | unique (source : Path)
  /-- Sorts matches by the terms of their nodes. -/
  | order (source : Path)
  /-- Adds the tags of the first match of a path walked from here, if there is one. -/
  | optional (source extension : Path)
  /-- Keeps matches from which all clauses match, once for every combination of their tags. -/
  | whereAll (source : Path) (clauses : List Path)
  /-- Keeps nodes whose term meets a condition. -/
  | filter (source : Path) (filter : Filter)

namespace Path

/-- The name of the kind of a path. -/
def kind : Path → String
  | .all => "all"
  | .fixed _ => "fixed"
  | .here => "here"
  | .follow _ (.one .forward) _ => "out"
  | .follow _ (.one .backward) _ => "in"
  | .follow _ .both _ => "both"
  | .predicates _ .forward => "out_predicates"
  | .predicates _ .backward => "in_predicates"
  | .savePredicates .. => "save_predicates"
  | .save .. => "save"
  | .saveAll .. => "save_all"
  | .has .. => "has"
  | .isOneOf .. => "is"
  | .tag .. => "tag"
  | .back .. => "back"
  | .union .. => "union"
  | .intersect .. => "intersect"
  | .except .. => "except"
  | .limit .. => "limit"
  | .skip .. => "skip"
  | .unique .. => "unique"
  | .order .. => "order"
  | .optional .. => "optional"
  | .whereAll .. => "where"
  | .filter .. => "filter"

/-- Whether a path is the one to every node by itself. -/
def isAll : Path → Bool
  | .all => true
  | _ => false

mutual

/-- Whether two paths are built alike. -/
def same : Path → Path → Bool
  | .all, .all => true
  | .fixed a, .fixed b => a == b
  | .here, .here => true
  | .follow s r v, .follow s' r' v' => s.same s' && r == r' && v.same v'
  | .predicates s w, .predicates s' w' => s.same s' && w == w'
  | .savePredicates s w t, .savePredicates s' w' t' => s.same s' && w == w' && t == t'
  | .save s w v t, .save s' w' v' t' => s.same s' && w == w' && v.same v' && t == t'
  | .saveAll s w, .saveAll s' w' => s.same s' && w == w'
  | .has s w v t, .has s' w' v' t' => s.same s' && w == w' && v.same v' && t == t'
  | .isOneOf s n, .isOneOf s' n' => s.same s' && n == n'
  | .tag s n, .tag s' n' => s.same s' && n == n'
  | .back s n, .back s' n' => s.same s' && n == n'
  | .union l r, .union l' r' => l.same l' && r.same r'
  | .intersect l r, .intersect l' r' => l.same l' && r.same r'
  | .except l r, .except l' r' => l.same l' && r.same r'
  | .limit s n, .limit s' n' => s.same s' && n == n'
  | .skip s n, .skip s' n' => s.same s' && n == n'
  | .unique s, .unique s' => s.same s'
  | .order s, .order s' => s.same s'
  | .optional s e, .optional s' e' => s.same s' && e.same e'
  | .whereAll s c, .whereAll s' c' => s.same s' && sameAll c c'
  | .filter s f, .filter s' f' => s.same s' && f == f'
  | _, _ => false

def sameAll : List Path → List Path → Bool
  | [], [] => true
  | p :: ps, q :: qs => p.same q && sameAll ps qs
  | _, _ => false

end

instance : BEq Path := ⟨same⟩

end Path

end QuadGraph
