import PageLint.Yaml.Scalar

/-!
# Nodes

A YAML document is a tree of nodes, some of which stand for other nodes of the tree.
-/

namespace PageLint.Yaml

/-- A node. Anchors are numbers; of several nodes with one number the last one counts. -/
inductive Node where
  | scalar (value : String) (style : ScalarStyle) (tag : Option String)
  | sequence (items : List Node)
  | mapping (entries : List (Node × Node))
  | alias (anchor : Nat)
  | anchored (anchor : Nat) (node : Node)
  deriving Repr

instance : Inhabited Node := ⟨.scalar "" .plain none⟩

def Node.missing : Node :=
  .scalar "" .plain none

mutual

/-- The nodes with an anchor in the order in which they start. -/
def Node.anchors : Node → List (Nat × Node)
  | .scalar .. => []
  | .sequence items => anchorsOfItems items
  | .mapping entries => anchorsOfEntries entries
  | .alias _ => []
  | .anchored anchor node => (anchor, node) :: node.anchors

def Node.anchorsOfItems : List Node → List (Nat × Node)
  | [] => []
  | node :: rest => node.anchors ++ anchorsOfItems rest

def Node.anchorsOfEntries : List (Node × Node) → List (Nat × Node)
  | [] => []
  | (key, value) :: rest => key.anchors ++ value.anchors ++ anchorsOfEntries rest

end

/-- A node without its anchor, or the one that an alias stands for. `anchors` are those of the
whole document. -/
def Node.content (anchors : List (Nat × Node)) : Node → Node
  | .alias anchor => (anchors.reverse.lookup anchor).getD .missing
  | .anchored _ node => node
  | node => node

end PageLint.Yaml
