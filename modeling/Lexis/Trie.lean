import Lexis.Arena

/-!
  Lexis.Trie

  Prefix trees over characters. The nodes live in an arena: node 0 is the root, and each further
  node gets the next number when the first word that needs it is inserted. Walking a text from the
  root ends at a terminal node exactly when the text is one of the words.
-/

namespace Lexis

/-- A node is known by its number. -/
abbrev NodeId := Nat

/-- A node of a prefix tree. -/
structure Trie.Node where
  /-- The continuations of the text that leads here. -/
  children : List (Char × NodeId)
  /-- A word ends here. -/
  terminal : Bool
deriving DecidableEq

/-- A prefix tree. -/
structure Trie where
  /-- All nodes, the root first. -/
  nodes : Arena Trie.Node
  /-- Number of distinct words. -/
  wordCount : Nat
deriving DecidableEq

namespace Trie

/-- A word list that no prefix tree can hold. -/
inductive BuildError where
  /-- The word at this index is empty. -/
  | emptyWord (index : Nat)
deriving DecidableEq

/-- The text of a build error. -/
def BuildError.message : BuildError → String
  | .emptyWord index => s!"empty word at index {index}"

/-- The node of the empty text. -/
def root : NodeId := 0

/-- The tree without words: a lone root. -/
def empty : Trie := ⟨Arena.empty.push ⟨[], false⟩, 0⟩

/-- Number of nodes, the root included. -/
def nodeCount (t : Trie) : Nat := t.nodes.size

/-! ## Walking -/

/-- The child of a node by a character. -/
def step? (t : Trie) (node : NodeId) (c : Char) : Option NodeId :=
  (t.nodes.get? node).bind fun n => n.children.lookup c

/-- The child of the root by a character. -/
def start? (t : Trie) (c : Char) : Option NodeId := t.step? root c

/-- A word ends at this node. -/
def isTerminal (t : Trie) (node : NodeId) : Bool :=
  ((t.nodes.get? node).map Node.terminal).getD false

/-- Follow a text from a node. -/
def walkFrom? (t : Trie) (node : NodeId) : List Char → Option NodeId
  | [] => some node
  | c :: cs => (t.step? node c).bind fun child => t.walkFrom? child cs

/-- Follow a text from the root. -/
def walk? (t : Trie) (text : String) : Option NodeId := t.walkFrom? root text.toList

/-- The text is one of the words. -/
def contains (t : Trie) (text : String) : Bool :=
  ((t.walk? text).map t.isTerminal).getD false

/-! ## Building -/

/-- Add a fresh child; its number is the former node count. -/
def addChild (t : Trie) (node : NodeId) (c : Char) : Trie :=
  { t with
    nodes := (t.nodes.push ⟨[], false⟩).modify node fun n =>
      { n with children := (c, t.nodeCount) :: n.children } }

/-- Let a word end at a node; a node where one ends already is left alone. -/
def mark (t : Trie) (node : NodeId) : Trie :=
  if t.isTerminal node then t
  else ⟨t.nodes.modify node fun n => { n with terminal := true }, t.wordCount + 1⟩

/-- Extend the tree from a node so that the given text leads to a terminal node. -/
def insertFrom (t : Trie) (node : NodeId) : List Char → Trie
  | [] => t.mark node
  | c :: cs =>
    match t.step? node c with
    | some child => t.insertFrom child cs
    | none => (t.addChild node c).insertFrom t.nodeCount cs

/-- Add a word. -/
def insert (t : Trie) (word : String) : Trie := t.insertFrom root word.toList

/-- Add words in order; `index` is the place of the first of them in the whole list. -/
def insertAll (t : Trie) (index : Nat) : List String → Except BuildError Trie
  | [] => .ok t
  | w :: ws => if w.isEmpty then .error (.emptyWord index) else (t.insert w).insertAll (index + 1) ws

/-- The tree of a word list. Repeated words count once; an empty word is refused, since the root
    is never terminal. -/
def build (words : List String) : Except BuildError Trie := empty.insertAll 0 words

/-! ## Enumeration -/

/-- The order in which the children of each node are gone through, whatever order they are kept
    in. -/
structure Arrangement where
  /-- The children of a node in order. -/
  arrange : NodeId → List (Char × NodeId) → List (Char × NodeId)
  /-- No child is left out or gone through twice. -/
  perm : ∀ node children, (arrange node children).Perm children

/-- Children are gone through as they are kept. -/
def Arrangement.kept : Arrangement := ⟨fun _ children => children, fun _ _ => .refl _⟩

/-- Visit the nodes of a stack, the top one first. A visit notes the text that leads to the node if
    a word ends there, and puts the children on the stack one after another. `visits` bounds the
    number of visits: a stack that is not empty by then is no result, and neither is a node that
    does not exist. -/
def visitAll (t : Trie) (order : Arrangement) :
    Nat → List (NodeId × String) → List String → Option (List String)
  | _, [], found => some found
  | 0, _ :: _, _ => none
  | visits + 1, (node, path) :: stack, found =>
    match t.nodes.get? node with
    | none => none
    | some n =>
      t.visitAll order visits
        ((order.arrange node n.children).foldl (fun stack p => (p.2, path.push p.1) :: stack) stack)
        (if n.terminal then found ++ [path] else found)

/-- The words in the order in which the visits from the root meet them. No node of a tree has two
    parents, so one visit for each node is enough. -/
def listing? (t : Trie) (order : Arrangement) : Option (List String) :=
  t.visitAll order t.nodeCount [(root, "")] []

/-- Every word once, in ascending order of code points. -/
def words (t : Trie) : List String :=
  ((t.listing? .kept).getD []).mergeSort fun a b => decide (a ≤ b)

end Trie

end Lexis
