/-
# Code.Tree -- syntax trees

A node of an abstract tree has a kind and named parts; a part is again a node, a list, or a word.

A node of a concrete tree has a kind and a stretch of the source.  Stretches count bytes of the encoded source; names
are cut out of the source by counting characters with the same numbers.
-/
import Folio.Value.Basic

namespace Folio.Code

inductive Ast where
  | node (kind : String) (parts : List (String × Ast))
  | list (items : List Ast)
  | word (s : String)
  | absent

namespace Ast

variable (a : Ast) (name : String)

def kind : Ast → String
  | .node k _ => k
  | _ => ""

def parts : Ast → List (String × Ast)
  | .node _ ps => ps
  | _ => []

def isNode : Ast → Bool
  | .node _ _ => true
  | _ => false

def isAny (kinds : List String) : Bool := a.isNode && kinds.contains a.kind

def part : Ast := (a.parts.lookup name).getD .absent

def items : Ast → List Ast
  | .list xs => xs
  | _ => []

def itemsOf : List Ast := (a.part name).items

def word? : Option String :=
  match a.part name with
  | .word s => some s
  | _ => none

def wordOf : String := (a.word? name).getD ""

mutual

/-- Read a tree; `key` names the field that holds the kind of a node. -/
def ofValue (key : String) : Value → Ast
  | .object fs => .node ((Fields.get? fs key).getD .null).textOrEmpty (ofFields key fs)
  | .list xs => .list (ofItems key xs)
  | .text s => .word s
  | _ => .absent

def ofItems (key : String) : List Value → List Ast
  | [] => []
  | x :: xs => ofValue key x :: ofItems key xs

def ofFields (key : String) : List (String × Value) → List (String × Ast)
  | [] => []
  | (k, v) :: fs => if k == key then ofFields key fs else (k, ofValue key v) :: ofFields key fs

end

mutual

/-- All nodes of a tree from the top down, lists inside lists included. -/
def nodes : Ast → List Ast
  | .node k ps => .node k ps :: nodesOfParts ps
  | .list xs => nodesOfItems xs
  | _ => []

def nodesOfParts : List (String × Ast) → List Ast
  | [] => []
  | (_, a) :: ps => nodes a ++ nodesOfParts ps

def nodesOfItems : List Ast → List Ast
  | [] => []
  | a :: as => nodes a ++ nodesOfItems as

end

mutual

/-- The longest chain of nodes of the given kinds on a way down, the node included. -/
def chain (kinds : List String) : Ast → Nat
  | .node k ps => (if kinds.contains k then 1 else 0) + chainOfParts kinds ps
  | .list xs => chainOfItems kinds xs
  | _ => 0

def chainOfParts (kinds : List String) : List (String × Ast) → Nat
  | [] => 0
  | (_, a) :: ps => Nat.max (chain kinds a) (chainOfParts kinds ps)

def chainOfItems (kinds : List String) : List Ast → Nat
  | [] => 0
  | a :: as => Nat.max (chain kinds a) (chainOfItems kinds as)

end

def chainBelow (kinds : List String) (a : Ast) : Nat := chainOfParts kinds a.parts

mutual

/-- Leave out lists that stand inside lists, and all below them. -/
def withoutInnerLists : Ast → Ast
  | .node k ps => .node k (partsWithoutInnerLists ps)
  | .list xs => .list (itemsWithoutInnerLists xs)
  | a => a

def partsWithoutInnerLists : List (String × Ast) → List (String × Ast)
  | [] => []
  | (k, a) :: ps => (k, withoutInnerLists a) :: partsWithoutInnerLists ps

def itemsWithoutInnerLists : List Ast → List Ast
  | [] => []
  | .list _ :: as => itemsWithoutInnerLists as
  | a :: as => withoutInnerLists a :: itemsWithoutInnerLists as

end

end Ast

inductive Tree where
  | node (kind : String) (start stop : Nat) (children : List Tree)

namespace Tree

def kind : Tree → String
  | .node k _ _ _ => k

def start : Tree → Nat
  | .node _ s _ _ => s

def stop : Tree → Nat
  | .node _ _ e _ => e

def children : Tree → List Tree
  | .node _ _ _ cs => cs

def isAny (t : Tree) (kinds : List String) : Bool := kinds.contains t.kind

mutual

def nodes : Tree → List Tree
  | .node k s e cs => .node k s e cs :: nodesOfAll cs

def nodesOfAll : List Tree → List Tree
  | [] => []
  | t :: ts => nodes t ++ nodesOfAll ts

end

def loopKinds : List String := ["for_statement", "while_statement", "do_statement"]

mutual

/-- The longest chain of loops on a way down from the node, the node included. -/
def loopDepth : Tree → Nat
  | .node k _ _ cs => (if loopKinds.contains k then 1 else 0) + loopDepthOfAll cs

def loopDepthOfAll : List Tree → Nat
  | [] => 0
  | t :: ts => Nat.max (loopDepth t) (loopDepthOfAll ts)

end

def textIn (t : Tree) (source : String) : String := Text.slice source t.start t.stop

def bytesText? (t : Tree) (source : String) : Option String :=
  String.fromUTF8? (source.toUTF8.extract t.start t.stop)

def child? (t : Tree) (kind : String) : Option Tree := t.children.find? (·.kind == kind)

def numberField (fs : Fields) (key : String) : Nat :=
  match fs.get? key with
  | some (.int i) => i.toNat
  | _ => 0

mutual

def ofValue? : Value → Option Tree
  | .object fs =>
    some (.node ((Fields.get? fs "t").getD .null).textOrEmpty (numberField fs "s")
      (numberField fs "e")
      (ofFields fs))
  | _ => none

def ofFields : List (String × Value) → List Tree
  | [] => []
  | (k, v) :: fs => if k == "c" then ofChildren v else ofFields fs

def ofChildren : Value → List Tree
  | .list xs => ofItems xs
  | _ => []

def ofItems : List Value → List Tree
  | [] => []
  | x :: xs => (match ofValue? x with | some t => [t] | none => []) ++ ofItems xs

end
def isSpecialName (name : String) : Bool :=
  Text.startsWith name "operator" || Text.startsWith name "~"
    || ["toString", "clone", "equals", "begin", "end"].contains name

end Tree

end Folio.Code
