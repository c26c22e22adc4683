import ProgrammingPath.Qt.ByteArray

/-!
# Documents

What the program uses of `QDomDocument`: elements with a tag and children, and text. A document is
given by its element. The text of a document and what is read from a text are not modelled:
`TextOf` has the two functions of Qt, and says for one document that they keep it.
-/

namespace ProgrammingPath.Qt

/-- `QDomNode`. -/
inductive Node where
  | element (tagName : QString) (childNodes : List Node)
  | text (data : QString)

namespace Node

/-- `toElement().tagName()`; a text is not an element, and has no tag. -/
def tagName : Node → QString
  | .element tag _ => tag
  | .text _ => []

def childNodes : Node → List Node
  | .element _ nodes => nodes
  | .text _ => []

mutual

/-- All text under a node. -/
def data : Node → QString
  | .element _ nodes => dataOf nodes
  | .text s => s

def dataOf : List Node → QString
  | [] => []
  | node :: nodes => node.data ++ dataOf nodes

end

/-- `toElement().text()`. -/
def elementText (node : Node) : QString := dataOf node.childNodes

def isEmptyText : Node → Bool
  | .text [] => true
  | _ => false

mutual

/-- The document as it is read again: a text without characters leaves no trace. -/
def normal : Node → Node
  | .element tag nodes => .element tag (normals nodes)
  | .text s => .text s

def normals : List Node → List Node
  | [] => []
  | node :: nodes => if node.isEmptyText then normals nodes else node.normal :: normals nodes

end

def isText : Node → Bool
  | .text _ => true
  | _ => false

mutual

/-- How a document is written with an indentation of one, for texts without characters that need an
entity. -/
def save (depth : Nat) : Node → QString
  | .element tag nodes =>
    let blanks := List.replicate depth 0x20
    let line := !nodes.head?.any isText
    if nodes.isEmpty then blanks ++ [0x3C] ++ tag ++ [0x2F, 0x3E, 0x0A]
    else blanks ++ [0x3C] ++ tag ++ [0x3E] ++ (if line then [0x0A] else []) ++
      saves (depth + 1) nodes ++ (if line then blanks else []) ++ [0x3C, 0x2F] ++ tag ++ [0x3E, 0x0A]
  | .text s => s

def saves (depth : Nat) : List Node → QString
  | [] => []
  | node :: nodes => save depth node ++ saves depth nodes

end

theorem normals_cons_element (tag : QString) (nodes rest : List Node) :
    normals (.element tag nodes :: rest) = .element tag (normals nodes) :: normals rest := by
  simp [normals, isEmptyText, normal]

/-- The text of an element with one text in it. -/
theorem elementText_text (tag s : QString) :
    (Node.element tag (normals [.text s])).elementText = s := by
  cases s with
  | nil => simp [normals, isEmptyText, elementText, childNodes, dataOf]
  | cons c s => simp [normals, isEmptyText, normal, elementText, childNodes, dataOf, data]

end Node

/-- `QDomDocument::toString` and `setContent`. -/
structure TextOf where
  toString : Node → QString
  setContent : QString → Option Node

/-- Elements and text of the document are kept. -/
def TextOf.Keeps (q : TextOf) (node : Node) : Prop :=
  q.setContent (q.toString node) = some node.normal

/-- The two functions on the text of one document. -/
def TextOf.saved (node : Node) : TextOf where
  toString := Node.save 0
  setContent xml := if xml = node.save 0 then some node.normal else none

theorem TextOf.saved_keeps (node : Node) : (TextOf.saved node).Keeps node := if_pos rfl

end ProgrammingPath.Qt
