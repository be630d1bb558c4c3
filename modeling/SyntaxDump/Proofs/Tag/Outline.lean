import Mathlib.Tactic
import SyntaxDump.Proofs.Tag.Nesting

/-!
# Every node has one tag

The outline of a tree are the labels of its nodes, a parent before its children
and the children in the order of their names.  A reader that looks at the lines
of a dump only, and keeps the opened names that end like a label, finds this
outline again: no node is left out, shown twice or moved, and neither a wrapper
nor a text between tags is taken for a node.
-/

namespace SyntaxDump

namespace Node

mutual
/-- The labels of a tree in pre-order.  Data has none; a list of nodes that a
node holds counts as a sequence, and the body of a function as a block. -/
def outline : Node → List String
  | .data _ => []
  | node@(.unary _ argument) => node.label :: outline argument
  | node@(.binary _ left right) => node.label :: (outline left ++ outline right)
  | node@(.index base position) => node.label :: (outline base ++ outline position)
  | node@(.addressOf lvalue) => node.label :: outline lvalue
  | node@(.stackAlloc argument) => node.label :: outline argument
  | node@(.rvalue lvalue) => node.label :: outline lvalue
  | node@(.assignment target value) => node.label :: (outline target ++ outline value)
  | node@(.sequence nodes) => node.label :: outlineAll nodes
  | .block body => outlineBlock body
  | node@(.declaration _ _ _ initializer) => node.label :: outlineOption initializer
  | node@(.functionDefinition _ arguments body) =>
      node.label :: (outlineSequence? arguments ++ outlineBlock body)
  | node@(.functionCall identifier arguments) =>
      node.label :: (outlineOption identifier ++ outlineSequence? arguments)
  | node@(.sizeof expression) => node.label :: outline expression
  | node@(.ifThen condition body) => node.label :: (outline condition ++ outline body)
  | node@(.ifElse condition thenBlock elseBlock) =>
      node.label :: (outline condition ++ (outline thenBlock ++ outline elseBlock))
  | node@(.whileLoop condition body) => node.label :: (outline condition ++ outline body)
  | node@(.ret value) => node.label :: outlineOption value
  | node@(.print arguments) => node.label :: "sequence_node" :: outlineAll arguments
  | node@(.evaluation argument) => node.label :: outline argument
  | node@(.integer _) => [node.label]
  | node@(.double _) => [node.label]
  | node@(.string _) => [node.label]
  | node@(.nil) => [node.label]
  | node@(.null) => [node.label]
  | node@(.var _) => [node.label]
  | node@(.stop _) => [node.label]
  | node@(.next _) => [node.label]
  | node@(.input) => [node.label]
def outlineAll : List Node → List String
  | [] => []
  | node :: nodes => outline node ++ outlineAll nodes
def outlineOption : Option Node → List String
  | none => []
  | some node => outline node
def outlineSequence? : Option (List Node) → List String
  | none => []
  | some nodes => "sequence_node" :: outlineAll nodes
def outlineBlock : Block Node → List String
  | ⟨declarations, instructions⟩ =>
      "block_node" :: (outlineSequence? declarations ++ outlineSequence? instructions)
end

mutual
/-- How many tags a tree has, wrappers left out. -/
def tagCount : Node → Nat
  | .data _ => 0
  | .unary _ argument => tagCount argument + 1
  | .binary _ left right => tagCount left + tagCount right + 1
  | .index base position => tagCount base + tagCount position + 1
  | .addressOf lvalue => tagCount lvalue + 1
  | .stackAlloc argument => tagCount argument + 1
  | .rvalue lvalue => tagCount lvalue + 1
  | .assignment target value => tagCount target + tagCount value + 1
  | .sequence nodes => tagCountAll nodes + 1
  | .block body => tagCountBlock body
  | .declaration _ _ _ initializer => tagCountOption initializer + 1
  | .functionDefinition _ arguments body =>
      tagCountSequence? arguments + tagCountBlock body + 1
  | .functionCall identifier arguments =>
      tagCountOption identifier + tagCountSequence? arguments + 1
  | .sizeof expression => tagCount expression + 1
  | .ifThen condition body => tagCount condition + tagCount body + 1
  | .ifElse condition thenBlock elseBlock =>
      tagCount condition + (tagCount thenBlock + tagCount elseBlock) + 1
  | .whileLoop condition body => tagCount condition + tagCount body + 1
  | .ret value => tagCountOption value + 1
  | .print arguments => tagCountAll arguments + 1 + 1
  | .evaluation argument => tagCount argument + 1
  | _ => 1
def tagCountAll : List Node → Nat
  | [] => 0
  | node :: nodes => tagCount node + tagCountAll nodes
def tagCountOption : Option Node → Nat
  | none => 0
  | some node => tagCount node
def tagCountSequence? : Option (List Node) → Nat
  | none => 0
  | some nodes => tagCountAll nodes + 1
def tagCountBlock : Block Node → Nat
  | ⟨declarations, instructions⟩ =>
      tagCountSequence? declarations + tagCountSequence? instructions + 1
end

section

variable {nodes : List Node} {option : Option Node}
  {nodes? declarations instructions : Option (List Node)}

theorem length_outlineAll (hnodes : ∀ node ∈ nodes, (outline node).length = tagCount node) :
    (outlineAll nodes).length = tagCountAll nodes := by
  induction nodes with
  | nil => rfl
  | cons node nodes ih =>
      have htail := ih fun other hmem => hnodes other (List.mem_cons_of_mem _ hmem)
      rw [outlineAll, tagCountAll, List.length_append, hnodes node (by simp), htail]

theorem length_outlineOption (hnode : ∀ node ∈ option, (outline node).length = tagCount node) :
    (outlineOption option).length = tagCountOption option := by
  cases option with
  | none => rfl
  | some node => exact hnode node rfl

theorem length_outlineSequence?
    (hnodes : ∀ nodes ∈ nodes?, ∀ node ∈ nodes, (outline node).length = tagCount node) :
    (outlineSequence? nodes?).length = tagCountSequence? nodes? := by
  cases nodes? with
  | none => rfl
  | some nodes =>
      rw [outlineSequence?, tagCountSequence?, List.length_cons,
        length_outlineAll (hnodes nodes rfl)]

theorem length_outlineBlock
    (hdeclarations : ∀ nodes ∈ declarations, ∀ node ∈ nodes,
      (outline node).length = tagCount node)
    (hinstructions : ∀ nodes ∈ instructions, ∀ node ∈ nodes,
      (outline node).length = tagCount node) :
    (outlineBlock ⟨declarations, instructions⟩).length =
      tagCountBlock ⟨declarations, instructions⟩ := by
  rw [outlineBlock, tagCountBlock, List.length_cons, List.length_append,
    length_outlineSequence? hdeclarations, length_outlineSequence? hinstructions]

theorem length_outline (node : Node) : node.outline.length = node.tagCount := by
  induction node using Node.nestedInduction with
  | sequence nodes ih => simp [outline, tagCount, length_outlineAll ih]
  | block declarations instructions ihdeclarations ihinstructions =>
      simp [outline, tagCount, length_outlineBlock ihdeclarations ihinstructions]
  | declaration identifier qualifier type initializer ih =>
      simp [outline, tagCount, length_outlineOption ih]
  | functionDefinition type arguments declarations instructions iharguments ihdeclarations
      ihinstructions =>
      simp [outline, tagCount, length_outlineSequence? iharguments,
        length_outlineBlock ihdeclarations ihinstructions]
  | functionCall identifier arguments ihidentifier iharguments =>
      simp [outline, tagCount, length_outlineOption ihidentifier,
        length_outlineSequence? iharguments]
  | ret value ih => simp [outline, tagCount, length_outlineOption ih]
  | print arguments ih => simp [outline, tagCount, length_outlineAll ih]
  | _ => simp_all [outline, tagCount]

end

end Node

namespace Tag

/-! ## The reader -/

/-- The name of the tag that a line opens, whether or not the line closes it
again. -/
def openedName? (line : List Char) : Option String :=
  match line.dropWhile (· == ' ') with
  | '<' :: '/' :: _ => none
  | '<' :: rest => if frontName rest = rest then none else some (String.ofList (frontName rest))
  | _ => none

def isNodeName (name : String) : Bool := "_node".toList.isSuffixOf name.toList

/-- The names of nodes that the lines of a text open, from top to bottom. -/
def nodeTags (text : String) : List String :=
  ((textLines text.toList).filterMap openedName?).filter isNodeName

/-! ## One line -/

def Mark.opened? : Mark → Option String
  | .opening name _ => some name
  | .closing _ => none
  | .inline name _ => some name

theorem dropWhile_body (line : Line) : line.body.dropWhile (· == ' ') = line.mark.text := by
  obtain ⟨rest, htext⟩ := line.mark.text_eq_cons
  rw [Line.body, htext, List.dropWhile_append_of_pos (by simp)]
  rfl

theorem openedName?_name {line : Line} {name : String} (hname : IsTagName name) {c : Char}
    (hc : c = ' ' ∨ c = '>') {back : List Char}
    (htext : line.mark.text = '<' :: (name.toList ++ c :: back)) :
    openedName? line.body = some name := by
  have hfront := frontName_append hname hc back
  have hne : ¬ frontName (name.toList ++ c :: back) = name.toList ++ c :: back := by
    rw [hfront]
    simp
  rw [openedName?, dropWhile_body, htext]
  split
  · rename_i heq
    exact absurd (List.cons.inj heq).2 (tagName_ne_slash hname hc _ _)
  · rename_i rest _ heq
    obtain rfl : name.toList ++ c :: back = rest := (List.cons.inj heq).2
    rw [if_neg hne, hfront, String.ofList_toList]
  · rename_i hother
    exact absurd rfl (hother _)

theorem openedName?_body {line : Line} (hline : line.mark.Sound) :
    openedName? line.body = line.mark.opened? := by
  obtain ⟨level, mark⟩ := line
  cases hline with
  | @opening name attributes hname hattributes =>
      obtain ⟨c, back, htail, hc, -⟩ := attributeText_bracket attributes
      have htext : (Mark.opening name attributes).text = '<' :: (name.toList ++ c :: back) := by
        rw [Mark.text, List.append_assoc, htail]
      exact openedName?_name hname hc htext
  | closing hname =>
      rw [openedName?, dropWhile_body]
      rfl
  | inline hname htext => exact openedName?_name hname (.inr rfl) rfl

/-- The names of nodes that some lines open. -/
def openedNodes (lines : List Line) : List String :=
  (lines.filterMap fun line => line.mark.opened?).filter isNodeName

theorem nodeTags_linesText {lines : List Line} (hlines : ∀ line ∈ lines, line.mark.Sound) :
    nodeTags (linesText lines) = openedNodes lines := by
  rw [nodeTags, textLines_linesText hlines, List.filterMap_map, openedNodes]
  congr 1
  exact List.filterMap_congr fun line hmem => openedName?_body (hlines line hmem)

/-! ## The names in a forest -/

def nodeNames (elements : List Element) : List String := openedNodes (Element.linesAll elements)

section

variable (level : Nat) (name text : String) (attributes : List (String × String))
  (children : List Element)

theorem openedNodes_append (front back : List Line) :
    openedNodes (front ++ back) = openedNodes front ++ openedNodes back := by
  simp [openedNodes]

@[simp] theorem nodeNames_nil : nodeNames [] = [] := rfl

@[simp] theorem nodeNames_append (front back : List Element) :
    nodeNames (front ++ back) = nodeNames front ++ nodeNames back := by
  simp [nodeNames, openedNodes_append]

@[simp] theorem nodeNames_cons_cons (first second : Element) (elements : List Element) :
    nodeNames (first :: second :: elements) = nodeNames [first] ++ nodeNames (second :: elements) :=
  nodeNames_append [first] (second :: elements)

@[simp] theorem nodeNames_leaf :
    nodeNames [.leaf level name text] = [name].filter isNodeName := rfl

@[simp] theorem nodeNames_branch :
    nodeNames [.branch level name attributes children] =
      [name].filter isNodeName ++ nodeNames children := by
  have hlines : Element.linesAll [.branch level name attributes children] =
      [⟨level, .opening name attributes⟩] ++ Element.linesAll children ++
        [⟨level, .closing name⟩] := by
    simp [Element.linesAll, Element.lines]
  have hopening : openedNodes [⟨level, .opening name attributes⟩] = [name].filter isNodeName := rfl
  have hclosing : openedNodes [⟨level, .closing name⟩] = [] := rfl
  rw [nodeNames, hlines, openedNodes_append, openedNodes_append, hopening, hclosing,
    List.append_nil, nodeNames]

end

@[simp] theorem isNodeName_label (node : Node) : isNodeName node.label = true := by
  have hsuffix : ∀ word : String, isNodeName (word ++ "_node") = true := by
    intro word
    rw [isNodeName, List.isSuffixOf_iff_suffix, String.toList_append]
    exact List.suffix_append _ _
  cases node <;> exact hsuffix _

/-- The tags that stand around the children of a node. -/
def wrapperNames : List String :=
  ["declarations", "instructions", "initializer", "arguments", "block", "identifier", "recursive",
    "condition", "then", "else"]

@[simp] theorem nodeNames_node (level : Nat) (node : Node) (children : List Element) :
    nodeNames [bare level node.label children] = node.label :: nodeNames children := by
  simp [bare]

theorem nodeNames_wrapper (level : Nat) {name : String} (hname : name ∈ wrapperNames)
    (children : List Element) : nodeNames [bare level name children] = nodeNames children := by
  have hwrappers : ∀ name ∈ wrapperNames, isNodeName name = false := by decide
  simp [bare, hwrappers name hname]

/-! ## The outline in a forest -/

/-- Are the node names in the forest of a node its outline, at every level? -/
def ShowsOutline (node : Node) : Prop := ∀ level, nodeNames (forest node level) = node.outline

section

variable {nodes : List Node} {option : Option Node}
  {nodes? declarations instructions : Option (List Node)}

theorem nodeNames_forestAll (hnodes : ∀ node ∈ nodes, ShowsOutline node) (level : Nat) :
    nodeNames (forestAll nodes level) = Node.outlineAll nodes := by
  induction nodes with
  | nil => rfl
  | cons node nodes ih =>
      have htail := ih fun other hmem => hnodes other (List.mem_cons_of_mem _ hmem)
      rw [forestAll, nodeNames_append, hnodes node (by simp), htail, Node.outlineAll]

theorem nodeNames_forestOption (hnode : ∀ node ∈ option, ShowsOutline node) (level : Nat) :
    nodeNames (forestOption option level) = Node.outlineOption option := by
  cases option with
  | none => rfl
  | some node => exact hnode node rfl level

theorem nodeNames_forestCallee (hnode : ∀ node ∈ option, ShowsOutline node) (level : Nat) :
    nodeNames (forestCallee option level) = Node.outlineOption option := by
  cases option with
  | none => rfl
  | some node => exact hnode node rfl level

theorem nodeNames_sequenceElement (hnodes : ∀ node ∈ nodes, ShowsOutline node)
    (level size inner : Nat) :
    nodeNames [sequenceElement level size (forestAll nodes inner)] =
      "sequence_node" :: Node.outlineAll nodes := by
  rw [sequenceElement, nodeNames_branch, nodeNames_forestAll hnodes]
  rfl

theorem nodeNames_forestSequence?
    (hnodes : ∀ nodes ∈ nodes?, ∀ node ∈ nodes, ShowsOutline node) (level : Nat) :
    nodeNames (forestSequence? nodes? level) = Node.outlineSequence? nodes? := by
  cases nodes? with
  | none => rfl
  | some nodes => exact nodeNames_sequenceElement (hnodes nodes rfl) level nodes.length _

theorem nodeNames_forestBlock
    (hdeclarations : ∀ nodes ∈ declarations, ∀ node ∈ nodes, ShowsOutline node)
    (hinstructions : ∀ nodes ∈ instructions, ∀ node ∈ nodes, ShowsOutline node) (level : Nat) :
    nodeNames [forestBlock ⟨declarations, instructions⟩ level] =
      Node.outlineBlock ⟨declarations, instructions⟩ := by
  rw [forestBlock, blockElement, bare, nodeNames_branch, nodeNames_cons_cons,
    nodeNames_wrapper _ (by decide),
    nodeNames_wrapper _ (by decide),
    nodeNames_forestSequence? hdeclarations, nodeNames_forestSequence? hinstructions]
  rfl

end

/-- The node names in the forest of a tree are its outline. -/
theorem showsOutline (node : Node) : ShowsOutline node := by
  induction node using Node.nestedInduction with
  | sequence nodes ih =>
      intro level
      exact nodeNames_sequenceElement ih level nodes.length _
  | block declarations instructions ihdeclarations ihinstructions =>
      intro level
      exact nodeNames_forestBlock ihdeclarations ihinstructions level
  | declaration identifier qualifier type initializer ih =>
      intro level
      rw [forest, nodeNames_branch, nodeNames_wrapper _ (by decide),
        nodeNames_forestOption ih]
      simp [Node.outline]
  | functionDefinition type arguments declarations instructions iharguments ihdeclarations
      ihinstructions =>
      intro level
      rw [forest, nodeNames_branch, nodeNames_cons_cons,
        nodeNames_wrapper _ (by decide), nodeNames_wrapper _ (by decide),
        nodeNames_forestSequence? iharguments,
        nodeNames_forestBlock ihdeclarations ihinstructions]
      simp [Node.outline]
  | functionCall identifier arguments ihidentifier iharguments =>
      intro level
      rw [forest, nodeNames_node, nodeNames_cons_cons,
        nodeNames_wrapper _ (by decide), nodeNames_wrapper _ (by decide),
        nodeNames_forestCallee ihidentifier, nodeNames_forestSequence? iharguments, Node.outline]
  | ifThen condition block ihcondition ihblock =>
      intro level
      rw [forest, nodeNames_node, nodeNames_cons_cons,
        nodeNames_wrapper _ (by decide), nodeNames_wrapper _ (by decide),
        ihcondition, ihblock, Node.outline]
  | ifElse condition thenBlock elseBlock ihcondition ihthen ihelse =>
      intro level
      rw [forest, nodeNames_node, nodeNames_cons_cons, nodeNames_cons_cons,
        nodeNames_wrapper _ (by decide), nodeNames_wrapper _ (by decide),
        nodeNames_wrapper _ (by decide), ihcondition, ihthen, ihelse, Node.outline]
  | whileLoop condition block ihcondition ihblock =>
      intro level
      rw [forest, nodeNames_node, nodeNames_cons_cons,
        nodeNames_wrapper _ (by decide), nodeNames_wrapper _ (by decide),
        ihcondition, ihblock, Node.outline]
  | ret value ih =>
      intro level
      rw [forest, nodeNames_node, nodeNames_forestOption ih, Node.outline]
  | print arguments ih =>
      intro level
      rw [forest, nodeNames_node, nodeNames_sequenceElement ih, Node.outline]
  | _ =>
      intro level
      simp_all [ShowsOutline, forest, Node.outline]

/-- The nodes that the lines of a dump open are those of its tree in pre-order,
if the texts of the tree stay on their lines. -/
theorem nodeTags_dump (root : Node) (level : Nat) (text : String)
    (hroot : root.Everywhere HasOneLineTexts) (hdump : dump? root level = some text) :
    nodeTags text = root.outline ∧ (nodeTags text).length = root.tagCount := by
  have hmarks : ∀ line ∈ lines root level, line.mark.Sound := mark_sound_of_mem_lines hroot
  have htags : nodeTags text = root.outline := by
    rw [dump?_eq_some hdump, nodeTags_linesText hmarks, lines_eq_linesAll]
    exact showsOutline root level
  refine ⟨htags, ?_⟩
  rw [htags]
  exact root.length_outline

theorem nodeTags_dump_tagLikeTexts :
    nodeTags
        (linesText (lines (.functionCall none
          (some [.string "<nil_node>", .data [0], .unary .neg (.var "</a_node> ")])) 3)) =
      ["function_call_node", "sequence_node", "string_node", "neg_node", "variable_node"] := by
  have hstring : (Node.string "<nil_node>").Everywhere HasOneLineTexts :=
    show IsOneLine _ by decide
  have hvar : (Node.var "</a_node> ").Everywhere HasOneLineTexts := show IsOneLine _ by decide
  have hdump := nodeTags_dump (.functionCall none
    (some [.string "<nil_node>", .data [0], .unary .neg (.var "</a_node> ")])) 3 _
    ⟨trivial, trivial, hstring, trivial, ⟨trivial, hvar⟩, trivial⟩ (if_pos (by decide))
  exact hdump.1.trans (by decide)

end Tag
end SyntaxDump
