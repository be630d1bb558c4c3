import Mathlib.Tactic
import SyntaxDump.Syntax.Node

/-!
# Trees and types as nested data

Induction principles whose hypotheses speak of the members of lists and of
optional parts, so that one property of nodes needs one statement only, the
replacement of all doubles of a tree, properties that hold at every node of it,
trees without doubles, and trees that agree except for their doubles.
-/

namespace SyntaxDump

namespace TypeDescriptor

/-- A property of all types follows from the scalars, pointers and function
types whose parts have it. -/
@[elab_as_elim]
theorem nestedInduction {motive : TypeDescriptor → Prop}
    (int : motive .int)
    (double : motive .double)
    (string : motive .string)
    (void : motive .void)
    (unspec : motive .unspec)
    (pointer : ∀ referenced, motive referenced → motive (.pointer referenced))
    (functional : ∀ inputs output, (∀ input ∈ inputs, motive input) → motive output →
      motive (.functional inputs output))
    (type : TypeDescriptor) : motive type := by
  refine @TypeDescriptor.rec motive (fun types => ∀ input ∈ types, motive input)
    int double string void unspec pointer functional ?_ ?_ type
  · simp
  · intro input inputs hinput hinputs other hother
    rcases List.mem_cons.mp hother with heq | hmem
    · subst heq
      exact hinput
    · exact hinputs other hmem

end TypeDescriptor

namespace Node

/-- A property of all nodes follows from its cases, where it may be assumed of
all nodes directly below, whether they stand alone or in a list. -/
@[elab_as_elim]
theorem nestedInduction {motive : Node → Prop}
    (integer : ∀ value, motive (.integer value))
    (double : ∀ value, motive (.double value))
    (string : ∀ value, motive (.string value))
    (nil : motive .nil)
    (null : motive .null)
    (data : ∀ bytes, motive (.data bytes))
    (unary : ∀ op argument, motive argument → motive (.unary op argument))
    (binary : ∀ op left right, motive left → motive right → motive (.binary op left right))
    (var : ∀ name, motive (.var name))
    (index : ∀ base index, motive base → motive index → motive (.index base index))
    (addressOf : ∀ lvalue, motive lvalue → motive (.addressOf lvalue))
    (stackAlloc : ∀ argument, motive argument → motive (.stackAlloc argument))
    (rvalue : ∀ lvalue, motive lvalue → motive (.rvalue lvalue))
    (assignment : ∀ lvalue rvalue, motive lvalue → motive rvalue →
      motive (.assignment lvalue rvalue))
    (sequence : ∀ nodes, (∀ node ∈ nodes, motive node) → motive (.sequence nodes))
    (block : ∀ declarations instructions,
      (∀ nodes ∈ declarations, ∀ node ∈ nodes, motive node) →
      (∀ nodes ∈ instructions, ∀ node ∈ nodes, motive node) →
      motive (.block ⟨declarations, instructions⟩))
    (declaration : ∀ identifier qualifier type initializer,
      (∀ node ∈ initializer, motive node) →
      motive (.declaration identifier qualifier type initializer))
    (functionDefinition : ∀ type arguments declarations instructions,
      (∀ nodes ∈ arguments, ∀ node ∈ nodes, motive node) →
      (∀ nodes ∈ declarations, ∀ node ∈ nodes, motive node) →
      (∀ nodes ∈ instructions, ∀ node ∈ nodes, motive node) →
      motive (.functionDefinition type arguments ⟨declarations, instructions⟩))
    (functionCall : ∀ identifier arguments, (∀ node ∈ identifier, motive node) →
      (∀ nodes ∈ arguments, ∀ node ∈ nodes, motive node) →
      motive (.functionCall identifier arguments))
    (sizeof : ∀ expression, motive expression → motive (.sizeof expression))
    (ifThen : ∀ condition block, motive condition → motive block →
      motive (.ifThen condition block))
    (ifElse : ∀ condition thenBlock elseBlock, motive condition → motive thenBlock →
      motive elseBlock → motive (.ifElse condition thenBlock elseBlock))
    (whileLoop : ∀ condition block, motive condition → motive block →
      motive (.whileLoop condition block))
    (ret : ∀ value, (∀ node ∈ value, motive node) → motive (.ret value))
    (stop : ∀ level, motive (.stop level))
    (next : ∀ level, motive (.next level))
    (input : motive .input)
    (print : ∀ arguments, (∀ node ∈ arguments, motive node) → motive (.print arguments))
    (evaluation : ∀ argument, motive argument → motive (.evaluation argument))
    (node : Node) : motive node := by
  refine @Node.rec motive
    (fun nodes => ∀ node ∈ nodes, motive node)
    (fun body => (∀ nodes ∈ body.declarations, ∀ node ∈ nodes, motive node) ∧
      ∀ nodes ∈ body.instructions, ∀ node ∈ nodes, motive node)
    (fun option => ∀ node ∈ option, motive node)
    (fun option => ∀ nodes ∈ option, ∀ node ∈ nodes, motive node)
    integer double string nil null data unary binary var index addressOf stackAlloc rvalue
    assignment sequence (fun body hbody => block _ _ hbody.1 hbody.2) declaration
    (fun type arguments body harguments hbody =>
      functionDefinition type arguments _ _ harguments hbody.1 hbody.2)
    functionCall sizeof ifThen ifElse whileLoop ret stop next input print evaluation
    ?_ ?_ ?_ ?_ ?_ ?_ ?_ node
  · simp
  · intro node nodes hnode hnodes other hother
    rcases List.mem_cons.mp hother with heq | hmem
    · subst heq
      exact hnode
    · exact hnodes other hmem
  · intro declarations instructions hdeclarations hinstructions
    exact ⟨hdeclarations, hinstructions⟩
  · simp
  · intro node hnode other hother
    rw [← Option.mem_some_iff.mp hother]
    exact hnode
  · simp
  · intro nodes hnodes others hothers
    rw [← Option.mem_some_iff.mp hothers]
    exact hnodes

/-! ## Replacing doubles -/

mutual
/-- The tree with every double replaced. -/
def mapDoubles (f : Binary64 → Binary64) : Node → Node
  | .integer value => .integer value
  | .double value => .double (f value)
  | .string value => .string value
  | .nil => .nil
  | .null => .null
  | .data bytes => .data bytes
  | .unary op argument => .unary op (argument.mapDoubles f)
  | .binary op left right => .binary op (left.mapDoubles f) (right.mapDoubles f)
  | .var name => .var name
  | .index base position => .index (base.mapDoubles f) (position.mapDoubles f)
  | .addressOf lvalue => .addressOf (lvalue.mapDoubles f)
  | .stackAlloc argument => .stackAlloc (argument.mapDoubles f)
  | .rvalue lvalue => .rvalue (lvalue.mapDoubles f)
  | .assignment target value => .assignment (target.mapDoubles f) (value.mapDoubles f)
  | .sequence nodes => .sequence (mapDoublesAll f nodes)
  | .block body => .block (mapDoublesBlock f body)
  | .declaration identifier qualifier type initializer =>
      .declaration identifier qualifier type (mapDoublesOption f initializer)
  | .functionDefinition type arguments body =>
      .functionDefinition type (mapDoublesSequence? f arguments) (mapDoublesBlock f body)
  | .functionCall identifier arguments =>
      .functionCall (mapDoublesOption f identifier) (mapDoublesSequence? f arguments)
  | .sizeof expression => .sizeof (expression.mapDoubles f)
  | .ifThen condition body => .ifThen (condition.mapDoubles f) (body.mapDoubles f)
  | .ifElse condition thenBlock elseBlock =>
      .ifElse (condition.mapDoubles f) (thenBlock.mapDoubles f) (elseBlock.mapDoubles f)
  | .whileLoop condition body => .whileLoop (condition.mapDoubles f) (body.mapDoubles f)
  | .ret value => .ret (mapDoublesOption f value)
  | .stop level => .stop level
  | .next level => .next level
  | .input => .input
  | .print arguments => .print (mapDoublesAll f arguments)
  | .evaluation argument => .evaluation (argument.mapDoubles f)
def mapDoublesAll (f : Binary64 → Binary64) : List Node → List Node
  | [] => []
  | node :: nodes => node.mapDoubles f :: mapDoublesAll f nodes
def mapDoublesOption (f : Binary64 → Binary64) : Option Node → Option Node
  | none => none
  | some node => some (node.mapDoubles f)
def mapDoublesSequence? (f : Binary64 → Binary64) : Option (List Node) → Option (List Node)
  | none => none
  | some nodes => some (mapDoublesAll f nodes)
def mapDoublesBlock (f : Binary64 → Binary64) : Block Node → Block Node
  | ⟨declarations, instructions⟩ =>
      ⟨mapDoublesSequence? f declarations, mapDoublesSequence? f instructions⟩
end

theorem mapDoublesAll_eq_map (f : Binary64 → Binary64) (nodes : List Node) :
    mapDoublesAll f nodes = nodes.map (mapDoubles f) := by
  induction nodes with
  | nil => rfl
  | cons node nodes ih => simp [mapDoublesAll, ih]

/-! ## Properties of all nodes of a tree -/

mutual
/-- Does the property hold at the node and at every node below it? -/
def Everywhere (p : Node → Prop) : Node → Prop
  | node@(.unary _ argument) => p node ∧ argument.Everywhere p
  | node@(.binary _ left right) => p node ∧ left.Everywhere p ∧ right.Everywhere p
  | node@(.index base position) => p node ∧ base.Everywhere p ∧ position.Everywhere p
  | node@(.addressOf argument) => p node ∧ argument.Everywhere p
  | node@(.stackAlloc argument) => p node ∧ argument.Everywhere p
  | node@(.rvalue argument) => p node ∧ argument.Everywhere p
  | node@(.assignment target value) => p node ∧ target.Everywhere p ∧ value.Everywhere p
  | node@(.sequence nodes) => p node ∧ EverywhereAll p nodes
  | node@(.block body) => p node ∧ EverywhereBlock p body
  | node@(.declaration _ _ _ initializer) => p node ∧ EverywhereOption p initializer
  | node@(.functionDefinition _ arguments body) =>
      p node ∧ EverywhereSequence? p arguments ∧ EverywhereBlock p body
  | node@(.functionCall identifier arguments) =>
      p node ∧ EverywhereOption p identifier ∧ EverywhereSequence? p arguments
  | node@(.sizeof argument) => p node ∧ argument.Everywhere p
  | node@(.ifThen condition body) => p node ∧ condition.Everywhere p ∧ body.Everywhere p
  | node@(.ifElse condition thenBlock elseBlock) =>
      p node ∧ condition.Everywhere p ∧ thenBlock.Everywhere p ∧ elseBlock.Everywhere p
  | node@(.whileLoop condition body) => p node ∧ condition.Everywhere p ∧ body.Everywhere p
  | node@(.ret value) => p node ∧ EverywhereOption p value
  | node@(.print arguments) => p node ∧ EverywhereAll p arguments
  | node@(.evaluation argument) => p node ∧ argument.Everywhere p
  | .integer value => p (.integer value)
  | .double value => p (.double value)
  | .string value => p (.string value)
  | .nil => p .nil
  | .null => p .null
  | .data bytes => p (.data bytes)
  | .var name => p (.var name)
  | .stop level => p (.stop level)
  | .next level => p (.next level)
  | .input => p .input
def EverywhereAll (p : Node → Prop) : List Node → Prop
  | [] => True
  | node :: nodes => node.Everywhere p ∧ EverywhereAll p nodes
def EverywhereOption (p : Node → Prop) : Option Node → Prop
  | none => True
  | some node => node.Everywhere p
def EverywhereSequence? (p : Node → Prop) : Option (List Node) → Prop
  | none => True
  | some nodes => EverywhereAll p nodes
def EverywhereBlock (p : Node → Prop) : Block Node → Prop
  | ⟨declarations, instructions⟩ =>
      EverywhereSequence? p declarations ∧ EverywhereSequence? p instructions
end

theorem Everywhere.self {p : Node → Prop} {node : Node} (hnode : node.Everywhere p) : p node := by
  cases node <;> first | exact hnode | exact hnode.1

/-! ## Trees without doubles -/

def HasNoDoubles (node : Node) : Prop := node.Everywhere fun part => part.kind ≠ .double

section

variable {f : Binary64 → Binary64} {p : Node → Prop}

theorem mapDoublesAll_eq_self {nodes : List Node}
    (hnodes : ∀ node ∈ nodes, node.Everywhere p → node.mapDoubles f = node)
    (hall : EverywhereAll p nodes) : mapDoublesAll f nodes = nodes := by
  induction nodes with
  | nil => rfl
  | cons node nodes ih =>
      have htail := ih (fun other hmem => hnodes other (List.mem_cons_of_mem _ hmem)) hall.2
      rw [mapDoublesAll, hnodes node (by simp) hall.1, htail]

theorem mapDoublesOption_eq_self {node : Option Node}
    (hnode : ∀ known ∈ node, known.Everywhere p → known.mapDoubles f = known)
    (hall : EverywhereOption p node) : mapDoublesOption f node = node := by
  cases node with
  | none => rfl
  | some node => rw [mapDoublesOption, hnode node rfl hall]

theorem mapDoublesSequence?_eq_self {nodes : Option (List Node)}
    (hnodes : ∀ known ∈ nodes, ∀ node ∈ known, node.Everywhere p → node.mapDoubles f = node)
    (hall : EverywhereSequence? p nodes) : mapDoublesSequence? f nodes = nodes := by
  cases nodes with
  | none => rfl
  | some nodes => rw [mapDoublesSequence?, mapDoublesAll_eq_self (hnodes nodes rfl) hall]

theorem mapDoublesBlock_eq_self {declarations instructions : Option (List Node)}
    (hdeclarations : ∀ known ∈ declarations, ∀ node ∈ known,
      node.Everywhere p → node.mapDoubles f = node)
    (hinstructions : ∀ known ∈ instructions, ∀ node ∈ known,
      node.Everywhere p → node.mapDoubles f = node)
    (hall : EverywhereBlock p ⟨declarations, instructions⟩) :
    mapDoublesBlock f ⟨declarations, instructions⟩ = ⟨declarations, instructions⟩ := by
  rw [mapDoublesBlock, mapDoublesSequence?_eq_self hdeclarations hall.1,
    mapDoublesSequence?_eq_self hinstructions hall.2]

/-- Replacing doubles changes nothing where there are none. -/
theorem mapDoubles_eq_self (node : Node) (hnode : node.HasNoDoubles) :
    node.mapDoubles f = node := by
  unfold HasNoDoubles at hnode
  induction node using Node.nestedInduction with
  | double value => exact absurd rfl hnode
  | sequence nodes ih => rw [mapDoubles, mapDoublesAll_eq_self ih hnode.2]
  | block declarations instructions ihdeclarations ihinstructions =>
      rw [mapDoubles, mapDoublesBlock_eq_self ihdeclarations ihinstructions hnode.2]
  | declaration identifier qualifier type initializer ih =>
      rw [mapDoubles, mapDoublesOption_eq_self ih hnode.2]
  | functionDefinition type arguments declarations instructions iharguments ihdeclarations
      ihinstructions =>
      rw [mapDoubles, mapDoublesSequence?_eq_self iharguments hnode.2.1,
        mapDoublesBlock_eq_self ihdeclarations ihinstructions hnode.2.2]
  | functionCall identifier arguments ihidentifier iharguments =>
      rw [mapDoubles, mapDoublesOption_eq_self ihidentifier hnode.2.1,
        mapDoublesSequence?_eq_self iharguments hnode.2.2]
  | ret value ih => rw [mapDoubles, mapDoublesOption_eq_self ih hnode.2]
  | print arguments ih => rw [mapDoubles, mapDoublesAll_eq_self ih hnode.2]
  | _ => simp_all [Everywhere, mapDoubles]

end

/-! ## Trees that agree except for their doubles -/

/-- Are two trees the same, with doubles compared by `r`? -/
inductive Alike (r : Binary64 → Binary64 → Prop) : Node → Node → Prop
  | integer (value : Int32) : Alike r (.integer value) (.integer value)
  | double {x y : Binary64} (hdouble : r x y) : Alike r (.double x) (.double y)
  | string (value : String) : Alike r (.string value) (.string value)
  | nil : Alike r .nil .nil
  | null : Alike r .null .null
  | data (bytes : List UInt8) : Alike r (.data bytes) (.data bytes)
  | unary (op : UnaryOperator) {a a' : Node} (ha : Alike r a a') :
      Alike r (.unary op a) (.unary op a')
  | binary (op : BinaryOperator) {a a' b b' : Node} (ha : Alike r a a') (hb : Alike r b b') :
      Alike r (.binary op a b) (.binary op a' b')
  | var (name : String) : Alike r (.var name) (.var name)
  | index {a a' b b' : Node} (ha : Alike r a a') (hb : Alike r b b') :
      Alike r (.index a b) (.index a' b')
  | addressOf {a a' : Node} (ha : Alike r a a') : Alike r (.addressOf a) (.addressOf a')
  | stackAlloc {a a' : Node} (ha : Alike r a a') : Alike r (.stackAlloc a) (.stackAlloc a')
  | rvalue {a a' : Node} (ha : Alike r a a') : Alike r (.rvalue a) (.rvalue a')
  | assignment {a a' b b' : Node} (ha : Alike r a a') (hb : Alike r b b') :
      Alike r (.assignment a b) (.assignment a' b')
  | sequence {nodes nodes' : List Node} (hnodes : List.Forall₂ (Alike r) nodes nodes') :
      Alike r (.sequence nodes) (.sequence nodes')
  | block {declarations declarations' instructions instructions' : Option (List Node)}
      (hdeclarations : Option.Rel (List.Forall₂ (Alike r)) declarations declarations')
      (hinstructions : Option.Rel (List.Forall₂ (Alike r)) instructions instructions') :
      Alike r (.block ⟨declarations, instructions⟩) (.block ⟨declarations', instructions'⟩)
  | declaration (identifier : String) (qualifier : Qualifier) (type : Option TypeDescriptor)
      {initializer initializer' : Option Node}
      (hinitializer : Option.Rel (Alike r) initializer initializer') :
      Alike r (.declaration identifier qualifier type initializer)
        (.declaration identifier qualifier type initializer')
  | functionDefinition (type : Option TypeDescriptor) {arguments arguments' : Option (List Node)}
      {declarations declarations' instructions instructions' : Option (List Node)}
      (harguments : Option.Rel (List.Forall₂ (Alike r)) arguments arguments')
      (hdeclarations : Option.Rel (List.Forall₂ (Alike r)) declarations declarations')
      (hinstructions : Option.Rel (List.Forall₂ (Alike r)) instructions instructions') :
      Alike r (.functionDefinition type arguments ⟨declarations, instructions⟩)
        (.functionDefinition type arguments' ⟨declarations', instructions'⟩)
  | functionCall {identifier identifier' : Option Node} {arguments arguments' : Option (List Node)}
      (hidentifier : Option.Rel (Alike r) identifier identifier')
      (harguments : Option.Rel (List.Forall₂ (Alike r)) arguments arguments') :
      Alike r (.functionCall identifier arguments) (.functionCall identifier' arguments')
  | sizeof {a a' : Node} (ha : Alike r a a') : Alike r (.sizeof a) (.sizeof a')
  | ifThen {a a' b b' : Node} (ha : Alike r a a') (hb : Alike r b b') :
      Alike r (.ifThen a b) (.ifThen a' b')
  | ifElse {a a' b b' c c' : Node} (ha : Alike r a a') (hb : Alike r b b') (hc : Alike r c c') :
      Alike r (.ifElse a b c) (.ifElse a' b' c')
  | whileLoop {a a' b b' : Node} (ha : Alike r a a') (hb : Alike r b b') :
      Alike r (.whileLoop a b) (.whileLoop a' b')
  | ret {value value' : Option Node} (hvalue : Option.Rel (Alike r) value value') :
      Alike r (.ret value) (.ret value')
  | stop (level : Int32) : Alike r (.stop level) (.stop level)
  | next (level : Int32) : Alike r (.next level) (.next level)
  | input : Alike r .input .input
  | print {arguments arguments' : List Node}
      (harguments : List.Forall₂ (Alike r) arguments arguments') :
      Alike r (.print arguments) (.print arguments')
  | evaluation {a a' : Node} (ha : Alike r a a') : Alike r (.evaluation a) (.evaluation a')

end Node
end SyntaxDump
