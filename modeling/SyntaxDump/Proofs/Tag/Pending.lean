import Mathlib.Tactic
import SyntaxDump.Proofs.Tag.Sink

/-!
# The pending flag

A visit lowers the pending flag at two kinds of points: in front of a
declaration, and between the two sides of an assignment.  Whether such a point
is reached depends on the room in the sink alone, because the walk stops at the
first line that does not fit.

To say where the points are, every node is laid out as a list of its own lines
with its children in between.  The lines in front of a node that lies deep in
the tree are then those of the layouts on the way to it.
-/

namespace SyntaxDump
namespace Tag

/-! ## Layouts -/

/-- A line of a node or one of its children. -/
inductive Part where
  | line (content : Line)
  | child (node : Node) (level : Nat)

def Part.lines : Part → List Line
  | .line content => [content]
  | .child node level => Tag.lines node level

def partLines (parts : List Part) : List Line := parts.flatMap Part.lines

/-- The parts inside a pair of tags without attributes. -/
def enclosed (level : Nat) (name : String) (parts : List Part) : List Part :=
  .line ⟨level, .opening name []⟩ :: (parts ++ [.line ⟨level, .closing name⟩])

def sequenceLayout (level : Nat) (nodes : List Node) : List Part :=
  .line ⟨level, .opening "sequence_node" [("size", Decimal.natText nodes.length)]⟩ ::
    (nodes.map (Part.child · (level + 2)) ++ [.line ⟨level, .closing "sequence_node"⟩])

def sequenceLayout? (level : Nat) : Option (List Node) → List Part
  | none => []
  | some nodes => sequenceLayout level nodes

def blockLayout (level : Nat) (body : Block Node) : List Part :=
  enclosed level "block_node"
    (enclosed (level + 2) "declarations" (sequenceLayout? (level + 4) body.declarations) ++
      enclosed (level + 2) "instructions" (sequenceLayout? (level + 4) body.instructions))

def optionLayout (level : Nat) : Option Node → List Part
  | none => []
  | some node => [.child node level]

def calleeLayout (level : Nat) : Option Node → List Part
  | none => enclosed level "recursive" []
  | some node => [.child node level]

/-- The lines of a node and its children, from top to bottom. -/
def layout : Node → Nat → List Part
  | node@(.integer value), level =>
      [.line ⟨level, .inline node.label (Decimal.integerText value.toInt)⟩]
  | node@(.double value), level => [.line ⟨level, .inline node.label (doubleText value)⟩]
  | node@(.string value), level => [.line ⟨level, .inline node.label value⟩]
  | node@(.nil), level => enclosed level node.label []
  | node@(.null), level => enclosed level node.label []
  | .data _, _ => []
  | node@(.unary _ argument), level => enclosed level node.label [.child argument (level + 2)]
  | node@(.binary _ left right), level =>
      enclosed level node.label [.child left (level + 2), .child right (level + 2)]
  | node@(.var name), level => [.line ⟨level, .inline node.label name⟩]
  | node@(.index base position), level =>
      enclosed level node.label [.child base (level + 4), .child position (level + 4)]
  | node@(.addressOf lvalue), level => enclosed level node.label [.child lvalue (level + 4)]
  | node@(.stackAlloc argument), level => enclosed level node.label [.child argument (level + 4)]
  | node@(.rvalue lvalue), level => enclosed level node.label [.child lvalue (level + 4)]
  | node@(.assignment target value), level =>
      enclosed level node.label [.child target level, .child value (level + 4)]
  | .sequence nodes, level => sequenceLayout level nodes
  | .block body, level => blockLayout level body
  | node@(.declaration identifier qualifier type initializer), level =>
      .line ⟨level, .opening node.label
          [("name", identifier), ("qualifier", qualifier.name), ("type", typeAttribute type)]⟩ ::
        (enclosed level "initializer" (optionLayout (level + 4) initializer) ++
          [.line ⟨level, .closing node.label⟩])
  | node@(.functionDefinition type arguments body), level =>
      .line ⟨level, .opening node.label [("type", typeAttribute type)]⟩ ::
        (enclosed (level + 2) "arguments" (sequenceLayout? (level + 4) arguments) ++
          enclosed (level + 2) "block" (blockLayout (level + 4) body) ++
          [.line ⟨level, .closing node.label⟩])
  | node@(.functionCall identifier arguments), level =>
      enclosed level node.label
        (enclosed (level + 2) "identifier" (calleeLayout (level + 4) identifier) ++
          enclosed (level + 2) "arguments" (sequenceLayout? (level + 4) arguments))
  | node@(.sizeof expression), level => enclosed level node.label [.child expression (level + 4)]
  | node@(.ifThen condition block), level =>
      enclosed level node.label
        (enclosed (level + 2) "condition" [.child condition (level + 4)] ++
          enclosed (level + 2) "then" [.child block (level + 4)])
  | node@(.ifElse condition thenBlock elseBlock), level =>
      enclosed level node.label
        (enclosed (level + 2) "condition" [.child condition (level + 4)] ++
          enclosed (level + 2) "then" [.child thenBlock (level + 4)] ++
          enclosed (level + 2) "else" [.child elseBlock (level + 4)])
  | node@(.whileLoop condition block), level =>
      enclosed level node.label
        (enclosed (level + 2) "condition" [.child condition (level + 4)] ++
          enclosed (level + 2) "block" [.child block (level + 4)])
  | node@(.ret value), level => enclosed level node.label (optionLayout (level + 4) value)
  | node@(.stop depth), level =>
      [.line ⟨level, .opening node.label [("level", Decimal.integerText depth.toInt)]⟩,
        .line ⟨level, .closing node.label⟩]
  | node@(.next depth), level =>
      [.line ⟨level, .opening node.label [("level", Decimal.integerText depth.toInt)]⟩,
        .line ⟨level, .closing node.label⟩]
  | node@(.input), level => enclosed level node.label []
  | node@(.print arguments), level =>
      enclosed level node.label (sequenceLayout (level + 2) arguments)
  | node@(.evaluation argument), level => enclosed level node.label [.child argument (level + 2)]

/-- `Stands root level before node depth` says that `node` is part of the tree
`root`, that its lines are indented by `depth` at least, and that in the dump
of the root they come behind the lines `before`. -/
inductive Stands : Node → Nat → List Line → Node → Nat → Prop
  | here (node : Node) (level : Nat) : Stands node level [] node level
  | inside {root child node : Node} {level inner depth : Nat} {front back : List Part}
      {before : List Line} (hlayout : layout root level = front ++ .child child inner :: back)
      (hchild : Stands child inner before node depth) :
      Stands root level (partLines front ++ before) node depth

/-- The points at which the flag is lowered, given by the lines in front of
them: the first line of a declaration, and the end of the target of an
assignment. -/
inductive ClearingPoint (root : Node) (level : Nat) : List Line → Prop
  | declaration {identifier : String} {qualifier : Qualifier} {type : Option TypeDescriptor}
      {initializer : Option Node} {before : List Line} {depth : Nat}
      (hstands : Stands root level before
        (.declaration identifier qualifier type initializer) depth) :
      ClearingPoint root level before
  | assignment {target value : Node} {before : List Line} {depth : Nat}
      (hstands : Stands root level before (.assignment target value) depth) :
      ClearingPoint root level
        (before ++ ⟨depth, .opening (Node.assignment target value).label []⟩ ::
          lines target depth)

/-! ## The walk along a layout -/

def Part.events : Part → List Event
  | .line content => [.line content]
  | .child node level => walk node level

def partEvents (parts : List Part) : List Event := parts.flatMap Part.events

section

variable (parts front back : List Part) (level : Nat) (name : String)

@[simp] theorem partEvents_nil : partEvents [] = [] := rfl

@[simp] theorem partEvents_line (line : Line) :
    partEvents (.line line :: parts) = .line line :: partEvents parts := rfl

@[simp] theorem partEvents_child (node : Node) :
    partEvents (.child node level :: parts) = walk node level ++ partEvents parts := rfl

@[simp] theorem partEvents_append :
    partEvents (front ++ back) = partEvents front ++ partEvents back := List.flatMap_append

@[simp] theorem partEvents_enclosed :
    partEvents (enclosed level name parts) = wrapped level name (partEvents parts) := by
  simp [enclosed, wrapped, openAt, closeAt]

end

theorem eventLines_partEvents (parts : List Part) :
    eventLines (partEvents parts) = partLines parts := by
  induction parts with
  | nil => rfl
  | cons part parts ih =>
      cases part with
      | line line => exact congrArg (line :: ·) ih
      | child node level =>
          rw [partEvents_child, eventLines_append, ih]
          rfl

theorem partEvents_children (nodes : List Node) (level : Nat) :
    partEvents (nodes.map (Part.child · level)) = walkAll nodes level := by
  induction nodes with
  | nil => rfl
  | cons node nodes ih => rw [List.map_cons, partEvents_child, ih, walkAll]

theorem partEvents_sequenceLayout (level : Nat) (nodes : List Node) :
    partEvents (sequenceLayout level nodes) =
      sequenced level nodes.length (walkAll nodes (level + 2)) := by
  simp [sequenceLayout, sequenced, openWith, closeAt, partEvents_children]

theorem partEvents_sequenceLayout? (level : Nat) (nodes : Option (List Node)) :
    partEvents (sequenceLayout? level nodes) = walkSequence? nodes level := by
  cases nodes with
  | none => rfl
  | some nodes => exact partEvents_sequenceLayout level nodes

theorem partEvents_blockLayout (level : Nat) (body : Block Node) :
    partEvents (blockLayout level body) = walkBlock body level := by
  obtain ⟨declarations, instructions⟩ := body
  simp [blockLayout, walkBlock, blocked, partEvents_sequenceLayout?]

theorem partEvents_optionLayout (level : Nat) (node : Option Node) :
    partEvents (optionLayout level node) = walkOption node level := by
  cases node with
  | none => rfl
  | some node => exact List.append_nil _

/-- A walk enters the node and follows its layout; only declarations and
assignments settle something on the way. -/
theorem walk_eq_layout (node : Node) (level : Nat) :
    walk node level = .visiting node.label level ::
      match node with
      | .declaration .. => .settled :: partEvents (layout node level)
      | .assignment target value =>
          .line ⟨level, .opening node.label []⟩ :: (walk target level ++
            .settled :: partEvents [.child value (level + 4), .line ⟨level, .closing node.label⟩])
      | _ => partEvents (layout node level) := by
  cases node with
  | functionCall identifier arguments =>
      cases identifier <;>
        simp [walk, layout, calleeLayout, partEvents_sequenceLayout?]
  | _ =>
      simp [walk, layout, partEvents_sequenceLayout, partEvents_sequenceLayout?,
        partEvents_blockLayout, partEvents_optionLayout, wrapped, openAt, openWith, closeAt,
        inlineAt]

/-! ## Settling on a walk -/

/-- Is something settled behind the given lines? -/
def Settles (events : List Event) (before : List Line) : Prop :=
  ∃ front back, events = front ++ .settled :: back ∧ eventLines front = before

section

variable {events front back : List Event} {before : List Line}

@[simp] theorem settles_nil : ¬ Settles [] before := by
  simp [Settles]

theorem settles_cons {event : Event} :
    Settles (event :: events) before ↔ event = .settled ∧ before = [] ∨
      ∃ tail, Settles events tail ∧ before = eventLines [event] ++ tail := by
  constructor
  · rintro ⟨front, back, hevents, rfl⟩
    cases front with
    | nil =>
        left
        exact ⟨(List.cons.inj hevents).1, rfl⟩
    | cons first front =>
        obtain ⟨rfl, hrest⟩ := List.cons.inj hevents
        right
        exact ⟨eventLines front, ⟨front, back, hrest, rfl⟩, eventLines_append [event] front⟩
  · rintro (⟨rfl, rfl⟩ | ⟨tail, ⟨front, back, rfl, rfl⟩, rfl⟩)
    · exact ⟨[], events, rfl, rfl⟩
    · exact ⟨event :: front, back, rfl, eventLines_append [event] front⟩

@[simp] theorem settles_visiting {label : String} {level : Nat} :
    Settles (.visiting label level :: events) before ↔ Settles events before := by
  simp [settles_cons]

@[simp] theorem settles_settled :
    Settles (.settled :: events) before ↔ before = [] ∨ Settles events before := by
  simp [settles_cons]

@[simp] theorem settles_line {line : Line} :
    Settles (.line line :: events) before ↔
      ∃ tail, Settles events tail ∧ before = line :: tail := by
  simp [settles_cons]

@[simp] theorem settles_append :
    Settles (front ++ back) before ↔ Settles front before ∨
      ∃ tail, Settles back tail ∧ before = eventLines front ++ tail := by
  induction front generalizing before with
  | nil => simp
  | cons event front ih =>
      have hlines : eventLines (event :: front) = eventLines [event] ++ eventLines front :=
        eventLines_append [event] front
      rw [List.cons_append, settles_cons, settles_cons, hlines]
      constructor
      · rintro (hhere | ⟨tail, htail, rfl⟩)
        · exact .inl (.inl hhere)
        · rcases ih.mp htail with hfront | ⟨rest, hback, rfl⟩
          · exact .inl (.inr ⟨tail, hfront, rfl⟩)
          · exact .inr ⟨rest, hback, by rw [List.append_assoc]⟩
      · rintro ((hhere | ⟨tail, htail, rfl⟩) | ⟨rest, hback, rfl⟩)
        · exact .inl hhere
        · exact .inr ⟨tail, ih.mpr (.inl htail), rfl⟩
        · exact .inr ⟨_, ih.mpr (.inr ⟨rest, hback, rfl⟩), by rw [List.append_assoc]⟩

theorem settles_insert :
    Settles (front ++ .settled :: back) before ↔
      before = eventLines front ∨ Settles (front ++ back) before := by
  rw [settles_append, settles_append]
  constructor
  · rintro (hfront | ⟨tail, htail, rfl⟩)
    · exact .inr (.inl hfront)
    · rcases settles_settled.mp htail with rfl | hback
      · exact .inl (List.append_nil _)
      · exact .inr (.inr ⟨tail, hback, rfl⟩)
  · rintro (rfl | hfront | ⟨tail, hback, rfl⟩)
    · exact .inr ⟨[], settles_settled.mpr (.inl rfl), (List.append_nil _).symm⟩
    · exact .inl hfront
    · exact .inr ⟨tail, settles_settled.mpr (.inr hback), rfl⟩

end

theorem settles_partEvents {parts : List Part} {before : List Line} :
    Settles (partEvents parts) before ↔ ∃ front node level back tail,
      parts = front ++ .child node level :: back ∧ Settles (walk node level) tail ∧
        before = partLines front ++ tail := by
  induction parts generalizing before with
  | nil => simp
  | cons part parts ih =>
      constructor
      · intro hsettles
        cases part with
        | line line =>
            obtain ⟨tail, htail, rfl⟩ := settles_line.mp hsettles
            obtain ⟨front, node, level, back, rest, rfl, hnode, rfl⟩ := ih.mp htail
            exact ⟨.line line :: front, node, level, back, rest, rfl, hnode, rfl⟩
        | child node level =>
            rw [partEvents_child] at hsettles
            rcases settles_append.mp hsettles with hnode | ⟨tail, htail, rfl⟩
            · exact ⟨[], node, level, parts, before, rfl, hnode, rfl⟩
            · obtain ⟨front, other, inner, back, rest, rfl, hother, rfl⟩ := ih.mp htail
              refine ⟨.child node level :: front, other, inner, back, rest, rfl, hother, ?_⟩
              exact (List.append_assoc (lines node level) (partLines front) rest).symm
      · rintro ⟨front, node, level, back, tail, hparts, hnode, rfl⟩
        rw [hparts, partEvents_append, settles_append, eventLines_partEvents]
        right
        exact ⟨tail, settles_append.mpr (.inl hnode), rfl⟩

/-! ## Clearing points are where something is settled -/

/-- The clearing point of a node itself, if it has one. -/
def OwnPoint : Node → Nat → List Line → Prop
  | .declaration .., _, before => before = []
  | node@(.assignment target _), level, before =>
      before = ⟨level, .opening node.label []⟩ :: lines target level
  | _, _, _ => False

theorem settles_walk {node : Node} {level : Nat} {before : List Line} :
    Settles (walk node level) before ↔
      OwnPoint node level before ∨ Settles (partEvents (layout node level)) before := by
  rw [walk_eq_layout]
  cases node with
  | assignment target value =>
      let opened : List Event :=
        .line ⟨level, .opening (Node.assignment target value).label []⟩ :: walk target level
      let closed : List Event := partEvents [.child value (level + 4),
        .line ⟨level, .closing (Node.assignment target value).label⟩]
      have hevents : partEvents (layout (.assignment target value) level) = opened ++ closed := by
        simp [opened, closed, layout, enclosed]
      have hinsert : Settles (opened ++ .settled :: closed) before ↔
          before = eventLines opened ∨ Settles (opened ++ closed) before := settles_insert
      rw [hevents, settles_visiting]
      exact hinsert
  | declaration identifier qualifier type initializer =>
      rw [settles_visiting, settles_settled, OwnPoint]
  | _ => simp [OwnPoint]

theorem clearingPoint_iff {node : Node} {level : Nat} {before : List Line} :
    ClearingPoint node level before ↔ OwnPoint node level before ∨
      ∃ front child inner back tail, layout node level = front ++ .child child inner :: back ∧
        ClearingPoint child inner tail ∧ before = partLines front ++ tail := by
  constructor
  · intro hpoint
    cases hpoint with
    | declaration hstands =>
        cases hstands with
        | here => exact .inl rfl
        | inside hlayout hchild => exact .inr ⟨_, _, _, _, _, hlayout, .declaration hchild, rfl⟩
    | assignment hstands =>
        cases hstands with
        | here => exact .inl rfl
        | inside hlayout hchild =>
            exact .inr ⟨_, _, _, _, _, hlayout, .assignment hchild, List.append_assoc ..⟩
  · rintro (hown | ⟨front, child, inner, back, tail, hlayout, hpoint, rfl⟩)
    · cases node with
      | declaration identifier qualifier type initializer =>
          obtain rfl : before = [] := hown
          exact .declaration (.here _ _)
      | assignment target value =>
          obtain rfl := hown
          exact .assignment (.here _ _)
      | _ => exact hown.elim
    · cases hpoint with
      | declaration hstands => exact .declaration (.inside hlayout hstands)
      | assignment hstands =>
          rw [← List.append_assoc]
          exact .assignment (.inside hlayout hstands)

theorem length_walk_lt {node child : Node} {level inner : Nat} {front back : List Part}
    (hlayout : layout node level = front ++ .child child inner :: back) :
    (walk child inner).length < (walk node level).length := by
  have hevents : (walk child inner).length ≤ (partEvents (layout node level)).length := by
    rw [hlayout, partEvents_append, partEvents_child, List.length_append, List.length_append]
    omega
  have hwalk : (partEvents (layout node level)).length < (walk node level).length := by
    rw [walk_eq_layout]
    cases node <;> simp [layout, enclosed]
  omega

/-- The flag is lowered on a walk at the clearing points and nowhere else. -/
theorem settles_iff_clearingPoint {root : Node} {level : Nat} {before : List Line} :
    Settles (walk root level) before ↔ ClearingPoint root level before := by
  -- a child has a shorter walk than its parent, at whatever level it stands
  induction hsize : (walk root level).length using Nat.strong_induction_on
    generalizing root level before with
  | _ size ih =>
      rw [settles_walk, clearingPoint_iff, settles_partEvents]
      refine or_congr Iff.rfl ?_
      constructor
      · rintro ⟨front, child, inner, back, tail, hlayout, hchild, rfl⟩
        have hlt := length_walk_lt hlayout
        exact ⟨front, child, inner, back, tail, hlayout, (ih _ (hsize ▸ hlt) rfl).mp hchild, rfl⟩
      · rintro ⟨front, child, inner, back, tail, hlayout, hchild, rfl⟩
        have hlt := length_walk_lt hlayout
        exact ⟨front, child, inner, back, tail, hlayout, (ih _ (hsize ▸ hlt) rfl).mpr hchild, rfl⟩

theorem lines_eq_layout (node : Node) (level : Nat) :
    lines node level = partLines (layout node level) := by
  have hwalk : lines node level = eventLines (walk node level) := rfl
  rw [hwalk, walk_eq_layout, ← eventLines_partEvents]
  cases node <;> simp [layout, enclosed]

/-- A node that stands in a tree has its lines in the dump of the tree, at the
place that is given. -/
theorem Stands.lines_eq {root node : Node} {level depth : Nat} {before : List Line}
    (hstands : Stands root level before node depth) :
    ∃ after, lines root level = before ++ lines node depth ++ after := by
  induction hstands with
  | here node level => exact ⟨[], by simp⟩
  | @inside root child node level inner depth front back before hlayout hchild ih =>
      obtain ⟨after, hafter⟩ := ih
      refine ⟨after ++ partLines back, ?_⟩
      have hparts : partLines (front ++ .child child inner :: back) =
          partLines front ++ (lines child inner ++ partLines back) := by
        simp [partLines, Part.lines]
      rw [lines_eq_layout, hlayout, hparts, hafter]
      simp only [List.append_assoc]

/-! ## Trees without clearing points -/

theorem everywhereAll_iff {p : Node → Prop} {nodes : List Node} :
    Node.EverywhereAll p nodes ↔ ∀ node ∈ nodes, node.Everywhere p := by
  induction nodes with
  | nil => simp [Node.EverywhereAll]
  | cons node nodes ih => simp [Node.EverywhereAll, ih]

/-- Do all children in a layout have the property everywhere? -/
def ChildrenHave (p : Node → Prop) (parts : List Part) : Prop :=
  ∀ child inner, Part.child child inner ∈ parts → child.Everywhere p

section

variable {p : Node → Prop} {parts front back : List Part}

@[simp] theorem childrenHave_nil : ChildrenHave p [] := by
  simp [ChildrenHave]

@[simp] theorem childrenHave_line {line : Line} :
    ChildrenHave p (.line line :: parts) ↔ ChildrenHave p parts := by
  simp [ChildrenHave]

@[simp] theorem childrenHave_child {node : Node} {level : Nat} :
    ChildrenHave p (.child node level :: parts) ↔ node.Everywhere p ∧ ChildrenHave p parts := by
  simp [ChildrenHave, or_imp, forall_and]

@[simp] theorem childrenHave_append :
    ChildrenHave p (front ++ back) ↔ ChildrenHave p front ∧ ChildrenHave p back := by
  simp [ChildrenHave, or_imp, forall_and]

@[simp] theorem childrenHave_enclosed {level : Nat} {name : String} :
    ChildrenHave p (enclosed level name parts) ↔ ChildrenHave p parts := by
  simp [enclosed]

@[simp] theorem childrenHave_sequenceLayout {level : Nat} {nodes : List Node} :
    ChildrenHave p (sequenceLayout level nodes) ↔ Node.EverywhereAll p nodes := by
  have hchildren : ChildrenHave p (nodes.map (Part.child · (level + 2))) ↔
      ∀ node ∈ nodes, node.Everywhere p := by
    simp [ChildrenHave]
  simp [sequenceLayout, hchildren, everywhereAll_iff]

@[simp] theorem childrenHave_sequenceLayout? {level : Nat} {nodes : Option (List Node)} :
    ChildrenHave p (sequenceLayout? level nodes) ↔ Node.EverywhereSequence? p nodes := by
  cases nodes <;> simp [sequenceLayout?, Node.EverywhereSequence?]

@[simp] theorem childrenHave_blockLayout {level : Nat} {body : Block Node} :
    ChildrenHave p (blockLayout level body) ↔ Node.EverywhereBlock p body := by
  obtain ⟨declarations, instructions⟩ := body
  simp [blockLayout, Node.EverywhereBlock]

@[simp] theorem childrenHave_optionLayout {level : Nat} {node : Option Node} :
    ChildrenHave p (optionLayout level node) ↔ Node.EverywhereOption p node := by
  cases node <;> simp [optionLayout, Node.EverywhereOption]

@[simp] theorem childrenHave_calleeLayout {level : Nat} {node : Option Node} :
    ChildrenHave p (calleeLayout level node) ↔ Node.EverywhereOption p node := by
  cases node <;> simp [calleeLayout, Node.EverywhereOption]

end

theorem everywhere_iff_layout {p : Node → Prop} {node : Node} (level : Nat) :
    node.Everywhere p ↔ p node ∧ ChildrenHave p (layout node level) := by
  cases node <;> simp [Node.Everywhere, layout]

/-- What holds everywhere in a tree holds of all nodes that stand in it. -/
theorem everywhere_iff_stands {p : Node → Prop} {root : Node} (level : Nat) :
    root.Everywhere p ↔ ∀ before node depth, Stands root level before node depth → p node := by
  induction hsize : (walk root level).length using Nat.strong_induction_on
    generalizing root level with
  | _ size ih =>
      rw [everywhere_iff_layout level]
      constructor
      · rintro ⟨hroot, hchildren⟩ before node depth hstands
        cases hstands with
        | here => exact hroot
        | @inside _ child _ _ inner _ front back before hlayout hchild =>
            have hmem : Part.child child inner ∈ layout root level := by simp [hlayout]
            exact (ih _ (hsize ▸ length_walk_lt hlayout) _ rfl).mp (hchildren _ _ hmem) _ _ _ hchild
      · intro hall
        refine ⟨hall _ _ _ (.here root level), ?_⟩
        intro child inner hmem
        obtain ⟨front, back, hlayout⟩ := List.append_of_mem hmem
        refine (ih _ (hsize ▸ length_walk_lt hlayout) _ rfl).mpr ?_
        intro before node depth hstands
        exact hall _ _ _ (.inside hlayout hstands)

/-- A node that lowers no flag by itself. -/
def IsStill (node : Node) : Prop := node.kind ≠ .declaration ∧ node.kind ≠ .assignment

theorem no_clearingPoint_iff {root : Node} (level : Nat) :
    (∀ before, ¬ ClearingPoint root level before) ↔ root.Everywhere IsStill := by
  rw [everywhere_iff_stands level]
  constructor
  · intro hnone before node depth hstands
    cases node with
    | declaration identifier qualifier type initializer =>
        exact absurd (.declaration hstands) (hnone _)
    | assignment target value => exact absurd (.assignment hstands) (hnone _)
    | _ => exact ⟨by simp [Node.kind], by simp [Node.kind]⟩
  · intro hstill before hpoint
    cases hpoint with
    | declaration hstands => exact (hstill _ _ _ hstands).1 rfl
    | assignment hstands => exact (hstill _ _ _ hstands).2 rfl

/-! ## What a sink lets through -/

/-- Do that many characters fit into the room, if it is bounded? -/
def Fits (room : Option Nat) (count : Nat) : Prop := ∀ limit ∈ room, count ≤ limit

/-- The part of a text that fits. -/
def fitting (room : Option Nat) (text : List Char) : List Char :=
  match room with
  | none => text
  | some limit => text.take limit

theorem write_eq (sink : Sink) (text : List Char) :
    (sink.write text).1.text = sink.text ++ String.ofList (fitting sink.room text) ∧
      ((sink.write text).2 = true ↔ Fits sink.room text.length) := by
  obtain ⟨room, content⟩ := sink
  cases room with
  | none => simp [Sink.write, fitting, Fits]
  | some limit => simp [Sink.write, fitting, Fits]

theorem fits_write {sink : Sink} {text : List Char} (hcomplete : (sink.write text).2 = true)
    (count : Nat) :
    Fits (sink.write text).1.room count ↔ Fits sink.room (text.length + count) := by
  obtain ⟨room, content⟩ := sink
  cases room with
  | none => simp [Sink.write, Fits]
  | some limit =>
      have hle : text.length ≤ limit := by simpa [Sink.write] using hcomplete
      simp only [Sink.write, Fits, Option.mem_some_iff, forall_eq']
      omega

section

variable {writer : Writer} {line : Line} {events : List Event}

theorem follow_line_of_complete (hline : line.fits = true)
    (hcomplete : (writer.sink.write line.text).2 = true) :
    writer.follow (.line line :: events) =
      Writer.follow ⟨(writer.sink.write line.text).1, writer.pending⟩ events := by
  simp only [Writer.follow, Writer.putLine, hline, hcomplete, if_true]

theorem follow_line_of_full (hline : line.fits = true)
    (hfull : (writer.sink.write line.text).2 = false) :
    writer.follow (.line line :: events) =
      (⟨(writer.sink.write line.text).1, writer.pending⟩, .full) := by
  simp only [Writer.follow, Writer.putLine, hline, hfull, if_true, Bool.false_eq_true, if_false]

end

/-- A walk leaves the flag raised if it was so and nothing is settled behind
lines that fit. -/
theorem pending_follow {events : List Event}
    (hevents : ∀ line ∈ eventLines events, line.fits = true) (writer : Writer) :
    (writer.follow events).1.pending = true ↔ writer.pending = true ∧
      ∀ before, Settles events before → ¬ Fits writer.sink.room (lineChars before).length := by
  induction events generalizing writer with
  | nil => simp [Writer.follow]
  | cons event events ih =>
      cases event with
      | visiting label level => simpa [Writer.follow] using ih hevents writer
      | settled =>
          have hclear := ih hevents writer.clear
          have hfits : Fits writer.sink.room (lineChars []).length := by simp [Fits, lineChars]
          simp only [Writer.follow, hclear, settles_settled]
          constructor
          · rintro ⟨hpending, -⟩
            exact absurd hpending Bool.false_ne_true
          · rintro ⟨-, hnone⟩
            exact absurd hfits (hnone [] (.inl rfl))
      | line line =>
          have hline : line.fits = true := hevents line (by simp)
          have hchars : ∀ tail, (lineChars (line :: tail)).length =
              line.text.length + (lineChars tail).length := by simp [lineChars]
          cases hcomplete : (writer.sink.write line.text).2 with
          | true =>
              have htail := ih (fun other hmem => hevents other (by simp [hmem]))
                ⟨(writer.sink.write line.text).1, writer.pending⟩
              rw [follow_line_of_complete hline hcomplete, htail]
              refine and_congr Iff.rfl ⟨?_, ?_⟩
              · intro hnone before hsettles
                obtain ⟨tail, htail, rfl⟩ := settles_line.mp hsettles
                rw [hchars, ← fits_write hcomplete]
                exact hnone tail htail
              · intro hnone tail htail
                rw [fits_write hcomplete, ← hchars]
                exact hnone _ (settles_line.mpr ⟨tail, htail, rfl⟩)
          | false =>
              have hfull : ¬ Fits writer.sink.room line.text.length := by
                rw [← (write_eq writer.sink line.text).2, hcomplete]
                exact Bool.false_ne_true
              rw [follow_line_of_full hline hcomplete]
              refine ⟨fun hpending => ⟨hpending, ?_⟩, And.left⟩
              intro before hsettles hfits
              obtain ⟨tail, -, rfl⟩ := settles_line.mp hsettles
              refine hfull fun limit hlimit => le_trans ?_ (hfits limit hlimit)
              rw [hchars]
              exact Nat.le_add_right _ _

theorem Settles.isPrefix {events : List Event} {before : List Line}
    (hsettles : Settles events before) : before <+: eventLines events := by
  obtain ⟨front, back, rfl, rfl⟩ := hsettles
  rw [eventLines_append]
  exact List.prefix_append _ _

theorem pending_of_follow {events : List Event} {writer : Writer}
    (hpending : (writer.follow events).1.pending = true) : writer.pending = true := by
  induction events generalizing writer with
  | nil => exact hpending
  | cons event events ih =>
      cases event with
      | visiting label level => exact ih hpending
      | settled => exact absurd (ih hpending) Bool.false_ne_true
      | line line =>
          have hput : (writer.putLine line).1.pending = writer.pending := by
            unfold Writer.putLine
            split <;> rfl
          rw [← hput]
          simp only [Writer.follow] at hpending
          split at hpending
          · rename_i next hresult
            rw [hresult]
            exact ih hpending
          · exact hpending

/-! ## Visits -/

theorem pending_visit {root : Node} {level : Nat}
    (hlines : ∀ line ∈ lines root level, line.fits = true) (writer : Writer) :
    (writer.visit root level).1.pending = true ↔ writer.pending = true ∧
      ∀ before, ClearingPoint root level before →
        ¬ Fits writer.sink.room (linesText before).length := by
  simp only [← settles_iff_clearingPoint, ← String.length_toList, toList_linesText_eq]
  exact pending_follow hlines writer

theorem ClearingPoint.length_le {root : Node} {level : Nat} {before : List Line}
    (hpoint : ClearingPoint root level before) :
    (linesText before).length ≤ (linesText (lines root level)).length := by
  obtain ⟨after, hafter⟩ := (settles_iff_clearingPoint.mpr hpoint).isPrefix
  have hlines : lines root level = before ++ after := hafter.symm
  rw [← String.length_toList, ← String.length_toList, toList_linesText_eq, toList_linesText_eq,
    hlines, lineChars_append, List.length_append]
  exact Nat.le_add_right _ _

theorem fitting_eq_self {room : Option Nat} {text : String} (hroom : Fits room text.length) :
    String.ofList (fitting room text.toList) = text := by
  cases room with
  | none => exact String.ofList_toList
  | some limit =>
      rw [fitting, List.take_of_length_le, String.ofList_toList]
      rw [String.length_toList]
      exact hroom limit rfl

/-- A visit does not look at what the writer did before.  What it appends and
whether it succeeds depend on the room alone, and with enough room it appends
the dump.  It never raises the flag, and it lowers it exactly if a clearing
point of the tree comes behind no more text than there is room for; a visit
that succeeds comes past all of them. -/
theorem visit_independent_of_past (root : Node) (level : Nat) :
    (∀ writer, (Writer.visit writer root level).1.pending = true → writer.pending = true) ∧
    (∀ before node depth, Stands root level before node depth →
      ∃ after, lines root level = before ++ lines node depth ++ after) ∧
    ∀ text, dump? root level = some text → ∀ (room : Option Nat) (content : String)
      (pending : Bool) (writer : Writer) (outcome : Outcome),
      Writer.visit ⟨⟨room, content⟩, pending⟩ root level = (writer, outcome) →
      writer.sink.text = content ++ String.ofList (fitting room text.toList) ∧
      (Fits room text.length → writer.sink.text = content ++ text) ∧
      (outcome = .done ↔ Fits room text.length) ∧
      (outcome = .full ↔ ¬ Fits room text.length) ∧
      (writer.pending = true ↔ pending = true ∧
        ∀ before, ClearingPoint root level before → ¬ Fits room (linesText before).length) ∧
      (outcome = .done →
        (writer.pending = true ↔ pending = true ∧ root.Everywhere IsStill)) := by
  refine ⟨fun writer => pending_of_follow, fun before node depth => Stands.lines_eq, ?_⟩
  intro text hdump room content pending writer outcome hvisit
  have hlines := fits_of_dump? hdump
  have htext : lineChars (lines root level) = text.toList := by
    rw [dump?_eq_some hdump, toList_linesText_eq]
  have hwrites := writes_visit hlines ⟨⟨room, content⟩, pending⟩
  obtain ⟨hwritten, hcomplete⟩ := write_eq ⟨room, content⟩ text.toList
  simp only [hvisit, htext] at hwrites
  rw [← hwrites.1] at hwritten
  rw [String.length_toList] at hcomplete
  have hdone : outcome = .done ↔ Fits room text.length := by
    rw [hwrites.2, ← hcomplete]
    cases (Sink.write ⟨room, content⟩ text.toList).2 <;> simp [outcomeOf]
  have hfull : outcome = .full ↔ ¬ Fits room text.length := by
    rw [hwrites.2, ← hcomplete]
    cases (Sink.write ⟨room, content⟩ text.toList).2 <;> simp [outcomeOf]
  have hpending := pending_visit hlines ⟨⟨room, content⟩, pending⟩
  rw [hvisit] at hpending
  refine ⟨hwritten, ?_, hdone, hfull, hpending, ?_⟩
  · intro hroom
    rw [hwritten, fitting_eq_self hroom]
  · intro hsuccess
    rw [hpending, ← no_clearingPoint_iff level]
    refine and_congr Iff.rfl (forall_congr' fun before => ?_)
    refine ⟨fun hunreached hpoint => hunreached hpoint ?_, fun hnone hpoint => absurd hpoint hnone⟩
    -- all clearing points lie in the text, which has been written to its end
    intro limit hlimit
    refine le_trans hpoint.length_le ?_
    rw [← dump?_eq_some hdump]
    exact hdone.mp hsuccess limit hlimit

/-- With room for the target and no more, the flag is lowered although the visit
fails. -/
theorem visit_independent_of_past_cutShort :
    (Writer.visit ⟨⟨some 51, "<nil_node>"⟩, true⟩ (.assignment (.var "x") .nil) 0).2 = .full ∧
      (Writer.visit ⟨⟨some 51, "<nil_node>"⟩, true⟩
        (.assignment (.var "x") .nil) 0).1.pending = false := by
  have hdump : dump? (.assignment (.var "x") .nil) 0 =
      some (linesText (lines (.assignment (.var "x") .nil) 0)) := if_pos (by decide)
  obtain ⟨-, -, -, hfull, hpending, -⟩ :=
    (visit_independent_of_past (.assignment (.var "x") .nil) 0).2.2 _ hdump (some 51)
      "<nil_node>" true _ _ Prod.mk.eta.symm
  refine ⟨hfull.mpr ?_, ?_⟩
  · simp only [Fits, Option.mem_some_iff, forall_eq']
    decide
  · rw [← Bool.not_eq_true, hpending]
    rintro ⟨-, hunreached⟩
    refine hunreached _ (.assignment (.here _ _)) ?_
    simp only [Fits, Option.mem_some_iff, forall_eq']
    decide

end Tag
end SyntaxDump
