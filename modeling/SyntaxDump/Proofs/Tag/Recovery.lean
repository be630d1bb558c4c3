import Mathlib.Tactic
import SyntaxDump.Proofs.Tag.Soundness

/-!
# A dump determines its tree

The text of a dump gives its lines, the lines give the forest, and the forest
gives the tree.  Each of the three steps has one outcome only: a forest is
delimited by its closing lines, and an element of it tells the kind of its node
by its name and the parts by its attributes and children.  Doubles are the
exception, since only their texts are shown.
-/

namespace SyntaxDump
namespace Tag

/-! ## From lines to forests -/

theorem lines_eq_cons (element : Element) :
    ∃ first rest, element.lines = first :: rest ∧ ∀ name, first.mark ≠ .closing name := by
  cases element with
  | leaf level name text => exact ⟨_, _, rfl, by simp⟩
  | branch level name attributes children => exact ⟨_, _, rfl, by simp⟩

theorem linesAll_append_injective {elements others : List Element} {level level' : Nat}
    {name name' : String} {rest rest' : List Line}
    (helements : ∀ element ∈ elements, ∀ (other : Element) (rest rest' : List Line),
      element.lines ++ rest = other.lines ++ rest' → element = other ∧ rest = rest')
    (heq : Element.linesAll elements ++ ⟨level, .closing name⟩ :: rest =
      Element.linesAll others ++ ⟨level', .closing name'⟩ :: rest') :
    elements = others ∧ rest = rest' := by
  induction elements generalizing others with
  | nil =>
      cases others with
      | nil => exact ⟨rfl, (List.cons.inj heq).2⟩
      | cons other others =>
          obtain ⟨first, tail, hlines, hfirst⟩ := lines_eq_cons other
          simp only [Element.linesAll, hlines, List.cons_append, List.nil_append,
            List.cons.injEq] at heq
          exact absurd (congrArg Line.mark heq.1).symm (hfirst name)
  | cons element elements ih =>
      cases others with
      | nil =>
          obtain ⟨first, tail, hlines, hfirst⟩ := lines_eq_cons element
          simp only [Element.linesAll, hlines, List.cons_append, List.nil_append,
            List.cons.injEq] at heq
          exact absurd (congrArg Line.mark heq.1) (hfirst name')
      | cons other others =>
          simp only [Element.linesAll, List.append_assoc] at heq
          obtain ⟨rfl, htail⟩ := helements element (by simp) other _ _ heq
          obtain ⟨rfl, hrest⟩ := ih
            (fun another hmem => helements another (List.mem_cons_of_mem _ hmem)) htail
          exact ⟨rfl, hrest⟩

/-- An element is read off any lines that start with its own. -/
theorem lines_append_injective (element other : Element) (rest rest' : List Line)
    (heq : element.lines ++ rest = other.lines ++ rest') : element = other ∧ rest = rest' := by
  induction element using Element.nestedInduction generalizing other rest rest' with
  | leaf level name text =>
      cases other with
      | leaf level' name' text' => simpa [Element.lines, and_assoc] using heq
      | branch level' name' attributes' children' => simp [Element.lines] at heq
  | branch level name attributes children ih =>
      cases other with
      | leaf level' name' text' => simp [Element.lines] at heq
      | branch level' name' attributes' children' =>
          simp only [Element.lines, List.cons_append, List.append_assoc, List.nil_append,
            List.cons.injEq, Line.mk.injEq, Mark.opening.injEq] at heq
          obtain ⟨⟨rfl, rfl, rfl⟩, hinner⟩ := heq
          obtain ⟨rfl, hrest⟩ := linesAll_append_injective ih hinner
          exact ⟨rfl, hrest⟩

theorem linesAll_injective {elements others : List Element}
    (heq : Element.linesAll elements = Element.linesAll others) : elements = others := by
  have hclosed : Element.linesAll elements ++ ⟨0, .closing ""⟩ :: [] =
      Element.linesAll others ++ ⟨0, .closing ""⟩ :: [] := by rw [heq]
  exact (linesAll_append_injective
    (fun element _ other rest rest' => lines_append_injective element other rest rest')
    hclosed).1

/-! ## From names to kinds -/

def labelWord : Node → String
  | .unary op _ => op.word
  | .binary op _ _ => op.word
  | node => node.kind.word

theorem label_eq_labelWord (node : Node) : node.label = labelWord node ++ "_node" := by
  cases node <;> rfl

def kindOfLabel? (word : String) : Option Kind :=
  if (UnaryOperator.ofWord? word).isSome then some .unary
  else if (BinaryOperator.ofWord? word).isSome then some .binary
  else Kind.ofWord? word

theorem kindOfLabel?_labelWord (node : Node) : kindOfLabel? (labelWord node) = some node.kind := by
  cases node with
  | unary op argument => cases op <;> rfl
  | binary op left right => cases op <;> rfl
  | _ => rfl

theorem labelWord_eq_of_label_eq {a b : Node} (heq : a.label = b.label) :
    labelWord a = labelWord b := by
  rw [label_eq_labelWord, label_eq_labelWord] at heq
  have hlist := congrArg String.toList heq
  rw [String.toList_append, String.toList_append] at hlist
  exact String.toList_inj.mp (List.append_cancel_right hlist)

theorem kind_eq_of_label_eq {a b : Node} (heq : a.label = b.label) : a.kind = b.kind := by
  have hword := kindOfLabel?_labelWord a
  rw [labelWord_eq_of_label_eq heq, kindOfLabel?_labelWord b] at hword
  exact (Option.some.inj hword).symm

theorem label_ne_recursive (node : Node) : node.label ≠ "recursive" := by
  intro heq
  have hmem : '_' ∈ node.label.toList := by
    rw [label_eq_labelWord, String.toList_append]
    exact List.mem_append_right _ (by decide)
  rw [heq] at hmem
  exact absurd hmem (by decide)

/-! ## From attributes to parts -/

theorem typeAttribute_injective {type type' : Option TypeDescriptor}
    (heq : typeAttribute type = typeAttribute type') : type = type' := by
  cases type with
  | none =>
      cases type' with
      | none => rfl
      | some known => exact absurd heq.symm known.name_ne_auto
  | some known =>
      cases type' with
      | none => exact absurd heq known.name_ne_auto
      | some known' => rw [TypeDescriptor.name_injective heq]

theorem qualifierName_injective {qualifier qualifier' : Qualifier}
    (heq : qualifier.name = qualifier'.name) : qualifier = qualifier' := by
  cases qualifier <;> cases qualifier' <;> first | rfl | exact absurd heq (by decide)

theorem unaryWord_injective {op op' : UnaryOperator} (heq : op.word = op'.word) : op = op' := by
  have hword := UnaryOperator.ofWord?_word op
  rw [heq, UnaryOperator.ofWord?_word] at hword
  exact (Option.some.inj hword).symm

theorem binaryWord_injective {op op' : BinaryOperator} (heq : op.word = op'.word) : op = op' := by
  have hword := BinaryOperator.ofWord?_word op
  rw [heq, BinaryOperator.ofWord?_word] at hword
  exact (Option.some.inj hword).symm

/-! ## From forests to trees -/

/-- Is the node one that dumps show? -/
def IsShown (node : Node) : Prop := node.kind ≠ .data

theorem forest_eq_singleton {node : Node} (hnode : IsShown node) (level : Nat) :
    ∃ element, forest node level = [element] ∧ element.level = level ∧
      element.name = node.label := by
  cases node with
  | data bytes => exact absurd rfl hnode
  | block body =>
      obtain ⟨declarations, instructions⟩ := body
      exact ⟨_, rfl, rfl, rfl⟩
  | _ => exact ⟨_, rfl, rfl, rfl⟩

theorem eq_of_forest_eq {a b : Node} (ha : IsShown a) (hb : IsShown b) {level level' : Nat}
    (heq : forest a level = forest b level') : level = level' ∧ a.label = b.label := by
  obtain ⟨element, hforest, hlevel, hname⟩ := forest_eq_singleton ha level
  obtain ⟨element', hforest', hlevel', hname'⟩ := forest_eq_singleton hb level'
  rw [hforest, hforest'] at heq
  have hsame := List.head_eq_of_cons_eq heq
  subst hsame
  exact ⟨hlevel.symm.trans hlevel', hname.symm.trans hname'⟩

theorem kind_eq_of_forest_eq {a b : Node} (ha : IsShown a) (hb : IsShown b)
    {level level' : Nat} (heq : forest a level = forest b level') : a.kind = b.kind :=
  kind_eq_of_label_eq (eq_of_forest_eq ha hb heq).2

theorem forest_append_injective {a b : Node} (ha : IsShown a) (hb : IsShown b)
    {level level' : Nat} {rest rest' : List Element}
    (heq : forest a level ++ rest = forest b level' ++ rest') :
    forest a level = forest b level' ∧ rest = rest' := by
  obtain ⟨element, hforest, -⟩ := forest_eq_singleton ha level
  obtain ⟨element', hforest', -⟩ := forest_eq_singleton hb level'
  exact List.append_inj heq (by rw [hforest, hforest']; rfl)

/-- Doubles that dumps do not tell apart. -/
def SameText (x y : Binary64) : Prop := doubleText x = doubleText y

/-- Is the node determined by its forest? -/
def Recovers (a : Node) : Prop :=
  a.Everywhere IsShown → ∀ b : Node, b.Everywhere IsShown → ∀ level,
    forest a level = forest b level → a.Alike SameText b

theorem forall₂_of_forestAll {nodes others : List Node} (ih : ∀ node ∈ nodes, Recovers node)
    (hnodes : Node.EverywhereAll IsShown nodes) (hothers : Node.EverywhereAll IsShown others)
    {level : Nat} (heq : forestAll nodes level = forestAll others level) :
    List.Forall₂ (Node.Alike SameText) nodes others := by
  induction nodes generalizing others with
  | nil =>
      cases others with
      | nil => exact .nil
      | cons other others =>
          obtain ⟨element, hforest, -⟩ := forest_eq_singleton hothers.1.self level
          simp [forestAll, hforest] at heq
  | cons node nodes ihnodes =>
      cases others with
      | nil =>
          obtain ⟨element, hforest, -⟩ := forest_eq_singleton hnodes.1.self level
          simp [forestAll, hforest] at heq
      | cons other others =>
          obtain ⟨hhead, htail⟩ := forest_append_injective hnodes.1.self hothers.1.self heq
          exact .cons (ih node (by simp) hnodes.1 other hothers.1 level hhead)
            (ihnodes (fun another hmem => ih another (List.mem_cons_of_mem _ hmem)) hnodes.2
              hothers.2 htail)

theorem rel_of_forestOption {node other : Option Node} (ih : ∀ known ∈ node, Recovers known)
    (hnode : Node.EverywhereOption IsShown node) (hother : Node.EverywhereOption IsShown other)
    {level : Nat} (heq : forestOption node level = forestOption other level) :
    Option.Rel (Node.Alike SameText) node other := by
  cases node with
  | none =>
      cases other with
      | none => exact .none
      | some other =>
          obtain ⟨element, hforest, -⟩ := forest_eq_singleton (Node.Everywhere.self hother) level
          simp [forestOption, hforest] at heq
  | some node =>
      cases other with
      | none =>
          obtain ⟨element, hforest, -⟩ := forest_eq_singleton (Node.Everywhere.self hnode) level
          simp [forestOption, hforest] at heq
      | some other => exact .some (ih node rfl hnode other hother level heq)

theorem rel_of_forestCallee {node other : Option Node} (ih : ∀ known ∈ node, Recovers known)
    (hnode : Node.EverywhereOption IsShown node) (hother : Node.EverywhereOption IsShown other)
    {level : Nat} (heq : forestCallee node level = forestCallee other level) :
    Option.Rel (Node.Alike SameText) node other := by
  have hrecursive : ∀ known : Node, IsShown known →
      forest known level ≠ [recursiveElement level] := by
    intro known hknown hforest
    obtain ⟨element, hsingle, -, hname⟩ := forest_eq_singleton hknown level
    rw [hsingle] at hforest
    rw [List.head_eq_of_cons_eq hforest] at hname
    exact label_ne_recursive known hname.symm
  cases node with
  | none =>
      cases other with
      | none => exact .none
      | some other => exact absurd heq.symm (hrecursive other (Node.Everywhere.self hother))
  | some node =>
      cases other with
      | none => exact absurd heq (hrecursive node (Node.Everywhere.self hnode))
      | some other => exact .some (ih node rfl hnode other hother level heq)

theorem rel_of_forestSequence? {nodes others : Option (List Node)}
    (ih : ∀ known ∈ nodes, ∀ node ∈ known, Recovers node)
    (hnodes : Node.EverywhereSequence? IsShown nodes)
    (hothers : Node.EverywhereSequence? IsShown others) {level : Nat}
    (heq : forestSequence? nodes level = forestSequence? others level) :
    Option.Rel (List.Forall₂ (Node.Alike SameText)) nodes others := by
  cases nodes with
  | none =>
      cases others with
      | none => exact .none
      | some others => simp [forestSequence?] at heq
  | some nodes =>
      cases others with
      | none => simp [forestSequence?] at heq
      | some others =>
          simp only [forestSequence?, sequenceElement, List.cons.injEq, Element.branch.injEq,
            true_and, and_true] at heq
          exact .some (forall₂_of_forestAll (ih nodes rfl) hnodes hothers heq.2)

theorem lists_eq {declarations declarations' instructions instructions' :
      Option (List Node)} {level : Nat}
    (heq : forestBlock ⟨declarations, instructions⟩ level =
      forestBlock ⟨declarations', instructions'⟩ level) :
    forestSequence? declarations (level + 4) = forestSequence? declarations' (level + 4) ∧
      forestSequence? instructions (level + 4) = forestSequence? instructions' (level + 4) := by
  simpa [forestBlock, blockElement, bare] using heq

theorem text_eq {level : Nat} {name name' text text' : String}
    (heq : [Element.leaf level name text] = [Element.leaf level name' text']) : text = text' := by
  simp only [List.cons.injEq, Element.leaf.injEq] at heq
  exact heq.1.2.2

theorem branch_eq {level : Nat} {name name' : String}
    {attributes attributes' : List (String × String)} {children children' : List Element}
    (heq : [Element.branch level name attributes children] =
      [Element.branch level name' attributes' children']) :
    attributes = attributes' ∧ children = children' := by
  simp only [List.cons.injEq, Element.branch.injEq] at heq
  exact heq.1.2.2

theorem children_eq {level : Nat} {name name' : String} {children children' : List Element}
    (heq : [bare level name children] = [bare level name' children']) : children = children' :=
  (branch_eq heq).2

theorem wrapper_eq {level : Nat} {name name' : String}
    {children children' elements elements' : List Element}
    (heq : bare level name children :: elements = bare level name' children' :: elements') :
    children = children' ∧ elements = elements' := by
  simp only [bare, List.cons.injEq, Element.branch.injEq] at heq
  exact ⟨heq.1.2.2.2, heq.2⟩

theorem value_eq_of_attribute {key : String} {i j : Int32}
    (heq : [(key, Decimal.integerText i.toInt)] = [(key, Decimal.integerText j.toInt)]) :
    i = j := by
  simp only [List.cons.injEq, Prod.mk.injEq, true_and, and_true] at heq
  exact Int32.toInt_inj.mp (Decimal.integerText_injective heq)

/-- Every tree without data is determined by its forest. -/
theorem recovers (a : Node) : Recovers a := by
  induction a using Node.nestedInduction with
  | integer value =>
      intro ha b hb level heq
      have hkind := kind_eq_of_forest_eq ha.self hb.self heq
      cases b with
      | integer value' =>
          rw [Int32.toInt_inj.mp (Decimal.integerText_injective (text_eq heq))]
          exact .integer value'
      | _ => cases hkind
  | double x =>
      intro ha b hb level heq
      have hkind := kind_eq_of_forest_eq ha.self hb.self heq
      cases b with
      | double y =>
          exact .double (text_eq heq)
      | _ => cases hkind
  | string value =>
      intro ha b hb level heq
      have hkind := kind_eq_of_forest_eq ha.self hb.self heq
      cases b with
      | string value' =>
          rw [text_eq heq]
          exact .string value'
      | _ => cases hkind
  | nil =>
      intro ha b hb level heq
      have hkind := kind_eq_of_forest_eq ha.self hb.self heq
      cases b with
      | nil =>
          exact .nil
      | _ => cases hkind
  | null =>
      intro ha b hb level heq
      have hkind := kind_eq_of_forest_eq ha.self hb.self heq
      cases b with
      | null =>
          exact .null
      | _ => cases hkind
  | data bytes =>
      intro ha
      exact absurd rfl ha
  | unary op argument ih =>
      intro ha b hb level heq
      have hkind := kind_eq_of_forest_eq ha.self hb.self heq
      cases b with
      | unary op' argument' =>
          obtain rfl : op = op' := unaryWord_injective
            (labelWord_eq_of_label_eq (eq_of_forest_eq ha.self hb.self heq).2)
          exact .unary op (ih ha.2 argument' hb.2 _ (children_eq heq))
      | _ => cases hkind
  | binary op left right ihleft ihright =>
      intro ha b hb level heq
      have hkind := kind_eq_of_forest_eq ha.self hb.self heq
      cases b with
      | binary op' left' right' =>
          obtain rfl : op = op' := binaryWord_injective
            (labelWord_eq_of_label_eq (eq_of_forest_eq ha.self hb.self heq).2)
          obtain ⟨hleft, hright⟩ :=
            forest_append_injective ha.2.1.self hb.2.1.self (children_eq heq)
          exact .binary op (ihleft ha.2.1 left' hb.2.1 _ hleft)
            (ihright ha.2.2 right' hb.2.2 _ hright)
      | _ => cases hkind
  | var name =>
      intro ha b hb level heq
      have hkind := kind_eq_of_forest_eq ha.self hb.self heq
      cases b with
      | var name' =>
          rw [text_eq heq]
          exact .var name'
      | _ => cases hkind
  | index base index ihbase ihindex =>
      intro ha b hb level heq
      have hkind := kind_eq_of_forest_eq ha.self hb.self heq
      cases b with
      | index base' index' =>
          obtain ⟨hbase, hindex⟩ :=
            forest_append_injective ha.2.1.self hb.2.1.self (children_eq heq)
          exact .index (ihbase ha.2.1 base' hb.2.1 _ hbase) (ihindex ha.2.2 index' hb.2.2 _ hindex)
      | _ => cases hkind
  | addressOf lvalue ih =>
      intro ha b hb level heq
      have hkind := kind_eq_of_forest_eq ha.self hb.self heq
      cases b with
      | addressOf lvalue' =>
          exact .addressOf (ih ha.2 lvalue' hb.2 _ (children_eq heq))
      | _ => cases hkind
  | stackAlloc argument ih =>
      intro ha b hb level heq
      have hkind := kind_eq_of_forest_eq ha.self hb.self heq
      cases b with
      | stackAlloc argument' =>
          exact .stackAlloc (ih ha.2 argument' hb.2 _ (children_eq heq))
      | _ => cases hkind
  | rvalue lvalue ih =>
      intro ha b hb level heq
      have hkind := kind_eq_of_forest_eq ha.self hb.self heq
      cases b with
      | rvalue lvalue' =>
          exact .rvalue (ih ha.2 lvalue' hb.2 _ (children_eq heq))
      | _ => cases hkind
  | assignment lvalue rvalue ihlvalue ihrvalue =>
      intro ha b hb level heq
      have hkind := kind_eq_of_forest_eq ha.self hb.self heq
      cases b with
      | assignment lvalue' rvalue' =>
          obtain ⟨hlvalue, hrvalue⟩ :=
            forest_append_injective ha.2.1.self hb.2.1.self (children_eq heq)
          exact .assignment (ihlvalue ha.2.1 lvalue' hb.2.1 _ hlvalue)
            (ihrvalue ha.2.2 rvalue' hb.2.2 _ hrvalue)
      | _ => cases hkind
  | sequence nodes ih =>
      intro ha b hb level heq
      have hkind := kind_eq_of_forest_eq ha.self hb.self heq
      cases b with
      | sequence nodes' =>
          exact .sequence (forall₂_of_forestAll ih ha.2 hb.2 (branch_eq heq).2)
      | _ => cases hkind
  | block declarations instructions ihdeclarations ihinstructions =>
      intro ha b hb level heq
      have hkind := kind_eq_of_forest_eq ha.self hb.self heq
      cases b with
      | block body' =>
          obtain ⟨declarations', instructions'⟩ := body'
          obtain ⟨hdeclarations, hinstructions⟩ := lists_eq (List.head_eq_of_cons_eq heq)
          exact .block (rel_of_forestSequence? ihdeclarations ha.2.1 hb.2.1 hdeclarations)
            (rel_of_forestSequence? ihinstructions ha.2.2 hb.2.2 hinstructions)
      | _ => cases hkind
  | declaration identifier qualifier type initializer ih =>
      intro ha b hb level heq
      have hkind := kind_eq_of_forest_eq ha.self hb.self heq
      cases b with
      | declaration identifier' qualifier' type' initializer' =>
          obtain ⟨hattributes, hchildren⟩ := branch_eq heq
          simp only [List.cons.injEq, Prod.mk.injEq, true_and, and_true] at hattributes
          obtain ⟨rfl, hqualifier, htype⟩ := hattributes
          obtain rfl := qualifierName_injective hqualifier
          obtain rfl := typeAttribute_injective htype
          exact .declaration identifier qualifier type
            (rel_of_forestOption ih ha.2 hb.2 (children_eq hchildren))
      | _ => cases hkind
  | functionDefinition type arguments declarations instructions iharguments ihdeclarations
      ihinstructions =>
      intro ha b hb level heq
      have hkind := kind_eq_of_forest_eq ha.self hb.self heq
      cases b with
      | functionDefinition type' arguments' body' =>
          obtain ⟨declarations', instructions'⟩ := body'
          obtain ⟨hattributes, hchildren⟩ := branch_eq heq
          simp only [List.cons.injEq, Prod.mk.injEq, true_and, and_true] at hattributes
          obtain rfl := typeAttribute_injective hattributes
          obtain ⟨harguments, htail⟩ := wrapper_eq hchildren
          obtain ⟨hblock, -⟩ := wrapper_eq htail
          obtain ⟨hdeclarations, hinstructions⟩ := lists_eq (List.head_eq_of_cons_eq hblock)
          exact .functionDefinition type
            (rel_of_forestSequence? iharguments ha.2.1 hb.2.1 harguments)
            (rel_of_forestSequence? ihdeclarations ha.2.2.1 hb.2.2.1 hdeclarations)
            (rel_of_forestSequence? ihinstructions ha.2.2.2 hb.2.2.2 hinstructions)
      | _ => cases hkind
  | functionCall identifier arguments ihidentifier iharguments =>
      intro ha b hb level heq
      have hkind := kind_eq_of_forest_eq ha.self hb.self heq
      cases b with
      | functionCall identifier' arguments' =>
          obtain ⟨hidentifier, htail⟩ := wrapper_eq (children_eq heq)
          obtain ⟨harguments, -⟩ := wrapper_eq htail
          exact .functionCall (rel_of_forestCallee ihidentifier ha.2.1 hb.2.1 hidentifier)
            (rel_of_forestSequence? iharguments ha.2.2 hb.2.2 harguments)
      | _ => cases hkind
  | sizeof expression ih =>
      intro ha b hb level heq
      have hkind := kind_eq_of_forest_eq ha.self hb.self heq
      cases b with
      | sizeof expression' =>
          exact .sizeof (ih ha.2 expression' hb.2 _ (children_eq heq))
      | _ => cases hkind
  | ifThen condition block ihcondition ihblock =>
      intro ha b hb level heq
      have hkind := kind_eq_of_forest_eq ha.self hb.self heq
      cases b with
      | ifThen condition' block' =>
          obtain ⟨hcondition, htail⟩ := wrapper_eq (children_eq heq)
          obtain ⟨hblock, -⟩ := wrapper_eq htail
          exact .ifThen (ihcondition ha.2.1 condition' hb.2.1 _ hcondition)
            (ihblock ha.2.2 block' hb.2.2 _ hblock)
      | _ => cases hkind
  | ifElse condition thenBlock elseBlock ihcondition ihthen ihelse =>
      intro ha b hb level heq
      have hkind := kind_eq_of_forest_eq ha.self hb.self heq
      cases b with
      | ifElse condition' thenBlock' elseBlock' =>
          obtain ⟨hcondition, htail⟩ := wrapper_eq (children_eq heq)
          obtain ⟨hthen, htail'⟩ := wrapper_eq htail
          obtain ⟨helse, -⟩ := wrapper_eq htail'
          exact .ifElse (ihcondition ha.2.1 condition' hb.2.1 _ hcondition)
            (ihthen ha.2.2.1 thenBlock' hb.2.2.1 _ hthen)
            (ihelse ha.2.2.2 elseBlock' hb.2.2.2 _ helse)
      | _ => cases hkind
  | whileLoop condition block ihcondition ihblock =>
      intro ha b hb level heq
      have hkind := kind_eq_of_forest_eq ha.self hb.self heq
      cases b with
      | whileLoop condition' block' =>
          obtain ⟨hcondition, htail⟩ := wrapper_eq (children_eq heq)
          obtain ⟨hblock, -⟩ := wrapper_eq htail
          exact .whileLoop (ihcondition ha.2.1 condition' hb.2.1 _ hcondition)
            (ihblock ha.2.2 block' hb.2.2 _ hblock)
      | _ => cases hkind
  | ret value ih =>
      intro ha b hb level heq
      have hkind := kind_eq_of_forest_eq ha.self hb.self heq
      cases b with
      | ret value' =>
          exact .ret (rel_of_forestOption ih ha.2 hb.2 (children_eq heq))
      | _ => cases hkind
  | stop depth =>
      intro ha b hb level heq
      have hkind := kind_eq_of_forest_eq ha.self hb.self heq
      cases b with
      | stop depth' =>
          rw [value_eq_of_attribute (branch_eq heq).1]
          exact .stop depth'
      | _ => cases hkind
  | next depth =>
      intro ha b hb level heq
      have hkind := kind_eq_of_forest_eq ha.self hb.self heq
      cases b with
      | next depth' =>
          rw [value_eq_of_attribute (branch_eq heq).1]
          exact .next depth'
      | _ => cases hkind
  | input =>
      intro ha b hb level heq
      have hkind := kind_eq_of_forest_eq ha.self hb.self heq
      cases b with
      | input =>
          exact .input
      | _ => cases hkind
  | print arguments ih =>
      intro ha b hb level heq
      have hkind := kind_eq_of_forest_eq ha.self hb.self heq
      cases b with
      | print arguments' =>
          have hsequence := (branch_eq (children_eq heq)).2
          exact .print (forall₂_of_forestAll ih ha.2 hb.2 hsequence)
      | _ => cases hkind
  | evaluation argument ih =>
      intro ha b hb level heq
      have hkind := kind_eq_of_forest_eq ha.self hb.self heq
      cases b with
      | evaluation argument' =>
          exact .evaluation (ih ha.2 argument' hb.2 _ (children_eq heq))
      | _ => cases hkind

/-! ## From texts to trees -/

/-- Trees without data and with texts of one line have the same dump only if
they stand at one level and differ at most in doubles with the same text. -/
theorem alike_of_dump_eq (a b : Node) (level level' : Nat) (text : String)
    (ha : a.Everywhere IsShown) (hb : b.Everywhere IsShown)
    (htexts : a.Everywhere HasOneLineTexts) (htexts' : b.Everywhere HasOneLineTexts)
    (hdump : dump? a level = some text) (hdump' : dump? b level' = some text) :
    level = level' ∧ a.Alike SameText b := by
  have hlines : lines a level = lines b level' := by
    refine linesText_injective (mark_sound_of_mem_lines htexts)
      (mark_sound_of_mem_lines htexts') ?_
    rw [← dump?_eq_some hdump, ← dump?_eq_some hdump']
  rw [lines_eq_linesAll, lines_eq_linesAll] at hlines
  have hforest := linesAll_injective hlines
  obtain ⟨rfl, -⟩ := eq_of_forest_eq ha.self hb.self hforest
  exact ⟨rfl, recovers a ha b hb level hforest⟩

theorem alike_of_dump_eq_nan :
    (Node.evaluation (.double Binary64.nan)).Alike SameText
      (.evaluation (.double (Binary64.ofWord (2 ^ 63 - 1)))) := by
  have hshown : ∀ x, (Node.evaluation (.double x)).Everywhere IsShown :=
    fun x => ⟨Kind.noConfusion, Kind.noConfusion⟩
  have htexts : ∀ x, (Node.evaluation (.double x)).Everywhere HasOneLineTexts :=
    fun x => ⟨trivial, trivial⟩
  have hlines : lines (.evaluation (.double Binary64.nan)) 0 =
      lines (.evaluation (.double (Binary64.ofWord (2 ^ 63 - 1)))) 0 := by decide +kernel
  have hfits : (lines (.evaluation (.double Binary64.nan)) 0).all Line.fits = true := by
    decide +kernel
  have hdump : dump? (.evaluation (.double Binary64.nan)) 0 =
      some (linesText (lines (.evaluation (.double Binary64.nan)) 0)) := if_pos hfits
  have hdump' : dump? (.evaluation (.double (Binary64.ofWord (2 ^ 63 - 1)))) 0 =
      some (linesText (lines (.evaluation (.double Binary64.nan)) 0)) := by
    rw [dump?, ← hlines, if_pos hfits]
  exact (alike_of_dump_eq _ _ 0 0 _ (hshown _) (hshown _) (htexts _) (htexts _) hdump hdump').2

end Tag
end SyntaxDump
