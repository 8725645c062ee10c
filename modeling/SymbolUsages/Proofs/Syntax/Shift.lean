import SymbolUsages.Binding.Pattern
import SymbolUsages.Proofs.Binding.Sites
import SymbolUsages.Syntax.Descent

/-!
# Trees moved down a text

Text put in front of a file moves each node of its tree by the same number of bytes and of
rows. Nothing else about the tree changes: kinds, fields and the order of children are what
they were. So the moved tree is walked as the tree is, its patterns bind the moved names, and
the descent to a moved point ends at the moved node.

Keys name places and are moved as well. Different keys stay different.
-/

namespace SymbolUsages

/-- How far a text is moved. -/
structure Shift where
  bytes : Nat
  rows : Nat
deriving DecidableEq, Repr

namespace Point

def shift (m : Shift) (p : Point) : Point := { p with row := p.row + m.rows }

variable (m : Shift)

theorem shift_inj {p q : Point} : p.shift m = q.shift m ↔ p = q := by
  cases p
  cases q
  simp [shift]

/-- Points that are moved together keep their order. -/
theorem before_shift (p q : Point) : (p.shift m).before (q.shift m) = p.before q := by
  rw [Bool.eq_iff_iff, before_iff, before_iff, shift, shift, Nat.add_lt_add_iff_right,
    Nat.add_right_cancel_iff]

end Point

def Label.shift (m : Shift) (l : Label) : Label :=
  { l with
    startByte := l.startByte + m.bytes
    endByte := l.endByte + m.bytes
    startPoint := l.startPoint.shift m
    endPoint := l.endPoint.shift m }

def NodeKey.shift (m : Shift) (k : NodeKey) : NodeKey :=
  { k with startByte := k.startByte + m.bytes, endByte := k.endByte + m.bytes }

@[simp] theorem NodeKey.shift_inj {m : Shift} {k l : NodeKey} : k.shift m = l.shift m ↔ k = l := by
  cases k
  cases l
  simp [shift]

namespace Node

mutual

/-- A tree that is moved. -/
def shift (m : Shift) : Node → Node
  | mk label children => mk (label.shift m) (shiftAll m children)

/-- Siblings that are moved. -/
def shiftAll (m : Shift) : List Node → List Node
  | [] => []
  | c :: cs => shift m c :: shiftAll m cs

end

theorem shiftAll_eq (m : Shift) (cs : List Node) : shiftAll m cs = cs.map (shift m) := by
  induction cs with
  | nil => rfl
  | cons c cs ih => rw [shiftAll, ih, List.map_cons]

variable (m : Shift) (n : Node)

@[simp] theorem label_shift : (n.shift m).label = n.label.shift m := by
  cases n
  rfl

@[simp] theorem children_shift : (n.shift m).children = n.children.map (shift m) := by
  cases n
  exact shiftAll_eq m _

@[simp] theorem kind_shift : (n.shift m).kind = n.kind := by
  rw [kind, label_shift]
  rfl

@[simp] theorem startByte_shift : (n.shift m).startByte = n.startByte + m.bytes := by
  rw [startByte, label_shift]
  rfl

@[simp] theorem endByte_shift : (n.shift m).endByte = n.endByte + m.bytes := by
  rw [endByte, label_shift]
  rfl

@[simp] theorem startPoint_shift : (n.shift m).startPoint = n.startPoint.shift m := by
  rw [startPoint, label_shift]
  rfl

@[simp] theorem endPoint_shift : (n.shift m).endPoint = n.endPoint.shift m := by
  rw [endPoint, label_shift]
  rfl

@[simp] theorem isNamed_shift : (n.shift m).isNamed = n.isNamed := by
  rw [isNamed, label_shift]
  rfl

@[simp] theorem isMissing_shift : (n.shift m).isMissing = n.isMissing := by
  rw [isMissing, label_shift]
  rfl

@[simp] theorem key_shift : (n.shift m).key = n.key.shift m := by
  simp only [key, startByte_shift, endByte_shift, kind_shift, NodeKey.shift]

@[simp] theorem isEmpty_shift : (n.shift m).isEmpty = n.isEmpty := by
  simp [isEmpty]

@[simp] theorem isName_shift : (n.shift m).isName = n.isName := by
  simp only [isName, kind_shift]

@[simp] theorem isScope_shift : (n.shift m).isScope = n.isScope := by
  simp only [isScope, kind_shift]

@[simp] theorem isFunctionScope_shift : (n.shift m).isFunctionScope = n.isFunctionScope := by
  simp only [isFunctionScope, kind_shift]

@[simp] theorem isClass_shift : (n.shift m).isClass = n.isClass := by
  simp only [isClass, kind_shift]

theorem field_shift : (n.shift m).label.field? = n.label.field? := by
  rw [label_shift]
  rfl

@[simp] theorem child?_shift (field : String) :
    (n.shift m).child? field = (n.child? field).map (shift m) := by
  simp only [child?, children_shift, List.find?_map, Function.comp_def, field_shift]

@[simp] theorem namedChildren_shift :
    (n.shift m).namedChildren = n.namedChildren.map (shift m) := by
  simp only [namedChildren, children_shift, List.filter_map, Function.comp_def, isNamed_shift]

theorem shift_mk (label : Label) (children : List Node) :
    (mk label children).shift m = mk (label.shift m) (children.map (shift m)) := by
  rw [shift, shiftAll_eq]

/-- A moved pattern binds the moved names. -/
theorem boundNames_shift : (n.shift m).boundNames = n.boundNames.map (shift m) := by
  induction n using childInduction with
  | mk label children ih =>
    have kind : (label.shift m).kind = label.kind := rfl
    rw [shift_mk, boundNames, boundNames, kind]
    split
    · rw [List.map_singleton, shift_mk]
    · rename_i field _
      simp only [boundNamesUnder_eq, List.find?_map, Function.comp_def, field_shift]
      cases found : children.find? fun c => c.label.field? == some field with
      | none => rfl
      | some c => exact ih c (List.mem_of_find?_eq_some found)
    · simp only [boundNamesAmong_eq, List.filter_map, Function.comp_def, isNamed_shift,
        List.flatMap_map, List.map_flatMap]
      exact List.flatMap_congr fun c hc => ih c (List.mem_filter.1 hc).1
    · rfl

theorem walked_shift : (n.shift m).walked = n.walked.map (shift m) := by
  induction n using childInduction with
  | mk label children ih =>
    rw [shift_mk, walked, walked, List.map_cons, shift_mk]
    simp only [walkedAmong_eq, List.filter_map, Function.comp_def, isNamed_shift,
      List.flatMap_map, List.map_flatMap]
    rw [List.flatMap_congr fun c hc => ih c (List.mem_filter.1 hc).1]

theorem walkedBelow_shift : (n.shift m).walkedBelow = n.walkedBelow.map (shift m) := by
  have walked := walked_shift m n
  rw [walked_eq, walked_eq, List.map_cons, List.cons.injEq] at walked
  exact walked.2

theorem endsBefore_shift (p : Point) : (n.shift m).endsBefore (p.shift m) = n.endsBefore p := by
  simp [endsBefore, Point.before_shift, Point.shift_inj]

mutual

/-- The descent to a moved point enters the moved nodes. -/
theorem descend_shift (p : Point) (found : Node) : (n : Node) →
    descend (p.shift m) (found.shift m) (n.shift m) = (descend p found n).shift m
  | mk label children => by
    rw [shift, descend, descend]
    exact descendInto_shift p found children

theorem descendInto_shift (p : Point) (found : Node) : (cs : List Node) →
    descendInto (p.shift m) (found.shift m) (shiftAll m cs) = (descendInto p found cs).shift m
  | [] => rfl
  | c :: cs => by
    have entered : (if c.isNamed then c.shift m else found.shift m) =
        (if c.isNamed then c else found).shift m := by
      split <;> rfl
    simp only [shiftAll, descendInto, endsBefore_shift, startPoint_shift, Point.before_shift,
      isNamed_shift, entered, descendInto_shift p found cs,
      descend_shift p (if c.isNamed then c else found) c]
    split
    · rfl
    · split <;> rfl

end

theorem smallestNamedAt_shift (p : Point) :
    (n.shift m).smallestNamedAt (p.shift m) = (n.smallestNamedAt p).shift m :=
  descend_shift m p n n

end Node

/-! The surroundings of a node are moved with it. -/

def Scope.shift (m : Shift) (s : Scope) : Scope :=
  { node := s.node.shift m, parent? := s.parent?.map (Node.shift m) }

def Site.shift (m : Shift) (s : Site) : Site :=
  { node := s.node.shift m
    parent? := s.parent?.map (Node.shift m)
    scopes := s.scopes.map (Scope.shift m)
    class? := s.class?.map (Node.shift m) }

namespace Site

variable (m : Shift) (s : Site)

@[simp] theorem shift_node : (s.shift m).node = s.node.shift m := rfl

@[simp] theorem shift_parent? : (s.shift m).parent? = s.parent?.map (Node.shift m) := rfl

@[simp] theorem shift_scopes : (s.shift m).scopes = s.scopes.map (Scope.shift m) := rfl

theorem child_shift (c : Node) : (s.child c).shift m = (s.shift m).child (c.shift m) := by
  simp only [child, shift, scopesBelow, classBelow?, Node.isScope_shift, Node.isClass_shift,
    Option.map_some, mk.injEq, true_and]
  constructor
  · split <;> rfl
  · split <;> rfl

theorem below_shift : (s.shift m).below = s.below.map (shift m) := by
  obtain ⟨n, hn⟩ : ∃ n, n = s.node := ⟨_, rfl⟩
  induction n using Node.childInduction generalizing s with
  | mk label children ih =>
    rw [below_eq, below_eq, List.map_cons, List.map_flatMap, shift_node, Node.namedChildren_shift,
      List.flatMap_map]
    congr 1
    apply List.flatMap_congr
    intro c hc
    have inChildren : c ∈ children := by
      have := mem_of_mem_namedChildren hc
      rwa [← hn] at this
    rw [← child_shift]
    exact ih c inChildren (s.child c) rfl

end Site

/-- The sites of a moved tree are those of the tree, moved. -/
theorem Node.sites_shift (m : Shift) (n : Node) : (n.shift m).sites = n.sites.map (Site.shift m) :=
  Site.below_shift m (.root n)

end SymbolUsages
