import SymbolUsages.Binding.Cursor
import SymbolUsages.Proofs.Binding.Occurs

/-!
# Consistent tables

Some trees are no good: a parser that recovers from an error can leave two nodes with one key, and
then the one overwrites what was recorded for the other. The tables stay consistent all the same.
A lookup compares names and asks for a name space, and an entry is in the name spaces of its
kind, so what a leaf refers to has the leaf's name and a kind that fits the leaf. And references
are recorded last, for keys that nothing was declared under.
-/

namespace SymbolUsages

/-- The kinds of symbols that leaves refer to: type names to types, properties to members, and all
others to values. -/
def SymbolKind.referable (leaf : String) : List SymbolKind :=
  if leaf = "type_identifier" then
    [.classType, .interface, .typeAlias, .enumeration, .importBinding, .typeParameter]
  else if leaf = "property_identifier" ∨ leaf = "private_property_identifier" then
    [.method, .field]
  else
    [.function, .classType, .enumeration, .namespaceBlock, .variableBinding, .parameter,
      .importBinding]

/-- A cursor of a file: the null cursor, or one on a node. -/
def Cursor.Of (f : BoundFile) (c : Cursor) : Prop :=
  c = .null ∨ ∃ n, c = .at f n

namespace ReferenceForm

variable {leaf : String} {kind : SymbolKind}

theorem referable_of_value (h : ofKind? leaf = some .value) (space : .value ∈ kind.namespaces) :
    kind ∈ SymbolKind.referable leaf := by
  have others : leaf ≠ "type_identifier" ∧
      ¬ (leaf = "property_identifier" ∨ leaf = "private_property_identifier") := by
    unfold ofKind? at h
    split at h
    all_goals first
      | decide
      | cases h
  rw [SymbolKind.referable, if_neg others.1, if_neg others.2]
  cases kind
  all_goals first
    | exact absurd space (by decide)
    | decide

theorem referable_of_type (h : ofKind? leaf = some .type) (space : .type ∈ kind.namespaces) :
    kind ∈ SymbolKind.referable leaf := by
  have isType : leaf = "type_identifier" := by
    unfold ofKind? at h
    split at h
    all_goals first
      | rfl
      | cases h
  rw [SymbolKind.referable, if_pos isType]
  cases kind
  all_goals first
    | exact absurd space (by decide)
    | decide

theorem referable_of_member (h : ofKind? leaf = some .member)
    (isMember : kind = .method ∨ kind = .field) : kind ∈ SymbolKind.referable leaf := by
  unfold ofKind? at h
  split at h
  all_goals cases h
  all_goals
    obtain rfl | rfl := isMember
    all_goals decide

end ReferenceForm

namespace Document

variable {d : Document} {root : Node} {s : Site} {r : Registration} {a : Declaration}

/-- What is bound in a name space is of a kind that belongs there. -/
theorem space_of_bindingAt? {slot : ScopeSlot} (hr : r ∈ d.registrations root)
    (found : r.bindingAt? slot = some a) : slot.space ∈ a.kind.namespaces := by
  obtain ⟨s, _, mem⟩ := mem_registrations.1 hr
  obtain ⟨form, _, entry⟩ := formEntry_of_mem mem
  cases entry with
  | lexical =>
    rw [Registration.bindingAt?, Option.ite_none_right_eq_some, Option.some.injEq] at found
    obtain ⟨⟨space, _⟩, rfl⟩ := found
    exact space
  | member => cases found
  | foreign => cases found

/-- What is found in a class is a member. -/
theorem kind_of_memberAt? {slot : MemberSlot} (hr : r ∈ d.registrations root)
    (found : r.memberAt? slot = some a) : a.kind = .method ∨ a.kind = .field := by
  obtain ⟨rfl, _⟩ := Registration.eq_member_of_memberAt? found
  exact kind_of_member hr

theorem kind_of_reference? (h : d.reference? (.ofList (d.registrations root)) s = some a) :
    a.kind ∈ SymbolKind.referable s.node.kind := by
  obtain ⟨form, leaf, finds⟩ := finds_of_reference? h
  cases finds with
  | value _ hr found => exact ReferenceForm.referable_of_value leaf (space_of_bindingAt? hr found)
  | type _ hr found => exact ReferenceForm.referable_of_type leaf (space_of_bindingAt? hr found)
  | member _ hr found => exact ReferenceForm.referable_of_member leaf (kind_of_memberAt? hr found)

/-- Only what declares nothing refers. -/
theorem not_declaring_of_reference? {t : BindingTable} (h : d.reference? t s = some a) :
    t.isDeclaring s.node = false := by
  rw [reference?] at h
  split at h
  · split at h
    · cases h
    · rename_i silent
      exact Bool.eq_false_iff.2 silent
  · cases h

end Document

namespace BoundFile

variable {d : Document} {root n : Node} {a : Declaration}

/-- The source text of a node is that of its key. -/
theorem text_congr {m : Node} (key : m.key = n.key) : d.text m = d.text n := by
  have start : m.startByte = n.startByte := congrArg NodeKey.startByte key
  have stop : m.endByte = n.endByte := congrArg NodeKey.endByte key
  rw [Document.text, Document.text, start, stop]

/-- What a node refers to is declared, under the text of the node and with a kind that fits. -/
theorem fits_of_referenceOf? (h : (bind d root).referenceOf? n = some a) :
    (∃ r ∈ d.registrations root, r.declaration? = some a) ∧ a.name = d.text n ∧
      a.kind ∈ SymbolKind.referable n.kind := by
  obtain ⟨s, _, key, refers⟩ := Document.mem_of_references h
  obtain ⟨declared, name⟩ := Document.of_reference? refers
  have kind : s.node.kind = n.kind := congrArg NodeKey.kind key
  refine ⟨declared, name.trans (text_congr key), ?_⟩
  rw [← kind]
  exact Document.kind_of_reference? refers

/-- What a node refers to is looked up to a declaration itself. -/
theorem isDeclaration_of_referenceOf? (h : (bind d root).referenceOf? n = some a) :
    (Cursor.at (bind d root) a.node).isDeclaration = true := by
  obtain ⟨⟨r, hr, declares⟩, _⟩ := fits_of_referenceOf? h
  obtain ⟨b, found⟩ := BindingTable.exists_declarationOf? (n := a.node) hr declares rfl
  exact Option.isSome_iff_exists.2 ⟨b, found⟩

end BoundFile

namespace Cursor

variable {d : Document} {root : Node} {c : Cursor}

theorem referenced_of_isDeclaration (h : c.isDeclaration = true) : c.referenced = c := by
  cases c with
  | null => rfl
  | «at» f n => simp only [referenced, h, if_true]

/-- What a cursor refers to is nothing, or a declaration. -/
theorem referenced_cases (h : c.Of (.bind d root)) :
    c.referenced = .null ∨ c.referenced.isDeclaration = true := by
  obtain rfl | ⟨n, rfl⟩ := h
  · exact .inl rfl
  by_cases declares : (Cursor.at (.bind d root) n).isDeclaration = true
  · right
    rwa [referenced_of_isDeclaration declares]
  cases refers : (BoundFile.bind d root).referenceOf? n with
  | none =>
    left
    simp only [referenced, declares, refers]
    rfl
  | some a =>
    right
    simp only [referenced, declares, refers]
    exact BoundFile.isDeclaration_of_referenceOf? refers

end Cursor

namespace BoundFile

/-- Whatever the tree is like, the tables fit together. What is recorded as a reference is a
declaration of the same name and of a kind that fits. No key is that of a reference and of a
declaration or a declaring name as well. And what a cursor refers to is nothing, or a declaration,
which refers to itself. -/
theorem bind_consistent (d : Document) (root : Node) :
    (∀ n a, (bind d root).referenceOf? n = some a →
      (∃ r ∈ d.registrations root, r.declaration? = some a) ∧ a.name = d.text n ∧
        a.kind ∈ SymbolKind.referable n.kind) ∧
    (∀ k ∈ (bind d root).references, k ∉ (bind d root).table.declarations ∧
      k ∉ (bind d root).table.declaringNames ∧ k ∉ (bind d root).table.nameOwners) ∧
    (∀ c : Cursor, c.Of (bind d root) → c.referenced.isValid = false ∨
      c.referenced.isDeclaration = true ∧ c.referenced.referenced = c.referenced) := by
  refine ⟨fun n a => fits_of_referenceOf?, fun k hk => ?_, fun c hc => ?_⟩
  · obtain ⟨a, found⟩ := Option.isSome_iff_exists.1 (Std.HashMap.mem_iff_isSome_getElem?.1 hk)
    obtain ⟨s, _, rfl, refers⟩ := Document.mem_of_references found
    have silent := Document.not_declaring_of_reference? refers
    exact BindingTable.not_mem_of_not_declaring _ silent
  · obtain null | declares := Cursor.referenced_cases hc
    · left
      rw [null]
      rfl
    · exact .inr ⟨declares, Cursor.referenced_of_isDeclaration declares⟩

end BoundFile

end SymbolUsages
