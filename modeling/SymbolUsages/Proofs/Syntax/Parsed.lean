import SymbolUsages.Proofs.Syntax.Address
import SymbolUsages.Proofs.Syntax.Placement
import SymbolUsages.Syntax.Parsed

/-!
# What a parse reports

A parse reports the addresses of the syntax errors. It is decided by the path and the size
alone, before the parser is asked.
-/

namespace SymbolUsages

namespace Node

variable {n : Node}

/-- A list of the syntax errors of a tree: one node for each address of an error region or of an
invented node, in the order of the addresses. -/
def ListsFaults (root : Node) (nodes : List Node) : Prop :=
  ∃ addresses : List (List Nat), addresses.Pairwise (· < ·) ∧
    (∀ address, address ∈ addresses ↔ ∃ n, root.descendant? address = some n ∧
      (n.kind = "ERROR" ∨ n.isMissing = true)) ∧
    addresses.map root.descendant? = nodes.map some

/-- The addresses of the syntax errors in pre-order. -/
def faultAddresses (root : Node) : List (List Nat) :=
  (root.addressed.filter fun x => x.2.isFault).map Prod.fst

theorem listsFaults_faults (n : Node) : n.ListsFaults n.faults := by
  refine ⟨n.faultAddresses, ?_, ?_, ?_⟩
  · rw [faultAddresses, List.pairwise_map]
    exact n.sorted_addressed.filter _
  · simp [faultAddresses, mem_addressed, isFault]
  · rw [faultAddresses, faults, ← map_node_addressed, List.filter_map, List.map_map, List.map_map]
    refine List.map_congr_left fun x hx => ?_
    exact mem_addressed.1 (List.mem_filter.1 hx).1

/-- In a tree whose children are in order, pre-order goes forward. -/
theorem preorder_pairwise {first last : Node → Nat}
    (ordered : ∀ m ∈ n.preorder, m.InOrder first last) :
    n.preorder.Pairwise fun p q => first p ≤ first q := by
  induction n using childInduction with
  | mk label children ih =>
    have below : ∀ c ∈ children, ∀ m ∈ c.preorder, m.InOrder first last :=
      fun c hc m hm => ordered m (mem_preorder_of_child hc hm)
    rw [preorder_mk, List.pairwise_cons, List.pairwise_flatMap]
    refine ⟨?_, fun c hc => ih c hc (below c hc), ?_⟩
    · intro q hq
      obtain ⟨c, hc, mem⟩ := List.mem_flatMap.1 hq
      exact (inOrder_range ordered (mem_preorder_of_child hc mem)).1
    · refine (ordered _ (mem_preorder_self _)).ordered.imp_of_mem ?_
      intro c e hc he before p hp q hq
      have rangeP := inOrder_range (below c hc) hp
      have rangeQ := inOrder_range (below e he) hq
      have ends := (below c hc p hp).ends
      omega

/-- The nodes that come off a stack. Where one was, its children are put, the first on top. -/
def unstack : List Node → List Node
  | [] => []
  | n :: stack => n :: unstack (n.children ++ stack)
termination_by stack => (stack.flatMap preorder).length
decreasing_by
  cases n
  simp [preorder_mk]

/-- A stack gives the nodes in pre-order. -/
theorem unstack_eq (stack : List Node) : unstack stack = stack.flatMap preorder := by
  induction stack using unstack.induct with
  | case1 => rw [unstack, List.flatMap_nil]
  | case2 n stack ih =>
    cases n
    rw [unstack, ih, List.flatMap_append, List.flatMap_cons, preorder_mk, children_mk,
      List.cons_append]

end Node

theorem SizeLimit.admits_iff {l : SizeLimit} {size : Nat} :
    l.admits size = true ↔ (size : Int) ≤ l.megabytes * 1024 * 1024 :=
  decide_eq_true_iff

theorem parse_eq_ok_iff {parser : Grammar → ByteArray → Node} {limit : SizeLimit} {path : String}
    {bytes : ByteArray} {p : Parsed} : parse parser limit path bytes = .ok p ↔
      ∃ grammar, Grammar.ofPath? path = some grammar ∧ limit.admits bytes.size = true ∧
        p = { path, grammar, root := parser grammar bytes } := by
  rw [parse]
  cases Grammar.ofPath? path with
  | none => simp
  | some grammar => cases limit.admits bytes.size <;> simp [eq_comm]

/-- A parse that fails does not ask the parser. -/
theorem parse_of_error {parser : Grammar → ByteArray → Node} {limit : SizeLimit} {path : String}
    {bytes : ByteArray} {failure : ParseFailure}
    (failed : parse parser limit path bytes = .error failure)
    (other : Grammar → ByteArray → Node) : parse other limit path bytes = .error failure := by
  rw [parse] at failed ⊢
  cases grammar : Grammar.ofPath? path with
  | none =>
    rw [grammar] at failed
    exact failed
  | some g =>
    simp only [grammar] at failed ⊢
    split at failed
    · cases failed
    · rename_i large
      rw [if_neg large]
      exact failed

/-- A parse succeeds just if the path has a grammar and the bytes are within the limit. It answers
the parser's tree. The reports are those on the nodes, whether named or not, that are errors or
missing: one for each address of such a node, in the order of the addresses, as a stack gives
them. If children follow one another between the rows of their parents, the lines do not
decrease. A parse that fails has asked no parser. -/
theorem parse_reports (parser : Grammar → ByteArray → Node) (limit : SizeLimit) (path : String)
    (bytes : ByteArray) :
    ((∃ p, parse parser limit path bytes = .ok p) ↔
        hasGrammar path = true ∧ (bytes.size : Int) ≤ limit.megabytes * 1024 * 1024) ∧
      (∀ p, parse parser limit path bytes = .ok p →
        (∃ grammar, Grammar.ofPath? path = some grammar ∧ p.root = parser grammar bytes) ∧
        (p.root.hasFault = true ↔ p.diagnostics ≠ []) ∧
        (∃ nodes, p.root.ListsFaults nodes ∧
          (Node.unstack [p.root]).filter Node.isFault = nodes ∧
          p.diagnostics = nodes.map fun n =>
            { code := .parseError, message := s!"Syntax error at line {n.startPoint.row + 1}"
              file? := some path, line? := some (n.startPoint.row + 1) }) ∧
        ((∀ n ∈ p.root.preorder, n.InOrder (·.startPoint.row) (·.endPoint.row)) →
          (p.diagnostics.filterMap Diagnostic.line?).Pairwise (· ≤ ·))) ∧
      ∀ failure, parse parser limit path bytes = .error failure →
        ∀ other, parse other limit path bytes = .error failure := by
  refine ⟨?_, ?_, fun failure failed other => parse_of_error failed other⟩
  · simp only [parse_eq_ok_iff, hasGrammar, Option.isSome_iff_exists, SizeLimit.admits_iff]
    constructor
    · rintro ⟨p, grammar, supported, small, -⟩
      exact ⟨⟨grammar, supported⟩, small⟩
    · rintro ⟨⟨grammar, supported⟩, small⟩
      exact ⟨_, grammar, supported, small, rfl⟩
  · intro p parsed
    obtain ⟨grammar, supported, -, rfl⟩ := parse_eq_ok_iff.1 parsed
    refine ⟨⟨grammar, supported, rfl⟩, ?_, ?_, ?_⟩
    · simp [Node.hasFault, Parsed.diagnostics, Node.faults]
    · refine ⟨_, Node.listsFaults_faults _, ?_, rfl⟩
      rw [Node.unstack_eq, List.flatMap_singleton, Node.faults]
    · intro ordered
      have rows := (Node.preorder_pairwise ordered).filter Node.isFault
      rw [Parsed.diagnostics, List.filterMap_map, List.pairwise_filterMap]
      refine rows.imp ?_
      rintro a b least _ ⟨⟩ _ ⟨⟩
      omega

/-! A tree of which every node is reported: an error with an error in it, and a missing leaf. -/

namespace NestedErrors

def label (kind : String) (first last : Nat) (named missing : Bool) : Label :=
  { kind, startByte := first, endByte := last, startPoint := ⟨first, 0⟩, endPoint := ⟨last, 0⟩
    named, missing }

def tree : Node :=
  .mk (label "ERROR" 0 3 true false)
    [.mk (label "ERROR" 1 2 true false) [], .mk (label ";" 2 2 false true) []]

theorem parse_reports_nested :
    ∃ p, parse (fun _ _ => tree) {} "a.ts" .empty = .ok p ∧
      (∀ n ∈ p.root.preorder, n.InOrder (·.startPoint.row) (·.endPoint.row)) ∧
      (p.diagnostics.filterMap Diagnostic.line?).Pairwise (· ≤ ·) := by
  obtain ⟨success, reports, -⟩ := parse_reports (fun _ _ => tree) {} "a.ts" .empty
  obtain ⟨p, parsed⟩ := success.2 ⟨by decide, by decide⟩
  obtain ⟨⟨_, _, root⟩, _, _, lines⟩ := reports p parsed
  have ordered : ∀ n ∈ p.root.preorder, n.InOrder (·.startPoint.row) (·.endPoint.row) := by
    rw [root]
    have nodes : tree.preorder = tree :: tree.children := rfl
    rw [nodes]
    simp only [tree, Node.children_mk, List.forall_mem_cons]
    refine ⟨⟨by decide, by decide, by decide⟩, ⟨by decide, by decide, by decide⟩,
      ⟨by decide, by decide, by decide⟩, ?_⟩
    simp
  exact ⟨p, parsed, ordered, lines ordered⟩

end NestedErrors

end SymbolUsages
