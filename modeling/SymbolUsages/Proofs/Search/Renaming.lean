import SymbolUsages.Proofs.Search.Places

/-!
# Renaming what a search finds

Writing a new name over what a search finds captures nothing: in the file that is bound then,
each node refers to the node that it referred to, and each search finds what it found.

The symbols inside a class, an interface, a type alias or a namespace are spelled with its name,
and have to be renamed along with it. So this name must have a symbol of its own, and it has one
unless the parser invented it. In a well-formed tree it did not: what it invents spans no bytes.
-/

namespace SymbolUsages

open SearchCursor

namespace BoundFile

variable {d : Document} {root n : Node} {symbol fresh : String}

/-- Write a new name over what a search from a caret finds, and bind the tree again. -/
def rename (f : BoundFile) (line column : Int) (fresh : String) : BoundFile :=
  bind (f.document.overwrite (f.occurrences line column) fresh) f.root

/-! Two files over one tree, the second with one symbol renamed. -/

section Searches

variable {d' : Document} (ren : d.Renaming d' root symbol fresh) (alike : d.Alike d')
  {line column : Int}

include ren

theorem target?_rename (n : Node) : (bind d' root).target? n =
    ((bind d root).target? n).map (Declaration.reread d') := by
  simp only [target?, ren.declarationOf?_eq, ren.referenceOf?_eq]
  cases (bind d root).declarationOf? n with
  | some a => rfl
  | none =>
    cases (bind d root).referenceOf? n with
    | none => rfl
    | some a =>
      simp only [Option.map_none, Option.none_or, Option.map_some, Option.bind_some,
        Declaration.reread_node]

include alike

theorem caretNode?_rename :
    (bind d' root).caretNode? line column = (bind d root).caretNode? line column := by
  rw [caretNode?, caretNode?, alike.nodeAt?]
  refine congrArg _ (funext fun n => ?_)
  have owner := ren.ownerOf?_eq n
  cases found : (bind d root).table.ownerOf? n with
  | none =>
    rw [found] at owner
    rw [owner]
    rfl
  | some a =>
    rw [found] at owner
    simp only [owner, Option.map_some, Declaration.reread_node]

/-- A symbol is found in the same places under its new name, or under its old one. -/
theorem placesOf_rename {r : Registration} {a : Declaration} (hr : r ∈ d.registrations root)
    (ha : r.declaration? = some a) :
    (bind d' root).placesOf (a.reread d').usr = (bind d root).placesOf a.usr := by
  have refers : ∀ n, refersTo (a.reread d').usr (Cursor.at (bind d' root) n) =
      refersTo a.usr (Cursor.at (bind d root) n) := by
    intro n
    rw [Bool.eq_iff_iff, refersTo_iff, refersTo_iff, target?_rename ren]
    cases found : (bind d root).target? n with
    | none => simp
    | some b =>
      obtain ⟨r', hr', hb⟩ := mem_of_target? found
      simp only [Option.map_some, Option.some.injEq, exists_eq_left']
      exact ren.usr_iff hr' hb hr ha
  have place : ∀ n,
      location (Cursor.at (bind d' root) n) = location (Cursor.at (bind d root) n) := by
    intro n
    rw [location_at, location_at, ren.declarationOf?_eq]
    simp only [bind_document, bind_path, alike.position, ren.path]
    cases (bind d root).declarationOf? n with
    | none => rfl
    | some b => simp only [Option.map_some, Declaration.reread_nameNode]
  rw [placesOf_eq, placesOf_eq]
  simp only [refers, place, bind_root]

/-- A search finds the same places as before. -/
theorem occurrences_rename_eq :
    (bind d' root).occurrences line column = (bind d root).occurrences line column := by
  rw [occurrences_eq, occurrences_eq, caretNode?_rename ren alike]
  cases (bind d root).caretNode? line column with
  | none => rfl
  | some n =>
    rw [Option.bind_some, Option.bind_some, target?_rename ren]
    cases found : (bind d root).target? n with
    | none => rfl
    | some a =>
      obtain ⟨r, hr, ha⟩ := mem_of_target? found
      have empty := ren.usr_eq_empty_iff hr ha
      simp only [Option.map_some, placesOf_rename ren alike hr ha, empty]

end Searches

/-- Renaming what a search finds captures nothing: each node refers to the node that it
referred to, and each search finds what it found. -/
theorem occurrences_rename (h : d.Renamable root) (parser : root.InventsEmpty)
    (line column : Int)
    (new : d.NewName root ((bind d root).occurrences line column) fresh) :
    (∀ n, (((bind d root).rename line column fresh).referenceOf? n).map Declaration.node =
      ((bind d root).referenceOf? n).map Declaration.node) ∧
    ∀ line' column', ((bind d root).rename line column fresh).occurrences line' column' =
      (bind d root).occurrences line' column' := by
  by_cases none : (bind d root).occurrences line column = []
  · rw [rename, none, Document.overwrite_nil]
    exact ⟨fun _ => rfl, fun _ _ => rfl⟩
  obtain ⟨place, mem⟩ := List.exists_mem_of_ne_nil _ none
  obtain ⟨symbol, searchable, refers, mem⟩ := exists_symbol_of_mem mem
  have found := occurrences_of_refersTo refers searchable
  rw [found] at new
  have ren := h.renaming_overwrite new (h.wf.containersNamed parser) searchable mem
  have alike := (h.fits new).alike
  rw [rename, found]
  refine ⟨fun n => ?_, fun _ _ => occurrences_rename_eq ren alike⟩
  rw [bind_document, bind_root, ren.referenceOf?_eq, Option.map_map]
  refine congrArg (fun f => Option.map f _) (funext fun a => ?_)
  exact Declaration.reread_node _ a

end BoundFile

/-! The use of a variable is renamed with its declaration. -/

namespace OneUse
open Node

theorem renamable : source.Renamable tree where
  wf := wellFormed
  program := rfl
  supported := by decide
  ascii := by decide
  free := by decide
  keywords := by decide

theorem inventsEmpty : tree.InventsEmpty := by
  rw [InventsEmpty]
  decide

theorem newName (line column : Int) :
    source.NewName tree ((BoundFile.bind source tree).occurrences line column) "y" where
  ascii := by decide
  flat := by decide
  free := by decide
  unused := by decide
  extent := by
    intro place mem
    obtain ⟨n, hn, identifier, rfl⟩ := BoundFile.exists_identifier wellFormed mem
    clear mem
    revert n
    decide

theorem occurrences_rename_use :
    source.Renamable tree ∧ tree.InventsEmpty ∧
      source.NewName tree ((BoundFile.bind source tree).occurrences 1 5) "y" ∧
      ⟨"a.ts", 1, 5, 1⟩ ∈ (BoundFile.bind source tree).occurrences 1 5 ∧
      ∀ line column, ((BoundFile.bind source tree).rename 1 5 "y").occurrences line column =
        (BoundFile.bind source tree).occurrences line column := by
  refine ⟨renamable, inventsEmpty, newName 1 5, ?_,
    (BoundFile.occurrences_rename renamable inventsEmpty 1 5 (newName 1 5)).2⟩
  rw [occurrences_source]
  exact List.mem_cons_self

end OneUse

end SymbolUsages
