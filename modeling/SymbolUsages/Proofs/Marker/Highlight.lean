import SymbolUsages.Proofs.FreshIndex
import SymbolUsages.Proofs.Index.Coherence
import SymbolUsages.Proofs.ProjectPath
import SymbolUsages.Proofs.Search.Places
import SymbolUsages.Proofs.Text.Markup
import SymbolUsages.Proofs.Text.Tokens

/-!
# What markers show

A marker is made of a location and of a line that was loaded for it. The location comes from
the file that the search was made in, as it was bound; the lines come from the buffer or from
disk, decoded and split anew. Since a search looks at what counts for its file at the moment,
the two are the same text, and the marker sets off the token that was recorded.
-/

namespace SymbolUsages

open SearchCursor

/-- A marker shows a line in markup, with a token of the line set off at its column. -/
structure Marker.Shows (marker : Marker) (line token : List Char) : Prop where
  markup : marker.isMarkup = true
  wide : token ≠ []
  parts : ∃ before after, line = before ++ token ++ after ∧
    marker.column = (before.length + 1 : Nat) ∧
    marker.message = String.ofList (Markup.escape before ++ Markup.openTag ++
      Markup.escape token ++ Markup.closeTag ++ Markup.escape after)

/-- A line of a file as it is shown: a buffer's as it is, one from disk without a carriage return
at its end. -/
def Buffers.shown (bs : Buffers) (file : String) (line : List Char) : List Char :=
  if (bs.get? file).isSome then line else Lines.dropReturn line

theorem Buffers.exists_shown (bs : Buffers) (file : String) (front back : List Char)
    {token : List Char} (wide : token ≠ []) (plain : '\r' ∉ token) :
    ∃ rest, bs.shown file (front ++ token ++ back) = front ++ token ++ rest := by
  rw [shown]
  split
  · exact ⟨back, rfl⟩
  · exact ⟨_, Lines.dropReturn_append back wide plain⟩

namespace LineCache

variable {w : World} {buffers : Buffers} {file : String} {c : LineCache}

/-- What a cache holds for a file is what would be loaded for it now. -/
def Fresh (w : World) (buffers : Buffers) (file : String) (c : LineCache) : Prop :=
  ∀ lines, c.loaded[file]? = some lines → lines = (load w buffers file).1

theorem lines_run (fresh : c.Fresh w buffers file) :
    ∃ c', (lines w buffers file).run c = ((load w buffers file).1, c') ∧
      c'.Fresh w buffers file := by
  cases cached : c.loaded[file]? with
  | some found =>
    have same := fresh found cached
    refine ⟨c, ?_, fresh⟩
    simp only [lines, StateT.run, cached, same]
  | none =>
    refine ⟨{ loaded := c.loaded.insert file (load w buffers file).1
              events := c.events.appendList (load w buffers file).2 }, ?_, ?_⟩
    · simp only [lines, StateT.run, cached]
    · intro found again
      rw [Std.HashMap.getElem?_insert_self, Option.some.injEq] at again
      exact again.symm

/-- All markers of one file are made of the lines loaded for the first of them. -/
theorem markersOf_run (fresh : c.Fresh w buffers file) {ls : List Location}
    (inFile : ∀ l ∈ ls, l.file = file) :
    ((markersOf w buffers ls).run c).1 =
      ls.map fun l => l.usageMarker (load w buffers file).1 := by
  induction ls generalizing c with
  | nil => rfl
  | cons l ls ih =>
    obtain ⟨c', run, fresh'⟩ := lines_run fresh
    have later := ih fresh' fun k hk => inFile k (List.mem_cons_of_mem _ hk)
    have step : (markerOf w buffers l).run c = (l.usageMarker (load w buffers file).1, c') := by
      rw [markerOf, inFile l List.mem_cons_self, StateT.run_bind, run]
      rfl
    rw [markersOf, List.mapM_cons, StateT.run_bind, step, List.map_cons, ← later]
    rfl

/-- The lines of a file are those of the text that counts for it, as they are shown. -/
theorem load_eq {index : FileIndex} {bytes : ByteArray} {text : List Char}
    (contents : index.contents w file = .ok bytes) (valid : bytes.data.toList = Utf8.encode text)
    (tidy : PathName.tidy file = file) :
    (load w index.buffers file).1 =
      (Lines.split text).map fun line => String.ofList (index.buffers.shown file line) := by
  rw [FileIndex.contents] at contents
  cases registered : index.buffers.get? file with
  | some buffer =>
    rw [registered, Except.ok.injEq] at contents
    have same : buffer.contents.toList = text := by
      rw [← contents, Utf8.toUTF8_toList] at valid
      simpa using congrArg Utf8.decodeLossy valid
    simp [load, registered, bufferLines, Buffers.shown, same]
  | none =>
    rw [registered] at contents
    have read : w.read file = .ok bytes := by
      cases found : w.read file with
      | ok given => simpa [found, Except.mapError] using contents
      | error cause => simp [found, Except.mapError] at contents
    simp [load, registered, tidy, read, diskLines, decode, valid, Utf8.decode?_encode,
      Buffers.shown]

end LineCache

namespace Document

variable {d : Document} {n : Node} {text : List Char} {file : String}

/-- The marker of a token shows the line of its position, with the token set off. -/
theorem usageMarker_shows (bs : Buffers) (valid : d.byteList = Utf8.encode text)
    (starts : d.Boundary n.startByte) (ends : d.Boundary n.endByte)
    (startPoint : n.startPoint = d.pointOf n.startByte)
    (endPoint : n.endPoint = d.pointOf n.endByte) (row : n.startPoint.row = n.endPoint.row)
    (plain : '\r' ∉ d.chars n.startByte n.endByte) (wide : d.chars n.startByte n.endByte ≠ []) :
    ∃ line, (Lines.split text)[(d.position n).line - 1]? = some line ∧
      (((d.position n).inFile file).usageMarker
        ((Lines.split text).map fun line => String.ofList (bs.shown file line))).Shows
          (bs.shown file line) (d.chars n.startByte n.endByte) := by
  have extent : (d.position n).extent = (d.chars n.startByte n.endByte).length := by
    rw [position, if_pos row]
  rw [startPoint, endPoint] at row
  obtain ⟨before, left, right, after, offset, h⟩ := exists_line_of_token starts ends row wide
  generalize d.chars n.startByte n.endByte = token at plain wide extent h ⊢
  have placed : d.Line before (left ++ (token ++ right)) after := by rwa [← List.append_assoc]
  obtain ⟨line, column⟩ := position_of_line placed offset startPoint
  have found := h.getElem?_split valid
  obtain ⟨rest, shown⟩ := bs.exists_shown file left right wide plain
  rw [line, Nat.add_sub_cancel]
  refine ⟨_, found, rfl, wide, left, rest, shown, ?_, ?_⟩
  · show ((d.position n).column : Int) = _
    rw [column]
  · have index : (((d.position n).line : Int) - 1).toNat = before.count '\n' := by
      rw [line]
      omega
    have inside : ¬ ((d.position n).line : Int) < 1 := by
      rw [line]
      omega
    simp only [Location.usageMarker, Location.message, Position.inFile, inside, index,
      List.getElem?_map, found, shown, if_false, Option.map_some, Option.getD_some,
      Location.highlight, String.toList_ofList, column, extent,
      Markup.highlight_append left rest wide]

/-- The name of a declaration that can be searched for is not empty. -/
theorem name_ne_empty {root : Node} {r : Registration} {a : Declaration}
    (hr : r ∈ d.registrations root) (ha : r.declaration? = some a) (searchable : a.usr ≠ "") :
    a.name ≠ "" := by
  have spelled : ∀ {node name : Node} {kind : SymbolKind} {scopes : List Scope},
      (d.declaration node name kind scopes).usr ≠ "" → d.text name ≠ "" := by
    intro node name kind scopes searchable
    have spelled := not_not.1 (mt usr_eq_empty_iff.2 searchable)
    exact String.isEmpty_eq_false_iff.1 spelled.2.2
  obtain ⟨s, _, mem⟩ := mem_registrations.1 hr
  cases entry_of_mem mem with
  | foreign => cases ha
  | _ =>
    cases ha
    exact spelled searchable

end Document

/-- A tree whose tokens can be read off the lines of its text: they are words of one row. -/
structure Node.Legible (d : Document) (root : Node) : Prop where
  bindable : root.Bindable
  points : ∀ n ∈ root.preorder,
    n.startPoint = d.pointOf n.startByte ∧ n.endPoint = d.pointOf n.endByte
  aligned : BoundFile.Aligned d root
  rows : ∀ n ∈ root.preorder, n.isIdentifier = true → n.startPoint.row = n.endPoint.row
  plain : ∀ n ∈ root.preorder, n.isIdentifier = true → '\r' ∉ d.chars n.startByte n.endByte

namespace BoundFile

variable {d : Document} {root : Node} {symbol : String} {place : Location} {text : List Char}

/-- A search stays in its file. -/
theorem file_of_occurrences (f : BoundFile) (line column : Int) :
    ∀ place ∈ f.occurrences line column, place.file = f.path := by
  intro place mem
  obtain ⟨symbol, _, _, mem⟩ := exists_symbol_of_mem mem
  obtain ⟨n, _, _, rfl⟩ := mem_placesOf.1 mem
  rfl

/-- The marker of a place of a symbol shows the token there, in the line of the place. -/
theorem usageMarker_of_place (legible : root.Legible d) (valid : d.byteList = Utf8.encode text)
    (bs : Buffers) (searchable : symbol ≠ "") (mem : place ∈ (bind d root).placesOf symbol) :
    ∃ token ∈ root.walked, (bind d root).Occurs symbol token ∧
      (d.position token).inFile d.path = place ∧
      ∃ line, (Lines.split text)[(d.position token).line - 1]? = some line ∧
        (place.usageMarker
          ((Lines.split text).map fun line => String.ofList (bs.shown d.path line))).Shows
            (bs.shown d.path line) (d.text token).toList := by
  obtain ⟨s, hs, occurs, rfl⟩ := (mem_placesOf_iff_occurs legible.bindable).1 mem
  obtain ⟨identifier, r, hr, a, ha, rfl, name⟩ := of_occurs legible.bindable hs occurs
  have below := Node.walked_subset root hs.mem_walked
  have wide : d.chars s.node.startByte s.node.endByte ≠ [] := by
    have named := Document.name_ne_empty hr ha searchable
    rw [name, Document.text, ne_eq, String.ofList_eq_empty_iff] at named
    exact named
  obtain ⟨starts, ends⟩ := legible.aligned s.node below identifier
  obtain ⟨startPoint, endPoint⟩ := legible.points s.node below
  refine ⟨s.node, hs.mem_walked, occurs, rfl, ?_⟩
  rw [Document.text, String.toList_ofList]
  exact Document.usageMarker_shows bs valid starts ends startPoint endPoint
    (legible.rows s.node below identifier) (legible.plain s.node below identifier) wide

end BoundFile

namespace FileIndex

/-- What counts for a path as it is bound, given its bytes. -/
theorem eq_of_current {w : World} {s : FileIndex} {path : String} {bytes : ByteArray}
    {f : BoundFile} (current : s.current w path = .ok (some f))
    (contents : s.contents w path = .ok bytes) :
    ∃ grammar, Grammar.ofPath? path = some grammar ∧
      f = .bind (.ofBytes path bytes) (w.parse grammar bytes) := by
  rw [FileIndex.current, contents] at current
  split at current
  · obtain ⟨grammar, supported, _, rfl⟩ := bound?_eq_some_iff.1 (Except.ok.inj current)
    exact ⟨grammar, supported, rfl⟩
  · cases current

end FileIndex

namespace Service

variable {s : Service} {t : FileIndex}

theorem markersOf_eq {buffers : Buffers} {file : String} {found : List Location}
    (inFile : ∀ l ∈ found, l.file = file) : s.markersOf buffers found =
      found.map fun l => l.usageMarker (LineCache.load s.world buffers file).1 :=
  LineCache.markersOf_run (fun lines cached => by simp at cached) inFile

/-- What a successful search has found, in which file, and with which markers. -/
theorem of_answer_usages (h : t.Faithful s.world.parse) {path : String} {line column : Int}
    {force : Bool} {response : UsagesResponse}
    (answered : t.answer (s.usages path line column force) = .ok response)
    (success : response.success = true) :
    ∃ file found?, PathName.tidy file = file ∧ t.current s.world file = .ok found? ∧
      response = .found file
        (s.markersOf t.buffers (FileIndex.placesIn found? { file, line, column })) := by
  rw [usages, resolve_bind] at answered
  cases resolved : s.resolved path with
  | error e =>
    simp only [resolved] at answered
    split at answered
    · cases answered
      cases success
    · cases answered
  | ok file =>
    simp only [resolved] at answered
    split at answered
    · split at answered
      · cases answered
        cases success
      · cases answered
    · rw [answer_searchAt h] at answered
      cases current : t.current s.world file with
      | error e =>
        simp only [respond, current, Except.ok.injEq] at answered
        subst answered
        cases success
      | ok found? =>
        simp only [respond, current, Except.ok.injEq] at answered
        exact ⟨file, found?, ProjectPath.tidy_of_resolveIn resolved, current, answered.symm⟩

end Service

namespace Session

/-- Whatever has happened before, each marker that a search answers shows the line of a token as
it counts for the file at the moment, and sets off this token and nothing else. The token is the
name of a declaration of the symbol that was searched for, or refers to one. -/
theorem markers_show (service : Service) (limit : SizeLimit) (steps : List IndexStep)
    (path : String) (line column : Int) (force : Bool) :
    let now := (opened service limit).live steps
    ∀ (response : UsagesResponse) (file : String) (bytes : ByteArray) (text : List Char),
      now.index.answer (now.service.usages path line column force) = .ok response →
      response.success = true → response.searchedFile? = some file →
      now.index.contents now.service.world file = .ok bytes →
      bytes.data.toList = Utf8.encode text →
      (∀ grammar, Grammar.ofPath? file = some grammar →
        (now.service.world.parse grammar bytes).Legible (.ofBytes file bytes)) →
      ∀ marker ∈ response.markerSet.markers, ∃ grammar,
        Grammar.ofPath? file = some grammar ∧
        let unit := BoundFile.bind (.ofBytes file bytes) (now.service.world.parse grammar bytes)
        ∃ token ∈ unit.root.walked,
          unit.Occurs (usr (unit.caretCursor line column).referenced) token ∧
          marker.file = file ∧ marker.line = (unit.document.position token).line ∧
          marker.column = (unit.document.position token).column ∧
          ∃ whole, (Lines.split text)[(unit.document.position token).line - 1]? = some whole ∧
            marker.Shows (now.index.buffers.shown file whole)
              (unit.document.text token).toList := by
  intro now response file bytes text answered success searched contents valid legible marker mem
  have coherent : now.Coherent service.world.parse limit :=
    (coherent_opened service limit).live steps
  have faithful : now.index.Faithful now.service.world.parse :=
    coherent.sound.parser_eq ▸ coherent.sound.faithful
  obtain ⟨file', found?, tidy, current, rfl⟩ := Service.of_answer_usages faithful answered success
  cases searched
  cases found? with
  | none => cases mem
  | some unit =>
    obtain ⟨grammar, supported, rfl⟩ := FileIndex.eq_of_current current contents
    have inFile : ∀ place ∈ FileIndex.placesIn (some _) { file, line, column },
        place.file = file := BoundFile.file_of_occurrences (.bind (.ofBytes file bytes)
          (now.service.world.parse grammar bytes)) line column
    rw [UsagesResponse.found, Service.markersOf_eq inFile,
      LineCache.load_eq contents valid tidy] at mem
    obtain ⟨place, found, rfl⟩ := List.mem_map.1 mem
    obtain ⟨symbol, searchable, refers, found⟩ := BoundFile.exists_symbol_of_mem found
    simp only [refersTo, Bool.and_eq_true, beq_iff_eq] at refers
    obtain ⟨_, rfl⟩ := refers
    obtain ⟨token, walked, occurs, rfl, shows⟩ := BoundFile.usageMarker_of_place
      (legible grammar supported) valid now.index.buffers searchable found
    exact ⟨grammar, supported, token, walked, occurs, rfl, rfl, rfl, shows⟩

end Session

/-! A search from a declaration in a file on disk. -/

namespace OneUse

open Node

def service : Service :=
  { world := { read := fun _ => .ok source.bytes, parse := fun _ _ => tree
               guessEncoding := fun _ => none }
    process := { home? := none }, root? := some "/" }

def onDisk : Document := .ofBytes "/a.ts" source.bytes

theorem wellFormed_onDisk : tree.WellFormed onDisk where
  distinct := wellFormed.distinct
  placed n hn :=
    let placed := wellFormed.placed n hn
    ⟨placed.within, placed.startPoint, placed.endPoint, placed.ordered, placed.inside,
      placed.filled⟩
  identifiers := wellFormed.identifiers
  untouched := wellFormed.untouched
  fields := wellFormed.fields
  imports := wellFormed.imports

theorem aligned_onDisk : BoundFile.Aligned onDisk tree := aligned

theorem legible : tree.Legible onDisk where
  bindable := wellFormed.bindable
  points n hn :=
    ⟨(wellFormed_onDisk.placed n hn).startPoint, (wellFormed_onDisk.placed n hn).endPoint⟩
  aligned := aligned_onDisk
  rows n hn identifier := (wellFormed.identifiers n hn identifier).2.2
  plain := by decide +kernel

theorem answered : (Session.opened service {}).index.answer (service.usages "/a.ts" 1 5) =
    .ok (.found "/a.ts" (service.markersOf {} ((BoundFile.bind onDisk tree).occurrences 1 5))) := by
  have resolved : service.resolved "/a.ts" = .ok "/a.ts" := by decide +kernel
  have faithful : (Session.opened service {}).index.Faithful service.world.parse :=
    FileIndex.faithful_of_files_empty rfl
  have inside : ¬ ((decide ((1 : Int) < 1) || decide ((5 : Int) < 1)) = true) := by decide
  have current : (Session.opened service {}).index.current service.world "/a.ts" =
      .ok (some (.bind onDisk tree)) := rfl
  rw [Service.usages, Service.resolve_bind, resolved]
  dsimp only
  rw [if_neg inside, Service.answer_searchAt faithful, current]
  rfl

theorem mem_occurrences :
    ⟨"/a.ts", 1, 5, 1⟩ ∈ (BoundFile.bind onDisk tree).occurrences 1 5 := by
  have places := placesOf_target wellFormed_onDisk word
  have position : (onDisk.position name).inFile onDisk.path = ⟨"/a.ts", 1, 5, 1⟩ := by decide
  rw [BoundFile.occurrences_name wellFormed_onDisk aligned_onDisk (registered onDisk) rfl
    (show ((onDisk.position name).line : Int) = 1 by decide)
    (show ((onDisk.position name).column : Int) = 5 by decide) (by decide)]
  rw [position] at places
  exact places ▸ List.mem_cons_self

theorem markers_show_use :
    ∃ response, (Session.opened service {}).index.answer (service.usages "/a.ts" 1 5) =
        .ok response ∧ response.success = true ∧
      ∃ marker ∈ response.markerSet.markers, ∃ line token, marker.Shows line token := by
  have shows := Session.markers_show service {} [] "/a.ts" 1 5 true _ "/a.ts" _ "let x;x".toList
    answered rfl rfl rfl rfl fun grammar _ => legible
  have inFile : ∀ place ∈ (BoundFile.bind onDisk tree).occurrences 1 5, place.file = "/a.ts" :=
    BoundFile.file_of_occurrences (.bind onDisk tree) 1 5
  have mem := List.mem_map_of_mem
    (f := fun l => l.usageMarker (LineCache.load service.world {} "/a.ts").1) mem_occurrences
  rw [← Service.markersOf_eq inFile] at mem
  obtain ⟨_, _, token, _, _, _, _, _, line, _, shown⟩ := shows _ mem
  exact ⟨_, answered, rfl, _, mem, _, _, shown⟩

end OneUse

end SymbolUsages
