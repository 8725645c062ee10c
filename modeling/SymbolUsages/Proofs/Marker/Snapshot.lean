import SymbolUsages.Marker.Marker

/-!
# Lines that stay

A cache loads the lines of a path when they are asked for, and by then the disk and the buffers
may have changed. What it answers in a run is nevertheless one snapshot: a table of lines by
path, which the requests of the whole run determine. The lines of a path are those that the
first request for it loads, from what surrounds that request.

`LineCache.Holds` says this of a cache in the middle of a run: its entries are the part of the
table that has been asked for. An entry may have no lines, and is then no less an entry. One
request keeps this, whether it finds an entry or makes one, and with it a run does.
-/

namespace SymbolUsages

/-- The characters that the bytes of a file on disk are read as. The encoding that is guessed is
asked only where they are not UTF-8, and has the last word unless it is unknown or refuses them. -/
inductive World.Decodes (w : World) (bytes : ByteArray) : List Char → Prop where
  | utf8 {chars : List Char} (valid : Utf8.decode? bytes.data.toList = some chars) :
    Decodes w bytes chars
  | guessed {chars : List Char} (invalid : Utf8.decode? bytes.data.toList = none)
      (known : w.decodeIn (LineCache.guessedName w bytes) bytes = .ok chars) :
    Decodes w bytes chars
  | replaced {failure : DecodingFailure} (invalid : Utf8.decode? bytes.data.toList = none)
      (refused : w.decodeIn (LineCache.guessedName w bytes) bytes = .error failure) :
    Decodes w bytes (Utf8.decodeLossy bytes.data.toList)

theorem World.decodes (w : World) (bytes : ByteArray) :
    w.Decodes bytes (LineCache.decode w bytes) := by
  rw [LineCache.decode]
  cases strict : Utf8.decode? bytes.data.toList with
  | some chars => exact .utf8 strict
  | none =>
    dsimp only
    cases outcome : w.decodeIn (LineCache.guessedName w bytes) bytes with
    | ok chars => exact .guessed strict outcome
    | error failure => exact .replaced strict outcome

/-- A request for the lines of a path, and what surrounds it. -/
structure LineRequest where
  world : World
  buffers : Buffers
  path : String

namespace LineRequest

/-- The lines that are loaded if the request is the first for its path. -/
def lines (r : LineRequest) : List String := (LineCache.load r.world r.buffers r.path).1

/-- What loading them does outside. -/
def events (r : LineRequest) : List Event := (LineCache.load r.world r.buffers r.path).2

/-- The lines that a request loads, and what it does for them. A buffer of exactly this name
counts whatever is on disk. Otherwise the disk is read and decoded, and a failure to read is
logged. -/
inductive Loads (r : LineRequest) : List String → List Event → Prop where
  | buffer {b : Buffer} (registered : r.buffers.get? r.path = some b) (name : b.name = r.path) :
    Loads r (LineCache.bufferLines b.contents) []
  | disk {bytes : ByteArray} {chars : List Char}
      (unregistered : ∀ b ∈ r.buffers.toList, b.name ≠ r.path)
      (read : r.world.read (PathName.tidy r.path) = .ok bytes)
      (decodes : r.world.Decodes bytes chars) :
    Loads r (LineCache.diskLines chars) [.read (PathName.tidy r.path)]
  | failed {cause : SystemError} (unregistered : ∀ b ∈ r.buffers.toList, b.name ≠ r.path)
      (read : r.world.read (PathName.tidy r.path) = .error cause) :
    Loads r [] [.read (PathName.tidy r.path),
      .logged (.error s!"Failed to read {r.path}: {cause.message}")]

theorem loads (r : LineRequest) : r.Loads r.lines r.events := by
  cases registered : r.buffers.get? r.path with
  | some b =>
    simp only [lines, events, LineCache.load, registered]
    exact .buffer registered (by simpa using List.find?_some registered)
  | none =>
    have unregistered : ∀ b ∈ r.buffers.toList, b.name ≠ r.path := by
      simpa [Buffers.get?] using registered
    cases read : r.world.read (PathName.tidy r.path) with
    | ok bytes =>
      simp only [lines, events, LineCache.load, registered, read]
      exact .disk unregistered read (r.world.decodes bytes)
    | error cause =>
      simp only [lines, events, LineCache.load, registered, read]
      exact .failed unregistered read

/-- The first request for a path. -/
def first? (asked : List LineRequest) (path : String) : Option LineRequest :=
  asked.find? fun r => r.path == path

/-- The requests that are the first for their path. -/
def firsts : List LineRequest → List LineRequest
  | [] => []
  | r :: later => r :: (firsts later).filter fun k => k.path != r.path

/-- The lines of each path as the first request for it loads them. -/
def snapshot (asked : List LineRequest) (path : String) : List String :=
  ((first? asked path).map lines).getD []

variable {asked : List LineRequest} {r : LineRequest} {path : String}

theorem first?_append (asked more : List LineRequest) (path : String) :
    first? (asked ++ more) path = (first? asked path).or (first? more path) :=
  List.find?_append

theorem first?_cons_self (r : LineRequest) (more : List LineRequest) :
    first? (r :: more) r.path = some r :=
  List.find?_cons_of_pos (beq_self_eq_true r.path)

theorem first?_cons_of_ne (h : r.path ≠ path) (more : List LineRequest) :
    first? (r :: more) path = first? more path :=
  List.find?_cons_of_neg (by simpa using h)

theorem first?_eq_none (h : ∀ r ∈ asked, r.path ≠ path) : first? asked path = none :=
  List.find?_eq_none.2 fun r hr => by simpa using h r hr

theorem first?_concat_of_ne (asked : List LineRequest) (h : r.path ≠ path) :
    first? (asked ++ [r]) path = first? asked path := by
  rw [first?_append, first?_cons_of_ne h]
  exact Option.or_none

/-- What comes later does not count for a path that has been asked for. -/
theorem snapshot_eq_of_first? (h : first? asked path = some r) (more : List LineRequest) :
    snapshot (asked ++ more) path = r.lines := by
  rw [snapshot, first?_append, h]
  rfl

/-- One more request is a first one if there is none for its path yet. -/
theorem firsts_concat (asked : List LineRequest) (r : LineRequest) : firsts (asked ++ [r]) =
    firsts asked ++ if (first? asked r.path).isSome then [] else [r] := by
  induction asked with
  | nil => rfl
  | cons k later ih =>
    rw [List.cons_append, firsts, ih, firsts, List.filter_append, List.cons_append]
    congr 2
    by_cases same : k.path = r.path
    · rw [← same, first?_cons_self]
      split <;> simp [same]
    · rw [first?_cons_of_ne same]
      split <;> simp [Ne.symm same]

theorem mem_firsts : r ∈ firsts asked ↔ first? asked r.path = some r := by
  induction asked with
  | nil => simp [firsts, first?]
  | cons k later ih =>
    rw [firsts, List.mem_cons, List.mem_filter, ih]
    by_cases same : k.path = r.path
    · rw [← same, first?_cons_self]
      simp [same, eq_comm]
    · have other : r ≠ k := fun h => same (h ▸ rfl)
      simp [first?_cons_of_ne same, other, Ne.symm same]

/-- There is one first request for each path. -/
theorem nodup_firsts (asked : List LineRequest) : ((firsts asked).map LineRequest.path).Nodup := by
  induction asked with
  | nil => exact List.nodup_nil
  | cons k later ih =>
    rw [firsts, List.map_cons, List.nodup_cons]
    refine ⟨?_, ih.sublist (List.filter_sublist.map _)⟩
    simp

end LineRequest

/-- A request to a cache: for the lines of a path, or for the markers of some places. -/
inductive LineQuery where
  | lines (path : String)
  | markers (places : List Location)
deriving DecidableEq, Repr

/-- What a cache answers. -/
inductive LineAnswer where
  | lines (found : List String)
  | markers (found : List Marker)
deriving DecidableEq, Repr

namespace LineQuery

/-- The paths whose lines are needed, in order. -/
def paths : LineQuery → List String
  | .lines path => [path]
  | .markers places => places.map Location.file

/-- The answer that is made of given lines for each path. -/
def answerFrom (shown : String → List String) : LineQuery → LineAnswer
  | .lines path => .lines (shown path)
  | .markers places => .markers (places.map fun l => l.usageMarker (shown l.file))

/-- The requests for lines that a query makes. -/
def requests (w : World) (bs : Buffers) (q : LineQuery) : List LineRequest :=
  q.paths.map fun path => { world := w, buffers := bs, path }

/-- Let a cache answer. -/
def perform (w : World) (bs : Buffers) : LineQuery → StateM LineCache LineAnswer
  | .lines path => .lines <$> LineCache.lines w bs path
  | .markers places => .markers <$> LineCache.markersOf w bs places

theorem answerFrom_congr {shown shown' : String → List String} {q : LineQuery}
    (h : ∀ path ∈ q.paths, shown path = shown' path) :
    q.answerFrom shown = q.answerFrom shown' := by
  cases q with
  | lines path => rw [answerFrom, answerFrom, h path List.mem_cons_self]
  | markers places =>
    rw [answerFrom, answerFrom, LineAnswer.markers.injEq, List.map_inj_left]
    exact fun l hl => congrArg l.usageMarker (h l.file (List.mem_map_of_mem hl))

end LineQuery

namespace LineCache

open LineRequest

variable {c : LineCache} {asked : List LineRequest} {w : World} {bs : Buffers}

/-- A cache has the lines of the paths that have been asked for, as the first requests loaded
them, and has done nothing for any other request. -/
structure Holds (c : LineCache) (asked : List LineRequest) : Prop where
  loaded : ∀ path, c.loaded[path]? = (first? asked path).map LineRequest.lines
  events : c.events.toList = (firsts asked).flatMap LineRequest.events

theorem holds_empty : Holds {} [] where
  loaded _ := Std.HashMap.getElem?_empty
  events := rfl

/-- A request for lines is answered from the snapshot, and the cache holds it from then on. -/
theorem Holds.lines_run (holds : c.Holds asked) (r : LineRequest) (more : List LineRequest) :
    ∃ c', (lines r.world r.buffers r.path).run c = (snapshot (asked ++ r :: more) r.path, c') ∧
      c'.Holds (asked ++ [r]) := by
  have entry := holds.loaded r.path
  cases found : first? asked r.path with
  | some k =>
    rw [found, Option.map_some] at entry
    refine ⟨c, ?_, fun path => ?_, ?_⟩
    · rw [snapshot_eq_of_first? found]
      simp only [lines, StateT.run, entry]
    · rw [holds.loaded]
      by_cases same : r.path = path
      · rw [← same, first?_append, found, Option.some_or]
      · rw [first?_concat_of_ne asked same]
    · rw [holds.events, firsts_concat, found]
      simp
  | none =>
    rw [found, Option.map_none] at entry
    have shown : snapshot (asked ++ r :: more) r.path = r.lines := by
      rw [snapshot, first?_append, found, Option.none_or, first?_cons_self]
      rfl
    refine ⟨{ loaded := c.loaded.insert r.path r.lines
              events := c.events.appendList r.events }, ?_, fun path => ?_, ?_⟩
    · rw [shown]
      simp only [lines, StateT.run, entry]
      rfl
    · rw [Std.HashMap.getElem?_insert, holds.loaded]
      by_cases same : r.path = path
      · rw [← same, first?_append, found, Option.none_or, first?_cons_self,
          if_pos (beq_self_eq_true r.path), Option.map_some]
      · rw [first?_concat_of_ne asked same, if_neg (by simpa using same)]
    · have whole : (c.events.appendList r.events).toList = c.events.toList ++ r.events :=
        Array.toList_appendList
      rw [whole, holds.events, firsts_concat, found]
      simp

/-- The markers of some places are made of the snapshot. -/
theorem Holds.markersOf_run (holds : c.Holds asked) (places : List Location)
    (more : List LineRequest) :
    let needed := (LineQuery.markers places).requests w bs
    ∃ c', (markersOf w bs places).run c =
        (places.map fun l => l.usageMarker (snapshot (asked ++ (needed ++ more)) l.file), c') ∧
      c'.Holds (asked ++ needed) := by
  induction places generalizing c asked with
  | nil =>
    refine ⟨c, rfl, ?_⟩
    rwa [LineQuery.requests, LineQuery.paths, List.map_nil, List.map_nil, List.append_nil]
  | cons l places ih =>
    intro needed
    let r : LineRequest := ⟨w, bs, l.file⟩
    let later := (LineQuery.markers places).requests w bs
    obtain ⟨c', run, holds'⟩ := holds.lines_run r (later ++ more)
    obtain ⟨c'', rest, holds''⟩ := ih holds'
    have whole : asked ++ [r] ++ (later ++ more) = asked ++ (needed ++ more) :=
      List.append_assoc asked [r] (later ++ more)
    have all : asked ++ [r] ++ later = asked ++ needed := List.append_assoc asked [r] later
    refine ⟨c'', ?_, all ▸ holds''⟩
    have first : (markerOf w bs l).run c =
        (l.usageMarker (snapshot (asked ++ (needed ++ more)) l.file), c') := by
      rw [markerOf, StateT.run_bind, run]
      rfl
    rw [whole] at rest
    rw [markersOf, List.mapM_cons, StateT.run_bind, first]
    change (_ :: ((markersOf w bs places).run c').1, ((markersOf w bs places).run c').2) = _
    rw [rest, List.map_cons]

/-- A query is answered from the snapshot. -/
theorem Holds.perform_run (holds : c.Holds asked) (q : LineQuery) (w : World) (bs : Buffers)
    (more : List LineRequest) : ∃ c', (q.perform w bs).run c =
        (q.answerFrom (snapshot (asked ++ (q.requests w bs ++ more))), c') ∧
      c'.Holds (asked ++ q.requests w bs) := by
  cases q with
  | lines path =>
    obtain ⟨c', run, holds'⟩ := holds.lines_run ⟨w, bs, path⟩ more
    refine ⟨c', ?_, holds'⟩
    rw [LineQuery.perform, StateT.run_map, run]
    rfl
  | markers places =>
    obtain ⟨c', run, holds'⟩ := holds.markersOf_run places more
    refine ⟨c', ?_, holds'⟩
    rw [LineQuery.perform, StateT.run_map, run]
    rfl

end LineCache

/-- What happens in a run: a query, or a change of the disk and the buffers. -/
inductive LineStep where
  | ask (q : LineQuery)
  | change (world : World) (buffers : Buffers)

/-- The requests for lines that a step makes. -/
def LineStep.requests (w : World) (bs : Buffers) : LineStep → List LineRequest
  | .ask q => q.requests w bs
  | .change _ _ => []

/-- A cache and what surrounds it. -/
structure LineSession where
  world : World
  buffers : Buffers
  cache : LineCache := {}

namespace LineSession

open LineRequest

/-- What a query answers. -/
def answer (s : LineSession) (q : LineQuery) : LineAnswer :=
  ((q.perform s.world s.buffers).run s.cache).1

/-- The session after a step. -/
def step (s : LineSession) : LineStep → LineSession
  | .ask q => { s with cache := ((q.perform s.world s.buffers).run s.cache).2 }
  | .change world buffers => { s with world, buffers }

/-- The session after a run. -/
def run (s : LineSession) (steps : List LineStep) : LineSession := steps.foldl step s

/-- The requests for lines in a run, each with what surrounds it at the moment. -/
def asked (s : LineSession) : List LineStep → List LineRequest
  | [] => []
  | step :: later => step.requests s.world s.buffers ++ (s.step step).asked later

variable {s t : LineSession} {earlier : List LineRequest}

theorem asked_append (s : LineSession) (before after : List LineStep) :
    s.asked (before ++ after) = s.asked before ++ (s.run before).asked after := by
  induction before generalizing s with
  | nil => rfl
  | cons step before ih =>
    rw [List.cons_append, asked, ih, asked, List.append_assoc]
    rfl

/-- What is asked in a run does not depend on the cache. -/
theorem asked_congr (world : s.world = t.world) (buffers : s.buffers = t.buffers)
    (steps : List LineStep) : s.asked steps = t.asked steps := by
  induction steps generalizing s t with
  | nil => rfl
  | cons step later ih =>
    have same : (s.step step).asked later = (t.step step).asked later := by
      cases step with
      | ask => exact ih world buffers
      | change => exact ih rfl rfl
    rw [asked, asked, world, buffers, same]

/-- After a run the cache holds what was asked in it. -/
theorem holds_run (holds : s.cache.Holds earlier) (steps : List LineStep) :
    (s.run steps).cache.Holds (earlier ++ s.asked steps) := by
  induction steps generalizing s earlier with
  | nil =>
    rw [asked, List.append_nil]
    exact holds
  | cons step later ih =>
    have next : (s.step step).cache.Holds (earlier ++ step.requests s.world s.buffers) := by
      cases step with
      | ask q =>
        obtain ⟨c', run, holds'⟩ := holds.perform_run q s.world s.buffers []
        rw [LineSession.step, run]
        exact holds'
      | change =>
        rw [LineStep.requests, List.append_nil]
        exact holds
    rw [asked, ← List.append_assoc]
    exact ih next

/-- In a run that begins with an empty cache, a query is answered from the snapshot that all
requests of the run determine. -/
theorem answer_eq (w : World) (bs : Buffers) (before : List LineStep) (q : LineQuery)
    (after : List LineStep) :
    let start : LineSession := { world := w, buffers := bs }
    (start.run before).answer q =
      q.answerFrom (snapshot (start.asked (before ++ .ask q :: after))) := by
  intro start
  have holds : (start.run before).cache.Holds (start.asked before) :=
    holds_run (s := start) LineCache.holds_empty before
  obtain ⟨c', run, -⟩ := holds.perform_run q (start.run before).world (start.run before).buffers
    (((start.run before).step (.ask q)).asked after)
  rw [answer, run, asked_append]
  rfl

/-- A query says nothing about other paths. -/
theorem snapshot_asked_ask (s : LineSession) (before : List LineStep) {q : LineQuery}
    (after : List LineStep) {path : String} (h : path ∉ q.paths) :
    snapshot (s.asked (before ++ .ask q :: after)) path =
      snapshot (s.asked (before ++ after)) path := by
  have skipped : first? (q.requests (s.run before).world (s.run before).buffers) path = none := by
    refine first?_eq_none fun r hr => ?_
    obtain ⟨other, mem, rfl⟩ := List.mem_map.1 hr
    exact fun same => h (same ▸ mem)
  have later : ((s.run before).step (.ask q)).asked after = (s.run before).asked after :=
    asked_congr (s := (s.run before).step (.ask q)) (t := s.run before) rfl rfl after
  rw [snapshot, snapshot, asked_append, asked_append, asked, LineStep.requests, first?_append,
    first?_append, first?_append, skipped, later, Option.none_or]

/-- Whatever happens to the disk and the buffers in a run, its queries are answered from one
snapshot. The first request for a path loads the lines of the path from what surrounds this
request, and nothing else happens outside: a path is read at most once, and not where the first
request found a buffer. A query does not change what is answered for other paths. -/
theorem snapshot_run (w : World) (bs : Buffers) (steps : List LineStep) :
    let start : LineSession := { world := w, buffers := bs }
    let asked := start.asked steps
    (∀ before q after, steps = before ++ .ask q :: after →
        (start.run before).answer q = q.answerFrom (snapshot asked)) ∧
      (∀ r, r ∈ firsts asked ↔ first? asked r.path = some r) ∧
      ((firsts asked).map LineRequest.path).Nodup ∧
      (∀ r ∈ firsts asked, r.Loads (snapshot asked r.path) r.events) ∧
      (start.run steps).cache.events.toList = (firsts asked).flatMap LineRequest.events ∧
      ∀ before (other q : LineQuery) after, (∀ path ∈ q.paths, path ∉ other.paths) →
        (start.run (before ++ .ask other :: after)).answer q =
          (start.run (before ++ after)).answer q := by
  intro start asked
  refine ⟨?_, fun r => mem_firsts, nodup_firsts asked, ?_, ?_, ?_⟩
  · rintro before q after rfl
    exact answer_eq w bs before q after
  · intro r hr
    have loaded := snapshot_eq_of_first? (mem_firsts.1 hr) []
    rw [List.append_nil] at loaded
    exact loaded ▸ r.loads
  · exact (holds_run (s := start) LineCache.holds_empty steps).events
  · intro before other q after apart
    have same : ∀ path ∈ q.paths,
        snapshot (start.asked (before ++ .ask other :: (after ++ [.ask q]))) path =
          snapshot (start.asked (before ++ (after ++ [.ask q]))) path :=
      fun path mem => snapshot_asked_ask start before _ (apart path mem)
    calc (start.run (before ++ .ask other :: after)).answer q
        = q.answerFrom
            (snapshot (start.asked (before ++ .ask other :: (after ++ [.ask q])))) := by
          rw [answer_eq w bs (before ++ .ask other :: after) q [], List.append_assoc]
          rfl
      _ = q.answerFrom (snapshot (start.asked (before ++ (after ++ [.ask q])))) :=
          LineQuery.answerFrom_congr same
      _ = (start.run (before ++ after)).answer q := by
          rw [answer_eq w bs (before ++ after) q [], List.append_assoc]

end LineSession

/-! A file that appears after it could not be read. -/

namespace LateFile

def missing : World :=
  { read := fun place => .error { number := SystemError.noSuchFile, path? := some place }
    parse := fun _ _ => default, guessEncoding := fun _ => none }

def present : World := { missing with read := fun _ => .ok "let x;".toUTF8 }

def before : List LineStep := [.ask (.lines "/a.ts"), .change present {}]

theorem snapshot_run_late :
    let start : LineSession := { world := missing, buffers := {} }
    (start.run before).answer (.lines "/a.ts") = .lines [] ∧
      (start.run (before ++ [.ask (.lines "/a.ts")])).cache.events.toList =
        [.read "/a.ts", .logged (.error
          "Failed to read /a.ts: [Errno 2] No such file or directory: '/a.ts'")] := by
  intro start
  obtain ⟨answers, -, -, -, events, -⟩ :=
    LineSession.snapshot_run missing {} (before ++ [.ask (.lines "/a.ts")])
  refine ⟨(answers before _ [] rfl).trans rfl, events.trans ?_⟩
  decide +kernel

end LateFile
end SymbolUsages
