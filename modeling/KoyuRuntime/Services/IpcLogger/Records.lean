/-
# Services.IpcLogger.Records — whose file a record lands in

A topic and an event channel may have one name, and so may a blackboard topic and a
stream: the names are kept apart by pattern.  The logger keeps neither apart.  Topics of
one name become one entry of a dict; and names that are spelled alike in the file system
share one logger, with the handler opened last.

* `Routed`: a tick or an event appends lines, each to the file of its log.
* `exists_wakes`: no run stops, and every event is recorded.
* `Separate`: no topic is on both planes, and no two names share a slug or a file.
* `records_separate_iff`: every topic is read on its plane, and in every run every record
  lands in its own file, exactly if the names are separate.
-/
import KoyuRuntime.Services.IpcLogger.Opened
import Mathlib.Data.List.Induction

namespace KoyuRuntime.Services.IpcLogger

open Host Theory Ipc.Types ParamServer IpcReaders
open InboxRouting (slug)

set_option autoImplicit false

/-! ## What is said of the logger -/

/-- A topic with a spec on a plane. -/
def DeclaredOn (ipc : Discovered) (topic : String) (spec : Yaml) : Plane → Prop
  | .blackboard => ipc.reads.get? (.str topic) = some spec
  | .stream => ipc.subscribes.get? (.str topic) = some spec

/-- Each topic is read through the plane it is declared on, as the struct it is there. -/
def ReadsDeclared (ipc : Discovered) (s : Logger) : Prop :=
  ∀ plane topic spec S, DeclaredOn ipc topic spec plane → structOf spec = .ok S →
    s.readers.get? topic = some (plane, S)

/-- Each record lies in the file of the topic or channel it is of, and in no other's. -/
structure OwnFiles (home : Path) (ipc : Discovered) (s : Logger) : Prop where
  own : ∀ line ∈ s.lines, line.file = line.source.file home
  apart : ∀ line ∈ s.lines, ∀ other ∈ sources ipc, other ≠ line.source → line.file ≠ other.file home

/-- The event of a channel that a line records. -/
def Line.eventOf (channel : String) : Line → Option Nat
  | ⟨.channel name, .event id, _⟩ => if name = channel then some id else none
  | _ => none

def Wake.eventOf (channel : String) : Wake → Option Nat
  | .event name id => if name = channel then some id else none
  | .tick _ => none

/-- Every event of a channel is recorded, in order. -/
def EventsLogged (ipc : Discovered) (wakes : List Wake) (s : Logger) : Prop :=
  ∀ channel, Source.channel channel ∈ sources ipc →
    s.lines.filterMap (Line.eventOf channel) = wakes.filterMap (Wake.eventOf channel)

/-- No topic is on both planes, and no two names share a slug or a file. -/
structure Separate (home : Path) (ipc : Discovered) : Prop where
  planes : ∀ topic ∈ texts ipc.reads.keys, topic ∉ texts ipc.subscribes.keys
  slugs : ∀ a ∈ sources ipc, ∀ b ∈ sources ipc, a ≠ b → slug a.name ≠ slug b.name
  files : ∀ a ∈ sources ipc, ∀ b ∈ sources ipc, a ≠ b → a.file home ≠ b.file home

/-! ## Every run -/

/-- The logger reads the topic, or listens on the channel. -/
def Logger.Hears (s : Logger) : Source → Prop
  | .topic name => name ∈ s.readers.keys
  | .channel name => name ∈ s.listeners

/-- The file of the line is that of its log's handler. -/
def Logger.Routes (s : Logger) (line : Line) : Prop :=
  ∃ log, s.logs.get? line.source.name = some log ∧ s.handlers.get? log = some line.file

/-- The logger as setup left it, with lines routed by its logs. -/
structure Routed (start s : Logger) : Prop where
  readers : s.readers = start.readers
  rings : s.rings = start.rings
  logs : s.logs = start.logs
  listeners : s.listeners = start.listeners
  handlers : s.handlers = start.handlers
  lines : ∀ line ∈ s.lines, start.Hears line.source ∧ start.Routes line

section Runs

variable {start s s' : Logger}

theorem Routed.emitted {source : Source} {record : Record} (routed : Routed start s)
    (hears : start.Hears source) (emitted : s.emit source record = .ok s') : Routed start s' := by
  unfold Logger.emit at emitted
  split at emitted
  · cases emitted
  · rename_i log found
    split at emitted
    · cases emitted
      exact routed
    · rename_i file handler
      cases emitted
      refine ⟨routed.readers, routed.rings, routed.logs, routed.listeners, routed.handlers, ?_⟩
      intro line mem
      rcases List.mem_append.mp mem with old | new
      · exact routed.lines line old
      · rw [List.mem_singleton.mp new]
        exact ⟨hears, log, routed.logs ▸ found, routed.handlers ▸ handler⟩

/-- **One topic** on a tick: past the books on frame ids and images, at most one record. -/
theorem visit_cases (readings : Readings) (s : Logger) (e : String × Plane × Struct) :
    ∃ last images, s.visit readings e = .ok { s with last := last, images := images } ∨
      ∃ record, s.visit readings e = Logger.emit (.topic e.1) record { s with last := last, images := images } := by
  obtain ⟨topic, plane, S⟩ := e
  simp only [Logger.visit]
  split
  · exact ⟨s.last, s.images, .inl rfl⟩
  · rename_i value _
    split
    · exact ⟨s.last, s.images, .inl rfl⟩
    · split
      · simp only [Logger.saveFrame]
        split
        · exact ⟨_, _, .inr ⟨_, rfl⟩⟩
        · exact ⟨_, s.images, .inl rfl⟩
      · exact ⟨_, s.images, .inr ⟨_, rfl⟩⟩

theorem Routed.booked (routed : Routed start s) (last : OrderedDict String (Option Int))
    (images : List (Path × Nat × Nat)) : Routed start { s with last := last, images := images } :=
  ⟨routed.readers, routed.rings, routed.logs, routed.listeners, routed.handlers, routed.lines⟩

theorem Routed.visited {readings : Readings} {e : String × Plane × Struct} (routed : Routed start s)
    (reads : e.1 ∈ start.readers.keys) (visited : s.visit readings e = .ok s') : Routed start s' := by
  obtain ⟨last, images, quiet | ⟨record, emits⟩⟩ := visit_cases readings s e
  · cases quiet.symm.trans visited
    exact routed.booked last images
  · have hears : start.Hears (.topic e.1) := reads
    exact (routed.booked last images).emitted hears (emits.symm.trans visited)

/-- **One step**: a tick or an event appends lines to the files of their logs. -/
theorem Routed.next {wake : Wake} (routed : Routed start s) (woken : dispatch s wake = .ok s') :
    Routed start s' := by
  cases wake with
  | tick readings =>
      apply runs_invariant_of_mem (Routed start) _ woken routed
      intro e mem s s' kept visited
      exact kept.visited (routed.readers ▸ List.mem_map_of_mem mem) visited
  | event channel id =>
      simp only [dispatch] at woken
      split at woken
      · rename_i listens
        have hears : start.Hears (.channel channel) := by
          show channel ∈ start.listeners
          rw [← routed.listeners]
          exact listens
        exact routed.emitted hears woken
      · cases woken
        exact routed

theorem runs_routed {wakes : List Wake} (fresh : start.lines = []) (run : runs dispatch start wakes = .ok s) :
    Routed start s := by
  have base : Routed start start := by
    refine ⟨rfl, rfl, rfl, rfl, rfl, ?_⟩
    rw [fresh]
    exact fun _ none_ => (List.not_mem_nil none_).elim
  exact runs_invariant (fun _ _ _ routed woken => routed.next woken) run base

end Runs

/-! ### Records that do get logged -/

/-- A content of this type that is not zero where it can be. -/
def Content.one : CType → Content
  | .double => .scalar (.float (.fin 1))
  | .uint bits => .scalar (.int (1 % 2 ^ bits))
  | .int _ => .scalar (.int 0)
  | .array _ length => .array length
  | .chars _ => .chars ""

theorem Content.one_fits (ctype : CType) : Content.Fits ctype (Content.one ctype) := by
  cases ctype with
  | double => trivial
  | uint bits =>
      have positive : (0 : Int) < 2 ^ bits := by positivity
      exact ⟨Int.emod_nonneg _ positive.ne', Int.emod_lt_of_pos _ positive⟩
  | int bits =>
      have positive : (0 : Int) < 2 ^ bits := by positivity
      show -2 ^ bits ≤ 0 * 2 ∧ 0 * 2 < 2 ^ bits
      omega
  | array item length => rfl
  | chars length => trivial

/-- A value of each struct: the frame 1, and of an image one pixel. -/
def Value.one (S : Struct) : Value S where
  contents := S.fields.map fun field => Content.one field.2
  fits := List.forall₂_map_right_iff.mpr (List.forall₂_same.mpr fun field _ => Content.one_fits field.2)

theorem registry_one : ∀ S ∈ registry, (Value.one S).frameId = some 1 ∧
    (isImage S = true → (Value.one S).extent "width" = 1 ∧ (Value.one S).extent "height" = 1 ∧
      3 ≤ (Value.one S).dataLength) := by
  decide +kernel

theorem structOf_registry {spec : Yaml} {S : Struct} (found : structOf spec = .ok S) : S ∈ registry := by
  obtain ⟨tyname, -, resolved⟩ := except_bind_ok_iff.mp found
  split at resolved
  · rename_i T here
    cases resolved
    exact (resolve_names here).1
  · cases resolved
  · cases resolved

section Logged

variable {home : Path} {ipc : Discovered} {s : Logger}

/-- A placed log takes every record. -/
theorem Placed.emits {a : Source} (placed : Placed home ipc s a) (record : Record) :
    ∃ file, s.emit a record = .ok { s with lines := s.lines ++ [⟨a, record, file⟩] } := by
  obtain ⟨b, -, -, handler⟩ := placed.handler
  refine ⟨b.file home, ?_⟩
  simp only [Logger.emit, placed.log, handler]

theorem Placed.logs {a : Source} (placed : Placed home ipc s a) (record : Record) :
    ∃ s', s.emit a record = .ok s' ∧ ∃ line ∈ s'.lines, line.source = a := by
  obtain ⟨file, emitted⟩ := placed.emits record
  exact ⟨_, emitted, _, List.mem_append_right _ List.mem_cons_self, rfl⟩

/-- A topic without a value is passed over. -/
theorem visit_unread {readings : Readings} {topic : String} {plane : Plane} {S : Struct} (s : Logger)
    (unread : readings plane topic S = none) : s.visit readings (topic, plane, S) = .ok s := by
  simp only [Logger.visit, unread]

/-- The first value of a topic is logged. -/
theorem visit_logs {readings : Readings} {topic : String} {plane : Plane} {S : Struct}
    (placed : Placed home ipc s (.topic topic)) (unseen : s.last = ∅) (struct : S ∈ registry)
    (ring : (s.rings.get? topic).isSome ↔ isImage S = true)
    (read : readings plane topic S = some (Value.one S)) :
    ∃ s', s.visit readings (topic, plane, S) = .ok s' ∧ ∃ line ∈ s'.lines, line.source = .topic topic := by
  obtain ⟨first, pixel⟩ := registry_one S struct
  have changed : some 1 ≠ (s.last.get? topic).join := by
    rw [unseen, OrderedDict.get?_empty]
    exact Option.some_ne_none 1
  simp only [Logger.visit, read, first, if_neg changed]
  cases found : s.rings.get? topic with
  | none =>
      have again : Placed home ipc { s with last := s.last.set topic (some 1) } (.topic topic) :=
        ⟨placed.log, placed.handler⟩
      exact again.logs (.state (Value.one S).snapshot)
  | some dir =>
      obtain ⟨wide, high, large⟩ := pixel (ring.mp (by rw [found]; rfl))
      have again : Placed home ipc
          { s with last := s.last.set topic (some 1), images := s.images ++ [(dir, 1, 1)] } (.topic topic) :=
        ⟨placed.log, placed.handler⟩
      have fits : (1 : Nat) ≠ 0 ∧ (1 : Nat) ≠ 0 ∧ 1 * 1 * 3 ≤ (Value.one S).dataLength :=
        ⟨Nat.one_ne_zero, Nat.one_ne_zero, large⟩
      simp only [Logger.saveFrame, wide, high, if_pos fits]
      exact again.logs (.frame (some 1) 1 1)

/-- **A tick that logs a topic**: only this one has a value. -/
theorem topic_logged (opened : Opened home ipc s) {topic : String} (mem : .topic topic ∈ sources ipc) :
    ∃ wake s', dispatch s wake = .ok s' ∧ ∃ line ∈ s'.lines, line.source = .topic topic := by
  obtain ⟨spec, found⟩ := Option.isSome_iff_exists.mp (OrderedDict.mem_keys_iff.mp (topics_of_sources mem))
  obtain ⟨S, struct, reader, ring⟩ := opened.reads topic spec found
  obtain ⟨before, after, split⟩ := List.append_of_mem (OrderedDict.mem_of_find reader)
  have others : ∀ e ∈ before ++ after, e.1 ≠ topic := by
    have distinct := s.readers.nodup
    rw [split, List.map_append, List.map_cons, List.nodup_middle, ← List.map_append] at distinct
    intro e inRest same
    have again : e.1 ∈ (before ++ after).map Prod.fst := List.mem_map_of_mem inRest
    rw [same] at again
    exact (List.nodup_cons.mp distinct).1 again
  let readings : Readings := fun _ name T => if name = topic then some (Value.one T) else none
  have idle : ∀ s : Logger, ∀ e ∈ before ++ after, s.visit readings e = .ok s := by
    rintro s ⟨name, plane, T⟩ inRest
    exact visit_unread s (if_neg (others _ inRest))
  obtain ⟨s', visited, line, inLines, own⟩ := visit_logs
    (opened.placed _ mem) opened.unseen (structOf_registry struct) ring
    (show readings _ topic S = some (Value.one S) from if_pos rfl)
  refine ⟨.tick readings, s', ?_, line, inLines, own⟩
  show runs (Logger.visit readings) s s.readers.entries = .ok s'
  rw [split, runs_append_ok]
  refine ⟨s, runs_idle fun e front => idle s e (List.mem_append_left _ front), ?_⟩
  exact runs_cons_ok.mpr ⟨s', visited, runs_idle fun e back => idle s' e (List.mem_append_right _ back)⟩

/-- **Every topic and channel can be logged.** -/
theorem source_logged (opened : Opened home ipc s) {a : Source} (mem : a ∈ sources ipc) :
    ∃ wake s', dispatch s wake = .ok s' ∧ ∃ line ∈ s'.lines, line.source = a := by
  cases a with
  | topic topic => exact topic_logged opened mem
  | channel channel =>
      obtain ⟨s', emitted, logged⟩ := (opened.placed _ mem).logs (.event 0)
      refine ⟨.event channel 0, s', ?_, logged⟩
      rw [dispatch, if_pos ((opened.listeners channel).mpr (channel_mem_sources.mp mem))]
      exact emitted

/-! ### No run stops, and no event is lost -/

section Heard

variable {start s' : Logger}

theorem Routed.placed {a : Source} (routed : Routed start s) (placed : Placed home ipc start a) :
    Placed home ipc s a := by
  obtain ⟨b, mem, same, handler⟩ := placed.handler
  exact ⟨routed.logs ▸ placed.log, b, mem, same, routed.handlers ▸ handler⟩

/-- A tick goes through, and records no event. -/
theorem exists_tick (opened : Opened home ipc start) (routed : Routed start s) (readings : Readings) :
    ∃ s', s.onTick readings = .ok s' ∧ ∀ channel,
      s'.lines.filterMap (Line.eventOf channel) = s.lines.filterMap (Line.eventOf channel) := by
  have visits : ∃ s', s.onTick readings = .ok s' ∧ Routed start s' ∧ ∀ channel,
      s'.lines.filterMap (Line.eventOf channel) = s.lines.filterMap (Line.eventOf channel) := by
    apply exists_runs (fun s' => Routed start s' ∧ ∀ channel,
      s'.lines.filterMap (Line.eventOf channel) = s.lines.filterMap (Line.eventOf channel)) _
      ⟨routed, fun _ => rfl⟩
    rintro e mem s₁ ⟨routed₁, same⟩
    have reads : e.1 ∈ start.readers.keys := routed.readers ▸ List.mem_map_of_mem mem
    obtain ⟨last, images, quiet | ⟨record, emits⟩⟩ := visit_cases readings s₁ e
    · exact ⟨_, quiet, routed₁.booked last images, same⟩
    · have declared := keys_topics (opened.readers e.1 reads)
      obtain ⟨file, emitted⟩ := ((routed₁.booked last images).placed (opened.placed _ declared)).emits record
      have visited := emits.trans emitted
      refine ⟨_, visited, routed₁.visited reads visited, ?_⟩
      intro channel
      rw [← same]
      simp [Line.eventOf]
  obtain ⟨s', ticked, -, same⟩ := visits
  exact ⟨s', ticked, same⟩

/-- An event goes through, and is recorded if its channel is heard. -/
theorem exists_event (opened : Opened home ipc start) (routed : Routed start s) (name : String) (id : Nat) :
    ∃ s', dispatch s (.event name id) = .ok s' ∧ ∀ channel, Source.channel channel ∈ sources ipc →
      s'.lines.filterMap (Line.eventOf channel) =
        s.lines.filterMap (Line.eventOf channel) ++ [Wake.event name id].filterMap (Wake.eventOf channel) := by
  have heard (c : String) : c ∈ s.listeners ↔ Source.channel c ∈ sources ipc := by
    rw [routed.listeners, opened.listeners, channel_mem_sources]
  by_cases mem : name ∈ s.listeners
  · obtain ⟨file, emitted⟩ := (routed.placed (opened.placed _ ((heard name).mp mem))).emits (.event id)
    refine ⟨_, (if_pos mem).trans emitted, ?_⟩
    intro channel _
    rw [List.filterMap_append]
    by_cases own : name = channel
    · simp [Line.eventOf, Wake.eventOf, own]
    · simp [Line.eventOf, Wake.eventOf, own]
  · refine ⟨s, if_neg mem, ?_⟩
    intro channel listens
    have other : name ≠ channel := by
      rintro rfl
      exact mem ((heard name).mpr listens)
    simp [Wake.eventOf, other]

/-- **Every run** goes on, and records every event. -/
theorem exists_wakes (opened : Opened home ipc start) (wakes : List Wake) :
    ∃ s', runs dispatch start wakes = .ok s' ∧ EventsLogged ipc wakes s' := by
  induction wakes using List.reverseRecOn with
  | nil =>
      refine ⟨start, rfl, ?_⟩
      intro channel _
      rw [opened.fresh]
      rfl
  | append_singleton wakes wake ih =>
      obtain ⟨s, run, logged⟩ := ih
      have routed := runs_routed opened.fresh run
      have more : ∃ s', dispatch s wake = .ok s' ∧ ∀ channel, Source.channel channel ∈ sources ipc →
          s'.lines.filterMap (Line.eventOf channel) =
            s.lines.filterMap (Line.eventOf channel) ++ [wake].filterMap (Wake.eventOf channel) := by
        cases wake with
        | tick readings =>
            obtain ⟨s', ticked, same⟩ := exists_tick opened routed readings
            exact ⟨s', ticked, fun channel _ => (same channel).trans (List.append_nil _).symm⟩
        | event name id => exact exists_event opened routed name id
      obtain ⟨s', woken, events⟩ := more
      refine ⟨s', runs_append_ok.mpr ⟨s, run, runs_cons_ok.mpr ⟨s', woken, rfl⟩⟩, ?_⟩
      intro channel listens
      rw [events channel listens, logged channel listens, List.filterMap_append]

end Heard

/-! ## Separate names -/

/-- Where the lines of a topic or channel go. -/
theorem Routed.file_eq {s' : Logger} {line : Line} (opened : Opened home ipc s) (routed : Routed s s')
    (mem : line ∈ s'.lines) :
    line.source ∈ sources ipc ∧ s.handlers.get? (slug line.source.name) = some line.file := by
  obtain ⟨hears, log, found, handler⟩ := routed.lines line mem
  have declared : line.source ∈ sources ipc := by
    cases source : line.source with
    | topic name =>
        rw [source] at hears
        exact keys_topics (opened.readers name hears)
    | channel name =>
        rw [source] at hears
        exact channel_mem_sources.mpr ((opened.listeners name).mp hears)
  refine ⟨declared, ?_⟩
  cases found.symm.trans (opened.placed _ declared).log
  exact handler

/-- With separate names every record lies in its own file. -/
theorem ownFiles_of_separate {s' : Logger} (separate : Separate home ipc) (opened : Opened home ipc s)
    (routed : Routed s s') : OwnFiles home ipc s' := by
  have own : ∀ line ∈ s'.lines, line.source ∈ sources ipc ∧ line.file = line.source.file home := by
    intro line mem
    obtain ⟨declared, handler⟩ := routed.file_eq opened mem
    obtain ⟨b, memB, sameSlug, handler'⟩ := (opened.placed _ declared).handler
    refine ⟨declared, ?_⟩
    have at_ : line.file = b.file home := Option.some.inj (handler.symm.trans handler')
    by_cases same : b = line.source
    · rw [at_, same]
    · exact absurd sameSlug (separate.slugs b memB _ declared same)
  constructor
  · exact fun line mem => (own line mem).2
  · intro line mem b memB other
    rw [(own line mem).2]
    exact separate.files _ (own line mem).1 b memB other.symm

/-- Two names of one slug or one file: some run mixes them up. -/
theorem not_ownFiles {a b : Source} (opened : Opened home ipc s) (memA : a ∈ sources ipc)
    (memB : b ∈ sources ipc) (differ : a ≠ b)
    (shared : slug a.name = slug b.name ∨ a.file home = b.file home) :
    ∃ wakes s', runs dispatch s wakes = .ok s' ∧ ¬ OwnFiles home ipc s' := by
  by_contra none_
  push Not at none_
  -- a record of each topic or channel lies in its own file
  have handled : ∀ c ∈ sources ipc, s.handlers.get? (slug c.name) = some (c.file home) ∧
      ∀ other ∈ sources ipc, other ≠ c → c.file home ≠ other.file home := by
    intro c mem
    obtain ⟨wake, s', woken, line, inLines, rfl⟩ := source_logged opened mem
    have run : runs dispatch s [wake] = .ok s' := runs_cons_ok.mpr ⟨s', woken, rfl⟩
    have files := none_ [wake] s' run
    have handler := ((runs_routed opened.fresh run).file_eq opened inLines).2
    rw [← files.own line inLines]
    exact ⟨handler, files.apart line inLines⟩
  have apart := (handled a memA).2 b memB differ.symm
  rcases shared with sameSlug | sameFile
  · have first := (handled a memA).1
    rw [sameSlug, (handled b memB).1, Option.some.injEq] at first
    exact apart first.symm
  · exact apart sameFile

/-- Every topic has its reader if none is on both planes. -/
theorem readsDeclared_of_separate (separate : Separate home ipc) (opened : Opened home ipc s) :
    ReadsDeclared ipc s := by
  intro plane topic spec S declared struct
  have read : (topics ipc).get? (.str topic) = some spec → planeOf ipc (.str topic) = plane →
      s.readers.get? topic = some (plane, S) := by
    intro found same
    obtain ⟨T, struct', reader, -⟩ := opened.reads topic spec found
    cases struct.symm.trans struct'
    rw [reader, same]
  have notBoth (cell : Key.str topic ∈ ipc.reads.keys) (frame : Key.str topic ∈ ipc.subscribes.keys) : False :=
    separate.planes topic (mem_texts.mpr cell) (mem_texts.mpr frame)
  cases plane with
  | blackboard =>
      have cell : Key.str topic ∈ ipc.reads.keys :=
        List.mem_map_of_mem (OrderedDict.mem_of_find declared)
      apply read
      · exact (OrderedDict.get?_setAll_of_not_mem _ _ fun frame => notBoth cell frame).trans declared
      · exact if_pos cell
  | stream =>
      have frame : Key.str topic ∈ ipc.subscribes.keys :=
        List.mem_map_of_mem (OrderedDict.mem_of_find declared)
      apply read
      · exact OrderedDict.get?_setAll_of_mem _ _ ipc.subscribes.nodup (OrderedDict.mem_of_find declared)
      · exact if_neg fun cell => notBoth cell frame

/-- A topic on both planes is only read as a blackboard. -/
theorem not_readsDeclared {topic : String} (opened : Opened home ipc s)
    (cell : Key.str topic ∈ ipc.reads.keys) (frame : Key.str topic ∈ ipc.subscribes.keys) :
    ¬ ReadsDeclared ipc s := by
  intro reads
  obtain ⟨spec, found⟩ := Option.isSome_iff_exists.mp (OrderedDict.mem_keys_iff.mp frame)
  have merged : (topics ipc).get? (.str topic) = some spec :=
    OrderedDict.get?_setAll_of_mem _ _ ipc.subscribes.nodup (OrderedDict.mem_of_find found)
  obtain ⟨S, struct, reader, -⟩ := opened.reads topic spec merged
  have wanted := reads .stream topic spec S found struct
  rw [reader, planeOf, if_pos cell] at wanted
  cases wanted

end Logged

/-- **The logger's records**: once the logger has started, every topic is read through the
plane it is declared on, and in every run of ticks and events every event is recorded and
each record lands in the file of its topic or channel and in no other's, exactly if the
names are separate. -/
theorem records_separate_iff (outside : Outside) (home : Path) (ipc : Discovered) (s : Logger)
    (started : setup outside home ipc = .ok s) :
    (ReadsDeclared ipc s ∧ ∀ wakes, ∃ s', runs dispatch s wakes = .ok s' ∧ EventsLogged ipc wakes s' ∧
        OwnFiles home ipc s') ↔
      Separate home ipc := by
  have opened := setup_opened started
  constructor
  · rintro ⟨reads, own⟩
    have apart : ∀ a ∈ sources ipc, ∀ b ∈ sources ipc, a ≠ b →
        ¬ (slug a.name = slug b.name ∨ a.file home = b.file home) := by
      intro a memA b memB differ shared
      obtain ⟨wakes, s', run, mixed⟩ := not_ownFiles opened memA memB differ shared
      obtain ⟨s'', run', -, files⟩ := own wakes
      cases run.symm.trans run'
      exact mixed files
    refine ⟨?_, ?_, ?_⟩
    · intro topic cell frame
      exact not_readsDeclared opened (mem_texts.mp cell) (mem_texts.mp frame) reads
    · exact fun a memA b memB differ same => apart a memA b memB differ (.inl same)
    · exact fun a memA b memB differ same => apart a memA b memB differ (.inr same)
  · intro separate
    refine ⟨readsDeclared_of_separate separate opened, ?_⟩
    intro wakes
    obtain ⟨s', run, events⟩ := exists_wakes opened wakes
    exact ⟨s', run, events, ownFiles_of_separate separate opened (runs_routed opened.fresh run)⟩

/-! ## Runs -/

/-- Nothing outside keeps the logger from starting. -/
def Demo.outside : Outside := ⟨fun _ => true, fun _ => true⟩

/-- A blackboard topic, a stream of images, and a channel. -/
def Demo.separate : Discovered :=
  ⟨.ofList [(.str "arm/state", .str "RobStrideState")], .ofList [(.str "camera", .str "CameraFrame")],
    [.str "arm/stop"]⟩

/-- A blackboard topic and a channel of one name. -/
def Demo.shared : Discovered := ⟨.ofList [(.str "arm", .str "GlobalConfig")], ∅, [.str "arm"]⟩

/-- What is seen of the logger that setup leaves. -/
theorem setup_of_check {outside : Outside} {home : Path} {ipc : Discovered} (P : Logger → Prop)
    [DecidablePred P]
    (seen : (match setup outside home ipc with
      | .ok s => decide (P s)
      | .error _ => false) = true) : ∃ s, setup outside home ipc = .ok s ∧ P s := by
  cases started : setup outside home ipc with
  | ok s =>
      rw [started] at seen
      exact ⟨s, rfl, of_decide_eq_true seen⟩
  | error e =>
      rw [started] at seen
      cases seen

theorem records_separate_iff_camera : ∃ s, setup Demo.outside ["run"] Demo.separate = .ok s ∧
    ReadsDeclared Demo.separate s ∧ ∀ wakes, ∃ s', runs dispatch s wakes = .ok s' ∧
      EventsLogged Demo.separate wakes s' ∧ OwnFiles ["run"] Demo.separate s' := by
  obtain ⟨s, started, -⟩ : ∃ s, setup Demo.outside ["run"] Demo.separate = .ok s ∧ True :=
    setup_of_check (fun _ => True) (by decide +kernel)
  have separate : Separate ["run"] Demo.separate := ⟨by decide +kernel, by decide +kernel, by decide +kernel⟩
  exact ⟨s, started, (records_separate_iff _ _ _ s started).mpr separate⟩

/-- The state of a topic is logged among the events of the channel of its name. -/
theorem records_share_file : ∃ s, setup Demo.outside ["run"] Demo.shared = .ok s ∧
    ∃ wakes s', runs dispatch s wakes = .ok s' ∧ ¬ OwnFiles ["run"] Demo.shared s' ∧
      ∃ line ∈ s'.lines, line.source = .topic "arm" ∧
        line.file = ["run", "services", "ipc_logger", "arm", "events.jsonl"] := by
  obtain ⟨s, started, last⟩ : ∃ s, setup Demo.outside ["run"] Demo.shared = .ok s ∧
      s.handlers.get? "arm" = some ["run", "services", "ipc_logger", "arm", "events.jsonl"] :=
    setup_of_check _ (by decide +kernel)
  have opened := setup_opened started
  have declared : Source.topic "arm" ∈ sources Demo.shared := by decide +kernel
  obtain ⟨wake, s', woken, line, inLines, own⟩ := topic_logged opened declared
  have run : runs dispatch s [wake] = .ok s' := runs_cons_ok.mpr ⟨s', woken, rfl⟩
  have handler := ((runs_routed opened.fresh run).file_eq opened inLines).2
  have arm : slug line.source.name = "arm" := by
    rw [own]
    decide +kernel
  rw [arm, last, Option.some.injEq] at handler
  refine ⟨s, started, [wake], s', run, ?_, line, inLines, own, handler.symm⟩
  intro files
  have state := files.own line inLines
  rw [own, ← handler] at state
  exact absurd state (by decide +kernel)

end KoyuRuntime.Services.IpcLogger
