/-
# Services.IpcReaders.Walkers — three readers of the `ipc` blocks

`koyu get`, the bridge and the logger each walk `services.yaml` on their own.  The
command line takes what the type check collects.  The bridge and the logger only look
under `blackboard` and `streams`, one level down; the bridge wants a type of every
topic there, the logger takes whatever stands there and also the event channels.

A walk raises on the shapes it is not written for.
-/
import KoyuRuntime.Ipc.Checks
import Mathlib.Data.List.Sort

namespace KoyuRuntime.Services.IpcReaders

open Host Theory Ipc Checks

set_option autoImplicit false

/-! ## Walking -/

/-- `(stanza or {}).get("ipc") or {}`. -/
def ipcOf (stanza : Yaml) : Except Exn Yaml := do
  let ipc ← stanza.orEmpty.get "ipc"
  pure ipc.orEmpty

/-- `(ipc.get(family) or {}).get(direction) or {}`. -/
def blockOf (ipc : Yaml) (family direction : String) : Except Exn Yaml := do
  let owner ← ipc.get family
  let block ← owner.orEmpty.get direction
  pure block.orEmpty

/-! ## `koyu get` -/

/-- `_typed_topics` of a value that need not be a dict: a text or a list has no
`.values` (or no `.get`), and another scalar cannot be iterated. -/
def typedTopicsOf : Yaml → Except Exn (List (Key × Yaml))
  | .map ipc => .ok (typedTopics ipc).entries
  | .str _ => .error .attributeError
  | .seq _ => .error .attributeError
  | .scalar _ => .error .typeError

def stanzaTypes (stanza : Yaml) : Except Exn (List (Key × Yaml)) := do
  let ipc ← ipcOf stanza
  typedTopicsOf ipc

/-- `_topic_types`. -/
def topicTypes (raw : Yaml) : Except Exn (OrderedDict Key Yaml) := do
  let services ← raw.orEmpty.items
  let out ← gather (fun e => stanzaTypes e.2) services
  pure (.ofList out)

/-! ## The bridge -/

/-- `spec if isinstance(spec, str) else spec["type"]`. -/
def specType : Yaml → Except Exn Yaml
  | .str name => .ok (.str name)
  | .map spec =>
      match Yaml.lookup "type" spec with
      | some ty => .ok ty
      | none => .error (.keyError "type")
  | _ => .error .typeError

def planeEntry (plane : String) (e : Scalar × Yaml) : Except Exn (List (Key × Yaml × String)) := do
  let ty ← specType e.2
  pure [(e.1.key, ty, plane)]

def directionPlanes (ipc : Yaml) (family plane direction : String) :
    Except Exn (List (Key × Yaml × String)) := do
  let block ← blockOf ipc family direction
  let entries ← block.items
  gather (planeEntry plane) entries

def stanzaPlanes (stanza : Yaml) : Except Exn (List (Key × Yaml × String)) := do
  let ipc ← ipcOf stanza
  let cells ← gather (directionPlanes ipc "blackboard" "blackboard") ["writes", "reads"]
  let frames ← gather (directionPlanes ipc "streams" "stream") ["publishes", "subscribes"]
  pure (cells ++ frames)

/-- `topic_planes`: the type name and the plane of each topic. -/
def topicPlanes (raw : Yaml) : Except Exn (OrderedDict Key (Yaml × String)) := do
  let services ← raw.orEmpty.items
  let out ← gather (fun e => stanzaPlanes e.2) services
  pure (.ofList out)

/-! ## The logger -/

/-- One element of the sequence a dict is updated from: a pair of any kind. -/
def pairOf : Yaml → Except Exn (List (Key × Yaml))
  | .str s =>
      match s.toList with
      | [a, b] => .ok [(.str (String.singleton a), .str (String.singleton b))]
      | _ => .error .valueError
  | .scalar _ => .error .typeError
  | .seq [.scalar key, value] => .ok [(key.key, value)]
  | .seq [_, _] => .error .typeError
  | .seq _ => .error .valueError
  | .map [(a, _), (b, _)] => .ok [(a.key, .scalar b)]
  | .map _ => .error .valueError

/-- `d.update(value)`: what it assigns. -/
def updates : Yaml → Except Exn (List (Key × Yaml))
  | .map entries => .ok (entries.map fun e => (e.1.key, e.2))
  | .seq items => gather pairOf items
  | .str _ => .error .valueError
  | .scalar _ => .error .typeError

def directionSpecs (ipc : Yaml) (family direction : String) : Except Exn (List (Key × Yaml)) := do
  let block ← blockOf ipc family direction
  updates block

/-- One element of the iterable a set is updated from. -/
def channelOf : Yaml → Except Exn (List Key)
  | .scalar s => .ok [s.key]
  | _ => .error .typeError

/-- `ev.update(value or [])`: a text gives its characters, a dict its keys. -/
def channels (value : Yaml) : Except Exn (List Key) :=
  if value.truthy then
    match value with
    | .str s => .ok (s.toList.map fun c => .str (String.singleton c))
    | .scalar _ => .error .typeError
    | .seq items => gather channelOf items
    | .map entries => .ok (entries.map fun e => e.1.key)
  else .ok []

def directionChannels (ipc : Yaml) (direction : String) : Except Exn (List Key) := do
  let owner ← ipc.get "events"
  let value ← owner.orEmpty.get direction
  channels value

/-- Can two different keys be compared with `<`? -/
def comparable : Key → Key → Bool
  | .number _, .number _ => true
  | .str _, .str _ => true
  | .stamp kind _, .stamp kind' _ => decide (kind = kind')
  | _, _ => false

/-- `a <= b` of comparable keys. -/
def keyLe : Key → Key → Bool
  | .number x, .number y => x.le y
  | .str s, .str t => decide (s ≤ t)
  | .stamp _ s, .stamp _ t => decide (s ≤ t)
  | _, _ => true

/-- `sorted(...)` of a set. -/
def sortedSet (keys : List Key) : Except Exn (List Key) :=
  if keys.all fun a => keys.all fun b => decide (a = b) || comparable a b then
    .ok (keys.dedup.insertionSort fun a b => keyLe a b)
  else .error .typeError

/-- The logger's own configuration. -/
structure Discovered where
  reads : OrderedDict Key Yaml
  subscribes : OrderedDict Key Yaml
  listens : List Key

/-- What a stanza adds: to `bb`, to `st` or to `ev`. -/
inductive Item where
  | cell (topic : Key) (spec : Yaml)
  | frame (topic : Key) (spec : Yaml)
  | channel (name : Key)

def Item.cell? : Item → Option (Key × Yaml)
  | .cell topic spec => some (topic, spec)
  | _ => none

def Item.frame? : Item → Option (Key × Yaml)
  | .frame topic spec => some (topic, spec)
  | _ => none

def Item.channel? : Item → Option Key
  | .channel name => some name
  | _ => none

def stanzaItems (stanza : Yaml) : Except Exn (List Item) := do
  let ipc ← ipcOf stanza
  let bb ← gather (directionSpecs ipc "blackboard") ["writes", "reads"]
  let st ← gather (directionSpecs ipc "streams") ["publishes", "subscribes"]
  let ev ← gather (directionChannels ipc) ["notifies", "listens"]
  pure (bb.map (fun e => .cell e.1 e.2) ++ st.map (fun e => .frame e.1 e.2) ++ ev.map .channel)

/-- `discover_ipc`, without excludes. -/
def discoverIpc (raw : Yaml) : Except Exn Discovered := do
  let services ← raw.orEmpty.items
  let items ← gather (fun e => stanzaItems e.2) services
  let listens ← sortedSet (items.filterMap Item.channel?)
  pure ⟨.ofList (items.filterMap Item.cell?), .ofList (items.filterMap Item.frame?), listens⟩

/-! ## What a walk that returns has met -/

/-- `stanza["ipc"][family][direction]`, where it is there. -/
def specsAt (stanza : Yaml) (family direction : String) : YamlMap :=
  (((stanza.at_ "ipc").at_ family).at_ direction).entries

theorem ipcOf_ok {stanza ipc : Yaml} :
    ipcOf stanza = .ok ipc ↔ stanza.MapOrFalse ∧ ipc = (stanza.at_ "ipc").orEmpty := by
  rw [ipcOf, except_bind_ok_iff]
  constructor
  · rintro ⟨found, got, same⟩
    obtain ⟨fits, rfl⟩ := Yaml.get_orEmpty.mp got
    cases same
    exact ⟨fits, rfl⟩
  · rintro ⟨fits, rfl⟩
    exact ⟨_, Yaml.get_orEmpty.mpr ⟨fits, rfl⟩, rfl⟩

theorem blockOf_ok {ipc block : Yaml} {family direction : String} :
    blockOf ipc.orEmpty family direction = .ok block ↔
      ipc.MapOrFalse ∧ (ipc.at_ family).MapOrFalse ∧
        block = ((ipc.at_ family).at_ direction).orEmpty := by
  rw [blockOf, except_bind_ok_iff]
  constructor
  · rintro ⟨owner, got, later⟩
    obtain ⟨found, got', same⟩ := except_bind_ok_iff.mp later
    obtain ⟨fits, rfl⟩ := Yaml.get_orEmpty.mp got
    obtain ⟨fits', rfl⟩ := Yaml.get_orEmpty.mp got'
    cases same
    exact ⟨fits, fits', rfl⟩
  · rintro ⟨fits, fits', rfl⟩
    exact ⟨_, Yaml.get_orEmpty.mpr ⟨fits, rfl⟩,
      except_bind_ok_iff.mpr ⟨_, Yaml.get_orEmpty.mpr ⟨fits', rfl⟩, rfl⟩⟩

theorem stanzaTypes_ok {stanza : Yaml} {types : List (Key × Yaml)} :
    stanzaTypes stanza = .ok types ↔
      stanza.MapOrFalse ∧ (stanza.at_ "ipc").MapOrFalse ∧
        types = (typedTopics (stanza.at_ "ipc").entries).entries := by
  have only : ∀ value, typedTopicsOf value = .ok types ↔
      ∃ m, value = .map m ∧ types = (typedTopics m).entries := by
    intro value
    cases value with
    | scalar s => cases s <;> simp [typedTopicsOf]
    | seq items => simp [typedTopicsOf]
    | map m => simp [typedTopicsOf, eq_comm]
  rw [stanzaTypes, except_bind_ok_iff]
  constructor
  · rintro ⟨ipc, got, later⟩
    obtain ⟨fits, rfl⟩ := ipcOf_ok.mp got
    obtain ⟨m, isMap, rfl⟩ := (only _).mp later
    obtain ⟨fits', rfl⟩ := Yaml.orEmpty_eq_map.mp isMap
    exact ⟨fits, fits', rfl⟩
  · rintro ⟨fits, fits', rfl⟩
    exact ⟨_, ipcOf_ok.mpr ⟨fits, rfl⟩,
      (only _).mpr ⟨_, Yaml.orEmpty_eq_map.mpr ⟨fits', rfl⟩, rfl⟩⟩

theorem specType_ok {spec ty : Yaml} : specType spec = .ok ty ↔ typeOf spec = some ty := by
  cases spec with
  | scalar s => cases s <;> simp [specType, typeOf]
  | seq items => simp [specType, typeOf]
  | map m =>
      simp only [specType, typeOf]
      cases Yaml.lookup "type" m <;> simp

theorem planeEntry_ok {plane : String} {e : Scalar × Yaml} {out : List (Key × Yaml × String)} :
    planeEntry plane e = .ok out ↔ ∃ ty, typeOf e.2 = some ty ∧ out = [(e.1.key, ty, plane)] := by
  rw [planeEntry, except_bind_ok_iff]
  simp only [specType_ok]
  constructor
  · rintro ⟨ty, typed, same⟩
    cases same
    exact ⟨ty, typed, rfl⟩
  · rintro ⟨ty, typed, rfl⟩
    exact ⟨ty, typed, rfl⟩

/-- The shapes the bridge can walk under one direction. -/
def Walkable (ipc : Yaml) (family direction : String) : Prop :=
  (ipc.at_ family).MapOrFalse ∧ ((ipc.at_ family).at_ direction).MapOrFalse ∧
    ∀ e ∈ ((ipc.at_ family).at_ direction).entries, (typeOf e.2).isSome

theorem exists_directionPlanes {ipc : Yaml} {family direction : String} (plane : String) :
    (∃ out, directionPlanes ipc.orEmpty family plane direction = .ok out) ↔
      ipc.MapOrFalse ∧ Walkable ipc family direction := by
  simp only [directionPlanes, except_bind_ok_iff]
  constructor
  · rintro ⟨out, block, got, entries, gotEntries, walked⟩
    obtain ⟨fits, fits', rfl⟩ := blockOf_ok.mp got
    obtain ⟨fits'', rfl⟩ := Yaml.items_orEmpty.mp gotEntries
    refine ⟨fits, fits', fits'', ?_⟩
    intro e mem
    obtain ⟨some_, entry⟩ := (gather_ok walked).1 e mem
    obtain ⟨ty, typed, -⟩ := planeEntry_ok.mp entry
    rw [typed]
    rfl
  · rintro ⟨fits, fits', fits'', typed⟩
    have all : ∀ e ∈ ((ipc.at_ family).at_ direction).entries, ∃ some_,
        planeEntry plane e = .ok some_ := by
      intro e mem
      obtain ⟨ty, isType⟩ := Option.isSome_iff_exists.mp (typed e mem)
      exact ⟨_, planeEntry_ok.mpr ⟨ty, isType, rfl⟩⟩
    obtain ⟨out, walked⟩ := exists_gather all
    exact ⟨out, _, blockOf_ok.mpr ⟨fits, fits', rfl⟩, _, Yaml.items_orEmpty.mpr ⟨fits'', rfl⟩, walked⟩

theorem mem_directionPlanes {ipc : Yaml} {family plane direction : String}
    {out : List (Key × Yaml × String)}
    (done : directionPlanes ipc.orEmpty family plane direction = .ok out) {topic : Key} {ty : Yaml}
    {shown : String} :
    (topic, ty, shown) ∈ out ↔
      (∃ t spec, (t, spec) ∈ ((ipc.at_ family).at_ direction).entries ∧ t.key = topic ∧
        typeOf spec = some ty) ∧ shown = plane := by
  simp only [directionPlanes, except_bind_ok_iff] at done
  obtain ⟨block, got, entries, gotEntries, walked⟩ := done
  obtain ⟨-, -, rfl⟩ := blockOf_ok.mp got
  obtain ⟨-, rfl⟩ := Yaml.items_orEmpty.mp gotEntries
  rw [(gather_ok walked).2]
  constructor
  · rintro ⟨⟨t, spec⟩, mem, some_, entry, inSome⟩
    obtain ⟨ty', typed, rfl⟩ := planeEntry_ok.mp entry
    rw [List.mem_singleton] at inSome
    cases inSome
    exact ⟨⟨t, spec, mem, rfl, typed⟩, rfl⟩
  · rintro ⟨⟨t, spec, mem, rfl, typed⟩, rfl⟩
    exact ⟨(t, spec), mem, _, planeEntry_ok.mpr ⟨ty, typed, rfl⟩, List.mem_singleton.mpr rfl⟩

/-- The families with a plane, and their directions. -/
def planePairs : List (String × String) :=
  [("blackboard", "writes"), ("blackboard", "reads"), ("streams", "publishes"),
    ("streams", "subscribes")]

theorem mem_planePairs {p : String × String} :
    p ∈ planePairs ↔
      (∃ d ∈ ["writes", "reads"], p = ("blackboard", d)) ∨
        ∃ d ∈ ["publishes", "subscribes"], p = ("streams", d) := by
  simp [planePairs, or_assoc]

theorem exists_stanzaPlanes {stanza : Yaml} :
    (∃ out, stanzaPlanes stanza = .ok out) ↔
      stanza.MapOrFalse ∧ (stanza.at_ "ipc").MapOrFalse ∧
        ∀ p ∈ planePairs, Walkable (stanza.at_ "ipc") p.1 p.2 := by
  simp only [stanzaPlanes, except_bind_ok_iff]
  constructor
  · rintro ⟨out, ipc, got, cells, inCells, frames, inFrames, -⟩
    obtain ⟨fits, rfl⟩ := ipcOf_ok.mp got
    have cell : ∀ d ∈ ["writes", "reads"], (stanza.at_ "ipc").MapOrFalse ∧
        Walkable (stanza.at_ "ipc") "blackboard" d :=
      fun d mem => (exists_directionPlanes "blackboard").mp ((gather_ok inCells).1 d mem)
    have frame : ∀ d ∈ ["publishes", "subscribes"], (stanza.at_ "ipc").MapOrFalse ∧
        Walkable (stanza.at_ "ipc") "streams" d :=
      fun d mem => (exists_directionPlanes "stream").mp ((gather_ok inFrames).1 d mem)
    refine ⟨fits, (cell "writes" (by simp)).1, ?_⟩
    intro p mem
    rcases mem_planePairs.mp mem with ⟨d, ofCell, rfl⟩ | ⟨d, ofFrame, rfl⟩
    · exact (cell d ofCell).2
    · exact (frame d ofFrame).2
  · rintro ⟨fits, fits', walkable⟩
    have cell : ∀ d ∈ ["writes", "reads"], ∃ some_,
        directionPlanes (stanza.at_ "ipc").orEmpty "blackboard" "blackboard" d = .ok some_ := by
      intro d mem
      apply (exists_directionPlanes "blackboard").mpr
      exact ⟨fits', walkable ("blackboard", d) (mem_planePairs.mpr (Or.inl ⟨d, mem, rfl⟩))⟩
    have frame : ∀ d ∈ ["publishes", "subscribes"], ∃ some_,
        directionPlanes (stanza.at_ "ipc").orEmpty "streams" "stream" d = .ok some_ := by
      intro d mem
      apply (exists_directionPlanes "stream").mpr
      exact ⟨fits', walkable ("streams", d) (mem_planePairs.mpr (Or.inr ⟨d, mem, rfl⟩))⟩
    obtain ⟨cells, inCells⟩ := exists_gather cell
    obtain ⟨frames, inFrames⟩ := exists_gather frame
    exact ⟨_, _, ipcOf_ok.mpr ⟨fits, rfl⟩, cells, inCells, frames, inFrames, rfl⟩

/-- A direction of the plane gives the topic this type. -/
def HasType (stanza : Yaml) (topic : Key) (ty : Yaml) : Prop :=
  ∃ p ∈ planePairs, ∃ t spec, (t, spec) ∈ specsAt stanza p.1 p.2 ∧ t.key = topic ∧
    typeOf spec = some ty

theorem mem_stanzaPlanes {stanza : Yaml} {out : List (Key × Yaml × String)}
    (done : stanzaPlanes stanza = .ok out) {topic : Key} {ty : Yaml} :
    (∃ plane, (topic, ty, plane) ∈ out) ↔ HasType stanza topic ty := by
  simp only [stanzaPlanes, except_bind_ok_iff] at done
  obtain ⟨ipc, got, cells, inCells, frames, inFrames, same⟩ := done
  cases same
  obtain ⟨-, rfl⟩ := ipcOf_ok.mp got
  constructor
  · rintro ⟨plane, mem⟩
    rcases List.mem_append.mp mem with cell | frame
    · obtain ⟨d, inDirections, some_, ran, inSome⟩ := ((gather_ok inCells).2 _).mp cell
      obtain ⟨⟨t, spec, here, same, typed⟩, -⟩ := (mem_directionPlanes ran).mp inSome
      have isPair := mem_planePairs.mpr (Or.inl ⟨d, inDirections, rfl⟩)
      exact ⟨("blackboard", d), isPair, t, spec, here, same, typed⟩
    · obtain ⟨d, inDirections, some_, ran, inSome⟩ := ((gather_ok inFrames).2 _).mp frame
      obtain ⟨⟨t, spec, here, same, typed⟩, -⟩ := (mem_directionPlanes ran).mp inSome
      have isPair := mem_planePairs.mpr (Or.inr ⟨d, inDirections, rfl⟩)
      exact ⟨("streams", d), isPair, t, spec, here, same, typed⟩
  · rintro ⟨p, isPair, t, spec, here, same, typed⟩
    rcases mem_planePairs.mp isPair with ⟨d, ofCell, rfl⟩ | ⟨d, ofFrame, rfl⟩
    · obtain ⟨some_, ran⟩ := (gather_ok inCells).1 d ofCell
      have inSome := (mem_directionPlanes ran).mpr ⟨⟨t, spec, here, same, typed⟩, rfl⟩
      have cell := ((gather_ok inCells).2 _).mpr ⟨d, ofCell, some_, ran, inSome⟩
      exact ⟨"blackboard", List.mem_append_left _ cell⟩
    · obtain ⟨some_, ran⟩ := (gather_ok inFrames).1 d ofFrame
      have inSome := (mem_directionPlanes ran).mpr ⟨⟨t, spec, here, same, typed⟩, rfl⟩
      have frame := ((gather_ok inFrames).2 _).mpr ⟨d, ofFrame, some_, ran, inSome⟩
      exact ⟨"stream", List.mem_append_right _ frame⟩

/-! ## Channels -/

/-- What a set can be updated from: nothing, a text, a dict or a list of scalars. -/
inductive Iterable : Yaml → Prop where
  | nothing (value : Yaml) : value.truthy = false → Iterable value
  | text (s : String) : Iterable (.str s)
  | dict (entries : YamlMap) : Iterable (.map entries)
  | names (items : List Scalar) : Iterable (.seq (items.map .scalar))

/-- The keys it adds. -/
def channelKeys : Yaml → List Key
  | .str s => s.toList.map fun c => .str (String.singleton c)
  | .scalar _ => []
  | .seq items => items.filterMap fun item =>
      match item with
      | .scalar s => some s.key
      | _ => none
  | .map entries => entries.map fun e => e.1.key

/-- What is false adds no key. -/
theorem channelKeys_of_false {value : Yaml} (false_ : value.truthy = false) :
    channelKeys value = [] := by
  cases value with
  | scalar s =>
      cases s with
      | str s =>
          have empty : s = "" := by simpa [Yaml.truthy] using false_
          rw [empty]
          rfl
      | null => rfl
      | bool b => rfl
      | int i => rfl
      | float x => rfl
      | stamp kind text => rfl
  | seq items =>
      cases items with
      | nil => rfl
      | cons item rest => cases false_
  | map entries =>
      cases entries with
      | nil => rfl
      | cons e rest => cases false_

theorem exists_channels_seq {items : List Yaml} :
    (∃ out, gather channelOf items = .ok out) ↔ ∃ names : List Scalar, items = names.map .scalar := by
  constructor
  · rintro ⟨out, walked⟩
    have all := (gather_ok walked).1
    clear walked
    induction items with
    | nil => exact ⟨[], rfl⟩
    | cons item rest ih =>
        obtain ⟨names, rfl⟩ := ih fun x mem => all x (List.mem_cons_of_mem item mem)
        obtain ⟨some_, ran⟩ := all item List.mem_cons_self
        cases item with
        | scalar s => exact ⟨s :: names, rfl⟩
        | seq items => cases ran
        | map entries => cases ran
  · rintro ⟨names, rfl⟩
    apply exists_gather
    intro item mem
    obtain ⟨s, -, rfl⟩ := List.mem_map.mp mem
    exact ⟨[s.key], rfl⟩

theorem exists_channels {value : Yaml} : (∃ out, channels value = .ok out) ↔ Iterable value := by
  constructor
  · rintro ⟨out, done⟩
    unfold channels at done
    split at done
    · cases value with
      | scalar s =>
          cases s with
          | str s => exact .text s
          | null => cases done
          | bool b => cases done
          | int i => cases done
          | float x => cases done
          | stamp kind text => cases done
      | seq items =>
          obtain ⟨names, rfl⟩ := exists_channels_seq.mp ⟨out, done⟩
          exact .names names
      | map entries => exact .dict entries
    · rename_i false_
      exact .nothing value (by simpa using false_)
  · intro iterable
    unfold channels
    split
    · rename_i true_
      cases iterable with
      | nothing _ false_ =>
          rw [false_] at true_
          cases true_
      | text s => exact ⟨_, rfl⟩
      | dict entries => exact ⟨_, rfl⟩
      | names items => exact exists_channels_seq.mpr ⟨items, rfl⟩
    · exact ⟨[], rfl⟩

theorem mem_channels {value : Yaml} {out : List Key} (done : channels value = .ok out) (c : Key) :
    c ∈ out ↔ c ∈ channelKeys value := by
  unfold channels at done
  split at done
  · cases value with
    | scalar s =>
        cases s with
        | str s =>
            cases done
            exact Iff.rfl
        | null => cases done
        | bool b => cases done
        | int i => cases done
        | float x => cases done
        | stamp kind text => cases done
    | seq items =>
        obtain ⟨names, rfl⟩ := exists_channels_seq.mp ⟨out, done⟩
        rw [(gather_ok done).2]
        simp only [List.mem_map, channelKeys, List.mem_filterMap]
        constructor
        · rintro ⟨item, ⟨s, mem, rfl⟩, some_, ran, inSome⟩
          cases ran
          rw [List.mem_singleton] at inSome
          exact ⟨.scalar s, ⟨s, mem, rfl⟩, by rw [inSome]⟩
        · rintro ⟨item, ⟨s, mem, rfl⟩, same⟩
          cases same
          exact ⟨.scalar s, ⟨s, mem, rfl⟩, [s.key], rfl, List.mem_singleton.mpr rfl⟩
    | map entries =>
        cases done
        exact Iff.rfl
  · rename_i false_
    cases done
    rw [channelKeys_of_false (by simpa using false_)]

theorem sortedSet_ok {keys : List Key} :
    (∃ out, sortedSet keys = .ok out) ↔ ∀ a ∈ keys, ∀ b ∈ keys, a = b ∨ comparable a b = true := by
  unfold sortedSet
  split
  · rename_i all
    simp only [List.all_eq_true, Bool.or_eq_true, decide_eq_true_eq] at all
    exact iff_of_true ⟨_, rfl⟩ all
  · rename_i some_
    simp only [List.all_eq_true, Bool.or_eq_true, decide_eq_true_eq] at some_
    exact iff_of_false (by simp) some_

end KoyuRuntime.Services.IpcReaders
