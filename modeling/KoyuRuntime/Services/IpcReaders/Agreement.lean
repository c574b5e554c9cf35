/-
# Services.IpcReaders.Agreement — when all readers show the same topics

A document that loads is read by the type check, by `koyu get`, by the bridge and by
the logger.  They agree if every reader returns and shows exactly the declared topics,
each with its type.

* `topicTypes_exact`, `topicPlanes_exact`, `discoverIpc_exact`: each reader on its own.
* `readers_agree_iff`: they agree on the documents without topics or shapes that one
  reader takes and another does not.
-/
import KoyuRuntime.Ipc.Declarations
import KoyuRuntime.Services.IpcReaders.Walkers
import KoyuRuntime.Warden.Services

namespace KoyuRuntime.Services.IpcReaders

open Host Theory Ipc Types Checks Declarations Warden

set_option autoImplicit false

/-! ## The logger, stanza by stanza -/

/-- Some direction of the family has this spec for the topic. -/
def SpecIn (family : String) (directions : List String) (stanza : Yaml) (topic : Key)
    (spec : Yaml) : Prop :=
  ∃ d ∈ directions, ∃ t, (t, spec) ∈ specsAt stanza family d ∧ t.key = topic

theorem hasType_iff {stanza : Yaml} {topic : Key} {ty : Yaml} :
    HasType stanza topic ty ↔
      ∃ spec, (SpecIn "blackboard" ["writes", "reads"] stanza topic spec ∨
        SpecIn "streams" ["publishes", "subscribes"] stanza topic spec) ∧ typeOf spec = some ty := by
  constructor
  · rintro ⟨p, isPair, t, spec, here, same, typed⟩
    refine ⟨spec, ?_, typed⟩
    rcases mem_planePairs.mp isPair with ⟨d, ofCell, rfl⟩ | ⟨d, ofFrame, rfl⟩
    · exact Or.inl ⟨d, ofCell, t, here, same⟩
    · exact Or.inr ⟨d, ofFrame, t, here, same⟩
  · rintro ⟨spec, ⟨d, ofCell, t, here, same⟩ | ⟨d, ofFrame, t, here, same⟩, typed⟩
    · have isPair := mem_planePairs.mpr (Or.inl ⟨d, ofCell, rfl⟩)
      exact ⟨("blackboard", d), isPair, t, spec, here, same, typed⟩
    · have isPair := mem_planePairs.mpr (Or.inr ⟨d, ofFrame, rfl⟩)
      exact ⟨("streams", d), isPair, t, spec, here, same, typed⟩

theorem directionChannels_ok {ipc : Yaml} {direction : String} {keys : List Key} :
    directionChannels ipc.orEmpty direction = .ok keys ↔
      ipc.MapOrFalse ∧ (ipc.at_ "events").MapOrFalse ∧
        channels ((ipc.at_ "events").at_ direction) = .ok keys := by
  simp only [directionChannels, except_bind_ok_iff]
  constructor
  · rintro ⟨owner, got, value, got', done⟩
    obtain ⟨fits, rfl⟩ := Yaml.get_orEmpty.mp got
    obtain ⟨fits', rfl⟩ := Yaml.get_orEmpty.mp got'
    exact ⟨fits, fits', done⟩
  · rintro ⟨fits, fits', done⟩
    exact ⟨_, Yaml.get_orEmpty.mpr ⟨fits, rfl⟩, _, Yaml.get_orEmpty.mpr ⟨fits', rfl⟩, done⟩

theorem directionSpecs_ok {ipc : Yaml} {family direction : String} (fits : ipc.MapOrFalse)
    (walkable : Walkable ipc family direction) :
    directionSpecs ipc.orEmpty family direction =
      .ok (((ipc.at_ family).at_ direction).entries.map fun e => (e.1.key, e.2)) := by
  rw [directionSpecs, except_bind_ok_iff]
  refine ⟨_, blockOf_ok.mpr ⟨fits, walkable.1, rfl⟩, ?_⟩
  rw [Yaml.orEmpty_eq_map.mpr ⟨walkable.2.1, rfl⟩]
  rfl

/-- The shapes the logger can walk for channels. -/
def Listable (stanza : Yaml) : Prop :=
  ((stanza.at_ "ipc").at_ "events").MapOrFalse ∧
    ∀ d ∈ ["notifies", "listens"], Iterable (((stanza.at_ "ipc").at_ "events").at_ d)

/-- Some service names the channel. -/
def Listed (stanza : Yaml) (c : Key) : Prop :=
  ∃ d ∈ ["notifies", "listens"], c ∈ channelKeys (((stanza.at_ "ipc").at_ "events").at_ d)

theorem listable_of_stanzaItems {stanza : Yaml} {items : List Item}
    (done : stanzaItems stanza = .ok items) : Listable stanza := by
  simp only [stanzaItems, except_bind_ok_iff] at done
  obtain ⟨ipc, got, _, -, _, -, ev, inEvents, -⟩ := done
  obtain ⟨-, rfl⟩ := ipcOf_ok.mp got
  have channel : ∀ d ∈ ["notifies", "listens"], ((stanza.at_ "ipc").at_ "events").MapOrFalse ∧
      Iterable (((stanza.at_ "ipc").at_ "events").at_ d) := by
    intro d mem
    obtain ⟨keys, ran⟩ := (gather_ok inEvents).1 d mem
    obtain ⟨-, fits, read⟩ := directionChannels_ok.mp ran
    exact ⟨fits, exists_channels.mp ⟨keys, read⟩⟩
  exact ⟨(channel "notifies" (by simp)).1, fun d mem => (channel d mem).2⟩

/-- The family of each plane. -/
theorem walkable_of_mem {ipc : Yaml} (walkable : ∀ p ∈ planePairs, Walkable ipc p.1 p.2) :
    (∀ d ∈ ["writes", "reads"], Walkable ipc "blackboard" d) ∧
      ∀ d ∈ ["publishes", "subscribes"], Walkable ipc "streams" d := by
  constructor
  · intro d ofCell
    exact walkable ("blackboard", d) (mem_planePairs.mpr (Or.inl ⟨d, ofCell, rfl⟩))
  · intro d ofFrame
    exact walkable ("streams", d) (mem_planePairs.mpr (Or.inr ⟨d, ofFrame, rfl⟩))

theorem exists_stanzaItems {stanza : Yaml} (fits : stanza.MapOrFalse)
    (fits' : (stanza.at_ "ipc").MapOrFalse)
    (walkable : ∀ p ∈ planePairs, Walkable (stanza.at_ "ipc") p.1 p.2) (listable : Listable stanza) :
    ∃ items, stanzaItems stanza = .ok items := by
  obtain ⟨cells, frames⟩ := walkable_of_mem walkable
  obtain ⟨bb, inCells⟩ := exists_gather fun d mem => ⟨_, directionSpecs_ok fits' (cells d mem)⟩
  obtain ⟨st, inFrames⟩ := exists_gather fun d mem => ⟨_, directionSpecs_ok fits' (frames d mem)⟩
  have channel : ∀ d ∈ ["notifies", "listens"], ∃ some_,
      directionChannels (stanza.at_ "ipc").orEmpty d = .ok some_ := by
    intro d mem
    obtain ⟨keys, read⟩ := exists_channels.mpr (listable.2 d mem)
    exact ⟨keys, directionChannels_ok.mpr ⟨fits', listable.1, read⟩⟩
  obtain ⟨ev, inEvents⟩ := exists_gather channel
  simp only [stanzaItems, except_bind_ok_iff]
  exact ⟨_, _, ipcOf_ok.mpr ⟨fits, rfl⟩, bb, inCells, st, inFrames, ev, inEvents, rfl⟩

theorem mem_gather_specs {ipc : Yaml} {family : String} {directions : List String}
    {out : List (Key × Yaml)} (fits : ipc.MapOrFalse)
    (walkable : ∀ d ∈ directions, Walkable ipc family d)
    (done : gather (directionSpecs ipc.orEmpty family) directions = .ok out) {topic : Key}
    {spec : Yaml} :
    (topic, spec) ∈ out ↔
      ∃ d ∈ directions, ∃ t, (t, spec) ∈ ((ipc.at_ family).at_ d).entries ∧ t.key = topic := by
  rw [(gather_ok done).2]
  constructor
  · rintro ⟨d, mem, some_, ran, inSome⟩
    rw [directionSpecs_ok fits (walkable d mem)] at ran
    cases ran
    obtain ⟨⟨t, spec'⟩, here, same⟩ := List.mem_map.mp inSome
    cases same
    exact ⟨d, mem, t, here, rfl⟩
  · rintro ⟨d, mem, t, here, rfl⟩
    exact ⟨d, mem, _, directionSpecs_ok fits (walkable d mem), List.mem_map.mpr ⟨_, here, rfl⟩⟩

/-- What a stanza adds to the three collections. -/
theorem mem_stanzaItems {stanza : Yaml} {items : List Item} (fits : (stanza.at_ "ipc").MapOrFalse)
    (walkable : ∀ p ∈ planePairs, Walkable (stanza.at_ "ipc") p.1 p.2)
    (done : stanzaItems stanza = .ok items) :
    (∀ topic spec, (topic, spec) ∈ items.filterMap Item.cell? ↔
      SpecIn "blackboard" ["writes", "reads"] stanza topic spec) ∧
    (∀ topic spec, (topic, spec) ∈ items.filterMap Item.frame? ↔
      SpecIn "streams" ["publishes", "subscribes"] stanza topic spec) ∧
    ∀ c, c ∈ items.filterMap Item.channel? ↔ Listed stanza c := by
  simp only [stanzaItems, except_bind_ok_iff] at done
  obtain ⟨ipc, got, bb, inCells, st, inFrames, ev, inEvents, same⟩ := done
  cases same
  obtain ⟨-, rfl⟩ := ipcOf_ok.mp got
  obtain ⟨cells, frames⟩ := walkable_of_mem walkable
  refine ⟨?_, ?_, ?_⟩
  · intro topic spec
    have only : (bb.map (fun e => Item.cell e.1 e.2) ++ st.map (fun e => Item.frame e.1 e.2) ++
        ev.map Item.channel).filterMap Item.cell? = bb := by
      simp [List.filterMap_append, List.filterMap_map, Function.comp_def, Item.cell?]
    rw [only]
    exact mem_gather_specs fits cells inCells
  · intro topic spec
    have only : (bb.map (fun e => Item.cell e.1 e.2) ++ st.map (fun e => Item.frame e.1 e.2) ++
        ev.map Item.channel).filterMap Item.frame? = st := by
      simp [List.filterMap_append, List.filterMap_map, Function.comp_def, Item.frame?]
    rw [only]
    exact mem_gather_specs fits frames inFrames
  · intro c
    have only : (bb.map (fun e => Item.cell e.1 e.2) ++ st.map (fun e => Item.frame e.1 e.2) ++
        ev.map Item.channel).filterMap Item.channel? = ev := by
      simp [List.filterMap_append, List.filterMap_map, Function.comp_def, Item.channel?]
    rw [only, (gather_ok inEvents).2]
    constructor
    · rintro ⟨d, mem, some_, ran, inSome⟩
      obtain ⟨-, -, read⟩ := directionChannels_ok.mp ran
      exact ⟨d, mem, (mem_channels read c).mp inSome⟩
    · rintro ⟨d, mem, inKeys⟩
      obtain ⟨some_, ran⟩ := (gather_ok inEvents).1 d mem
      obtain ⟨-, -, read⟩ := directionChannels_ok.mp ran
      exact ⟨d, mem, some_, ran, (mem_channels read c).mpr inKeys⟩

/-! ## Agreement -/

/-- Every topic is declared with one type throughout. -/
def OneType (raw : Yaml) : Prop :=
  ∀ topic ty ty', Declared raw topic ty → Declared raw topic ty' → ty = ty'

/-- Exactly the declared topics are shown, each with its type and none without one. -/
def Exact (raw : Yaml) (shown : Key → Option Yaml → Prop) : Prop :=
  ∀ topic ty, shown topic ty ↔ ∃ t, ty = some t ∧ Declared raw topic t

/-- What a dict shows, if `typed` is the type of a value. -/
def shownBy {V : Type} (typed : V → Option Yaml) (d : OrderedDict Key V) (topic : Key)
    (ty : Option Yaml) : Prop :=
  ∃ v, d.get? topic = some v ∧ ty = typed v

/-- What the logger reads or subscribes to. -/
def Discovered.shown (l : Discovered) (topic : Key) (ty : Option Yaml) : Prop :=
  shownBy typeOf l.reads topic ty ∨ shownBy typeOf l.subscribes topic ty

structure ReadersAgree (raw : Yaml) : Prop where
  cli : ∃ d, topicTypes raw = .ok d ∧ Exact raw (shownBy some d)
  bridge : ∃ d, topicPlanes raw = .ok d ∧ Exact raw (shownBy (fun v => some v.1) d)
  logger : ∃ l, discoverIpc raw = .ok l ∧ Exact raw l.shown

/-- The type check reads this declaration of the block. -/
def Checked (ipc : YamlMap) (topic : Key) (ty : Yaml) : Prop :=
  DeclaredIn ipc topic ty ∨ (flat ipc = false ∧ DeclaredInFamily ipc topic ty)

/-- The documents all readers can read alike. -/
structure Readable (raw : Yaml) : Prop where
  /-- An `ipc` value is a dict, or nothing. -/
  blocks : ∀ e ∈ raw.entries, (e.2.at_ "ipc").MapOrFalse
  /-- So are the two families with a plane and their directions, and every topic there
  has a type. -/
  walkable : ∀ e ∈ raw.entries, ∀ p ∈ planePairs, Walkable (e.2.at_ "ipc") p.1 p.2
  /-- Event channels are listed in a way a set can take. -/
  listable : ∀ e ∈ raw.entries, Listable e.2
  /-- Any two channels can be ordered. -/
  ordered : ∀ e ∈ raw.entries, ∀ e' ∈ raw.entries, ∀ c c', Listed e.2 c → Listed e'.2 c' →
    c = c' ∨ comparable c c' = true
  /-- No topic is declared only in families beside a direction. -/
  checked : ∀ topic ty, Declared raw topic ty → ∃ ipc, Block raw ipc ∧ Checked ipc topic ty
  /-- Every topic is declared in a family with a plane, under a direction of that plane. -/
  planes : ∀ topic ty, Declared raw topic ty → ∃ e ∈ raw.entries, HasType e.2 topic ty

section Readers

variable {raw : Yaml}

/-- A dict built from entries that are all declared, with one for every declared topic,
shows exactly the declared topics. -/
theorem exact_of_written {V : Type} {typed : V → Option Yaml} {out : List (Key × V)}
    (one : OneType raw) (sound : ∀ k v, (k, v) ∈ out → ∃ t, typed v = some t ∧ Declared raw k t)
    (complete : ∀ k t, Declared raw k t → ∃ v, (k, v) ∈ out) :
    Exact raw (shownBy typed (.ofList out)) := by
  intro topic ty
  constructor
  · rintro ⟨v, found, rfl⟩
    exact sound topic v (OrderedDict.mem_of_get?_ofList found)
  · rintro ⟨t, rfl, declared⟩
    obtain ⟨v, mem⟩ := complete topic t declared
    obtain ⟨v', found, mem'⟩ := OrderedDict.exists_get?_ofList mem
    obtain ⟨t', typed', declared'⟩ := sound topic v' mem'
    exact ⟨v', found, by rw [typed', one topic t t' declared declared']⟩

theorem block_of_at {e : Scalar × Yaml} {ipc : YamlMap} (mem : e ∈ raw.entries)
    (here : e.2.at_ "ipc" = .map ipc) : Block raw ipc := by
  obtain ⟨service, stanza⟩ := e
  obtain ⟨es, rfl, found⟩ := Yaml.at_eq_map here
  exact ⟨service, es, mem, found⟩

theorem at_of_block {ipc : YamlMap} (block : Block raw ipc) :
    ∃ e ∈ raw.entries, e.2.at_ "ipc" = .map ipc := by
  obtain ⟨service, stanza, mem, found⟩ := block
  refine ⟨_, mem, ?_⟩
  show (Yaml.lookup "ipc" stanza).getD .null = .map ipc
  rw [found]
  rfl

theorem declared_of_checked {ipc : YamlMap} {topic : Key} {ty : Yaml} (block : Block raw ipc)
    (checked : Checked ipc topic ty) : Declared raw topic ty :=
  ⟨ipc, block, checked.imp id And.right⟩

/-- What stands under a plane is declared. -/
theorem declared_of_hasType {e : Scalar × Yaml} {topic : Key} {ty : Yaml} (mem : e ∈ raw.entries)
    (typed : HasType e.2 topic ty) : Declared raw topic ty := by
  obtain ⟨p, isPair, t, spec, here, same, isType⟩ := typed
  obtain ⟨owner, isOwner, block⟩ := Yaml.at_eq_map (Yaml.eq_map_of_mem here)
  obtain ⟨ipc, isIpc, family⟩ := Yaml.at_eq_map isOwner
  have plain : isDirection (.str p.1) = false ∧ p.2 ∈ typedDirections := by
    simp only [planePairs, List.mem_cons, List.not_mem_nil, or_false] at isPair
    rcases isPair with rfl | rfl | rfl | rfl <;> decide
  exact ⟨ipc, block_of_at mem isIpc, Or.inr ⟨.str p.1, owner, Yaml.mem_of_lookup family, plain.1, p.2,
    plain.2, _, t, spec, block, here, same, isType⟩⟩

/-! ## `koyu get` -/

theorem topicTypes_ok {d : OrderedDict Key Yaml} (done : topicTypes raw = .ok d) :
    (∀ e ∈ raw.entries, (e.2.at_ "ipc").MapOrFalse) ∧
      ∃ out, d = .ofList out ∧ ∀ topic ty, (topic, ty) ∈ out ↔
        ∃ e ∈ raw.entries, (typedTopics (e.2.at_ "ipc").entries).get? topic = some ty := by
  simp only [topicTypes, except_bind_ok_iff] at done
  obtain ⟨services, items, out, walked, same⟩ := done
  obtain ⟨-, rfl⟩ := Yaml.items_orEmpty.mp items
  cases same
  have all : ∀ e ∈ raw.entries, (e.2.at_ "ipc").MapOrFalse ∧
      stanzaTypes e.2 = .ok (typedTopics (e.2.at_ "ipc").entries).entries := by
    intro e mem
    obtain ⟨some_, ran⟩ := (gather_ok walked).1 e mem
    obtain ⟨fits, fits', rfl⟩ := stanzaTypes_ok.mp ran
    exact ⟨fits', ran⟩
  refine ⟨fun e mem => (all e mem).1, out, rfl, ?_⟩
  intro topic ty
  rw [(gather_ok walked).2]
  constructor
  · rintro ⟨e, mem, some_, ran, inSome⟩
    rw [(all e mem).2] at ran
    cases ran
    exact ⟨e, mem, OrderedDict.get?_of_mem inSome⟩
  · rintro ⟨e, mem, found⟩
    exact ⟨e, mem, _, (all e mem).2, OrderedDict.mem_of_find found⟩

/-- What the type check collects is a declaration it reads. -/
theorem checked_of_typedTopics {e : Scalar × Yaml} {topic : Key} {ty : Yaml} (mem : e ∈ raw.entries)
    (found : (typedTopics (e.2.at_ "ipc").entries).get? topic = some ty) :
    ∃ ipc, Block raw ipc ∧ Checked ipc topic ty := by
  have written := mem_assignments.mp (OrderedDict.mem_of_get?_ofList found)
  cases here : e.2.at_ "ipc" with
  | map ipc =>
      rw [here] at written
      exact ⟨ipc, block_of_at mem here, written⟩
  | scalar s =>
      rw [here] at found
      cases found
  | seq items =>
      rw [here] at found
      cases found

/-- **The command line** shows exactly the declared topics if the type check reads one
declaration of each. -/
theorem topicTypes_exact {d : OrderedDict Key Yaml} (one : OneType raw)
    (done : topicTypes raw = .ok d) :
    Exact raw (shownBy some d) ↔
      ∀ topic ty, Declared raw topic ty → ∃ ipc, Block raw ipc ∧ Checked ipc topic ty := by
  obtain ⟨-, out, rfl, written⟩ := topicTypes_ok done
  constructor
  · intro exact_ topic ty declared
    obtain ⟨v, found, same⟩ := (exact_ topic (some ty)).mpr ⟨ty, rfl, declared⟩
    cases same
    obtain ⟨e, mem, collected⟩ := (written topic ty).mp (OrderedDict.mem_of_get?_ofList found)
    exact checked_of_typedTopics mem collected
  · intro checked
    refine exact_of_written one ?_ ?_
    · intro topic ty mem
      obtain ⟨e, inRaw, collected⟩ := (written topic ty).mp mem
      obtain ⟨ipc, block, read⟩ := checked_of_typedTopics inRaw collected
      exact ⟨ty, rfl, declared_of_checked block read⟩
    · intro topic ty declared
      obtain ⟨ipc, block, read⟩ := checked topic ty declared
      obtain ⟨ty', found, -⟩ := OrderedDict.exists_get?_ofList (mem_assignments.mpr read)
      obtain ⟨e, mem, here⟩ := at_of_block block
      refine ⟨ty', (written topic ty').mpr ⟨e, mem, ?_⟩⟩
      rw [here]
      exact found

/-! ## The bridge -/

theorem topicPlanes_ok {d : OrderedDict Key (Yaml × String)} (done : topicPlanes raw = .ok d) :
    (∀ e ∈ raw.entries, (e.2.at_ "ipc").MapOrFalse ∧
        ∀ p ∈ planePairs, Walkable (e.2.at_ "ipc") p.1 p.2) ∧
      ∃ out, d = .ofList out ∧ ∀ topic ty, (∃ plane, (topic, ty, plane) ∈ out) ↔
        ∃ e ∈ raw.entries, HasType e.2 topic ty := by
  simp only [topicPlanes, except_bind_ok_iff] at done
  obtain ⟨services, items, out, walked, same⟩ := done
  obtain ⟨-, rfl⟩ := Yaml.items_orEmpty.mp items
  cases same
  refine ⟨fun e mem => (exists_stanzaPlanes.mp ((gather_ok walked).1 e mem)).2, out, rfl, ?_⟩
  intro topic ty
  constructor
  · rintro ⟨plane, mem⟩
    obtain ⟨e, inRaw, some_, ran, inSome⟩ := ((gather_ok walked).2 _).mp mem
    exact ⟨e, inRaw, (mem_stanzaPlanes ran).mp ⟨plane, inSome⟩⟩
  · rintro ⟨e, inRaw, typed⟩
    obtain ⟨some_, ran⟩ := (gather_ok walked).1 e inRaw
    obtain ⟨plane, inSome⟩ := (mem_stanzaPlanes ran).mpr typed
    exact ⟨plane, ((gather_ok walked).2 _).mpr ⟨e, inRaw, some_, ran, inSome⟩⟩

/-- **The bridge** shows exactly the declared topics if each has a plane. -/
theorem topicPlanes_exact {d : OrderedDict Key (Yaml × String)} (one : OneType raw)
    (done : topicPlanes raw = .ok d) :
    Exact raw (shownBy (fun v => some v.1) d) ↔
      ∀ topic ty, Declared raw topic ty → ∃ e ∈ raw.entries, HasType e.2 topic ty := by
  obtain ⟨-, out, rfl, written⟩ := topicPlanes_ok done
  constructor
  · intro exact_ topic ty declared
    obtain ⟨⟨ty', plane⟩, found, same⟩ := (exact_ topic (some ty)).mpr ⟨ty, rfl, declared⟩
    cases same
    exact (written topic ty').mp ⟨plane, OrderedDict.mem_of_get?_ofList found⟩
  · intro planes
    refine exact_of_written one ?_ ?_
    · rintro topic ⟨ty, plane⟩ mem
      obtain ⟨e, inRaw, typed⟩ := (written topic ty).mp ⟨plane, mem⟩
      exact ⟨ty, rfl, declared_of_hasType inRaw typed⟩
    · intro topic ty declared
      obtain ⟨plane, mem⟩ := (written topic ty).mpr (planes topic ty declared)
      exact ⟨(ty, plane), mem⟩

/-! ## The logger -/

/-- The logger collects the specs under the two planes, if the bridge can walk them. -/
theorem discoverIpc_ok {l : Discovered} (blocks : ∀ e ∈ raw.entries, (e.2.at_ "ipc").MapOrFalse)
    (walkable : ∀ e ∈ raw.entries, ∀ p ∈ planePairs, Walkable (e.2.at_ "ipc") p.1 p.2)
    (done : discoverIpc raw = .ok l) :
    (∀ e ∈ raw.entries, Listable e.2) ∧
      (∀ e ∈ raw.entries, ∀ e' ∈ raw.entries, ∀ c c', Listed e.2 c → Listed e'.2 c' →
        c = c' ∨ comparable c c' = true) ∧
      ∃ bb st, l.reads = .ofList bb ∧ l.subscribes = .ofList st ∧
        (∀ topic spec, (topic, spec) ∈ bb ↔
          ∃ e ∈ raw.entries, SpecIn "blackboard" ["writes", "reads"] e.2 topic spec) ∧
        ∀ topic spec, (topic, spec) ∈ st ↔
          ∃ e ∈ raw.entries, SpecIn "streams" ["publishes", "subscribes"] e.2 topic spec := by
  simp only [discoverIpc, except_bind_ok_iff] at done
  obtain ⟨services, entries, items, walked, listens, ordered, same⟩ := done
  obtain ⟨-, rfl⟩ := Yaml.items_orEmpty.mp entries
  cases same
  -- what is collected of the items is collected stanza by stanza
  have ofStanza (e : Scalar × Yaml) (mem : e ∈ raw.entries) (some_ : List Item) (ran : stanzaItems e.2 = .ok some_) :=
    mem_stanzaItems (blocks e mem) (walkable e mem) ran
  have channels := mem_filterMap_gather walked fun e mem some_ ran => (ofStanza e mem some_ ran).2.2
  refine ⟨?_, ?_, _, _, rfl, rfl, ?_, ?_⟩
  · intro e mem
    obtain ⟨some_, ran⟩ := (gather_ok walked).1 e mem
    exact listable_of_stanzaItems ran
  · intro e mem e' mem' c c' listed listed'
    exact sortedSet_ok.mp ⟨listens, ordered⟩ c ((channels c).mpr ⟨e, mem, listed⟩) c'
      ((channels c').mpr ⟨e', mem', listed'⟩)
  · intro topic spec
    exact mem_filterMap_gather walked
      (fun e mem some_ ran c => (ofStanza e mem some_ ran).1 c.1 c.2) (topic, spec)
  · intro topic spec
    exact mem_filterMap_gather walked
      (fun e mem some_ ran c => (ofStanza e mem some_ ran).2.1 c.1 c.2) (topic, spec)

/-- Under a plane the bridge can walk, every spec has a type. -/
theorem typed_of_specIn {stanza : Yaml} {family : String} {directions : List String} {topic : Key}
    {spec : Yaml} (walkable : ∀ d ∈ directions, Walkable (stanza.at_ "ipc") family d)
    (here : SpecIn family directions stanza topic spec) : ∃ t, typeOf spec = some t := by
  obtain ⟨d, mem, t, inBlock, -⟩ := here
  exact Option.isSome_iff_exists.mp ((walkable d mem).2.2 (t, spec) inBlock)

/-- **The logger** shows exactly the declared topics, on documents the bridge can walk
and where each topic has a plane. -/
theorem discoverIpc_exact {l : Discovered} (one : OneType raw)
    (blocks : ∀ e ∈ raw.entries, (e.2.at_ "ipc").MapOrFalse)
    (walkable : ∀ e ∈ raw.entries, ∀ p ∈ planePairs, Walkable (e.2.at_ "ipc") p.1 p.2)
    (planes : ∀ topic ty, Declared raw topic ty → ∃ e ∈ raw.entries, HasType e.2 topic ty)
    (done : discoverIpc raw = .ok l) : Exact raw l.shown := by
  obtain ⟨-, -, bb, st, reads, subscribes, inReads, inSubscribes⟩ := discoverIpc_ok blocks walkable done
  -- every collected spec has a declared type
  have cell : ∀ topic spec, (topic, spec) ∈ bb →
      ∃ t, typeOf spec = some t ∧ Declared raw topic t := by
    intro topic spec mem
    obtain ⟨e, inRaw, here⟩ := (inReads topic spec).mp mem
    obtain ⟨t, typed⟩ := typed_of_specIn (walkable_of_mem (walkable e inRaw)).1 here
    exact ⟨t, typed, declared_of_hasType inRaw (hasType_iff.mpr ⟨spec, Or.inl here, typed⟩)⟩
  have frame : ∀ topic spec, (topic, spec) ∈ st →
      ∃ t, typeOf spec = some t ∧ Declared raw topic t := by
    intro topic spec mem
    obtain ⟨e, inRaw, here⟩ := (inSubscribes topic spec).mp mem
    obtain ⟨t, typed⟩ := typed_of_specIn (walkable_of_mem (walkable e inRaw)).2 here
    exact ⟨t, typed, declared_of_hasType inRaw (hasType_iff.mpr ⟨spec, Or.inr here, typed⟩)⟩
  intro topic ty
  unfold Discovered.shown
  rw [reads, subscribes]
  constructor
  · rintro (⟨spec, found, rfl⟩ | ⟨spec, found, rfl⟩)
    · exact cell topic spec (OrderedDict.mem_of_get?_ofList found)
    · exact frame topic spec (OrderedDict.mem_of_get?_ofList found)
  · rintro ⟨t, rfl, declared⟩
    obtain ⟨e, inRaw, typed⟩ := planes topic t declared
    obtain ⟨spec, inCell | inFrame, -⟩ := hasType_iff.mp typed
    · obtain ⟨spec', found, mem⟩ :=
        OrderedDict.exists_get?_ofList ((inReads topic spec).mpr ⟨e, inRaw, inCell⟩)
      obtain ⟨t', typed', declared'⟩ := cell topic spec' mem
      exact Or.inl ⟨spec', found, by rw [typed', one topic t t' declared declared']⟩
    · obtain ⟨spec', found, mem⟩ :=
        OrderedDict.exists_get?_ofList ((inSubscribes topic spec).mpr ⟨e, inRaw, inFrame⟩)
      obtain ⟨t', typed', declared'⟩ := frame topic spec' mem
      exact Or.inr ⟨spec', found, by rw [typed', one topic t t' declared declared']⟩

/-! ## All of them -/

theorem exists_topicTypes (fits : raw.MapOrFalse) (stanzas : ∀ e ∈ raw.entries, e.2.MapOrFalse)
    (blocks : ∀ e ∈ raw.entries, (e.2.at_ "ipc").MapOrFalse) : ∃ d, topicTypes raw = .ok d := by
  have all : ∀ e ∈ raw.entries, ∃ some_, stanzaTypes e.2 = .ok some_ :=
    fun e mem => ⟨_, stanzaTypes_ok.mpr ⟨stanzas e mem, blocks e mem, rfl⟩⟩
  obtain ⟨out, walked⟩ := exists_gather all
  simp only [topicTypes, except_bind_ok_iff]
  exact ⟨_, _, Yaml.items_orEmpty.mpr ⟨fits, rfl⟩, out, walked, rfl⟩

theorem exists_topicPlanes (fits : raw.MapOrFalse) (stanzas : ∀ e ∈ raw.entries, e.2.MapOrFalse)
    (blocks : ∀ e ∈ raw.entries, (e.2.at_ "ipc").MapOrFalse)
    (walkable : ∀ e ∈ raw.entries, ∀ p ∈ planePairs, Walkable (e.2.at_ "ipc") p.1 p.2) :
    ∃ d, topicPlanes raw = .ok d := by
  have all : ∀ e ∈ raw.entries, ∃ some_, stanzaPlanes e.2 = .ok some_ :=
    fun e mem => exists_stanzaPlanes.mpr ⟨stanzas e mem, blocks e mem, walkable e mem⟩
  obtain ⟨out, walked⟩ := exists_gather all
  simp only [topicPlanes, except_bind_ok_iff]
  exact ⟨_, _, Yaml.items_orEmpty.mpr ⟨fits, rfl⟩, out, walked, rfl⟩

theorem exists_discoverIpc (fits : raw.MapOrFalse) (stanzas : ∀ e ∈ raw.entries, e.2.MapOrFalse)
    (readable : Readable raw) : ∃ l, discoverIpc raw = .ok l := by
  have all : ∀ e ∈ raw.entries, ∃ some_, stanzaItems e.2 = .ok some_ :=
    fun e mem => exists_stanzaItems (stanzas e mem) (readable.blocks e mem) (readable.walkable e mem)
      (readable.listable e mem)
  obtain ⟨items, walked⟩ := exists_gather all
  have listed : ∀ c ∈ items.filterMap Item.channel?, ∃ e ∈ raw.entries, Listed e.2 c := by
    intro c mem
    obtain ⟨item, inItems, same⟩ := List.mem_filterMap.mp mem
    obtain ⟨e, inRaw, some_, ran, inSome⟩ := ((gather_ok walked).2 _).mp inItems
    refine ⟨e, inRaw, ?_⟩
    refine ((mem_stanzaItems (readable.blocks e inRaw) (readable.walkable e inRaw) ran).2.2 c).mp ?_
    exact List.mem_filterMap.mpr ⟨item, inSome, same⟩
  have comparable_ : ∀ a ∈ items.filterMap Item.channel?, ∀ b ∈ items.filterMap Item.channel?,
      a = b ∨ comparable a b = true := by
    intro a inA b inB
    obtain ⟨e, mem, listed_⟩ := listed a inA
    obtain ⟨e', mem', listed'⟩ := listed b inB
    exact readable.ordered e mem e' mem' a b listed_ listed'
  obtain ⟨listens, sorted⟩ := sortedSet_ok.mpr comparable_
  simp only [discoverIpc, except_bind_ok_iff]
  exact ⟨_, _, Yaml.items_orEmpty.mpr ⟨fits, rfl⟩, items, walked, listens, sorted, rfl⟩

end Readers

/-- **When all readers agree**: of the documents that load and declare each topic with
one type, exactly the readable ones are read alike by all. -/
theorem readers_agree_iff (floatText : Double → String) (raw : Yaml)
    (specs : OrderedDict String ServiceSpec) (loaded : parseServices floatText raw = .ok specs)
    (one : OneType raw) : ReadersAgree raw ↔ Readable raw := by
  obtain ⟨fits, maps⟩ := maps_of_parseServices loaded
  have stanzas : ∀ e ∈ raw.entries, e.2.MapOrFalse := fun e mem => Or.inr (maps e mem)
  constructor
  · rintro ⟨⟨d, cli, cliExact⟩, ⟨d', bridge, bridgeExact⟩, ⟨l, logger, -⟩⟩
    obtain ⟨walked, -⟩ := topicPlanes_ok bridge
    have blocks : ∀ e ∈ raw.entries, (e.2.at_ "ipc").MapOrFalse := fun e mem => (walked e mem).1
    have walkable : ∀ e ∈ raw.entries, ∀ p ∈ planePairs, Walkable (e.2.at_ "ipc") p.1 p.2 :=
      fun e mem => (walked e mem).2
    obtain ⟨listable, ordered, -⟩ := discoverIpc_ok blocks walkable logger
    exact ⟨blocks, walkable, listable, ordered, (topicTypes_exact one cli).mp cliExact,
      (topicPlanes_exact one bridge).mp bridgeExact⟩
  · intro readable
    obtain ⟨d, cli⟩ := exists_topicTypes fits stanzas readable.blocks
    obtain ⟨d', bridge⟩ := exists_topicPlanes fits stanzas readable.blocks readable.walkable
    obtain ⟨l, logger⟩ := exists_discoverIpc fits stanzas readable
    exact ⟨⟨d, cli, (topicTypes_exact one cli).mpr readable.checked⟩,
      ⟨d', bridge, (topicPlanes_exact one bridge).mpr readable.planes⟩,
      ⟨l, logger, discoverIpc_exact one readable.blocks readable.walkable readable.planes logger⟩⟩

/-! ## A camera in two layouts -/

/-- Everything a block writes under a direction, at its top or one level down. -/
def written (raw : Yaml) : List (Key × Yaml) :=
  raw.entries.flatMap fun e =>
    collect (e.2.at_ "ipc").entries ++
      (e.2.at_ "ipc").entries.flatMap fun family => collect family.2.entries

theorem mem_written {raw : Yaml} {topic : Key} {ty : Yaml} (declared : Declared raw topic ty) :
    (topic, ty) ∈ written raw := by
  obtain ⟨ipc, block, declares⟩ := declared
  obtain ⟨e, mem, here⟩ := at_of_block block
  refine List.mem_flatMap.mpr ⟨e, mem, ?_⟩
  rw [here]
  rcases declares with top | ⟨family, owner, inBlock, -, inFamily⟩
  · exact List.mem_append_left _ (mem_collect.mpr top)
  · exact List.mem_append_right _
      (List.mem_flatMap.mpr ⟨(family, .map owner), inBlock, mem_collect.mpr inFamily⟩)

theorem oneType_of_written {raw : Yaml} {only : Key × Yaml} (single : written raw = [only]) :
    OneType raw := by
  intro topic ty ty' declared declared'
  have first := mem_written declared
  have second := mem_written declared'
  rw [single, List.mem_singleton] at first second
  exact congrArg Prod.snd (first.trans second.symm)

namespace Demo

open Declarations.Demo

/-- A python service that publishes camera frames, with this `ipc` block. -/
def camera (ipc : Yaml) : Yaml :=
  dict [("camera", dict [("cmd", .seq [.str "python3", .str "camera.py"]), ("ipc", ipc)])]

def flatCamera : Yaml := camera (dict [("publishes", dict [("camera/rgb", .str "CameraFrame")])])

def groupedCamera : Yaml :=
  camera (dict [("streams", dict [("publishes", dict [("camera/rgb", .str "CameraFrame")])])])

end Demo

theorem readers_agree_iff_groupedCamera :
    ∃ specs, parseServices (fun _ => "") Demo.groupedCamera = .ok specs ∧
      OneType Demo.groupedCamera ∧
      (ReadersAgree Demo.groupedCamera ↔ Readable Demo.groupedCamera) := by
  have one : OneType Demo.groupedCamera := oneType_of_written rfl
  refine ⟨_, rfl, one, ?_⟩
  exact readers_agree_iff (fun _ => "") Demo.groupedCamera _ rfl one

/-- A camera that boots past the type check, and that `koyu get` finds, is invisible to
the bridge: the block is flat. -/
theorem flat_topic_unseen :
    (∃ specs, parseServices (fun _ => "") Demo.flatCamera = .ok specs) ∧
      typecheck Declarations.Demo.env Demo.flatCamera = .ok () ∧ OneType Demo.flatCamera ∧
      ¬ ReadersAgree Demo.flatCamera := by
  refine ⟨⟨_, rfl⟩, rfl, oneType_of_written rfl, ?_⟩
  rintro ⟨-, ⟨d, bridge, exact_⟩, -⟩
  have nothing : topicPlanes Demo.flatCamera = .ok ∅ := rfl
  rw [nothing] at bridge
  cases bridge
  have declared : Declared Demo.flatCamera (.str "camera/rgb") (.str "CameraFrame") := by
    refine ⟨_, ⟨.str "camera", _, List.mem_cons_self, rfl⟩, Or.inl ?_⟩
    exact ⟨"publishes", by decide, _, .str "camera/rgb", _, rfl, List.mem_cons_self, rfl, rfl⟩
  obtain ⟨v, found, -⟩ := (exact_ _ _).mpr ⟨_, rfl, declared⟩
  cases found

end KoyuRuntime.Services.IpcReaders
