/-
# Services.IpcLogger.Opened — what the logger's setup leaves

Each topic and each channel gets a log, but a later one of the same slug takes the
handler with it, and a later one of the same name the log.

* `Placed`: a log writes to the file some name of its slug asked for.
* `Opened`: every log is placed, and each topic has a reader and, of images, a ring.
* `setup_opened`: so it is whenever setup returns.
-/
import KoyuRuntime.Services.IpcLogger.Service

namespace KoyuRuntime.Services.IpcLogger

open Host Theory Ipc.Types ParamServer IpcReaders
open InboxRouting (slug)

set_option autoImplicit false

/-! ## Names -/

/-- Names that are texts. -/
def texts (keys : List Key) : List String :=
  keys.filterMap fun key =>
    match key with
    | .str name => some name
    | _ => none

/-- All topics and channels of a configuration. -/
def sources (ipc : Discovered) : List Source :=
  (texts ipc.reads.keys ++ texts ipc.subscribes.keys).map .topic ++ (texts ipc.listens).map .channel

theorem mem_texts {keys : List Key} {name : String} : name ∈ texts keys ↔ Key.str name ∈ keys := by
  simp only [texts, List.mem_filterMap]
  constructor
  · rintro ⟨key, mem, same⟩
    cases key with
    | str text =>
        cases same
        exact mem
    | null => cases same
    | number x => cases same
    | stamp kind text => cases same
  · exact fun mem => ⟨.str name, mem, rfl⟩

theorem topic_mem_sources {ipc : Discovered} {topic : String} :
    Source.topic topic ∈ sources ipc ↔
      Key.str topic ∈ ipc.reads.keys ∨ Key.str topic ∈ ipc.subscribes.keys := by
  simp [sources, mem_texts]

theorem channel_mem_sources {ipc : Discovered} {channel : String} :
    Source.channel channel ∈ sources ipc ↔ Key.str channel ∈ ipc.listens := by
  simp [sources, mem_texts]

theorem keys_topics {ipc : Discovered} {topic : String} (mem : Key.str topic ∈ (topics ipc).keys) :
    Source.topic topic ∈ sources ipc := by
  obtain ⟨spec, found⟩ := Option.isSome_iff_exists.mp (OrderedDict.mem_keys_iff.mp mem)
  rw [topic_mem_sources]
  rcases OrderedDict.get?_setAll_cases _ _ found with stream | cell
  · exact .inr (List.mem_map_of_mem stream)
  · exact .inl (OrderedDict.mem_keys_iff.mpr (by rw [cell]; rfl))

theorem topics_of_sources {ipc : Discovered} {topic : String} (mem : Source.topic topic ∈ sources ipc) :
    Key.str topic ∈ (topics ipc).keys :=
  OrderedDict.mem_keys_setAll _ _ (topic_mem_sources.mp mem)

/-! ## Set up -/

/-- A log that writes to the file of some name of its slug. -/
structure Placed (home : Path) (ipc : Discovered) (s : Logger) (a : Source) : Prop where
  log : s.logs.get? a.name = some (slug a.name)
  handler : ∃ b ∈ sources ipc, slug b.name = slug a.name ∧
    s.handlers.get? (slug a.name) = some (b.file home)

section Setup

variable {outside : Outside} {home : Path} {ipc : Discovered} {s s' : Logger}

/-- What opening one log changes. -/
theorem openLog_ok {source : Source} (opened : openLog outside home source s = .ok s') :
    s' = { s with
      handlers := s.handlers.set (slug source.name) (source.file home)
      logs := s.logs.set source.name (slug source.name) } := by
  unfold openLog at opened
  split at opened
  · cases opened
    rfl
  · cases opened

/-- A log that was just opened is placed, and all that were placed before still are. -/
theorem Placed.after {source : Source} (mem : source ∈ sources ipc)
    (handlers : s'.handlers = s.handlers.set (slug source.name) (source.file home))
    (logs : s'.logs = s.logs.set source.name (slug source.name)) :
    Placed home ipc s' source ∧ ∀ a, Placed home ipc s a → Placed home ipc s' a := by
  constructor
  · refine ⟨?_, source, mem, rfl, ?_⟩
    · rw [logs, OrderedDict.get?_set_self]
    · rw [handlers, OrderedDict.get?_set_self]
  · intro a placed
    obtain ⟨b, memB, same, handler⟩ := placed.handler
    constructor
    · rw [logs, OrderedDict.get?_set]
      split
      · rename_i sameName
        rw [sameName]
      · exact placed.log
    · rw [handlers, OrderedDict.get?_set]
      split
      · rename_i sameSlug
        exact ⟨source, mem, sameSlug, rfl⟩
      · exact ⟨b, memB, same, handler⟩

theorem openRing_ok {topic : String} {S : Struct} (opened : openRing outside home topic S s = .ok s') :
    s' = { s with rings := if isImage S then s.rings.set topic (ringDir home topic) else s.rings } := by
  unfold openRing at opened
  split at opened
  · rename_i image
    split at opened
    · cases opened
      rw [if_pos image]
    · cases opened
  · rename_i other
    cases opened
    rw [if_neg other]

/-- What opening one topic changes. -/
theorem openTopic_ok {e : Key × Yaml} (opened : openTopic outside home ipc s e = .ok s') :
    ∃ topic S, e.1 = .str topic ∧ structOf e.2 = .ok S ∧ s' = { s with
      readers := s.readers.set topic (planeOf ipc e.1, S)
      rings := if isImage S then s.rings.set topic (ringDir home topic) else s.rings
      logs := s.logs.set topic (slug topic)
      handlers := s.handlers.set (slug topic) ((Source.topic topic).file home) } := by
  obtain ⟨key, spec⟩ := e
  obtain ⟨S, found, later⟩ := except_bind_ok_iff.mp opened
  cases key with
  | str topic =>
      obtain ⟨mid, logged, rest⟩ := except_bind_ok_iff.mp later
      have made := openLog_ok logged
      subst made
      exact ⟨topic, S, rfl, found, openRing_ok rest⟩
  | null => cases later
  | number x => cases later
  | stamp kind text => cases later

/-- What opening one channel changes. -/
theorem openChannel_ok {key : Key} (opened : openChannel outside home s key = .ok s') :
    ∃ channel, key = .str channel ∧ s' = { s with
      handlers := s.handlers.set (slug channel) ((Source.channel channel).file home)
      logs := s.logs.set channel (slug channel)
      listeners := s.listeners ++ [channel] } := by
  cases key with
  | str channel =>
      obtain ⟨mid, logged, rest⟩ := except_bind_ok_iff.mp opened
      have made := openLog_ok logged
      subst made
      split at rest
      · cases rest
        exact ⟨channel, rfl, rfl⟩
      · cases rest
  | null => cases opened
  | number x => cases opened
  | stamp kind text => cases opened

end Setup

/-! ### The two loops -/

/-- What setup leaves. -/
structure Opened (home : Path) (ipc : Discovered) (s : Logger) : Prop where
  placed : ∀ a ∈ sources ipc, Placed home ipc s a
  reads : ∀ topic spec, (topics ipc).get? (.str topic) = some spec →
    ∃ S, structOf spec = .ok S ∧ s.readers.get? topic = some (planeOf ipc (.str topic), S) ∧
      ((s.rings.get? topic).isSome ↔ isImage S = true)
  readers : ∀ topic ∈ s.readers.keys, Key.str topic ∈ (topics ipc).keys
  listeners : ∀ channel, channel ∈ s.listeners ↔ Key.str channel ∈ ipc.listens
  unseen : s.last = ∅
  fresh : s.lines = []

section Loops

variable {outside : Outside} {home : Path} {ipc : Discovered} {s s' : Logger}

/-- An element that places the source it names, and leaves placed what was. -/
def Places (home : Path) (ipc : Discovered) (named : Option Source) (s s' : Logger) : Prop :=
  (∀ a, named = some a → Placed home ipc s' a) ∧ ∀ a, Placed home ipc s a → Placed home ipc s' a

/-- What a key names. -/
def namedBy (source : String → Source) : Key → Option Source
  | .str name => some (source name)
  | _ => none

theorem openTopic_places {e : Key × Yaml} (mem : e ∈ (topics ipc).entries)
    (opened : openTopic outside home ipc s e = .ok s') :
    Places home ipc (namedBy .topic e.1) s s' := by
  obtain ⟨topic, S, isName, -, made⟩ := openTopic_ok opened
  have declared : Source.topic topic ∈ sources ipc :=
    keys_topics (isName ▸ List.mem_map_of_mem mem)
  have after := Placed.after declared (congrArg Logger.handlers made) (congrArg Logger.logs made)
  refine ⟨?_, after.2⟩
  intro a same
  rw [isName] at same
  cases same
  exact after.1

theorem openChannel_places {key : Key} (mem : key ∈ ipc.listens)
    (opened : openChannel outside home s key = .ok s') : Places home ipc (namedBy .channel key) s s' := by
  obtain ⟨channel, rfl, made⟩ := openChannel_ok opened
  have after := Placed.after (channel_mem_sources.mpr mem) (congrArg Logger.handlers made)
    (congrArg Logger.logs made)
  refine ⟨?_, after.2⟩
  intro a same
  cases same
  exact after.1

/-- A loop places what its elements name. -/
theorem runs_places {E : Type} {step : Logger → E → Except Exn Logger} {named : E → Option Source}
    {l : List E} (run : runs step s l = .ok s')
    (each : ∀ e ∈ l, ∀ s s', step s e = .ok s' → Places home ipc (named e) s s') :
    (∀ e ∈ l, ∀ a, named e = some a → Placed home ipc s' a) ∧
      ∀ a, Placed home ipc s a → Placed home ipc s' a := by
  constructor
  · apply runs_each (fun _ _ => True) (fun e s => ∀ a, named e = some a → Placed home ipc s a)
      _ _ run (fun _ _ => trivial)
    · exact fun e mem s s' _ stepped => (each e mem s s' stepped).1
    · apply List.pairwise_of_forall_mem_list
      intro e _ f mem
      refine ⟨fun _ _ _ _ => trivial, fun s s' stepped before a isNamed => ?_⟩
      exact (each f mem s s' stepped).2 a (before a isNamed)
  · intro a placed
    apply runs_invariant_of_mem (fun s => Placed home ipc s a) _ run placed
    exact fun e mem s s' kept stepped => (each e mem s s' stepped).2 a kept

/-- The topic's entry of `_readers` and of `_rings`. -/
def ReadAs (ipc : Discovered) (e : Key × Yaml) (s : Logger) : Prop :=
  ∀ topic, e.1 = .str topic → ∃ S, structOf e.2 = .ok S ∧
    s.readers.get? topic = some (planeOf ipc e.1, S) ∧ ((s.rings.get? topic).isSome ↔ isImage S = true)

/-- The topic has no ring yet. -/
def Ringless (e : Key × Yaml) (s : Logger) : Prop :=
  ∀ topic, e.1 = .str topic → s.rings.get? topic = none

theorem openTopic_readAs {e : Key × Yaml} (ringless : Ringless e s)
    (opened : openTopic outside home ipc s e = .ok s') : ReadAs ipc e s' := by
  obtain ⟨topic, S, isName, found, rfl⟩ := openTopic_ok opened
  intro name same
  cases isName.symm.trans same
  refine ⟨S, found, OrderedDict.get?_set_self _ _ _, ?_⟩
  by_cases image : isImage S = true
  · simp [image]
  · simp [image, ringless topic isName]

/-- A topic's entries are left alone by the others. -/
theorem openTopic_other {e f : Key × Yaml} (other : e.1 ≠ f.1)
    (opened : openTopic outside home ipc s e = .ok s') :
    (Ringless f s → Ringless f s') ∧ (ReadAs ipc f s → ReadAs ipc f s') := by
  obtain ⟨topic, S, isName, -, rfl⟩ := openTopic_ok opened
  have ne : ∀ name, f.1 = .str name → topic ≠ name := by
    rintro name isName' rfl
    exact other (isName.trans isName'.symm)
  have rings : ∀ name, f.1 = .str name →
      (if isImage S then s.rings.set topic (ringDir home topic) else s.rings).get? name = s.rings.get? name := by
    intro name isName'
    split
    · exact OrderedDict.get?_set_ne _ _ (ne name isName')
    · rfl
  constructor
  · intro ringless name isName'
    exact (rings name isName').trans (ringless name isName')
  · intro reads name isName'
    obtain ⟨T, found, reader, ring⟩ := reads name isName'
    refine ⟨T, found, ?_, ?_⟩
    · exact (OrderedDict.get?_set_ne _ _ (ne name isName')).trans reader
    · rw [← ring]
      exact iff_of_eq (congrArg (fun ring => Option.isSome ring = true) (rings name isName'))

/-- The first loop opens a reader for each topic, and for nothing else. -/
theorem topics_read (run : runs (openTopic outside home ipc) .new (topics ipc).entries = .ok s) :
    (∀ e ∈ (topics ipc).entries, ReadAs ipc e s) ∧
      (∀ topic ∈ s.readers.keys, Key.str topic ∈ (topics ipc).keys) ∧
      s.listeners = [] ∧ s.last = ∅ ∧ s.lines = [] := by
  have distinct : (topics ipc).entries.Pairwise fun e f => e.1 ≠ f.1 :=
    List.pairwise_map.mp (topics ipc).nodup
  constructor
  · apply runs_each Ringless (ReadAs ipc) _ _ run (fun _ _ _ _ => rfl)
    · exact fun e _ s s' ringless opened => openTopic_readAs ringless opened
    · refine distinct.imp fun other => ⟨fun s s' opened => ?_, fun s s' opened => ?_⟩
      · exact (openTopic_other other opened).1
      · exact (openTopic_other other.symm opened).2
  · apply runs_invariant_of_mem (fun s => (∀ topic ∈ s.readers.keys, Key.str topic ∈ (topics ipc).keys) ∧
      s.listeners = [] ∧ s.last = ∅ ∧ s.lines = []) _ run ⟨fun _ none_ => (List.not_mem_nil none_).elim, rfl, rfl, rfl⟩
    rintro e mem s s' ⟨readers, rest⟩ opened
    obtain ⟨topic, S, isName, -, rfl⟩ := openTopic_ok opened
    refine ⟨?_, rest⟩
    intro name inKeys
    rcases OrderedDict.mem_keys_set.mp inKeys with rfl | old
    · exact isName ▸ List.mem_map_of_mem mem
    · exact readers name old

/-- The second loop listens on each channel, and changes no reader. -/
theorem channels_listened {channels : List Key} (run : runs (openChannel outside home) s channels = .ok s') :
    s'.listeners = s.listeners ++ texts channels ∧ s'.readers = s.readers ∧ s'.rings = s.rings ∧
      s'.last = s.last ∧ s'.lines = s.lines := by
  induction channels generalizing s with
  | nil =>
      cases run
      exact ⟨(List.append_nil _).symm, rfl, rfl, rfl, rfl⟩
  | cons key rest ih =>
      obtain ⟨mid, first, later⟩ := runs_cons_ok.mp run
      obtain ⟨channel, rfl, rfl⟩ := openChannel_ok first
      obtain ⟨listeners, same⟩ := ih later
      refine ⟨?_, same⟩
      rw [listeners, List.append_assoc]
      rfl

/-- **Setup**: every log is placed, and every topic has its reader. -/
theorem setup_opened (started : setup outside home ipc = .ok s) : Opened home ipc s := by
  obtain ⟨mid, topicLoop, channelLoop⟩ := except_bind_ok_iff.mp started
  obtain ⟨reads, readers, none_, unseen, fresh⟩ := topics_read topicLoop
  have ofTopics := (runs_places topicLoop fun e mem _ _ => openTopic_places mem).1
  obtain ⟨ofChannels, kept⟩ := runs_places channelLoop fun key mem _ _ => openChannel_places mem
  obtain ⟨listeners, sameReaders, sameRings, sameLast, sameLines⟩ := channels_listened channelLoop
  refine ⟨?_, ?_, ?_, ?_, sameLast.trans unseen, sameLines.trans fresh⟩
  · intro a mem
    cases a with
    | topic name =>
        obtain ⟨e, inEntries, isName⟩ := List.mem_map.mp (topics_of_sources mem)
        exact kept _ (ofTopics e inEntries _ (by rw [isName]; rfl))
    | channel name => exact ofChannels _ (channel_mem_sources.mp mem) _ rfl
  · intro topic spec found
    rw [sameReaders, sameRings]
    exact reads _ (OrderedDict.mem_of_find found) topic rfl
  · rw [sameReaders]
    exact readers
  · intro channel
    rw [listeners, none_, List.nil_append, mem_texts]

end Loops

end KoyuRuntime.Services.IpcLogger
