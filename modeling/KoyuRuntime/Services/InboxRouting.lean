/-
# Services.InboxRouting — which inbox a topic's requests go to

A topic's name becomes the name of its inbox directory by one replacement, `~` for `/`,
and the path is interpreted by `pathlib` and the file system: an empty name and a dot stay
in the directory of all inboxes, two dots leave it.

* `inboxDir_eq`: where the inbox of a topic is.
* `Sound`: what every run keeps true of the tree.
* `Routed`: the requests for one topic come out of its inbox, and another one's drain
  leaves them alone.
* `routing_iff`: for which pairs of topics that holds, and whose inbox lies in the
  directory of inboxes.
-/
import KoyuRuntime.Services.InboxProtocol.Directory
import KoyuRuntime.Theory.DirTreeWays
import KoyuRuntime.Host.Paths

namespace KoyuRuntime.Services.InboxRouting

open Host Theory InboxProtocol

set_option autoImplicit false

/-! ## The model -/

/-- `slug`, which the bridge, the param server and the command line each repeat. -/
def slug (topic : String) : String :=
  String.ofList (topic.toList.map fun c => if c = '/' then '~' else c)

/-- A request on its way: the topic it was submitted for, and the call. -/
structure Letter where
  topic : String
  call : Call

/-- The runtime's files.  Of files that hold no request only their being there counts. -/
abbrev Tree := DirTree String (Option Letter)

/-- `service_dir(home, "param_server")`. -/
def serviceDir (home : Path) : Path := home ++ ["services", "param_server"]

/-- The directory of all inboxes. -/
def inboxes (home : Path) : Path := serviceDir home ++ ["inbox"]

/-- `inbox_path(home, "param_server", slug(topic))`, as it is spelled below the runtime. -/
def inboxHops (topic : String) : List (Hop String) :=
  [.into "services", .into "param_server", .into "inbox"] ++ parts (slug topic).toList

/-- The inbox path after normalisation. -/
def inboxDir (home : Path) (topic : String) : Path := DirTree.land home (inboxHops topic)

/-- `Inbox.__init__` on a topic's inbox path. -/
def openInbox (home : Path) (topic : String) : EStateM TreeError Tree Path :=
  DirTree.makeWay legalName home (inboxHops topic)

/-- The file steps of `submit`: the hidden file, and its rename. -/
def publish (dir : Path) (letter : Letter) : EStateM TreeError Tree Unit := fun t =>
  match t.writeFile (dir ++ [letter.call.tmpName]) (some letter) with
  | .error e => .error e t
  | .ok t =>
      match t.rename (dir ++ [letter.call.tmpName]) (dir ++ [letter.call.fileName]) with
      | .error e => .error e t
      | .ok t => .ok () t

/-- `Inbox(inbox_path(...)).submit(req)`, as `_cmd_set` and the bridge's `set-param` run it. -/
def submit (home : Path) (topic : String) (call : Call) : EStateM TreeError Tree Unit := do
  let dir ← openInbox home topic
  publish dir ⟨topic, call⟩

/-- `sorted(self.dir.glob("*.json"))`. -/
def jsonNames (t : Tree) (dir : Path) : List String :=
  ((t.children dir).filter jsonFile).insertionSort (· ≤ ·)

/-- The loop of `drain`: every file is read and then unlinked. -/
def drainFiles (dir : Path) : List String → EStateM TreeError Tree (List (Option Letter))
  | [] => fun t => .ok [] t
  | name :: rest => fun t =>
      match t.get? (dir ++ [name]) with
      | none => .error .notFound t
      | some .dir => .error .isDirectory t
      | some (.file content) =>
          match drainFiles dir rest (t.prune (dir ++ [name])) with
          | .ok out t' => .ok (content :: out) t'
          | .error e t' => .error e t'

/-- `drain` of a topic's inbox; the glob of a directory that is not there is empty. -/
def drain (home : Path) (topic : String) : EStateM TreeError Tree (List (Option Letter)) := fun t =>
  match DirTree.resolve legalName t home (inboxHops topic) with
  | .ok dir => drainFiles dir (jsonNames t dir) t
  | .error _ => .ok [] t

inductive Action where
  /-- `koyu set`, or the bridge's `set-param` for a topic that is not empty. -/
  | submit (topic : String) (call : Call)
  /-- `ParamServer.setup` makes the topic's inbox. -/
  | setUp (topic : String)
  /-- The topic's share of `ParamServer.on_tick`. -/
  | drain (topic : String)

/-- Whether a call returns or raises, the run goes on with what it left. -/
def step (home : Path) (t : Tree) : Action → Except Empty Tree
  | .submit topic call => .ok (left (submit home topic call t))
  | .setUp topic => .ok (left (openInbox home topic t))
  | .drain topic => .ok (left (drain home topic t))

/-! ## Where an inbox is -/

section Slug

variable (home : Path) (topic : String)

theorem slug_plain : '/' ∉ (slug topic).toList := by
  rw [slug, String.toList_ofList]
  intro mem
  obtain ⟨c, -, same⟩ := List.mem_map.mp mem
  split at same
  · exact absurd same (by decide)
  · rename_i other
    exact other same

/-- A slug is a name without `/` and `~` only if the topic is that name. -/
theorem slug_eq_iff {name : String} (slash : '/' ∉ name.toList) (tilde : '~' ∉ name.toList) :
    slug topic = name ↔ topic = name := by
  have same : ∀ cs : List Char, '/' ∉ cs → cs.map (fun c => if c = '/' then '~' else c) = cs := by
    intro cs plain
    refine (List.map_congr_left fun c mem => ?_).trans (List.map_id cs)
    rw [if_neg, id]
    rintro rfl
    exact plain mem
  constructor
  · intro eq
    have plain : '/' ∉ topic.toList := by
      intro mem
      refine tilde ?_
      rw [← eq, slug, String.toList_ofList]
      exact List.mem_map.mpr ⟨'/', mem, rfl⟩
    rw [← eq, slug, same _ plain, String.ofList_toList]
  · rintro rfl
    rw [slug, same _ slash, String.ofList_toList]

/-- A path has no component for an empty slug and for a dot. -/
theorem parts_slug : parts (slug topic).toList =
    if topic = "" ∨ topic = "." then []
    else if topic = ".." then [.up] else [.into (slug topic)] := by
  have chars : ∀ name : String, (slug topic).toList = name.toList ↔ slug topic = name :=
    fun name => String.toList_inj
  have empty := (chars "").trans (slug_eq_iff topic (by decide) (by decide))
  have dot := (chars ".").trans (slug_eq_iff topic (by decide) (by decide))
  have dots := (chars "..").trans (slug_eq_iff topic (by decide) (by decide))
  rw [parts, splitSlash_of_not_mem (slug_plain topic)]
  by_cases stays : topic = "" ∨ topic = "."
  · have improper : proper (slug topic).toList = false := by
      rcases stays with same | same
      · simp [proper, show (slug topic).toList = [] from empty.mpr same]
      · simp [proper, show (slug topic).toList = ['.'] from dot.mpr same]
    rw [if_pos stays, List.filter_cons_of_neg (by simp [improper])]
    rfl
  · rw [not_or] at stays
    have isProper : proper (slug topic).toList = true := by
      have first : (slug topic).toList ≠ [] := fun same => stays.1 (empty.mp same)
      have second : (slug topic).toList ≠ ['.'] := fun same => stays.2 (dot.mp same)
      simp [proper, first, second]
    rw [if_neg (not_or.mpr stays), List.filter_cons_of_pos isProper]
    by_cases up : topic = ".."
    · have same : (slug topic).toList = ['.', '.'] := dots.mpr up
      rw [if_pos up]
      show [hopOf (slug topic).toList] = [.up]
      rw [same]
      rfl
    · have other : (slug topic).toList ≠ ['.', '.'] := fun same => up (dots.mp same)
      simp [up, hopOf, other]

/-- **Where the inbox is.** -/
theorem inboxDir_eq : inboxDir home topic =
    if topic = "" ∨ topic = "." then inboxes home
    else if topic = ".." then serviceDir home else inboxes home ++ [slug topic] := by
  have base : DirTree.land home [.into "services", .into "param_server", .into "inbox"] = inboxes home := by
    simp [DirTree.land, inboxes, serviceDir]
  rw [inboxDir, inboxHops, DirTree.land_append, base, parts_slug]
  split
  · rfl
  · split
    · simp [DirTree.land, inboxes]
    · rfl

end Slug

/-! ## What every run keeps true -/

/-- Where directories lie: in the directory of inboxes, but no deeper, and where the
param server's own files are, but not under a name it would read as a request. -/
structure Allowed (home p : Path) : Prop where
  shallow : inboxes home <+: p → p.length ≤ (inboxes home).length + 1
  named : ∀ name, p = serviceDir home ++ [name] → jsonFile name = false

/-- Can the file system name the topic's inbox? -/
def Nameable (topic : String) : Prop := legalName (slug topic) = true

instance (topic : String) : Decidable (Nameable topic) := inferInstanceAs (Decidable (_ = true))

/-- What every run keeps true of the tree. -/
structure Sound (home : Path) (t : Tree) : Prop where
  rooted : t.Rooted
  there : t.isDir home = true
  dirs : ∀ p, t.get? p = some .dir → Allowed home p
  /-- A request lies in the inbox of its topic, and the path leads there. -/
  letters : ∀ p l, t.get? p = some (.file (some l)) →
    Nameable l.topic ∧ DirTree.resolve legalName t home (inboxHops l.topic) = .ok (inboxDir home l.topic) ∧
      ∃ name, p = inboxDir home l.topic ++ [name]

/-- A runtime to which nothing has been submitted yet. -/
structure Fresh (home : Path) (t : Tree) : Prop where
  sound : Sound home t
  unused : ∀ p l, t.get? p ≠ some (.file (some l))

section Kept

variable {home : Path} {t t' : Tree} {topic : String} {call : Call}

/-- By length: of the param server's children only the directory of inboxes is one. -/
theorem allowed_of_length {p : Path} (length : (p.length ≤ (serviceDir home).length ∨
    p.length = (inboxes home).length + 1) ∨ p = inboxes home) : Allowed home p := by
  have long : (inboxes home).length = (serviceDir home).length + 1 := by simp [inboxes]
  rcases length with length | rfl
  · constructor
    · intro below
      have := below.length_le
      omega
    · rintro name rfl
      simp only [List.length_append, List.length_singleton] at length
      omega
  · constructor
    · exact fun _ => Nat.le_succ _
    · intro name same
      have child : "inbox" = name := by simpa [inboxes] using same
      subst child
      decide

/-- On the way to an inbox every directory lies where directories may. -/
theorem allowed_land {front : List (Hop String)} (prefix_ : front <+: inboxHops topic) :
    Allowed home (DirTree.land home front) := by
  have tail : parts (slug topic).toList = [] ∨ parts (slug topic).toList = [.up] ∨
      parts (slug topic).toList = [.into (slug topic)] := by
    rw [parts_slug]
    split
    · exact Or.inl rfl
    · split
      · exact Or.inr (Or.inl rfl)
      · exact Or.inr (Or.inr rfl)
  apply allowed_of_length
  have listed := (List.mem_inits front (inboxHops topic)).mpr prefix_
  rw [inboxHops] at listed
  rcases tail with none_ | up | into
  · simp only [none_, List.append_nil, List.inits, List.map_cons, List.map_nil, List.mem_cons,
      List.not_mem_nil, or_false] at listed
    rcases listed with rfl | rfl | rfl | rfl <;> simp [DirTree.land, serviceDir, inboxes]
  · simp only [up, List.cons_append, List.nil_append, List.inits, List.map_cons, List.map_nil,
      List.mem_cons, List.not_mem_nil, or_false] at listed
    rcases listed with rfl | rfl | rfl | rfl | rfl <;> simp [DirTree.land, serviceDir, inboxes]
  · simp only [into, List.cons_append, List.nil_append, List.inits, List.map_cons, List.map_nil,
      List.mem_cons, List.not_mem_nil, or_false] at listed
    rcases listed with rfl | rfl | rfl | rfl | rfl <;> simp [DirTree.land, serviceDir, inboxes]

theorem legal_hops (nameable : Nameable topic) {name : String} (mem : .into name ∈ inboxHops topic) :
    legalName name = true := by
  rw [inboxHops, parts_slug] at mem
  rcases List.mem_append.mp mem with fixed | own
  · simp only [List.mem_cons, Hop.into.injEq, List.not_mem_nil, or_false] at fixed
    rcases fixed with rfl | rfl | rfl <;> decide +kernel
  · split at own
    · cases own
    · split at own
      · cases List.mem_singleton.mp own
      · cases List.mem_singleton.mp own
        exact nameable

theorem nameable_of_hops (names : ∀ name, .into name ∈ inboxHops topic → legalName name = true) :
    Nameable topic := by
  have dotName (name : String) (same : topic = name) (slash : '/' ∉ name.toList)
      (tilde : '~' ∉ name.toList) (legal : legalName name = true) : Nameable topic := by
    rw [Nameable, (slug_eq_iff topic slash tilde).mpr same]
    exact legal
  rw [inboxHops, parts_slug] at names
  split at names
  · rename_i stays
    rcases stays with same | same
    · exact dotName "" same (by decide) (by decide) (by decide +kernel)
    · exact dotName "." same (by decide) (by decide) (by decide +kernel)
  · split at names
    · rename_i up
      exact dotName ".." up (by decide) (by decide) (by decide +kernel)
    · exact names _ (List.mem_append_right _ List.mem_cons_self)

/-! ### One step each -/

theorem Sound.made (sound : Sound home t) (made : DirTree.WayMade t home (inboxHops topic) t') :
    Sound home t' := by
  have kept : ∀ p, t.get? p = some .dir → t'.get? p = some .dir :=
    fun p isDir => (made.grows p (by simp [isDir])).trans isDir
  refine ⟨made.rooted, ?_, fun p isDir => ?_, fun p l letter => ?_⟩
  · rcases DirTree.isDir_iff.mp sound.there with root | found
    · exact DirTree.isDir_iff.mpr (Or.inl root)
    · exact DirTree.isDir_iff.mpr (Or.inr (kept home found))
  · rcases made.read p with same | ⟨-, -, front, prefix_, rfl⟩
    · exact sound.dirs p (same ▸ isDir)
    · exact allowed_land prefix_
  · rcases made.read p with same | ⟨isDir, -⟩
    · obtain ⟨nameable, walked, placed⟩ := sound.letters p l (same ▸ letter)
      exact ⟨nameable, DirTree.resolve_congr legalName kept walked, placed⟩
    · rw [isDir] at letter
      cases letter

/-- An opened inbox is where the path leads. -/
theorem openInbox_spec (sound : Sound home t) (topic : String) :
    DirTree.WayMade t home (inboxHops topic) (left (openInbox home topic t)) ∧
      ∀ dir t', openInbox home topic t = .ok dir t' →
        DirTree.resolve legalName t' home (inboxHops topic) = .ok dir ∧ Nameable topic := by
  refine ⟨DirTree.makeWay_leaves sound.rooted sound.there (inboxHops topic), fun dir t' opened => ?_⟩
  obtain ⟨walked, names⟩ := DirTree.makeWay_walked sound.rooted sound.there opened
  exact ⟨walked, nameable_of_hops names⟩

theorem Sound.filesDiffer {dir : Path} (sound : Sound home t) (differ : DirTree.FilesDiffer dir t t')
    (there : t.isDir dir = true)
    (letters : ∀ p l, t'.get? p = some (.file (some l)) → t.get? p ≠ t'.get? p →
      Nameable l.topic ∧ DirTree.resolve legalName t home (inboxHops l.topic) = .ok (inboxDir home l.topic) ∧
        ∃ name, p = inboxDir home l.topic ++ [name]) : Sound home t' := by
  refine ⟨differ.rooted sound.rooted there, (differ.isDir home).trans sound.there,
    fun p isDir => sound.dirs p ((differ.dir_iff p).mp isDir), fun p l letter => ?_⟩
  obtain ⟨nameable, walked, placed⟩ : Nameable l.topic ∧
      DirTree.resolve legalName t home (inboxHops l.topic) = .ok (inboxDir home l.topic) ∧
        ∃ name, p = inboxDir home l.topic ++ [name] := by
    by_cases same : t.get? p = t'.get? p
    · exact sound.letters p l (same.trans letter)
    · exact letters p l letter same
  exact ⟨nameable, DirTree.resolve_congr legalName (fun p => (differ.dir_iff p).mpr) walked, placed⟩

/-- Files of an inbox that is open change, and the only new letter is one for its topic. -/
theorem Sound.filed {dir : Path} (sound : Sound home t) (own : Letter)
    (walked : DirTree.resolve legalName t home (inboxHops own.topic) = .ok dir)
    (nameable : Nameable own.topic) (differ : DirTree.FilesDiffer dir t t')
    (letters : ∀ p l, t'.get? p = some (.file (some l)) →
      t.get? p = some (.file (some l)) ∨ l = own ∧ ∃ name, p = dir ++ [name]) : Sound home t' := by
  have there : t.isDir dir = true := sound.rooted.resolve_isDir sound.there walked
  have at_ : dir = inboxDir home own.topic := DirTree.resolve_land walked
  refine sound.filesDiffer differ there fun p l letter changed => ?_
  rcases letters p l letter with old | ⟨rfl, name, rfl⟩
  · exact absurd (old.trans letter.symm) changed
  · exact ⟨nameable, at_ ▸ walked, name, by rw [at_]⟩

/-- **Publishing** in an inbox that is open. -/
theorem publish_spec (call : Call) {dir : Path} (sound : Sound home t)
    (walked : DirTree.resolve legalName t home (inboxHops topic) = .ok dir) (nameable : Nameable topic) :
    Sound home (left (publish dir ⟨topic, call⟩ t)) ∧
      (∀ t', publish dir ⟨topic, call⟩ t = .ok () t' →
        t'.get? (dir ++ [call.fileName]) = some (.file (some ⟨topic, call⟩))) ∧
      (t.isDir (dir ++ [call.tmpName]) = false → t.isDir (dir ++ [call.fileName]) = false →
        ∃ t', publish dir ⟨topic, call⟩ t = .ok () t') := by
  have there : t.isDir dir = true := sound.rooted.resolve_isDir sound.there walked
  unfold publish
  cases written : t.writeFile (dir ++ [call.tmpName]) (some ⟨topic, call⟩) with
  | error e =>
      refine ⟨sound, (fun _ done => by cases done), fun noDir _ => ?_⟩
      have fine := DirTree.writeFile_ok_iff.mpr
        ⟨by simpa using there, noDir, (rfl : t.set (dir ++ [call.tmpName]) (.file (some ⟨topic, call⟩)) = _)⟩
      rw [written] at fine
      cases fine
  | ok t₁ =>
      have differ := DirTree.FilesDiffer.write written
      obtain ⟨-, -, set⟩ := DirTree.writeFile_ok_iff.mp written
      have reads (q : Path) : t₁.get? q =
          if dir ++ [call.tmpName] = q then some (.file (some ⟨topic, call⟩)) else t.get? q := by
        rw [set, DirTree.get?_set]
      have file : t₁.get? (dir ++ [call.tmpName]) = some (.file (some ⟨topic, call⟩)) := by
        rw [reads, if_pos rfl]
      have sound₁ : Sound home t₁ := by
        refine sound.filed ⟨topic, call⟩ walked nameable differ fun p l letter => ?_
        rw [reads] at letter
        split at letter
        · rename_i same
          cases letter
          exact Or.inr ⟨rfl, _, same.symm⟩
        · exact Or.inl letter
      have walked₁ : DirTree.resolve legalName t₁ home (inboxHops topic) = .ok dir :=
        DirTree.resolve_congr legalName (fun p => (differ.dir_iff p).mpr) walked
      have apart := Call.tmpName_ne_fileName call call
      rcases DirTree.rename_file sound₁.rooted apart file with ⟨isDir, refused⟩ | ⟨t₂, renamed, -, reads₂⟩
      · simp only [refused]
        refine ⟨sound₁, (fun _ done => by cases done), fun _ noDir => ?_⟩
        rw [← differ.isDir, DirTree.isDir_iff.mpr (Or.inr isDir)] at noDir
        cases noDir
      · have differ₂ := DirTree.FilesDiffer.rename sound₁.rooted apart file renamed
        simp only [renamed]
        have sound₂ : Sound home t₂ := by
          refine sound₁.filed ⟨topic, call⟩ walked₁ nameable differ₂ fun p l letter => ?_
          rw [reads₂] at letter
          split at letter
          · rename_i same
            cases letter
            exact Or.inr ⟨rfl, _, same.symm⟩
          · split at letter
            · cases letter
            · exact Or.inl letter
        refine ⟨sound₂, fun t' done => ?_, fun _ _ => ⟨t₂, rfl⟩⟩
        cases done
        rw [reads₂, if_pos rfl]

theorem submit_eq (home : Path) (topic : String) (call : Call) (t : Tree) :
    submit home topic call t = match openInbox home topic t with
      | .ok dir t₁ => publish dir ⟨topic, call⟩ t₁
      | .error e t₁ => .error e t₁ := by
  show EStateM.bind _ _ t = _
  unfold EStateM.bind
  cases openInbox home topic t with
  | ok dir t₁ => rfl
  | error e t₁ => rfl

/-- **A submit** keeps the tree sound, and if it returns, its request lies in the inbox. -/
theorem submit_spec (sound : Sound home t) (topic : String) (call : Call) :
    Sound home (left (submit home topic call t)) ∧
      ∀ t', submit home topic call t = .ok () t' →
        t'.get? (inboxDir home topic ++ [call.fileName]) = some (.file (some ⟨topic, call⟩)) := by
  obtain ⟨made, ends⟩ := openInbox_spec sound topic
  have sound' := sound.made made
  rw [submit_eq]
  cases opened : openInbox home topic t with
  | error e t₁ =>
      rw [opened] at sound'
      exact ⟨sound', fun _ done => by cases done⟩
  | ok dir t₁ =>
      rw [opened] at sound'
      obtain ⟨walked, nameable⟩ := ends dir t₁ opened
      obtain ⟨after, lands, -⟩ := publish_spec call sound' walked nameable
      refine ⟨after, fun t' done => ?_⟩
      rw [inboxDir, ← DirTree.resolve_land walked]
      exact lands t' done

/-- **The loop of a drain** removes files of the directory, and nothing else. -/
theorem drainFiles_spec {dir : Path} (rooted : t.Rooted) (there : t.isDir dir = true) (names : List String) :
    DirTree.FilesDiffer dir t (left (drainFiles dir names t)) ∧
      ∀ q, (left (drainFiles dir names t)).get? q = t.get? q ∨
        (left (drainFiles dir names t)).get? q = none := by
  induction names generalizing t with
  | nil => exact ⟨.refl dir t, fun _ => Or.inl rfl⟩
  | cons name rest ih =>
      unfold drainFiles
      cases found : t.get? (dir ++ [name]) with
      | none => exact ⟨.refl dir t, fun _ => Or.inl rfl⟩
      | some node =>
          cases node with
          | dir => exact ⟨.refl dir t, fun _ => Or.inl rfl⟩
          | file c =>
              have first := DirTree.FilesDiffer.prune rooted found
              obtain ⟨later, fewer⟩ := ih (first.rooted rooted there) ((first.isDir dir).trans there)
              have read (q : Path) : (t.prune (dir ++ [name])).get? q = t.get? q ∨
                  (t.prune (dir ++ [name])).get? q = none := by
                rw [DirTree.prune_file rooted found]
                split
                · exact Or.inr rfl
                · exact Or.inl rfl
              have both (q : Path) : (left (drainFiles dir rest (t.prune (dir ++ [name])))).get? q = t.get? q ∨
                  (left (drainFiles dir rest (t.prune (dir ++ [name])))).get? q = none := by
                rcases fewer q with same | gone
                · rw [same]
                  exact read q
                · exact Or.inr gone
              dsimp only
              cases ran : drainFiles dir rest (t.prune (dir ++ [name])) with
              | ok out t' =>
                  rw [ran] at later both
                  exact ⟨first.trans later, both⟩
              | error e t' =>
                  rw [ran] at later both
                  exact ⟨first.trans later, both⟩

/-- Where a drain looks: at the topic's inbox, if that is there. -/
theorem drain_eq (home : Path) (topic : String) (t : Tree) :
    drain home topic t = .ok [] t ∨
      DirTree.resolve legalName t home (inboxHops topic) = .ok (inboxDir home topic) ∧
        drain home topic t = drainFiles (inboxDir home topic) (jsonNames t (inboxDir home topic)) t := by
  unfold drain
  cases walked : DirTree.resolve legalName t home (inboxHops topic) with
  | error e => exact Or.inl rfl
  | ok dir =>
      have at_ : dir = inboxDir home topic := DirTree.resolve_land walked
      exact Or.inr ⟨by rw [at_], by rw [at_]⟩

/-- **A drain** removes files of the topic's inbox, and nothing else. -/
theorem drain_spec (sound : Sound home t) (topic : String) :
    DirTree.FilesDiffer (inboxDir home topic) t (left (drain home topic t)) ∧
      Sound home (left (drain home topic t)) := by
  rcases drain_eq home topic t with nothing | ⟨walked, ran⟩
  · rw [nothing]
    exact ⟨.refl _ t, sound⟩
  · have there := sound.rooted.resolve_isDir sound.there walked
    obtain ⟨differ, fewer⟩ := drainFiles_spec sound.rooted there (jsonNames t (inboxDir home topic))
    rw [← ran] at differ fewer
    refine ⟨differ, sound.filesDiffer differ there fun p l letter changed => ?_⟩
    rcases fewer p with same | gone
    · exact absurd same.symm changed
    · rw [gone] at letter
      cases letter

/-- **One step** keeps the tree sound. -/
theorem Sound.next {a : Action} (sound : Sound home t) (stepped : step home t a = .ok t') : Sound home t' := by
  cases a with
  | submit topic call =>
      cases stepped
      exact (submit_spec sound topic call).1
  | setUp topic =>
      cases stepped
      exact sound.made (openInbox_spec sound topic).1
  | drain topic =>
      cases stepped
      exact (drain_spec sound topic).2

theorem reach_sound (reach : Reachable (step home) (Fresh home) t) : Sound home t :=
  reach.invariant (fun _ fresh => fresh.sound) fun _ _ _ sound stepped => sound.next stepped

/-! ### What a drain returns -/

theorem mem_jsonNames {dir : Path} {name : String} :
    name ∈ jsonNames t dir ↔ t.get? (dir ++ [name]) ≠ none ∧ jsonFile name = true := by
  rw [jsonNames, (List.perm_insertionSort _ _).mem_iff, List.mem_filter, DirTree.mem_children]

theorem nodup_jsonNames (t : Tree) (dir : Path) : (jsonNames t dir).Nodup :=
  (List.perm_insertionSort _ _).nodup_iff.mpr ((t.nodup_children dir).filter _)

/-- Over files the loop returns all of them, and none is left. -/
theorem drainFiles_files {dir : Path} (rooted : t.Rooted) (there : t.isDir dir = true) {names : List String}
    (distinct : names.Nodup) (files : ∀ name ∈ names, ∃ c, t.get? (dir ++ [name]) = some (.file c)) :
    ∃ out t', drainFiles dir names t = .ok out t' ∧
      ∀ name ∈ names, ∀ c, t.get? (dir ++ [name]) = some (.file c) →
        c ∈ out ∧ t'.get? (dir ++ [name]) = none := by
  induction names generalizing t with
  | nil => exact ⟨[], t, rfl, fun name none_ => (List.not_mem_nil none_).elim⟩
  | cons first rest ih =>
      obtain ⟨new, distinct⟩ := List.nodup_cons.mp distinct
      obtain ⟨c, found⟩ := files first List.mem_cons_self
      have differ := DirTree.FilesDiffer.prune rooted found
      have others (name : String) (mem : name ∈ rest) :
          (t.prune (dir ++ [first])).get? (dir ++ [name]) = t.get? (dir ++ [name]) := by
        rw [DirTree.prune_file rooted found, if_neg]
        intro same
        have eq : first = name := by simpa using same
        exact new (eq ▸ mem)
      have rooted' := differ.rooted rooted there
      have there' := (differ.isDir dir).trans there
      obtain ⟨out, t', ran, all⟩ := ih rooted' there' distinct fun name mem => by
        rw [others name mem]
        exact files name (List.mem_cons_of_mem _ mem)
      refine ⟨c :: out, t', by simp only [drainFiles, found, ran], fun name mem c' file => ?_⟩
      rcases List.mem_cons.mp mem with rfl | later
      · rw [found] at file
        cases file
        refine ⟨List.mem_cons_self, ?_⟩
        have fewer := (drainFiles_spec rooted' there' rest).2 (dir ++ [name])
        rw [ran, DirTree.prune_file rooted found, if_pos rfl] at fewer
        exact fewer.elim id id
      · obtain ⟨inOut, gone⟩ := all name later c' ((others name later).trans file)
        exact ⟨List.mem_cons_of_mem _ inOut, gone⟩

/-- A directory under a name that ends like a request's stops the loop. -/
theorem drainFiles_stuck {dir : Path} (rooted : t.Rooted) (there : t.isDir dir = true) {names : List String}
    {name : String} (mem : name ∈ names) (isDir : t.get? (dir ++ [name]) = some .dir)
    {out : List (Option Letter)} : drainFiles dir names t ≠ .ok out t' := by
  induction names generalizing t out with
  | nil => exact (List.not_mem_nil mem).elim
  | cons first rest ih =>
      intro ran
      unfold drainFiles at ran
      cases found : t.get? (dir ++ [first]) with
      | none =>
          rw [found] at ran
          cases ran
      | some node =>
          cases node with
          | dir =>
              rw [found] at ran
              cases ran
          | file c =>
              rw [found] at ran
              have later : name ∈ rest := by
                rcases List.mem_cons.mp mem with rfl | later
                · rw [isDir] at found
                  cases found
                · exact later
              have differ := DirTree.FilesDiffer.prune rooted found
              have stuck : ∀ out, drainFiles dir rest (t.prune (dir ++ [first])) ≠ .ok out t' := fun _ =>
                ih (differ.rooted rooted there) ((differ.isDir dir).trans there) later
                  ((differ.dir_iff _).mpr isDir)
              dsimp only at ran
              cases rest_ : drainFiles dir rest (t.prune (dir ++ [first])) with
              | ok out' t'' =>
                  rw [rest_] at ran
                  cases ran
                  exact stuck out' rest_
              | error e t'' =>
                  rw [rest_] at ran
                  cases ran

/-- Below an inbox of its own there are no directories under such names. -/
theorem Sound.flat (sound : Sound home t) (own : topic ≠ "" ∧ topic ≠ ".") {name : String}
    (json : jsonFile name = true) : t.get? (inboxDir home topic ++ [name]) ≠ some .dir := by
  intro isDir
  have allowed := sound.dirs _ isDir
  rw [inboxDir_eq, if_neg (not_or.mpr own)] at allowed
  split at allowed
  · rw [allowed.named name rfl] at json
    cases json
  · have short := allowed.shallow (by rw [List.append_assoc]; exact List.prefix_append _ _)
    simp at short

/-- **An inbox of its own** returns every request that lies in it, and keeps none. -/
theorem drain_own (sound : Sound home t) (own : topic ≠ "" ∧ topic ≠ ".") :
    ∃ out t', drain home topic t = .ok out t' ∧
      ∀ call, t.get? (inboxDir home topic ++ [call.fileName]) = some (.file (some ⟨topic, call⟩)) →
        some ⟨topic, call⟩ ∈ out ∧ t'.get? (inboxDir home topic ++ [call.fileName]) = none := by
  cases walked : DirTree.resolve legalName t home (inboxHops topic) with
  | error e =>
      refine ⟨[], t, by simp only [drain, walked], fun call letter => ?_⟩
      have leads := (sound.letters _ _ letter).2.1
      rw [walked] at leads
      cases leads
  | ok dir =>
      have at_ : dir = inboxDir home topic := DirTree.resolve_land walked
      have there := sound.rooted.resolve_isDir sound.there walked
      subst at_
      have files : ∀ name ∈ jsonNames t (inboxDir home topic),
          ∃ c, t.get? (inboxDir home topic ++ [name]) = some (.file c) := by
        intro name mem
        obtain ⟨some_, json⟩ := mem_jsonNames.mp mem
        cases found : t.get? (inboxDir home topic ++ [name]) with
        | none => exact absurd found some_
        | some node =>
            cases node with
            | dir => exact absurd found (sound.flat own json)
            | file c => exact ⟨c, rfl⟩
      obtain ⟨out, t', ran, all⟩ := drainFiles_files sound.rooted there (nodup_jsonNames t _) files
      refine ⟨out, t', by simp only [drain, walked, ran], fun call letter => ?_⟩
      exact all call.fileName (mem_jsonNames.mpr ⟨by simp [letter], call.jsonFile_fileName⟩) _ letter

end Kept

/-! ## Which topics are routed apart -/

/-- In every run: a submit for `T` that returns has put its request into the inbox of `T`,
a drain of it returns what lies there, and a drain of `U` leaves the requests for `T`. -/
structure Routed (home : Path) (T U : String) : Prop where
  lands : ∀ t, Reachable (step home) (Fresh home) t → ∀ call t', submit home T call t = .ok () t' →
    t'.get? (inboxDir home T ++ [call.fileName]) = some (.file (some ⟨T, call⟩))
  own : ∀ t, Reachable (step home) (Fresh home) t → ∃ out t', drain home T t = .ok out t' ∧
    ∀ call, t.get? (inboxDir home T ++ [call.fileName]) = some (.file (some ⟨T, call⟩)) →
      some ⟨T, call⟩ ∈ out
  other : ∀ t, Reachable (step home) (Fresh home) t → ∀ p l, l.topic = T →
    t.get? p = some (.file (some l)) → (left (drain home U t)).get? p = some (.file (some l))

/-- The inbox that a submit for the topic opens lies in the directory of inboxes. -/
def Contained (home : Path) (topic : String) : Prop :=
  ∀ t, Reachable (step home) (Fresh home) t → ∀ dir t', openInbox home topic t = .ok dir t' →
    ∃ name, dir = inboxes home ++ [name]

section Apart

variable {home : Path} {t : Tree} {T U : String}

theorem length_inboxes (home : Path) : (inboxes home).length = (serviceDir home).length + 1 := by
  simp [inboxes]

/-- Different slugs lead to different directories, the stay-at-homes apart. -/
theorem inboxDir_ne (own : T ≠ "" ∧ T ≠ ".") (apart : slug T ≠ slug U) :
    inboxDir home T ≠ inboxDir home U := by
  have long := length_inboxes home
  rw [inboxDir_eq, inboxDir_eq, if_neg (not_or.mpr own)]
  intro same
  have lengths := congrArg List.length same
  by_cases up : T = ".."
  · rw [if_pos up] at lengths
    split at lengths
    · omega
    · split at lengths
      · rename_i up'
        exact apart (by rw [up, up'])
      · simp only [List.length_append, List.length_singleton] at lengths
        omega
  · rw [if_neg up] at same lengths
    split at same
    · simp at same
    · split at same
      · rename_i stays up'
        rw [if_neg stays, if_pos up'] at lengths
        simp only [List.length_append, List.length_singleton] at lengths
        omega
      · exact apart (by simpa using same)

/-- A drain of another inbox leaves the requests. -/
theorem letter_kept (sound : Sound home t) (apart : inboxDir home T ≠ inboxDir home U) {p : Path} {l : Letter}
    (for_ : l.topic = T) (letter : t.get? p = some (.file (some l))) :
    (left (drain home U t)).get? p = some (.file (some l)) := by
  rcases (drain_spec sound U).1 p with same | ⟨⟨name, inU⟩, -⟩
  · rw [same, letter]
  · obtain ⟨-, -, name', inT⟩ := sound.letters p l letter
    rw [inU, for_] at inT
    exact absurd (List.append_inj_left' inT rfl).symm apart

/-! ### Runs that go wrong -/

/-- A runtime directory with nothing in it. -/
def bare (home : Path) : Tree := ⟨home.inits.map fun p => (p, .dir)⟩

theorem get?_bare {p : Path} {n : Node (Option Letter)} :
    (bare home).get? p = some n ↔ n = .dir ∧ p <+: home := by
  have keys : (bare home).entries.map Prod.fst = home.inits := by
    rw [bare, List.map_map]
    exact List.map_id _
  have entry : ∀ n, (bare home).get? p = some n → n = .dir ∧ p <+: home := by
    intro n found
    obtain ⟨q, mem, same⟩ := List.mem_map.mp (OrderedDict.mem_of_find found)
    cases same
    exact ⟨rfl, (List.mem_inits p home).mp mem⟩
  refine ⟨entry n, ?_⟩
  rintro ⟨rfl, prefix_⟩
  cases found : (bare home).get? p with
  | some n => rw [(entry n found).1]
  | none =>
      have absent := OrderedDict.find_eq_none_iff.mp found
      rw [keys, List.mem_inits] at absent
      exact absurd prefix_ absent

theorem bare_fresh (home : Path) : Fresh home (bare home) := by
  have isDir : ∀ p, p <+: home → (bare home).isDir p = true :=
    fun p prefix_ => DirTree.isDir_iff.mpr (Or.inr (get?_bare.mpr ⟨rfl, prefix_⟩))
  have noFile : ∀ p c, (bare home).get? p ≠ some (.file c) := by
    intro p c found
    cases (get?_bare.mp found).1
  refine ⟨⟨fun p there => ?_, isDir home (List.prefix_refl home), fun p found => ?_, fun p l letter => ?_⟩,
    fun p l => noFile p _⟩
  · obtain ⟨n, found⟩ := Option.ne_none_iff_exists'.mp there
    exact isDir _ ((List.dropLast_prefix p).trans (get?_bare.mp found).2)
  · refine allowed_of_length (Or.inl (Or.inl ?_))
    have short := (get?_bare.mp found).2.length_le
    simp only [serviceDir, List.length_append]
    omega
  · exact absurd letter (noFile p _)

/-- In an inbox of its own nothing is a directory. -/
theorem Sound.noDir (sound : Sound home t) (own : T ≠ "" ∧ T ≠ "." ∧ T ≠ "..") (name : String) :
    t.isDir (inboxDir home T ++ [name]) = false := by
  rw [Bool.eq_false_iff, ne_eq, DirTree.isDir_iff, inboxDir_eq, if_neg (by simp [own]), if_neg own.2.2]
  rintro (root | isDir)
  · simp at root
  · have short := (sound.dirs _ isDir).shallow (by rw [List.append_assoc]; exact List.prefix_append _ _)
    simp at short

theorem bare_submit (home : Path) (own : T ≠ "" ∧ T ≠ "." ∧ T ≠ "..") (nameable : Nameable T) (call : Call) :
    ∃ t', submit home T call (bare home) = .ok () t' := by
  have sound := (bare_fresh home).sound
  have clear : ∀ front, front <+: inboxHops T → ∀ c,
      (bare home).get? (DirTree.land home front) ≠ some (.file c) := by
    intro front _ c found
    cases (get?_bare.mp found).1
  obtain ⟨t₁, opened⟩ := DirTree.makeWay_ok (fun _ => legal_hops nameable) clear
  have opened' : openInbox home T (bare home) = .ok (inboxDir home T) t₁ := opened
  obtain ⟨made, ends⟩ := openInbox_spec sound T
  rw [opened'] at made
  have sound₁ : Sound home t₁ := sound.made made
  obtain ⟨t', done⟩ := (publish_spec call sound₁ (ends _ _ opened').1 nameable).2.2
    (sound₁.noDir own _) (sound₁.noDir own _)
  exact ⟨t', by rw [submit_eq, opened']; exact done⟩

/-- A submit into a bare runtime, as a run. -/
theorem reach_submitted {call : Call} {t' : Tree} (done : submit home T call (bare home) = .ok () t') :
    Reachable (step home) (Fresh home) t' := by
  refine (Reachable.start (bare_fresh home)).next (a := .submit T call) ?_
  rw [step, done]
  rfl

/-- The call of the runs below. -/
def Demo.call : Call := ⟨0, 1, 1700000000000000000, []⟩

/-- The drain of the directory of inboxes stumbles over an inbox whose name ends like
that of a request. -/
theorem not_routed_of_stays (stays : T = "" ∨ T = ".") : ¬ Routed home T U := by
  intro routed
  have jsonBox : ∃ t', submit home "x.json" Demo.call (bare home) = .ok () t' :=
    bare_submit home (by decide) (by decide +kernel) Demo.call
  obtain ⟨t, done⟩ := jsonBox
  have reach := reach_submitted done
  have sound := reach_sound reach
  have letter := (submit_spec (bare_fresh home).sound "x.json" Demo.call).2 t done
  have box : inboxDir home "x.json" = inboxes home ++ ["x.json"] := inboxDir_eq home "x.json"
  rw [box] at letter
  have isDir : t.get? (inboxes home ++ ["x.json"]) = some .dir := by
    have parent := sound.rooted _ (by rw [letter]; simp : t.get? _ ≠ none)
    rw [List.dropLast_concat] at parent
    exact (DirTree.isDir_iff.mp parent).resolve_left (by simp)
  have there : t.isDir (inboxes home) = true := by
    have parent := sound.rooted _ (by rw [isDir]; simp : t.get? _ ≠ none)
    rwa [List.dropLast_concat] at parent
  -- the path of a topic that stays is that of the directory of inboxes
  have spelled : inboxes home = home ++ ["services", "param_server", "inbox"] := by simp [inboxes, serviceDir]
  have hops : inboxHops T = ["services", "param_server", "inbox"].map .into := by
    rw [inboxHops, parts_slug, if_pos stays]
    rfl
  have accepted : ∀ name ∈ ["services", "param_server", "inbox"], legalName name = true := by decide +kernel
  have walked : DirTree.resolve legalName t home (inboxHops T) = .ok (inboxes home) := by
    rw [spelled] at there ⊢
    rw [hops]
    exact sound.rooted.resolve_down accepted there
  obtain ⟨out, t', ran, -⟩ := routed.own t reach
  have listed : "x.json" ∈ jsonNames t (inboxes home) := mem_jsonNames.mpr ⟨by simp [isDir], by decide⟩
  have stuck : drainFiles (inboxes home) (jsonNames t (inboxes home)) t ≠ .ok out t' :=
    drainFiles_stuck sound.rooted there listed isDir
  refine stuck ?_
  rw [← ran, drain, walked]

/-- Two topics of one slug have one inbox. -/
theorem not_routed_of_slug (other : T ≠ U) (own : T ≠ "" ∧ T ≠ ".") (nameable : Nameable T)
    (same : slug T = slug U) : ¬ Routed home T U := by
  intro routed
  have noDots : T ≠ ".." := by
    rintro rfl
    have up : slug U = ".." := same.symm.trans ((slug_eq_iff ".." (by decide) (by decide)).mpr rfl)
    exact other ((slug_eq_iff U (by decide) (by decide)).mp up).symm
  obtain ⟨t, done⟩ := bare_submit home ⟨own.1, own.2, noDots⟩ nameable Demo.call
  have reach := reach_submitted done
  have letter := (submit_spec (bare_fresh home).sound T Demo.call).2 t done
  obtain ⟨out, t', ran, taken⟩ := drain_own (reach_sound reach) own
  have kept := routed.other t reach _ ⟨T, Demo.call⟩ rfl letter
  have shared : drain home U t = .ok out t' := by
    rw [← ran, drain, drain, inboxHops, inboxHops, same]
  rw [shared] at kept
  exact absurd ((taken Demo.call letter).2.symm.trans kept) (by simp)

theorem routed_of_apart (own : T ≠ "" ∧ T ≠ ".") (apart : Nameable T → slug T ≠ slug U) :
    Routed home T U := by
  refine ⟨fun t reach call => (submit_spec (reach_sound reach) T call).2, fun t reach => ?_, ?_⟩
  · obtain ⟨out, t', ran, taken⟩ := drain_own (reach_sound reach) own
    exact ⟨out, t', ran, fun call letter => (taken call letter).1⟩
  · intro t reach p l for_ letter
    have sound := reach_sound reach
    have nameable : Nameable T := for_ ▸ (sound.letters p l letter).1
    exact letter_kept sound (inboxDir_ne own (apart nameable)) for_ letter

theorem contained_iff (home : Path) (topic : String) :
    Contained home topic ↔ topic ≠ "" ∧ topic ≠ "." ∧ topic ≠ ".." := by
  have opens (nameable : Nameable topic) : ∃ t', openInbox home topic (bare home) = .ok (inboxDir home topic) t' := by
    refine DirTree.makeWay_ok (fun _ => legal_hops nameable) fun front _ c found => ?_
    cases (get?_bare.mp found).1
  have long := length_inboxes home
  constructor
  · intro contained
    have child (nameable : Nameable topic) : ∃ name, inboxDir home topic = inboxes home ++ [name] := by
      obtain ⟨t', opened⟩ := opens nameable
      exact contained _ (.start (bare_fresh home)) _ t' opened
    refine ⟨?_, ?_, ?_⟩
    · rintro rfl
      obtain ⟨name, at_⟩ := child (by decide +kernel)
      rw [inboxDir_eq, if_pos (Or.inl rfl)] at at_
      simp at at_
    · rintro rfl
      obtain ⟨name, at_⟩ := child (by decide +kernel)
      rw [inboxDir_eq, if_pos (Or.inr rfl)] at at_
      simp at at_
    · rintro rfl
      obtain ⟨name, at_⟩ := child (by decide +kernel)
      rw [inboxDir_eq, if_neg (by decide), if_pos rfl] at at_
      have lengths := congrArg List.length at_
      simp only [List.length_append, List.length_singleton] at lengths
      omega
  · rintro ⟨notEmpty, notDot, notDots⟩ t reach dir t' opened
    have walked := ((openInbox_spec (reach_sound reach) topic).2 dir t' opened).1
    have at_ : dir = inboxDir home topic := DirTree.resolve_land walked
    refine ⟨slug topic, ?_⟩
    rw [at_, inboxDir_eq, if_neg (not_or.mpr ⟨notEmpty, notDot⟩), if_neg notDots]

end Apart

end KoyuRuntime.Services.InboxRouting
