/-
# Ipc.Declarations — who declares a topic, and with which type

`Declared` collects the declarations of all services: under a direction at the top of
an `ipc` block, and under a direction of a family one level down, also where a block
mixes both.  The type check reads one of the two layouts of each block and keeps the
last type of a topic, so it sees one type of each topic and service.

* `checked_of_declared`: for each declaration, `typed_topics` holds some type of the topic, or
  the declaration is skipped: it is in a family beside a direction.
* `one_struct_iff`: of what passes the check, when every topic has one struct.
-/
import KoyuRuntime.Ipc.Checks

namespace KoyuRuntime.Ipc.Declarations

open Host Theory Ipc.Types Checks

set_option autoImplicit false

/-! ## Declarations -/

/-- Some typed direction of this owner of directions gives the topic this type. -/
def DeclaredIn (owner : YamlMap) (topic : Key) (ty : Yaml) : Prop :=
  ∃ direction ∈ typedDirections, ∃ block t spec,
    Yaml.lookup direction owner = some (.map block) ∧ (t, spec) ∈ block ∧
    t.key = topic ∧ typeOf spec = some ty

/-- Some family of this block gives the topic this type. -/
def DeclaredInFamily (ipc : YamlMap) (topic : Key) (ty : Yaml) : Prop :=
  ∃ family owner, (family, .map owner) ∈ ipc ∧ isDirection family = false ∧ DeclaredIn owner topic ty

def Declares (ipc : YamlMap) (topic : Key) (ty : Yaml) : Prop :=
  DeclaredIn ipc topic ty ∨ DeclaredInFamily ipc topic ty

/-- A family beside a direction gives the topic this type. -/
def Skipped (ipc : YamlMap) (topic : Key) (ty : Yaml) : Prop :=
  flat ipc = true ∧ DeclaredInFamily ipc topic ty

/-- Some service has this `ipc` block. -/
def Block (raw : Yaml) (ipc : YamlMap) : Prop :=
  ∃ service stanza, (service, .map stanza) ∈ raw.entries ∧
    Yaml.lookup "ipc" stanza = some (.map ipc)

def Declared (raw : Yaml) (topic : Key) (ty : Yaml) : Prop :=
  ∃ ipc, Block raw ipc ∧ Declares ipc topic ty

/-! ## What the check reads -/

theorem mem_typedEntries {block : YamlMap} {topic : Key} {ty : Yaml} :
    (topic, ty) ∈ typedEntries block ↔
      ∃ t spec, (t, spec) ∈ block ∧ t.key = topic ∧ typeOf spec = some ty := by
  simp only [typedEntries, List.mem_filterMap, Option.map_eq_some_iff, Prod.mk.injEq]
  constructor
  · rintro ⟨⟨t, spec⟩, mem, ty', typed, same, rfl⟩
    exact ⟨t, spec, mem, same, typed⟩
  · rintro ⟨t, spec, mem, same, typed⟩
    exact ⟨(t, spec), mem, ty, typed, same, rfl⟩

theorem mem_collect {owner : YamlMap} {topic : Key} {ty : Yaml} :
    (topic, ty) ∈ collect owner ↔ DeclaredIn owner topic ty := by
  simp only [collect, List.mem_flatMap, DeclaredIn]
  constructor
  · rintro ⟨direction, typed, mem⟩
    split at mem
    · rename_i block here
      obtain ⟨t, spec, inBlock, same, isType⟩ := mem_typedEntries.mp mem
      exact ⟨direction, typed, block, t, spec, here, inBlock, same, isType⟩
    · cases mem
  · rintro ⟨direction, typed, block, t, spec, here, inBlock, same, isType⟩
    refine ⟨direction, typed, ?_⟩
    rw [here]
    exact mem_typedEntries.mpr ⟨t, spec, inBlock, same, isType⟩

theorem isDirection_str {direction : String} (typed : direction ∈ typedDirections) :
    isDirection (.str direction) = true := by
  simpa [isDirection] using typed

/-- A block with a direction at its top is flat. -/
theorem flat_of_declaredIn {ipc : YamlMap} {topic : Key} {ty : Yaml}
    (declared : DeclaredIn ipc topic ty) : flat ipc = true := by
  obtain ⟨direction, typed, block, -, -, here, -⟩ := declared
  exact List.any_eq_true.mpr ⟨_, Yaml.mem_of_lookup here, isDirection_str typed⟩

theorem mem_assignments {ipc : YamlMap} {topic : Key} {ty : Yaml} :
    (topic, ty) ∈ assignments ipc ↔
      DeclaredIn ipc topic ty ∨ (flat ipc = false ∧ DeclaredInFamily ipc topic ty) := by
  unfold assignments
  cases layout : flat ipc with
  | true => simp [mem_collect]
  | false =>
      rw [if_neg Bool.false_ne_true, List.mem_flatMap]
      constructor
      · rintro ⟨⟨family, value⟩, mem, inFamily⟩
        cases value with
        | map owner =>
            have other : isDirection family = false := by
              have all := List.any_eq_false.mp layout _ mem
              simpa using all
            exact Or.inr ⟨rfl, family, owner, mem, other, mem_collect.mp inFamily⟩
        | scalar s => cases inFamily
        | seq items => cases inFamily
      · rintro (top | ⟨-, family, owner, mem, -, declared⟩)
        · rw [flat_of_declaredIn top] at layout
          cases layout
        · exact ⟨_, mem, mem_collect.mpr declared⟩

/-- **What the check sees of a declaration**: some type of the topic, in the same
block, unless it skips the declaration. -/
theorem checked_of_declared {ipc : YamlMap} {topic : Key} {ty : Yaml}
    (declared : Declares ipc topic ty) :
    Skipped ipc topic ty ∨
      ∃ ty', (typedTopics ipc).get? topic = some ty' ∧ Declares ipc topic ty' := by
  have seen : (topic, ty) ∈ assignments ipc →
      ∃ ty', (typedTopics ipc).get? topic = some ty' ∧ Declares ipc topic ty' := by
    intro mem
    obtain ⟨ty', found, mem'⟩ := OrderedDict.exists_get?_ofList mem
    exact ⟨ty', found, (mem_assignments.mp mem').imp id And.right⟩
  rcases declared with top | inFamily
  · exact Or.inr (seen (mem_assignments.mpr (Or.inl top)))
  · cases layout : flat ipc with
    | true => exact Or.inl ⟨layout, inFamily⟩
    | false => exact Or.inr (seen (mem_assignments.mpr (Or.inr ⟨layout, inFamily⟩)))

/-! ## One struct for each topic -/

/-- Any two declarations of a topic resolve to the same struct. -/
def OneStruct (raw : Yaml) : Prop :=
  ∀ topic ty ty', Declared raw topic ty → Declared raw topic ty' →
    ∃ S, resolve ty = .ok S ∧ resolve ty' = .ok S

/-- The same text, or two names of one struct. -/
def SameName (ty ty' : Yaml) : Prop :=
  ty = ty' ∨ ∃ S ∈ registry, ∃ m ∈ names S, ∃ n ∈ names S, ty = .str m ∧ ty' = .str n

/-- Topics are named alike wherever they are declared, and a declaration the check
skips names a struct. -/
structure Aligned (raw : Yaml) : Prop where
  alike : ∀ topic ty ty', Declared raw topic ty → Declared raw topic ty' → SameName ty ty'
  known : ∀ ipc topic ty, Block raw ipc → Skipped ipc topic ty →
    ∃ S ∈ registry, ∃ n ∈ names S, ty = .str n

theorem resolve_of_sameName {ty ty' : Yaml} {S : Struct} (alike : SameName ty ty')
    (found : resolve ty = .ok S) : resolve ty' = .ok S := by
  rcases alike with rfl | ⟨T, mem, m, isM, n, isN, rfl, rfl⟩
  · exact found
  · have first := resolve_ok_iff.mpr ⟨mem, m, isM, rfl⟩
    rw [first] at found
    cases found
    exact resolve_ok_iff.mpr ⟨mem, n, isN, rfl⟩

/-- In an aligned document that passes the check every declared type resolves. -/
theorem resolves_of_aligned {env : Environment} {raw : Yaml} (checked : typecheck env raw = .ok ())
    (aligned : Aligned raw) {topic : Key} {ty : Yaml} (declared : Declared raw topic ty) :
    ∃ S, resolve ty = .ok S := by
  obtain ⟨ipc, block, declares⟩ := declared
  rcases checked_of_declared declares with skipped | ⟨ty', found, declares'⟩
  · obtain ⟨S, mem, n, isName, rfl⟩ := aligned.known ipc topic ty block skipped
    exact ⟨S, resolve_ok_iff.mpr ⟨mem, n, isName, rfl⟩⟩
  · obtain ⟨service, stanza, mem, here⟩ := block
    obtain ⟨S, resolved⟩ := resolved_of_typecheck checked mem here found
    have alike := aligned.alike topic ty' ty ⟨ipc, ⟨service, stanza, mem, here⟩, declares'⟩
      ⟨ipc, ⟨service, stanza, mem, here⟩, declares⟩
    exact ⟨S, resolve_of_sameName alike resolved⟩

/-- **One topic, one type**: of the documents that pass the check, exactly the aligned
ones give every topic one struct. -/
theorem one_struct_iff (env : Environment) (raw : Yaml) (checked : typecheck env raw = .ok ()) :
    OneStruct raw ↔ Aligned raw := by
  constructor
  · intro one
    refine ⟨?_, ?_⟩
    · intro topic ty ty' declared declared'
      obtain ⟨S, first, second⟩ := one topic ty ty' declared declared'
      obtain ⟨mem, m, isM, rfl⟩ := resolve_names first
      obtain ⟨-, n, isN, rfl⟩ := resolve_names second
      exact Or.inr ⟨S, mem, m, isM, n, isN, rfl, rfl⟩
    · intro ipc topic ty block skipped
      have declared : Declared raw topic ty := ⟨ipc, block, Or.inr skipped.2⟩
      obtain ⟨S, first, -⟩ := one topic ty ty declared declared
      obtain ⟨mem, n, isName, same⟩ := resolve_names first
      exact ⟨S, mem, n, isName, same⟩
  · intro aligned topic ty ty' declared declared'
    obtain ⟨S, resolved⟩ := resolves_of_aligned checked aligned declared
    exact ⟨S, resolved, resolve_of_sameName (aligned.alike topic ty ty' declared declared') resolved⟩

/-! ## Two services and one topic -/

namespace Demo

def env : Environment := ⟨fun _ => "", fun _ => .error (.libraryError "subprocess.run")⟩

def dict (entries : List (String × Yaml)) : Yaml := .map (entries.map fun e => (.str e.1, e.2))

/-- A python service with one direction of the blackboard. -/
def service (direction topic tyname : String) : Yaml :=
  dict [("cmd", .seq [.str "python3", .str "service.py"]),
    ("ipc", dict [("blackboard", dict [(direction, dict [(topic, .str tyname)])])])]

/-- The reader declares another struct than the writer. -/
def twoTypes : Yaml :=
  dict [("arm", service "writes" "arm/state" "RobStrideState"),
    ("viewer", service "reads" "arm/state" "GlobalConfig")]

/-- The reader uses the Rust name of the writer's struct. -/
def twoNames : Yaml :=
  dict [("camera", service "writes" "camera/rgb" "CameraFrame"),
    ("viewer", service "reads" "camera/rgb" "camera_service::CameraFrame")]

end Demo

theorem one_struct_iff_twoNames :
    typecheck Demo.env Demo.twoNames = .ok () ∧ (OneStruct Demo.twoNames ↔ Aligned Demo.twoNames) := by
  have checked : typecheck Demo.env Demo.twoNames = .ok () := rfl
  exact ⟨checked, one_struct_iff Demo.env Demo.twoNames checked⟩

/-- The check passes a reader with another struct than the writer's. -/
theorem reader_with_another_struct :
    typecheck Demo.env Demo.twoTypes = .ok () ∧ ¬ OneStruct Demo.twoTypes := by
  refine ⟨rfl, ?_⟩
  intro one
  have written : Declared Demo.twoTypes (.str "arm/state") (.str "RobStrideState") := by
    refine ⟨_, ⟨.str "arm", _, List.mem_cons_self, rfl⟩, Or.inr ⟨.str "blackboard", _, List.mem_cons_self,
      rfl, "writes", by decide, _, .str "arm/state", _, rfl, List.mem_cons_self, rfl, rfl⟩⟩
  have read : Declared Demo.twoTypes (.str "arm/state") (.str "GlobalConfig") := by
    refine ⟨_, ⟨.str "viewer", _, List.mem_cons_of_mem _ List.mem_cons_self, rfl⟩,
      Or.inr ⟨.str "blackboard", _, List.mem_cons_self,
      rfl, "reads", by decide, _, .str "arm/state", _, rfl, List.mem_cons_self, rfl, rfl⟩⟩
  obtain ⟨S, first, second⟩ := one _ _ _ written read
  obtain ⟨-, m, isM, same⟩ := resolve_names first
  obtain ⟨-, n, isN, same'⟩ := resolve_names second
  cases same
  cases same'
  have other : ∀ S ∈ registry, "RobStrideState" ∈ names S → "GlobalConfig" ∉ names S := by
    decide +kernel
  exact other S (resolve_names first).1 isM isN

end KoyuRuntime.Ipc.Declarations
