/-
# Services.InboxProtocol.Books — which request is where

`Owned` says whose files are public: the calls of the current listing the owner has not
unlinked, then the calls renamed since.  `Settled` says what every finished drain has
returned: the calls renamed since the listing before, in name order.  `Ordered` keeps
the order of renames of calls that do not overlap.

`Inv` holds of a new inbox and every step keeps it.
-/
import KoyuRuntime.Services.InboxProtocol.Directory

namespace KoyuRuntime.Services.InboxProtocol

open Host Theory

set_option autoImplicit false

/-! ## Drains -/

def byName (calls : List Call) : List Call := calls.insertionSort fun c d => c.fileName ≤ d.fileName

/-- What had been renamed at the newest of these listings. -/
def lastSeen : List Drain → List Call
  | [] => []
  | d :: _ => d.seen

def Settled : List Drain → Prop
  | [] => True
  | d :: older =>
      (∃ taken, d.seen = lastSeen older ++ taken ∧ d.out = (byName taken).map Call.entry) ∧
      Settled older

/-- The calls whose public file is there. -/
def Owned (s : State) (files : List Call) : Prop :=
  match s.owner with
  | none => s.published = lastSeen s.drains ++ files
  | some p =>
      ∃ taken fresh done todo,
        p.seen = lastSeen s.drains ++ taken ∧ s.published = p.seen ++ fresh ∧
        byName taken = done ++ todo ∧ p.left = todo.map Call.fileName ∧
        p.out = (if p.isRead then done ++ todo.take 1 else done).map Call.entry ∧
        files = todo ++ fresh

theorem perm_byName (calls : List Call) : (byName calls).Perm calls := List.perm_insertionSort _ _

instance : Std.Total fun c d : Call => c.fileName ≤ d.fileName := ⟨fun _ _ => le_total _ _⟩

instance : IsTrans Call fun c d => c.fileName ≤ d.fileName := ⟨fun _ _ _ => le_trans⟩

theorem pairwise_byName (calls : List Call) :
    (byName calls).Pairwise fun c d => c.fileName ≤ d.fileName := List.pairwise_insertionSort _ _

/-- Every call with a public file has renamed, and none is counted twice. -/
theorem files_perm {s : State} {files : List Call} (owned : Owned s files) :
    ∃ gone, s.published.Perm (gone ++ files) := by
  unfold Owned at owned
  split at owned
  · exact ⟨lastSeen s.drains, owned ▸ List.Perm.refl _⟩
  · rename_i p
    obtain ⟨taken, fresh, done, todo, seen, published, split, -, -, rfl⟩ := owned
    have visited : (taken ++ fresh).Perm (done ++ todo ++ fresh) :=
      (split ▸ (perm_byName taken).symm).append_right fresh
    refine ⟨lastSeen s.drains ++ done, ?_⟩
    rw [published, seen, List.append_assoc, List.append_assoc, ← List.append_assoc done]
    exact visited.append_left _

/-- **The listing** names the public files in name order. -/
theorem listing_eq {codec : Codec} {s : State} {files : List Call} (disk : OnDisk codec s files)
    (distinct : (files.map Call.stem).Nodup) :
    listing s.dir = (byName files).map Call.fileName := by
  have sorted : (byName files).map Call.fileName = (files.map Call.fileName).insertionSort (· ≤ ·) :=
    List.map_insertionSort _ _ Call.fileName files fun _ _ _ _ => Iff.rfl
  have distinct' : (files.map Call.fileName).Nodup := by
    rw [List.nodup_map_iff_inj_on (List.Nodup.of_map _ distinct)]
    intro c hc d hd same
    exact List.inj_on_of_nodup_map distinct hc hd (Call.fileName_inj same)
  have same : (s.dir.keys.filter jsonFile).Perm (files.map Call.fileName) := by
    have distinctKeys : s.dir.keys.Nodup := s.dir.nodup
    rw [List.perm_ext_iff_of_nodup (distinctKeys.filter _) distinct']
    intro name
    rw [List.mem_filter, OrderedDict.mem_keys_iff, Option.isSome_iff_exists, List.mem_map]
    constructor
    · rintro ⟨⟨text, there⟩, json⟩
      rcases (disk name text).mp there with ⟨i, x, chars, -, -, rfl, -⟩ | ⟨c, mem, rfl, -⟩
      · rw [Call.jsonFile_tmpName] at json
        cases json
      · exact ⟨c, mem, rfl⟩
    · rintro ⟨c, mem, rfl⟩
      exact ⟨⟨_, (disk _ _).mpr (Or.inr ⟨c, mem, rfl, rfl⟩)⟩, c.jsonFile_fileName⟩
  rw [listing, sorted]
  exact List.Perm.eq_of_pairwise' (List.pairwise_insertionSort _ _) (List.pairwise_insertionSort _ _)
    (((List.perm_insertionSort _ _).trans same).trans (List.perm_insertionSort _ _).symm)

/-! ## Calls -/

/-- What is assumed of all calls that have begun, in the order they began. -/
structure Begun (codec : Codec) (width : Nat) (made : List Call) : Prop where
  apart : (made.map Call.stem).Nodup
  widths : ∀ c ∈ made, (toString c.time).length = width
  onward : made.Pairwise fun c d => c.writer = d.writer → c.time < d.time
  trips : ∀ c ∈ made, codec.loads (codec.dumps c.req) = .value (.obj c.req)

/-- Who has renamed, and that calls which do not overlap rename in order. -/
structure Ordered (calls : List Submission) (published : List Call) : Prop where
  renamed : ∀ c, c ∈ published ↔
    ∃ (k : Nat) (sub : Submission), calls[k]? = some sub ∧ sub.call = c ∧ sub.phase = .published
  distinct : (published.map Call.stem).Nodup
  order : ∀ (i j : Nat) (a b : Submission), i < j → calls[i]? = some a → calls[j]? = some b →
    a.call ∉ b.overlaps →
    (a.phase = .published ∨ a.alive = false) ∧
    (a.phase = .published → b.phase = .published → [a.call, b.call].Sublist published)

theorem Begun.apart_calls {codec : Codec} {width : Nat} {calls : List Submission}
    (begun : Begun codec width (calls.map Submission.call)) : Apart calls := by
  intro i j a b atI atJ same
  have bound : i < calls.length := (List.getElem?_eq_some_iff.mp atI).1
  have nodup : (calls.map fun sub => sub.call.stem).Nodup := by
    simpa [List.map_map, Function.comp_def] using begun.apart
  refine (List.getElem?_inj (by simpa using bound) nodup).mp ?_
  rw [List.getElem?_map, List.getElem?_map, atI, atJ]
  exact congrArg some same

theorem Begun.onward_calls {codec : Codec} {width : Nat} {calls : List Submission}
    (begun : Begun codec width (calls.map Submission.call)) {i j : Nat} {a b : Submission}
    (less : i < j) (atI : calls[i]? = some a) (atJ : calls[j]? = some b)
    (writer : a.call.writer = b.call.writer) : a.call.time < b.call.time := by
  obtain ⟨boundI, rfl⟩ := List.getElem?_eq_some_iff.mp atI
  obtain ⟨boundJ, rfl⟩ := List.getElem?_eq_some_iff.mp atJ
  have onward := List.pairwise_iff_getElem.mp (List.pairwise_map.mp begun.onward)
  exact onward i j boundI boundJ less writer

/-- A step of a call leaves the list of calls as it is. -/
theorem map_call_set {calls : List Submission} {k : Nat} {sub : Submission} (new : Submission)
    (found : calls[k]? = some sub) (call : new.call = sub.call) :
    (calls.set k new).map Submission.call = calls.map Submission.call := by
  obtain ⟨bound, rfl⟩ := List.getElem?_eq_some_iff.mp found
  have bound' : k < (calls.map Submission.call).length := by simpa using bound
  have same : calls[k].call = (calls.map Submission.call)[k] := (List.getElem_map _).symm
  rw [List.map_set, call, same, List.set_getElem_self bound']

section Orders

variable {codec : Codec} {width : Nat} {calls : List Submission} {published : List Call} {k : Nat}
  {sub : Submission}

/-- A call that has not renamed goes on, or stops. -/
theorem ordered_set {new : Submission} (ordered : Ordered calls published)
    (found : calls[k]? = some sub) (call : new.call = sub.call)
    (overlaps : new.overlaps = sub.overlaps) (before : sub.phase ≠ .published)
    (after : new.phase ≠ .published) (stays : sub.alive = false → new.alive = false) :
    Ordered (calls.set k new) published where
  renamed c := by
    rw [ordered.renamed]
    constructor
    · rintro ⟨i, x, at_, rfl, phase⟩
      have ne : k ≠ i := by
        rintro rfl
        rw [found] at at_
        cases at_
        exact before phase
      exact ⟨i, x, by rw [List.getElem?_set_ne ne]; exact at_, rfl, phase⟩
    · rintro ⟨i, x, at_, rfl, phase⟩
      rcases set_cases at_ with ⟨-, rfl⟩ | ⟨-, old⟩
      · exact absurd phase after
      · exact ⟨i, x, old, rfl, phase⟩
  distinct := ordered.distinct
  order i j a b less atI atJ apart := by
    rcases set_cases atI with ⟨rfl, rfl⟩ | ⟨-, oldI⟩
    · rcases set_cases atJ with ⟨rfl, -⟩ | ⟨-, oldJ⟩
      · exact absurd less (lt_irrefl _)
      · obtain ⟨ended, -⟩ := ordered.order i j sub b less found oldJ (call ▸ apart)
        exact ⟨Or.inr (stays (ended.resolve_left before)), fun phase => absurd phase after⟩
    · rcases set_cases atJ with ⟨rfl, rfl⟩ | ⟨-, oldJ⟩
      · obtain ⟨ended, -⟩ := ordered.order i j a sub less oldI found (overlaps ▸ apart)
        exact ⟨ended, fun _ phase => absurd phase after⟩
      · exact ordered.order i j a b less oldI oldJ apart

theorem ordered_renamed (ordered : Ordered calls published) (apart : Apart calls)
    (found : calls[k]? = some sub) (alive : sub.alive = true) (before : sub.phase ≠ .published) :
    Ordered (calls.set k { sub with phase := .published }) (published ++ [sub.call]) where
  renamed c := by
    rw [List.mem_append, List.mem_singleton, ordered.renamed]
    constructor
    · rintro (⟨i, x, at_, rfl, phase⟩ | rfl)
      · have ne : k ≠ i := by
          rintro rfl
          rw [found] at at_
          cases at_
          exact before phase
        exact ⟨i, x, by rw [List.getElem?_set_ne ne]; exact at_, rfl, phase⟩
      · exact ⟨k, _, set_at _ found, rfl, rfl⟩
    · rintro ⟨i, x, at_, rfl, phase⟩
      rcases set_cases at_ with ⟨-, rfl⟩ | ⟨-, old⟩
      · exact Or.inr rfl
      · exact Or.inl ⟨i, x, old, rfl, phase⟩
  distinct := by
    rw [List.map_append, List.nodup_append]
    refine ⟨ordered.distinct, List.nodup_singleton _, ?_⟩
    rintro stem old _ new rfl
    obtain ⟨c, mem, same⟩ := List.mem_map.mp old
    obtain ⟨i, x, at_, rfl, phase⟩ := (ordered.renamed c).mp mem
    have eq : i = k := apart i k x sub at_ found (same.trans (List.mem_singleton.mp new))
    subst eq
    rw [found] at at_
    cases at_
    exact before phase
  order i j a b less atI atJ disjoint := by
    rcases set_cases atI with ⟨rfl, rfl⟩ | ⟨-, oldI⟩
    · rcases set_cases atJ with ⟨rfl, -⟩ | ⟨-, oldJ⟩
      · exact absurd less (lt_irrefl _)
      · -- a call still in progress overlaps every call begun meanwhile
        obtain ⟨ended, -⟩ := ordered.order i j sub b less found oldJ disjoint
        rcases ended with phase | dead
        · exact absurd phase before
        · rw [alive] at dead
          cases dead
    · rcases set_cases atJ with ⟨rfl, rfl⟩ | ⟨-, oldJ⟩
      · obtain ⟨ended, -⟩ := ordered.order i j a sub less oldI found disjoint
        refine ⟨ended, ?_⟩
        intro phase _
        have mem : a.call ∈ published := (ordered.renamed _).mpr ⟨i, a, oldI, rfl, phase⟩
        exact (List.singleton_sublist.mpr mem).append (List.Sublist.refl [sub.call])
      · obtain ⟨ended, sublist⟩ := ordered.order i j a b less oldI oldJ disjoint
        exact ⟨ended, fun first second => (sublist first second).trans (List.sublist_append_left _ _)⟩

theorem ordered_stamped {s : State} (ordered : Ordered s.calls s.published) (c : Call) :
    Ordered (s.calls ++ [⟨c, .stamped, true, s.running⟩]) s.published where
  renamed d := by
    rw [ordered.renamed]
    constructor
    · rintro ⟨i, x, at_, rest⟩
      exact ⟨i, x, snoc_iff.mpr (.inl at_), rest⟩
    · rintro ⟨i, x, at_, same, phase⟩
      rcases snoc_iff.mp at_ with old | ⟨-, rfl⟩
      · exact ⟨i, x, old, same, phase⟩
      · cases phase
  distinct := ordered.distinct
  order i j a b less atI atJ disjoint := by
    rcases snoc_iff.mp atI with oldI | ⟨rfl, rfl⟩
    · rcases snoc_iff.mp atJ with oldJ | ⟨-, rfl⟩
      · exact ordered.order i j a b less oldI oldJ disjoint
      · -- what was in progress is remembered in `overlaps`
        have ended : ¬ a.inProgress = true := by
          intro going
          have mem : a ∈ s.calls.filter Submission.inProgress :=
            List.mem_filter.mpr ⟨List.mem_of_getElem? oldI, going⟩
          exact disjoint (List.mem_map_of_mem mem)
        have ended' : a.alive = true → a.phase = .published := by
          simpa [Submission.inProgress] using ended
        refine ⟨?_, fun _ phase => by cases phase⟩
        cases alive : a.alive with
        | true => exact Or.inl (ended' alive)
        | false => exact Or.inr rfl
    · rcases snoc_iff.mp atJ with oldJ | ⟨rfl, -⟩
      · exact absurd (lt_of_at oldJ) (Nat.lt_asymm less)
      · exact absurd less (lt_irrefl _)

theorem begun_stamped {s : State} {c : Call} (begun : Begun codec width (s.calls.map Submission.call))
    (clocked : Clocked width s (.stamp c)) (trips : RoundTrips codec (.stamp c)) (new : Submission) (call : new.call = c) :
    Begun codec width ((s.calls ++ [new]).map Submission.call) := by
  obtain ⟨fresh, digits, later⟩ := clocked
  rw [List.map_append, List.map_singleton, call]
  refine ⟨?_, ?_, ?_, ?_⟩
  · rw [List.map_append, List.nodup_append]
    refine ⟨begun.apart, List.nodup_singleton _, ?_⟩
    rintro stem old _ new rfl
    apply fresh
    rw [List.mem_singleton.mp new] at old
    simpa using old
  · intro d mem
    rcases List.mem_append.mp mem with old | new
    · exact begun.widths d old
    · rw [List.mem_singleton.mp new]
      exact digits
  · rw [List.pairwise_append]
    refine ⟨begun.onward, List.pairwise_singleton _ _, ?_⟩
    intro d old e new
    rw [List.mem_singleton.mp new]
    obtain ⟨sub, mem, rfl⟩ := List.mem_map.mp old
    exact later sub mem
  · intro d mem
    rcases List.mem_append.mp mem with old | new
    · exact begun.trips d old
    · rw [List.mem_singleton.mp new]
      exact trips

end Orders

/-! ## The invariant -/

structure Inv (codec : Codec) (width : Nat) (s : State) : Prop where
  begun : Begun codec width (s.calls.map Submission.call)
  ordered : Ordered s.calls s.published
  settled : Settled s.drains
  disk : ∃ files, OnDisk codec s files ∧ Owned s files

theorem inv_empty (codec : Codec) (width : Nat) : Inv codec width .empty where
  begun := ⟨List.nodup_nil, by simp [State.empty], List.Pairwise.nil, by simp [State.empty]⟩
  ordered := by
    refine ⟨?_, List.nodup_nil, ?_⟩
    · simp [State.empty]
    · intro i j a b _ atI
      simp [State.empty] at atI
  settled := trivial
  disk := by
    refine ⟨[], ?_, rfl⟩
    intro name text
    simp [State.empty, Hidden, Public]

section Steps

variable {codec : Codec} {width : Nat} {s s' : State} {files : List Call}

theorem onDisk_perm {files' : List Call} (disk : OnDisk codec s files) (same : files.Perm files') :
    OnDisk codec s files' := by
  intro name text
  rw [disk name text]
  apply or_congr_right
  simp only [Public, same.mem_iff]

theorem files_distinct (inv : Inv codec width s) (owned : Owned s files) :
    (files.map Call.stem).Nodup := by
  obtain ⟨gone, perm⟩ := files_perm owned
  have distinct := (perm.map Call.stem).nodup_iff.mp inv.ordered.distinct
  rw [List.map_append, List.nodup_append] at distinct
  exact distinct.2.1

theorem mem_published (owned : Owned s files) {c : Call} (mem : c ∈ files) : c ∈ s.published := by
  obtain ⟨gone, perm⟩ := files_perm owned
  exact perm.mem_iff.mpr (List.mem_append_right _ mem)

/-- A public file reads back as the request of its call. -/
theorem read_file (inv : Inv codec width s) (disk : OnDisk codec s files) (owned : Owned s files)
    {c : Call} (mem : c ∈ files) :
    s.dir.get? c.fileName = some (codec.dumps c.req) ∧
      codec.loads (codec.dumps c.req) = .value (.obj c.req) := by
  refine ⟨(disk _ _).mpr (Or.inr ⟨c, mem, rfl, rfl⟩), ?_⟩
  obtain ⟨k, sub, found, rfl, -⟩ := (inv.ordered.renamed c).mp (mem_published owned mem)
  exact inv.begun.trips _ (List.mem_map_of_mem (List.mem_of_getElem? found))

theorem owned_renamed {dir : OrderedDict String (List Char)} {calls : List Submission} (c : Call)
    (owned : Owned s files) :
    Owned { s with dir := dir, calls := calls, published := s.published ++ [c] } (files ++ [c]) := by
  unfold Owned at owned ⊢
  cases owner : s.owner with
  | none =>
      simp only [owner] at owned ⊢
      rw [owned, List.append_assoc]
  | some p =>
      simp only [owner] at owned ⊢
      obtain ⟨taken, fresh, done, todo, seen, published, split, left, out, rfl⟩ := owned
      exact ⟨taken, fresh ++ [c], done, todo, seen, by rw [published, List.append_assoc], split, left,
        out, List.append_assoc _ _ _⟩

theorem begun_set {k : Nat} {sub : Submission} (new : Submission)
    (begun : Begun codec width (s.calls.map Submission.call)) (found : s.calls[k]? = some sub)
    (call : new.call = sub.call) :
    Begun codec width ((s.calls.set k new).map Submission.call) := by
  rw [map_call_set new found call]
  exact begun

theorem inv_submitted {a : Action} (inv : Inv codec width s) (clocked : Clocked width s a)
    (trips : RoundTrips codec a) (done : Submitted codec s a s') : Inv codec width s' := by
  have apart := inv.begun.apart_calls
  obtain ⟨begun, ordered, settled, files, disk, owned⟩ := inv
  cases done with
  | stamp c =>
      exact ⟨begun_stamped begun clocked trips _ rfl, ordered_stamped ordered c, settled, files,
        onDisk_stamped disk c _, owned⟩
  | wrote _ k sub chars found alive unpublished =>
      exact ⟨begun_set _ begun found rfl,
        ordered_set ordered found rfl rfl unpublished (fun phase => by cases phase) id, settled, files,
        onDisk_wrote disk apart found chars, owned⟩
  | renamed k sub text found alive complete there =>
      have unpublished : sub.phase ≠ .published := by simp [complete]
      have renames := ordered_renamed ordered apart found alive unpublished
      have fresh : ∀ c ∈ files, c.stem ≠ sub.call.stem := by
        intro c mem same
        have distinct := renames.distinct
        rw [List.map_append, List.nodup_append] at distinct
        exact distinct.2.2 _ (List.mem_map_of_mem (mem_published owned mem)) _ (by simp) same
      exact ⟨begun_set _ begun found rfl, renames, settled, files ++ [sub.call],
        onDisk_renamed disk apart found complete there fresh, owned_renamed sub.call owned⟩
  | died k sub found unpublished =>
      exact ⟨begun_set _ begun found rfl,
        ordered_set ordered found rfl rfl unpublished unpublished fun _ => rfl, settled, files,
        onDisk_died disk found, owned⟩

/-- A drain in progress visits the files of its listing, which are all there. -/
theorem owned_drain {p : Draining} (owner : s.owner = some p) (owned : Owned s files) :
    ∃ taken fresh done todo,
      p.seen = lastSeen s.drains ++ taken ∧ s.published = p.seen ++ fresh ∧
      byName taken = done ++ todo ∧ p.left = todo.map Call.fileName ∧
      p.out = (if p.isRead then done ++ todo.take 1 else done).map Call.entry ∧
      files = todo ++ fresh := by
  unfold Owned at owned
  rw [owner] at owned
  exact owned

theorem inv_drained {a : Action} (inv : Inv codec width s) (done : Drained codec s a s') :
    Inv codec width s' := by
  obtain ⟨files, disk, owned⟩ := inv.disk
  have distinct := files_distinct inv owned
  cases done with
  | listed idle =>
      refine ⟨inv.begun, inv.ordered, inv.settled, byName files,
        onDisk_perm disk (perm_byName files).symm, ?_⟩
      unfold Owned at owned
      rw [idle] at owned
      exact ⟨files, [], [], byName files, owned, (List.append_nil _).symm, rfl,
        listing_eq disk distinct, rfl, (List.append_nil _).symm⟩
  | read seen name rest out text more owner there parsed =>
      refine ⟨inv.begun, inv.ordered, inv.settled, files, disk, ?_⟩
      obtain ⟨taken, fresh, done, todo, hseen, published, split, left, hout, rfl⟩ :=
        owned_drain owner owned
      cases todo with
      | nil => cases left
      | cons c later =>
          cases left
          obtain ⟨here, trip⟩ := read_file inv disk owned (List.mem_append_left fresh List.mem_cons_self)
          rw [here] at there
          cases there
          have moreEq : more = [c.entry] := parsed _ trip
          refine ⟨taken, fresh, done, c :: later, hseen, published, split, rfl, ?_, rfl⟩
          have outEq : out = done.map Call.entry := hout
          simp [outEq, moreEq]
  | unlinked seen name rest out owner =>
      obtain ⟨taken, fresh, done, todo, hseen, published, split, left, hout, rfl⟩ :=
        owned_drain owner owned
      cases todo with
      | nil => cases left
      | cons c later =>
          cases left
          refine ⟨inv.begun, inv.ordered, inv.settled, later ++ fresh,
            onDisk_unlinked disk distinct _, ?_⟩
          have outEq : out = (done ++ [c]).map Call.entry := hout
          exact ⟨taken, fresh, done ++ [c], later, hseen, published, by simp [split], rfl, outEq, rfl⟩
  | returned seen isRead out owner =>
      obtain ⟨taken, fresh, done, todo, hseen, published, split, left, hout, rfl⟩ :=
        owned_drain owner owned
      cases todo with
      | cons c later => cases left
      | nil =>
          have outEq : out = (byName taken).map Call.entry := by
            rw [split, List.append_nil]
            cases isRead with
            | true => simpa using hout
            | false => exact hout
          exact ⟨inv.begun, inv.ordered, ⟨⟨taken, hseen, outEq⟩, inv.settled⟩, fresh, disk, published⟩

/-- **The invariant is kept** by every step of every party. -/
theorem inv_step {a : Action} (inv : Inv codec width s) (clocked : Clocked width s a)
    (trips : RoundTrips codec a) (done : step codec s a = .ok s') : Inv codec width s' := by
  rcases step_cases done with ⟨-, submitted⟩ | ⟨-, drained⟩
  · exact inv_submitted inv clocked trips submitted
  · exact inv_drained inv drained

theorem inv_run {actions : List Action} (inv : Inv codec width s)
    (clocked : Along (step codec) (Clocked width) s actions)
    (trips : ∀ a ∈ actions, RoundTrips codec a)
    (run : runs (step codec) s actions = .ok s') : Inv codec width s' := by
  induction actions generalizing s with
  | nil =>
      cases run
      exact inv
  | cons a rest ih =>
      obtain ⟨mid, first, later⟩ := runs_cons_ok.mp run
      have inv' := inv_step inv clocked.1 (trips a List.mem_cons_self) first
      exact ih inv' (clocked.2 mid first) (fun b mem => trips b (List.mem_cons_of_mem a mem)) later

end Steps

end KoyuRuntime.Services.InboxProtocol
