/-
# Services.InboxProtocol.Delivery — exactly once, whole, in order

What submitters and owner do in any interleaving, read off the invariant:

* `Drain.batch`: a drain returns, in name order, exactly the requests renamed between
  the listing before and its own.
* `returned_perm`: all drains together return what the last listing had seen, once.
* `returned_in_order`: what renames in order, under clocks in order, returns in order.
* `owner_goes_on`: no step of the owner raises, and each brings the return closer.
* `drain_answers_inbox`: a drain returns what `Services.Inbox` returns in one step, at
  the moment of the listing.
-/
import KoyuRuntime.Services.Inbox
import KoyuRuntime.Services.InboxProtocol.Books

namespace KoyuRuntime.Services.InboxProtocol

open Host Theory

set_option autoImplicit false

/-- The steps a drain in progress still takes. -/
def Draining.toGo (p : Draining) : Nat := 2 * p.left.length - (if p.isRead then 1 else 0) + 1

/-- Is the request of this call among what a drain returned? -/
def Drain.Returned (d : Drain) (c : Call) : Prop := c.fileName ∈ d.out.map Prod.fst

/-- What the inbox guarantees in a state. -/
structure Delivers (codec : Codec) (s : State) : Prop where
  /-- A request renamed before a drain's listing and not drained before is returned by
  that drain, unchanged and once. -/
  once : ∀ newer d older, s.drains = newer ++ d :: older → ∀ c ∈ d.seen,
    (∀ d' ∈ older, ¬ d'.Returned c) → c.entry ∈ d.out ∧ (d.out.map Prod.fst).count c.fileName = 1
  /-- No request is returned by two drains. -/
  neverAgain : ((returned s.drains).map Prod.fst).Nodup
  /-- Whatever is returned is the whole request of a call that had renamed. -/
  whole : ∀ d ∈ s.drains, ∀ x ∈ d.out, ∃ c ∈ d.seen, x = c.entry
  /-- One drain returns requests by time stamp. -/
  sorted : ∀ d ∈ s.drains, ∃ batch : List Call,
    d.out = batch.map Call.entry ∧ batch.Pairwise fun c c' => c.time ≤ c'.time
  /-- Of two calls of a process, the second begun when the first was over, the first is
  returned first, by the same drain or by an earlier one. -/
  fifo : ∀ (i j : Nat) (a b : Submission), i < j → s.calls[i]? = some a → s.calls[j]? = some b →
    a.call.writer = b.call.writer → a.call ∉ b.overlaps →
    a.call.entry ∈ returned s.drains → b.call.entry ∈ returned s.drains →
    [a.call.entry, b.call.entry].Sublist (returned s.drains)
  /-- Nothing raises. -/
  quiet : ∀ a e, step codec s a ≠ .error (.raised e)
  /-- A drain in progress can go on, and every step of it brings the return closer. -/
  goesOn : ∀ p, s.owner = some p → ∃ a s', a.byOwner = true ∧ step codec s a = .ok s' ∧
    ∀ p', s'.owner = some p' → p'.toGo < p.toGo

/-! ## What the drains have returned -/

section Returned

variable {codec : Codec} {width : Nat}

theorem settled_at {newer older : List Drain} {d : Drain} (settled : Settled (newer ++ d :: older)) :
    Settled (d :: older) := by
  induction newer with
  | nil => exact settled
  | cons e rest ih => exact ih settled.2

theorem settled_of_mem {ds : List Drain} {d : Drain} (settled : Settled ds) (mem : d ∈ ds) :
    ∃ before taken, d.seen = before ++ taken ∧ d.out = (byName taken).map Call.entry := by
  obtain ⟨newer, older, rfl⟩ := List.append_of_mem mem
  obtain ⟨⟨taken, seen, out⟩, -⟩ := settled_at settled
  exact ⟨lastSeen older, taken, seen, out⟩

theorem returned_perm {ds : List Drain} (settled : Settled ds) :
    (returned ds).Perm ((lastSeen ds).map Call.entry) := by
  induction ds with
  | nil => exact List.Perm.refl _
  | cons d older ih =>
      obtain ⟨⟨taken, seen, out⟩, before⟩ := settled
      rw [returned, lastSeen, seen, out, List.map_append]
      exact (ih before).append ((perm_byName taken).map _)

theorem sublist_returned (newer : List Drain) (d : Drain) (older : List Drain) :
    d.out.Sublist (returned (newer ++ d :: older)) := by
  induction newer with
  | nil => exact List.sublist_append_right _ _
  | cons e rest ih => exact ih.trans (List.sublist_append_left _ _)

/-- Listings only grow. -/
theorem seen_sublist {ds : List Drain} (settled : Settled ds) {d : Drain} (mem : d ∈ ds) :
    d.seen.Sublist (lastSeen ds) := by
  induction ds with
  | nil => cases mem
  | cons e older ih =>
      obtain ⟨⟨taken, seen, -⟩, before⟩ := settled
      rcases List.mem_cons.mp mem with rfl | later
      · exact List.Sublist.refl _
      · rw [lastSeen, seen]
        exact (ih before later).trans (List.sublist_append_left _ _)

/-- Everything an earlier listing had seen was returned by one of the drains so far. -/
theorem returned_of_lastSeen {ds : List Drain} (settled : Settled ds) {c : Call}
    (mem : c ∈ lastSeen ds) : ∃ d ∈ ds, d.Returned c := by
  induction ds with
  | nil => cases mem
  | cons d older ih =>
      obtain ⟨⟨taken, seen, out⟩, before⟩ := settled
      rw [lastSeen, seen] at mem
      rcases List.mem_append.mp mem with old | new
      · obtain ⟨d', later, done⟩ := ih before old
        exact ⟨d', List.mem_cons_of_mem d later, done⟩
      · refine ⟨d, List.mem_cons_self, ?_⟩
        rw [Drain.Returned, out, List.map_map]
        exact List.mem_map_of_mem ((perm_byName taken).mem_iff.mpr new)

theorem map_fst_entry (calls : List Call) :
    (calls.map Call.entry).map Prod.fst = calls.map Call.fileName := by
  rw [List.map_map]
  rfl

theorem fileNames_nodup {calls : List Call} (distinct : (calls.map Call.stem).Nodup) :
    (calls.map Call.fileName).Nodup := by
  rw [List.nodup_map_iff_inj_on (List.Nodup.of_map _ distinct)]
  intro c hc d hd same
  exact List.inj_on_of_nodup_map distinct hc hd (Call.fileName_inj same)

/-- **What renames in order returns in order**, if the clocks agree. -/
theorem returned_in_order {ds : List Drain} (settled : Settled ds) {a b : Call}
    (order : [a, b].Sublist (lastSeen ds)) (less : a.fileName ≤ b.fileName) :
    [a.entry, b.entry].Sublist (returned ds) := by
  induction ds with
  | nil => cases order
  | cons d older ih =>
      obtain ⟨⟨taken, seen, out⟩, before⟩ := settled
      rw [lastSeen, seen, List.sublist_append_iff] at order
      rw [returned, out]
      obtain ⟨x, y, both, inOlder, inTaken⟩ := order
      cases x with
      | nil =>
          -- both were taken by this drain, which sorts
          cases both
          have sorted : [a, b].Sublist (byName taken) := List.pair_sublist_insertionSort less inTaken
          exact (sorted.map Call.entry).trans (List.sublist_append_right _ _)
      | cons c x =>
          cases x with
          | nil =>
              cases both
              have first : a.entry ∈ returned older :=
                (returned_perm before).mem_iff.mpr
                  (List.mem_map_of_mem (List.singleton_sublist.mp inOlder))
              have second : b.entry ∈ (byName taken).map Call.entry :=
                List.mem_map_of_mem
                  ((perm_byName taken).mem_iff.mpr (List.singleton_sublist.mp inTaken))
              exact (List.singleton_sublist.mpr first).append (List.singleton_sublist.mpr second)
          | cons c' x =>
              cases x with
              | nil =>
                  cases both
                  exact (ih before inOlder).trans (List.sublist_append_left _ _)
              | cons _ _ => cases both

end Returned

/-! ## Every state -/

section States

variable {codec : Codec} {width : Nat} {s : State}

theorem published_split (inv : Inv codec width s) :
    ∃ fresh, s.published = lastSeen s.drains ++ fresh := by
  obtain ⟨files, -, owned⟩ := inv.disk
  unfold Owned at owned
  split at owned
  · exact ⟨files, owned⟩
  · obtain ⟨taken, fresh, _, _, seen, published, -⟩ := owned
    exact ⟨taken ++ fresh, by rw [published, seen, List.append_assoc]⟩

theorem seen_published (inv : Inv codec width s) {d : Drain} (mem : d ∈ s.drains) {c : Call}
    (seen : c ∈ d.seen) : c ∈ s.published := by
  obtain ⟨fresh, published⟩ := published_split inv
  rw [published]
  exact List.mem_append_left _ ((seen_sublist inv.settled mem).subset seen)

theorem lastSeen_nodup (inv : Inv codec width s) : ((lastSeen s.drains).map Call.stem).Nodup := by
  obtain ⟨fresh, published⟩ := published_split inv
  have distinct := inv.ordered.distinct
  rw [published, List.map_append, List.nodup_append] at distinct
  exact distinct.1

theorem returned_nodup (inv : Inv codec width s) : ((returned s.drains).map Prod.fst).Nodup := by
  have perm := (returned_perm inv.settled).map Prod.fst
  rw [map_fst_entry] at perm
  exact perm.nodup_iff.mpr (fileNames_nodup (lastSeen_nodup inv))

/-- A pair of a list without repetitions whose second lies in a front part lies there. -/
theorem pair_sublist_front {α : Type} {front rest : List α} {a b : α}
    (distinct : (front ++ rest).Nodup) (pair : [a, b].Sublist (front ++ rest)) (mem : b ∈ front) :
    [a, b].Sublist front := by
  obtain ⟨x, y, both, inFront, inRest⟩ := List.sublist_append_iff.mp pair
  have none : y = [] := by
    rcases List.eq_nil_or_concat y with empty | ⟨before, last, rfl⟩
    · exact empty
    · -- the last of the pair is `b`, which is not among the rest
      have ends := congrArg List.getLast? both
      simp only [List.concat_eq_append, ← List.append_assoc, List.getLast?_append_cons,
        List.getLast?_cons_cons, List.getLast?_singleton, Option.some.injEq] at ends
      subst ends
      have inRest' : b ∈ rest := inRest.subset (by simp)
      exact absurd rfl ((List.nodup_append.mp distinct).2.2 b mem b inRest')
  rw [none, List.append_nil] at both
  rw [both]
  exact inFront

theorem returned_of_entry (inv : Inv codec width s) {k : Nat} {sub : Submission}
    (found : s.calls[k]? = some sub) (mem : sub.call.entry ∈ returned s.drains) :
    sub.call ∈ lastSeen s.drains ∧ sub.phase = .published := by
  obtain ⟨c, seen, same⟩ := List.mem_map.mp ((returned_perm inv.settled).mem_iff.mp mem)
  obtain ⟨fresh, published⟩ := published_split inv
  have inPublished : c ∈ s.published := by
    rw [published]
    exact List.mem_append_left _ seen
  obtain ⟨i, x, at_, rfl, phase⟩ := (inv.ordered.renamed c).mp inPublished
  have eq : i = k := inv.begun.apart_calls i k x sub at_ found
    (Call.fileName_inj (congrArg Prod.fst same))
  subst eq
  rw [found] at at_
  cases at_
  exact ⟨seen, phase⟩

theorem made_mem {k : Nat} {sub : Submission} (found : s.calls[k]? = some sub) :
    sub.call ∈ s.calls.map Submission.call := List.mem_map_of_mem (List.mem_of_getElem? found)

theorem width_of_seen (inv : Inv codec width s) {c : Call} (mem : c ∈ s.published) :
    (toString c.time).length = width := by
  obtain ⟨i, x, at_, rfl, -⟩ := (inv.ordered.renamed c).mp mem
  exact inv.begun.widths _ (made_mem at_)

/-- Among renamed calls the name order never goes against the clock. -/
theorem time_le_of_name (inv : Inv codec width s) {c d : Call} (hc : c ∈ s.published)
    (hd : d ∈ s.published) (before : c.fileName ≤ d.fileName) : c.time ≤ d.time := by
  by_contra later
  have widths := (width_of_seen inv hd).trans (width_of_seen inv hc).symm
  exact absurd before (not_le_of_gt (Call.fileName_lt widths (by omega)))

/-- **No step raises**: every file that is read, unlinked or renamed is there. -/
theorem never_raises (inv : Inv codec width s) (a : Action) (e : Exn) :
    step codec s a ≠ .error (.raised e) := by
  obtain ⟨files, disk, owned⟩ := inv.disk
  intro raised
  have visit : ∀ seen name rest isRead out,
      s.owner = some ⟨seen, name :: rest, isRead, out⟩ → ∃ c ∈ files, name = c.fileName := by
    intro seen name rest isRead out owner
    obtain ⟨taken, fresh, done, todo, -, -, -, left, -, rfl⟩ := owned_drain owner owned
    cases todo with
    | nil => cases left
    | cons c later =>
        cases left
        exact ⟨c, by simp, rfl⟩
  cases a with
  | stamp c => cases raised
  | create k | write k more | die k =>
      simp only [step, Action.byOwner, submitStep, State.onCall] at raised
      repeat' split at raised
      all_goals cases raised
  | rename k =>
      simp only [step, Action.byOwner, submitStep, State.onCall] at raised
      cases found : s.calls[k]? with
      | none => simp [found] at raised
      | some sub =>
          by_cases complete : sub.phase = .writing (codec.dumps sub.call.req).length
          · have there := (disk sub.call.tmpName _).mpr
              (Or.inl ⟨k, sub, _, found, complete, rfl, rfl⟩)
            cases alive : sub.alive <;> simp [found, complete, there, alive] at raised
          · cases alive : sub.alive <;> simp [found, complete, alive] at raised
  | list | return_ =>
      simp only [step, Action.byOwner, drainStep, if_true] at raised
      split at raised
      all_goals cases raised
  | read =>
      simp only [step, Action.byOwner, drainStep, if_true] at raised
      split at raised
      · rename_i seen name rest out owner
        obtain ⟨c, mem, rfl⟩ := visit _ _ _ _ _ owner
        obtain ⟨there, trip⟩ := read_file inv disk owned mem
        simp [there, trip] at raised
      · cases raised
  | unlink =>
      simp only [step, Action.byOwner, drainStep, if_true] at raised
      split at raised
      · rename_i seen name rest out owner
        obtain ⟨c, mem, rfl⟩ := visit _ _ _ _ _ owner
        simp [(read_file inv disk owned mem).1] at raised
      · cases raised

/-- A drain in progress can always go on, whatever the submitters did meanwhile. -/
theorem owner_goes_on (inv : Inv codec width s) {p : Draining} (owner : s.owner = some p) :
    ∃ a s', a.byOwner = true ∧ step codec s a = .ok s' ∧
      ∀ p', s'.owner = some p' → p'.toGo < p.toGo := by
  obtain ⟨files, disk, owned⟩ := inv.disk
  obtain ⟨seen, left, isRead, out⟩ := p
  obtain ⟨taken, fresh, done, todo, -, -, -, names, -, files_⟩ := owned_drain owner owned
  cases todo with
  | nil =>
      cases names
      refine ⟨.return_, _, rfl, by simp only [step, Action.byOwner, drainStep, owner]; rfl, ?_⟩
      intro p' owner'
      cases owner'
  | cons c later =>
      cases names
      have mem : c ∈ files := by simp [files_]
      obtain ⟨there, trip⟩ := read_file inv disk owned mem
      cases isRead with
      | false =>
          refine ⟨.read, _, rfl,
            by simp only [step, Action.byOwner, drainStep, owner, there, trip]; rfl, ?_⟩
          intro p' owner'
          cases owner'
          simp only [Draining.toGo, List.length_cons]
          simp
      | true =>
          refine ⟨.unlink, _, rfl,
            by simp only [step, Action.byOwner, drainStep, owner, there]; rfl, ?_⟩
          intro p' owner'
          cases owner'
          simp only [Draining.toGo, List.length_cons]
          simp
          omega

/-- The invariant says all that is promised. -/
theorem delivers_of_inv (inv : Inv codec width s) : Delivers codec s where
  once newer d older split c seen undrained := by
    have settled := inv.settled
    rw [split] at settled
    obtain ⟨⟨taken, seenEq, out⟩, before⟩ := settled_at settled
    have mem : c ∈ byName taken := by
      rw [seenEq] at seen
      rcases List.mem_append.mp seen with old | new
      · obtain ⟨d', later, done⟩ := returned_of_lastSeen before old
        exact absurd done (undrained d' later)
      · exact (perm_byName taken).mem_iff.mpr new
    refine ⟨out ▸ List.mem_map_of_mem mem, ?_⟩
    have names := returned_nodup inv
    have inside : d.out.Sublist (returned s.drains) := by
      rw [split]
      exact sublist_returned newer d older
    have inside' : (d.out.map Prod.fst).Nodup := names.sublist (inside.map Prod.fst)
    apply List.count_eq_one_of_mem inside'
    rw [out, map_fst_entry]
    exact List.mem_map_of_mem mem
  neverAgain := returned_nodup inv
  whole d mem x inOut := by
    obtain ⟨before, taken, seen, out⟩ := settled_of_mem inv.settled mem
    rw [out] at inOut
    obtain ⟨c, inTaken, rfl⟩ := List.mem_map.mp inOut
    refine ⟨c, ?_, rfl⟩
    rw [seen]
    exact List.mem_append_right _ ((perm_byName taken).mem_iff.mp inTaken)
  sorted d mem := by
    obtain ⟨before, taken, seen, out⟩ := settled_of_mem inv.settled mem
    refine ⟨byName taken, out, ?_⟩
    have inPublished : ∀ c ∈ byName taken, c ∈ s.published := by
      intro c inTaken
      apply seen_published inv mem
      rw [seen]
      exact List.mem_append_right _ ((perm_byName taken).mem_iff.mp inTaken)
    refine (pairwise_byName taken).imp_of_mem ?_
    intro c c' hc hc' before
    exact time_le_of_name inv (inPublished c hc) (inPublished c' hc') before
  fifo i j a b less atI atJ writer disjoint inA inB := by
    obtain ⟨seenA, phaseA⟩ := returned_of_entry inv atI inA
    obtain ⟨seenB, phaseB⟩ := returned_of_entry inv atJ inB
    obtain ⟨fresh, published⟩ := published_split inv
    have pair := (inv.ordered.order i j a b less atI atJ disjoint).2 phaseA phaseB
    have distinct : s.published.Nodup := List.Nodup.of_map _ inv.ordered.distinct
    rw [published] at pair distinct
    have order := pair_sublist_front distinct pair seenB
    have clock := inv.begun.onward_calls less atI atJ writer
    have widths := (inv.begun.widths _ (made_mem atI)).trans (inv.begun.widths _ (made_mem atJ)).symm
    exact returned_in_order inv.settled order (le_of_lt (Call.fileName_lt widths clock))
  quiet := never_raises inv
  goesOn _ owner := owner_goes_on inv owner

end States

/-- **The inbox is an exactly-once, never-torn, per-writer FIFO queue**, in any
interleaving of submitters and owner, with submitters that stop anywhere. -/
theorem exactly_once_fifo (codec : Codec) (width : Nat) (actions : List Action) (s : State)
    (clocked : Along (step codec) (Clocked width) .empty actions)
    (trips : ∀ a ∈ actions, RoundTrips codec a)
    (run : runs (step codec) .empty actions = .ok s) : Delivers codec s :=
  delivers_of_inv (inv_run (inv_empty codec width) clocked trips run)

/-! ## Two processes and two drains -/

namespace Demo

/-- JSON texts of requests with one string under "key". -/
def opening : List Char := "\x7b\"key\": \"".toList

def closing : List Char := "\"\x7d".toList

def codec : Codec where
  dumps req :=
    match req with
    | [("key", .str text)] => opening ++ text.toList ++ closing
    | _ => "\x7b\x7d".toList
  loads text :=
    if opening <+: text ∧ closing <:+ text then
      .value (.obj [("key", .str (String.ofList ((text.drop opening.length).dropLast.dropLast)))])
    else .malformed

def request (text : String) : JsonObj := [("key", .str text)]

theorem roundTrips_request (text : String) :
    codec.loads (codec.dumps (request text)) = .value (.obj (request text)) := by
  have opens : opening <+: opening ++ text.toList ++ closing := by
    rw [List.append_assoc]
    exact List.prefix_append _ _
  have closes : closing <:+ opening ++ text.toList ++ closing := List.suffix_append _ _
  have between : ((opening ++ text.toList ++ closing).drop opening.length).dropLast.dropLast =
      text.toList := by
    rw [List.append_assoc, List.drop_left]
    simp [closing]
  simp only [codec, request, opens, closes, and_self, if_true, between, String.ofList_toList]

/-- The first process is half done when the owner lists the directory, and later dies
in its next call. -/
def script : List Action :=
  [.stamp ⟨1, 7, 10, request "a"⟩, .stamp ⟨2, 8, 11, request "b"⟩, .create 1, .write 1 12, .rename 1,
    .create 0, .write 0 3, .list, .write 0 9, .rename 0, .read, .unlink, .return_,
    .stamp ⟨1, 7, 12, request "c"⟩, .create 2, .list, .read, .die 2, .unlink, .return_]

def final : State := endState (step codec) .empty script

end Demo

theorem exactly_once_fifo_twoWriters :
    accepts (step Demo.codec) .empty Demo.script = true ∧
      Demo.final.drains.map (fun d => d.out.map Prod.fst) = [["10_7.json"], ["11_8.json"]] ∧
      Delivers Demo.codec Demo.final := by
  have ok : accepts (step Demo.codec) .empty Demo.script = true := by decide +kernel
  have clocked : Along (step Demo.codec) (Clocked 2) .empty Demo.script := by decide +kernel
  have trips : ∀ a ∈ Demo.script, RoundTrips Demo.codec a := by
    simp only [Demo.script, List.forall_mem_cons, RoundTrips, Demo.roundTrips_request, true_and]
    exact fun _ mem => absurd mem List.not_mem_nil
  exact ⟨ok, by decide +kernel,
    exactly_once_fifo Demo.codec 2 Demo.script Demo.final clocked trips (runs_of_accepts ok)⟩

/-! ## The one-step inbox -/

/-- The one-step inbox after these calls, one after the other. -/
def inboxOf (calls : List Call) : Inbox :=
  calls.foldl (fun box c => box.submit c.stem (some c.req)) ⟨[], []⟩

theorem inboxOf_files {calls : List Call} (distinct : (calls.map Call.stem).Nodup) :
    (inboxOf calls).files = calls.map fun c => (c.fileName, some c.req) := by
  induction calls using List.reverseRecOn with
  | nil => rfl
  | append_singleton before c ih =>
      rw [List.map_append, List.nodup_append] at distinct
      have others : ∀ f ∈ (inboxOf before).files, f.1 ≠ c.fileName := by
        intro f mem same
        rw [ih distinct.1] at mem
        obtain ⟨d, inBefore, rfl⟩ := List.mem_map.mp mem
        exact distinct.2.2 _ (List.mem_map_of_mem inBefore) _ (by simp) (Call.fileName_inj same)
      have kept : (inboxOf before).files.filter (fun f => decide (f.1 ≠ c.fileName)) =
          (inboxOf before).files := by
        rw [List.filter_eq_self]
        exact fun f mem => decide_eq_true (others f mem)
      calc (inboxOf (before ++ [c])).files
          = (inboxOf before).files.filter (fun f => decide (f.1 ≠ c.fileName)) ++
              [(c.fileName, some c.req)] := by
            rw [inboxOf, List.foldl_append]
            rfl
        _ = (before ++ [c]).map fun c => (c.fileName, some c.req) := by
            rw [kept, ih distinct.1, List.map_append, List.map_singleton]

theorem requests_inboxOf {calls : List Call} (distinct : (calls.map Call.stem).Nodup) :
    (inboxOf calls).requests = (byName calls).map Call.req := by
  have sorted : (byName calls).map (fun c => (c.fileName, some c.req)) =
      (calls.map fun c => (c.fileName, some c.req)).insertionSort fun f g => f.1 ≤ g.1 :=
    List.map_insertionSort _ _ _ calls fun _ _ _ _ => Iff.rfl
  rw [Inbox.requests, inboxOf_files distinct, ← sorted, List.filterMap_map]
  exact congrFun List.filterMap_eq_map _

/-- **A drain answers like the one-step inbox** at the moment it lists the directory,
after the calls renamed since the listing before it. -/
theorem drain_answers_inbox {codec : Codec} {width : Nat} {s : State} (inv : Inv codec width s)
    {newer older : List Drain} {d : Drain} (split : s.drains = newer ++ d :: older) :
    ∃ taken, d.seen = lastSeen older ++ taken ∧
      d.out.map Prod.snd = (inboxOf taken).drain.1.map Json.obj := by
  have settled := inv.settled
  rw [split] at settled
  obtain ⟨⟨taken, seen, out⟩, -⟩ := settled_at settled
  refine ⟨taken, seen, ?_⟩
  have distinct : (taken.map Call.stem).Nodup := by
    have mem : d ∈ s.drains := by simp [split]
    obtain ⟨fresh, published⟩ := published_split inv
    have inside : taken.Sublist s.published := by
      rw [published]
      have inSeen : d.seen.Sublist (lastSeen s.drains) := seen_sublist inv.settled mem
      rw [seen] at inSeen
      exact ((List.sublist_append_right _ _).trans inSeen).trans (List.sublist_append_left _ _)
    exact inv.ordered.distinct.sublist (inside.map Call.stem)
  rw [Inbox.drain_requests, requests_inboxOf distinct, out, List.map_map, List.map_map]
  rfl

end KoyuRuntime.Services.InboxProtocol
