/-
# Services.InboxProtocol.Steps — many submitters and one owner on one directory

`Inbox.submit` reads the clock, writes the request to a hidden file and renames it to
its public name.  `Inbox.drain` lists the public names and then reads and unlinks them
one by one.  Here every one of these is a step of its own, so any number of calls of
any number of processes interleave with a drain, a write arrives in pieces, and a call
can stop for good between two of its steps.

No lock is held.  Order comes from the names alone: `sorted` compares them character
by character.
-/
import KoyuRuntime.Host.Dynamic
import KoyuRuntime.Theory.Transition
import Mathlib.Data.List.Sort
import Mathlib.Data.String.Basic

namespace KoyuRuntime.Services.InboxProtocol

open Host Theory

set_option autoImplicit false

/-! ## Files -/

/-- What `json.loads` makes of a text. -/
inductive Parsed where
  | value (document : Json)
  /-- `json.JSONDecodeError`, which `drain` catches. -/
  | malformed
  /-- Whatever else it raises bubbles. -/
  | raises (e : Exn)

/-- `json.dumps` of a request and `json.loads` of a file. -/
structure Codec where
  dumps : JsonObj → List Char
  loads : List Char → Parsed

/-- One call of `submit`: the process that makes it, the clock and the process id it
reads, and its request. -/
structure Call where
  writer : Nat
  pid : Nat
  time : Nat
  req : JsonObj

namespace Call

/-- `f"{time.time_ns()}_{os.getpid()}"`. -/
def stem (c : Call) : String := toString c.time ++ "_" ++ toString c.pid

def tmpName (c : Call) : String := "." ++ c.stem ++ ".tmp"

def fileName (c : Call) : String := c.stem ++ ".json"

/-- The request a drain should return, with the file it is read from. -/
def entry (c : Call) : String × Json := (c.fileName, .obj c.req)

end Call

/-- `glob("*.json")`: `*` also matches a leading dot. -/
def jsonFile (name : String) : Bool := decide (".json".toList <:+ name.toList)

/-- `sorted(self.dir.glob("*.json"))`. -/
def listing (dir : OrderedDict String (List Char)) : List String :=
  (dir.keys.filter jsonFile).insertionSort (· ≤ ·)

/-! ## State -/

/-- How far a call of `submit` has come. -/
inductive Phase where
  | stamped
  /-- The hidden file holds this many characters of the request's text. -/
  | writing (chars : Nat)
  | published
  deriving DecidableEq

/-- A call that has begun.  `overlaps` remembers the calls in progress at the time. -/
structure Submission where
  call : Call
  phase : Phase
  alive : Bool
  overlaps : List Call

/-- A drain in progress: `left` are the names still to be visited, `isRead` says that
the first of them was read and not yet unlinked.  `seen` remembers what had been
renamed when the directory was listed. -/
structure Draining where
  seen : List Call
  left : List String
  isRead : Bool
  out : List (String × Json)

/-- A drain that has returned.  The caller gets the second components of `out`; the
first name the file each request came from. -/
structure Drain where
  seen : List Call
  out : List (String × Json)

/-- `published` remembers the calls that renamed, in the order of the renames;
`drains` lists the newest first. -/
structure State where
  dir : OrderedDict String (List Char)
  calls : List Submission
  published : List Call
  owner : Option Draining
  drains : List Drain

/-- A new inbox: the directory exists and is empty. -/
def State.empty : State := ⟨∅, [], [], none, []⟩

def Submission.inProgress (s : Submission) : Bool := s.alive && decide (s.phase ≠ .published)

/-- The calls in progress. -/
def State.running (s : State) : List Call :=
  (s.calls.filter Submission.inProgress).map Submission.call

/-- What the drains have returned so far, oldest first. -/
def returned : List Drain → List (String × Json)
  | [] => []
  | d :: older => returned older ++ d.out

/-! ## Steps -/

inductive Action where
  /-- A process calls `submit` and reads the clock. -/
  | stamp (c : Call)
  /-- `open(tmp, "w")`. -/
  | create (k : Nat)
  /-- Some more of the text reaches the file. -/
  | write (k more : Nat)
  /-- `tmp.rename(...)`, after the whole text was written. -/
  | rename (k : Nat)
  /-- The call ends here: its process dies, or a system call fails. -/
  | die (k : Nat)
  /-- `drain` lists the directory. -/
  | list
  | read
  | unlink
  | return_

/-- Is this a step of the owner's? -/
def Action.byOwner : Action → Bool
  | .list => true
  | .read => true
  | .unlink => true
  | .return_ => true
  | _ => false

/-- Why a step does not happen. -/
inductive Refusal where
  /-- It is not what the party does next. -/
  | disabled
  | raised (e : Exn)

/-- One more step of the `k`-th call, if that call is still going. -/
def State.onCall (s : State) (k : Nat) (act : Submission → Except Refusal State) :
    Except Refusal State :=
  match s.calls[k]? with
  | some call => if call.alive then act call else .error .disabled
  | none => .error .disabled

/-- The hidden file of the `k`-th call now holds the first characters of its text. -/
def State.wrote (codec : Codec) (s : State) (k : Nat) (sub : Submission) (chars : Nat) : State :=
  { s with
    dir := s.dir.set sub.call.tmpName ((codec.dumps sub.call.req).take chars)
    calls := s.calls.set k { sub with phase := .writing chars } }

/-- `submit`, from the clock to the rename. -/
def submitStep (codec : Codec) (s : State) : Action → Except Refusal State
  | .stamp c => .ok { s with calls := s.calls ++ [⟨c, .stamped, true, s.running⟩] }
  | .create k => s.onCall k fun sub =>
      match sub.phase with
      | .stamped => .ok (s.wrote codec k sub 0)
      | _ => .error .disabled
  | .write k more => s.onCall k fun sub =>
      match sub.phase with
      | .writing chars =>
          if chars + more ≤ (codec.dumps sub.call.req).length then
            .ok (s.wrote codec k sub (chars + more))
          else .error .disabled
      | _ => .error .disabled
  | .rename k => s.onCall k fun sub =>
      if sub.phase = .writing (codec.dumps sub.call.req).length then
        match s.dir.get? sub.call.tmpName with
        | none => .error (.raised (.osError .notFound))
        | some text => .ok
            { s with
              dir := (s.dir.erase sub.call.tmpName).set sub.call.fileName text
              calls := s.calls.set k { sub with phase := .published }
              published := s.published ++ [sub.call] }
      else .error .disabled
  | .die k => s.onCall k fun sub =>
      if sub.phase = .published then .error .disabled
      else .ok { s with calls := s.calls.set k { sub with alive := false } }
  | _ => .error .disabled

/-- `drain`, from the listing to the return. -/
def drainStep (codec : Codec) (s : State) : Action → Except Refusal State
  | .list =>
      match s.owner with
      | none => .ok { s with owner := some ⟨s.published, listing s.dir, false, []⟩ }
      | some _ => .error .disabled
  | .read =>
      match s.owner with
      | some ⟨seen, name :: rest, false, out⟩ =>
          match s.dir.get? name with
          | none => .error (.raised (.osError .notFound))
          | some text =>
              match codec.loads text with
              | .value document => .ok
                  { s with owner := some ⟨seen, name :: rest, true, out ++ [(name, document)]⟩ }
              | .malformed => .ok { s with owner := some ⟨seen, name :: rest, true, out⟩ }
              | .raises e => .error (.raised e)
      | _ => .error .disabled
  | .unlink =>
      match s.owner with
      | some ⟨seen, name :: rest, true, out⟩ =>
          match s.dir.get? name with
          | none => .error (.raised (.osError .notFound))
          | some _ => .ok
              { s with dir := s.dir.erase name, owner := some ⟨seen, rest, false, out⟩ }
      | _ => .error .disabled
  | .return_ =>
      match s.owner with
      | some ⟨seen, [], _, out⟩ => .ok { s with owner := none, drains := ⟨seen, out⟩ :: s.drains }
      | _ => .error .disabled
  | _ => .error .disabled

def step (codec : Codec) (s : State) (a : Action) : Except Refusal State :=
  if a.byOwner then drainStep codec s a else submitStep codec s a

/-- What is assumed of the stems: each is fresh, and the clock has so many digits and
moves on within a process. -/
def Clocked (width : Nat) (s : State) : Action → Prop
  | .stamp c =>
      c.stem ∉ s.calls.map (fun sub => sub.call.stem) ∧
      (toString c.time).length = width ∧
      ∀ sub ∈ s.calls, sub.call.writer = c.writer → sub.call.time < c.time
  | _ => True

instance (width : Nat) (s : State) (a : Action) : Decidable (Clocked width s a) := by
  cases a <;> unfold Clocked <;> infer_instance

/-- JSON round-trips the request. -/
def RoundTrips (codec : Codec) : Action → Prop
  | .stamp c => codec.loads (codec.dumps c.req) = .value (.obj c.req)
  | _ => True

/-! ## What each step does -/

section Inversion

variable {codec : Codec} {s s' : State}

theorem onCall_ok {k : Nat} {act : Submission → Except Refusal State}
    (done : s.onCall k act = .ok s') :
    ∃ sub, s.calls[k]? = some sub ∧ sub.alive = true ∧ act sub = .ok s' := by
  unfold State.onCall at done
  cases found : s.calls[k]? with
  | none => simp [found] at done
  | some sub =>
      rw [found] at done
      by_cases alive : sub.alive = true
      · exact ⟨sub, rfl, alive, by simpa [alive] using done⟩
      · simp [alive] at done

/-- The steps of the submitters: a call begins, writes, renames or stops. -/
inductive Submitted (codec : Codec) (s : State) : Action → State → Prop where
  | stamp (c : Call) :
      Submitted codec s (.stamp c) { s with calls := s.calls ++ [⟨c, .stamped, true, s.running⟩] }
  | wrote (a : Action) (k : Nat) (sub : Submission) (chars : Nat) :
      s.calls[k]? = some sub → sub.alive = true → sub.phase ≠ .published →
      Submitted codec s a (s.wrote codec k sub chars)
  | renamed (k : Nat) (sub : Submission) (text : List Char) :
      s.calls[k]? = some sub → sub.alive = true →
      sub.phase = .writing (codec.dumps sub.call.req).length →
      s.dir.get? sub.call.tmpName = some text →
      Submitted codec s (.rename k)
        { s with
          dir := (s.dir.erase sub.call.tmpName).set sub.call.fileName text
          calls := s.calls.set k { sub with phase := .published }
          published := s.published ++ [sub.call] }
  | died (k : Nat) (sub : Submission) :
      s.calls[k]? = some sub → sub.phase ≠ .published →
      Submitted codec s (.die k) { s with calls := s.calls.set k { sub with alive := false } }

/-- The steps of the owner. -/
inductive Drained (codec : Codec) (s : State) : Action → State → Prop where
  | listed : s.owner = none →
      Drained codec s .list { s with owner := some ⟨s.published, listing s.dir, false, []⟩ }
  | read (seen : List Call) (name : String) (rest : List String) (out : List (String × Json))
      (text : List Char) (more : List (String × Json)) :
      s.owner = some ⟨seen, name :: rest, false, out⟩ → s.dir.get? name = some text →
      (∀ document, codec.loads text = .value document → more = [(name, document)]) →
      Drained codec s .read { s with owner := some ⟨seen, name :: rest, true, out ++ more⟩ }
  | unlinked (seen : List Call) (name : String) (rest : List String)
      (out : List (String × Json)) :
      s.owner = some ⟨seen, name :: rest, true, out⟩ →
      Drained codec s .unlink
        { s with dir := s.dir.erase name, owner := some ⟨seen, rest, false, out⟩ }
  | returned (seen : List Call) (isRead : Bool) (out : List (String × Json)) :
      s.owner = some ⟨seen, [], isRead, out⟩ →
      Drained codec s .return_ { s with owner := none, drains := ⟨seen, out⟩ :: s.drains }

theorem submitted_of_ok {a : Action} (done : submitStep codec s a = .ok s') :
    Submitted codec s a s' := by
  cases a with
  | stamp c =>
      cases done
      exact .stamp c
  | create k =>
      obtain ⟨sub, found, alive, acted⟩ := onCall_ok done
      cases phase : sub.phase with
      | stamped =>
          rw [phase] at acted
          cases acted
          exact .wrote _ k sub 0 found alive (by simp [phase])
      | writing chars => simp [phase] at acted
      | published => simp [phase] at acted
  | write k more =>
      obtain ⟨sub, found, alive, acted⟩ := onCall_ok done
      cases phase : sub.phase with
      | writing chars =>
          simp only [phase] at acted
          split at acted
          · cases acted
            exact .wrote _ k sub _ found alive (by simp [phase])
          · cases acted
      | stamped => simp [phase] at acted
      | published => simp [phase] at acted
  | rename k =>
      obtain ⟨sub, found, alive, acted⟩ := onCall_ok done
      by_cases complete : sub.phase = .writing (codec.dumps sub.call.req).length
      · rw [if_pos complete] at acted
        cases there : s.dir.get? sub.call.tmpName with
        | none => simp [there] at acted
        | some text =>
            simp only [there] at acted
            cases acted
            exact .renamed k sub text found alive complete there
      · simp [complete] at acted
  | die k =>
      obtain ⟨sub, found, alive, acted⟩ := onCall_ok done
      by_cases over_ : sub.phase = .published
      · simp [over_] at acted
      · rw [if_neg over_] at acted
        cases acted
        exact .died k sub found over_
  | list => cases done
  | read => cases done
  | unlink => cases done
  | return_ => cases done

theorem drained_of_ok {a : Action} (done : drainStep codec s a = .ok s') : Drained codec s a s' := by
  cases a with
  | list =>
      simp only [drainStep] at done
      split at done
      · rename_i idle
        cases done
        exact .listed idle
      · cases done
  | read =>
      simp only [drainStep] at done
      split at done
      · rename_i seen name rest out busy
        cases there : s.dir.get? name with
        | none => simp [there] at done
        | some text =>
            simp only [there] at done
            cases parsed : codec.loads text with
            | value document =>
                simp only [parsed] at done
                cases done
                refine .read seen name rest out text [(name, document)] busy there ?_
                intro document' same
                rw [parsed] at same
                cases same
                rfl
            | malformed =>
                simp only [parsed] at done
                cases done
                have kept : Drained codec s .read
                    { s with owner := some ⟨seen, name :: rest, true, out ++ []⟩ } :=
                  .read seen name rest out text [] busy there (by simp [parsed])
                simpa using kept
            | raises e => simp [parsed] at done
      · cases done
  | unlink =>
      simp only [drainStep] at done
      split at done
      · rename_i seen name rest out busy
        cases there : s.dir.get? name with
        | none => simp [there] at done
        | some text =>
            simp only [there] at done
            cases done
            exact .unlinked seen name rest out busy
      · cases done
  | return_ =>
      simp only [drainStep] at done
      split at done
      · rename_i seen isRead out busy
        cases done
        exact .returned seen isRead out busy
      · cases done
  | stamp c => cases done
  | create k => cases done
  | write k more => cases done
  | rename k => cases done
  | die k => cases done

/-- Every step is one of these eight. -/
theorem step_cases {a : Action} (done : step codec s a = .ok s') :
    (a.byOwner = false ∧ Submitted codec s a s') ∨ (a.byOwner = true ∧ Drained codec s a s') := by
  unfold step at done
  cases owner : a.byOwner with
  | true =>
      rw [if_pos owner] at done
      exact Or.inr ⟨rfl, drained_of_ok done⟩
  | false =>
      rw [if_neg (by simp [owner])] at done
      exact Or.inl ⟨rfl, submitted_of_ok done⟩

/-- **Submitters and owner share only the directory**: a step of a submitter leaves a
drain in progress as it is. -/
theorem owner_of_submitted {a : Action} (done : Submitted codec s a s') : s'.owner = s.owner := by
  cases done <;> rfl

end Inversion

end KoyuRuntime.Services.InboxProtocol
