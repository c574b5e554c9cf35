/-
# Theory.DirTreeWays — making one's way through a tree, and the files of one directory

`land` is where a spelled path leads, `makeWay` goes there and creates what is missing.
`children` lists a directory.  A file has nothing below it, so renaming a file inside its
directory and removing one are changes at two paths and at one.

* `makeWay_leaves`: what is made lies on the way; everything else is as it was.
* `makeWay_ok`: a way without files in it is made.
* `rename_file`, `prune_file`: the tree after either, path by path.
* `FilesDiffer`: two trees that differ in files of one directory only.
-/
import KoyuRuntime.Theory.DirTreeFrame
import KoyuRuntime.Theory.Raising
import Mathlib.Data.List.Dedup

namespace KoyuRuntime.Theory.DirTree

set_option autoImplicit false

variable {N C : Type} [DecidableEq N] {t t' : DirTree N C} {legal : N → Bool} {here dir p q : List N}
  {hops : List (Hop N)}

/-! ## Ways -/

/-- Where a spelled path leads. -/
def land : List N → List (Hop N) → List N
  | here, [] => here
  | here, .up :: rest => land here.dropLast rest
  | here, .into name :: rest => land (here ++ [name]) rest

omit [DecidableEq N] in
theorem land_append (here : List N) (l r : List (Hop N)) :
    land here (l ++ r) = land (land here l) r := by
  induction l generalizing here with
  | nil => rfl
  | cons hop rest ih =>
      cases hop with
      | up => exact ih here.dropLast
      | into name => exact ih (here ++ [name])

theorem resolve_land {end_ : List N} (walked : resolve legal t here hops = .ok end_) :
    end_ = land here hops := by
  induction hops generalizing here with
  | nil =>
      cases walked
      rfl
  | cons hop rest ih =>
      cases hop with
      | up => exact ih walked
      | into name =>
          simp only [resolve] at walked
          split at walked
          · split at walked
            · exact ih walked
            · cases walked
            · cases walked
          · cases walked

/-- Walk a spelled path, and create the directories that are missing. -/
def makeWay (legal : N → Bool) : List N → List (Hop N) → EStateM TreeError (DirTree N C) (List N)
  | here, [] => fun t => .ok here t
  | here, .up :: rest => makeWay legal here.dropLast rest
  | here, .into name :: rest => fun t =>
      if legal name then
        match t.get? (here ++ [name]) with
        | some .dir => makeWay legal (here ++ [name]) rest t
        | some (.file _) => .error .notDirectory t
        | none => makeWay legal (here ++ [name]) rest (t.set (here ++ [name]) .dir)
      else .error .badName t

/-- What a way that was begun at `here` leaves: directories on it, in a rooted tree. -/
structure WayMade (t : DirTree N C) (here : List N) (hops : List (Hop N)) (after : DirTree N C) : Prop where
  rooted : after.Rooted
  read : ∀ p, after.get? p = t.get? p ∨
    after.get? p = some .dir ∧ t.get? p = none ∧ ∃ front, front <+: hops ∧ p = land here front

theorem WayMade.grows (made : WayMade t here hops t') : Grows t t' := by
  intro p there
  rcases made.read p with same | ⟨-, absent, -⟩
  · exact same
  · exact absurd absent there

theorem WayMade.further {hop : Hop N} {here' : List N} (step : ∀ front, land here (hop :: front) = land here' front)
    (made : WayMade t here' hops t') : WayMade t here (hop :: hops) t' := by
  refine ⟨made.rooted, fun p => ?_⟩
  rcases made.read p with same | ⟨isDir, absent, front, prefix_, at_⟩
  · exact Or.inl same
  · refine Or.inr ⟨isDir, absent, hop :: front, ?_, by rw [at_, step]⟩
    exact List.cons_prefix_cons.mpr ⟨rfl, prefix_⟩

/-- A way that begins by creating its first directory. -/
theorem WayMade.created {name : N} (absent : t.get? (here ++ [name]) = none)
    (made : WayMade (t.set (here ++ [name]) .dir) (here ++ [name]) hops t') :
    WayMade t here (.into name :: hops) t' := by
  refine ⟨made.rooted, fun p => ?_⟩
  rcases made.read p with same | ⟨isDir, absent', front, prefix_, at_⟩
  · rw [get?_set] at same
    by_cases new : here ++ [name] = p
    · subst new
      exact Or.inr ⟨by rw [same, if_pos rfl], absent, [.into name],
        List.cons_prefix_cons.mpr ⟨rfl, List.nil_prefix⟩, rfl⟩
    · rw [if_neg new] at same
      exact Or.inl same
  · rw [get?_set] at absent'
    split at absent'
    · cases absent'
    · exact Or.inr ⟨isDir, absent', .into name :: front, List.cons_prefix_cons.mpr ⟨rfl, prefix_⟩, at_⟩

theorem Rooted.isDir_dropLast (rooted : t.Rooted) (isDir : t.isDir here = true) :
    t.isDir here.dropLast = true := by
  rcases isDir_iff.mp isDir with root | found
  · subst root
    exact isDir
  · exact rooted here (by simp [found])

theorem isDir_set_dir (t : DirTree N C) (p : List N) : (t.set p .dir).isDir p = true :=
  isDir_iff.mpr (Or.inr (by rw [get?_set, if_pos rfl]))

theorem Rooted.set_dir {name : N} (rooted : t.Rooted) (isDir : t.isDir here = true) :
    (t.set (here ++ [name]) .dir).Rooted :=
  rooted.set (by simpa using isDir) fun _ => rfl

/-- **The way**: it leaves directories on the way, whether or not it is made to its end. -/
theorem makeWay_leaves (rooted : t.Rooted) (isDir : t.isDir here = true) (hops : List (Hop N)) :
    WayMade t here hops (left (makeWay legal here hops t)) := by
  induction hops generalizing t here with
  | nil => exact ⟨rooted, fun p => Or.inl rfl⟩
  | cons hop rest ih =>
      cases hop with
      | up => exact (ih rooted (rooted.isDir_dropLast isDir)).further fun _ => rfl
      | into name =>
          by_cases accepted : legal name = true
          · simp only [makeWay, if_pos accepted]
            cases found : t.get? (here ++ [name]) with
            | none => exact (ih (rooted.set_dir isDir) (isDir_set_dir t _)).created found
            | some node =>
                cases node with
                | file c => exact ⟨rooted, fun p => Or.inl rfl⟩
                | dir => exact (ih rooted (isDir_iff.mpr (Or.inr found))).further fun _ => rfl
          · simp only [makeWay, if_neg accepted]
            exact ⟨rooted, fun p => Or.inl rfl⟩

/-- A way that is made can be walked, and every name on it is accepted. -/
theorem makeWay_walked {end_ : List N} (rooted : t.Rooted) (isDir : t.isDir here = true)
    (made : makeWay legal here hops t = .ok end_ t') :
    resolve legal t' here hops = .ok end_ ∧ ∀ name, .into name ∈ hops → legal name = true := by
  induction hops generalizing t here with
  | nil =>
      cases made
      exact ⟨rfl, fun name none_ => (List.not_mem_nil none_).elim⟩
  | cons hop rest ih =>
      cases hop with
      | up =>
          obtain ⟨walked, names⟩ := ih rooted (rooted.isDir_dropLast isDir) made
          refine ⟨walked, fun name mem => names name ?_⟩
          simpa using mem
      | into name =>
          by_cases accepted : legal name = true
          swap
          · simp only [makeWay, if_neg accepted] at made
            cases made
          simp only [makeWay, if_pos accepted] at made
          -- whichever tree the rest is made in, it has the first directory, and keeps it
          have finish : ∀ s : DirTree N C, s.Rooted → s.get? (here ++ [name]) = some .dir →
              makeWay legal (here ++ [name]) rest s = .ok end_ t' →
              resolve legal t' here (.into name :: rest) = .ok end_ ∧
                ∀ name', .into name' ∈ Hop.into name :: rest → legal name' = true := by
            intro s rooted' there onward
            have isDir' : s.isDir (here ++ [name]) = true := isDir_iff.mpr (Or.inr there)
            obtain ⟨walked, names⟩ := ih rooted' isDir' onward
            have way : WayMade s (here ++ [name]) rest (left (makeWay legal (here ++ [name]) rest s)) :=
              makeWay_leaves rooted' isDir' rest
            rw [onward] at way
            have kept : t'.get? (here ++ [name]) = some .dir :=
              (way.grows _ (by simp [there])).trans there
            refine ⟨by simp only [resolve, accepted, if_true, kept, walked], fun name' mem => ?_⟩
            rcases List.mem_cons.mp mem with same | later
            · cases same
              exact accepted
            · exact names name' later
          cases found : t.get? (here ++ [name]) with
          | none =>
              rw [found] at made
              exact finish _ (rooted.set_dir isDir) (by rw [get?_set, if_pos rfl]) made
          | some node =>
              rw [found] at made
              cases node with
              | file c => cases made
              | dir => exact finish t rooted found made

/-- Without a file on it, a way of accepted names is made. -/
theorem makeWay_ok (accepted : ∀ name, .into name ∈ hops → legal name = true)
    (clear : ∀ front, front <+: hops → ∀ c, t.get? (land here front) ≠ some (.file c)) :
    ∃ t', makeWay legal here hops t = .ok (land here hops) t' := by
  induction hops generalizing t here with
  | nil => exact ⟨t, rfl⟩
  | cons hop rest ih =>
      have accepted' : ∀ name, .into name ∈ rest → legal name = true :=
        fun name mem => accepted name (List.mem_cons_of_mem _ mem)
      have onward : ∀ front, front <+: rest → hop :: front <+: hop :: rest :=
        fun _ prefix_ => List.cons_prefix_cons.mpr ⟨rfl, prefix_⟩
      cases hop with
      | up => exact ih accepted' fun front prefix_ => clear _ (onward front prefix_)
      | into name =>
          simp only [makeWay, if_pos (accepted name List.mem_cons_self)]
          have clear' : ∀ front, front <+: rest → ∀ c, t.get? (land (here ++ [name]) front) ≠ some (.file c) :=
            fun front prefix_ => clear _ (onward front prefix_)
          cases found : t.get? (here ++ [name]) with
          | none =>
              refine ih accepted' fun front prefix_ c hit => ?_
              rw [get?_set] at hit
              split at hit
              · cases hit
              · exact clear' front prefix_ c hit
          | some node =>
              cases node with
              | file c => exact absurd found (clear' [] List.nil_prefix c)
              | dir => exact ih accepted' clear'

/-! ## One directory -/

/-- The names in a directory. -/
def children (t : DirTree N C) (dir : List N) : List N :=
  (t.entries.filterMap fun e => if e.1.dropLast = dir then e.1.getLast? else none).dedup

theorem nodup_children (t : DirTree N C) (dir : List N) : (t.children dir).Nodup := List.nodup_dedup _

theorem mem_children {name : N} : name ∈ t.children dir ↔ t.get? (dir ++ [name]) ≠ none := by
  rw [children, List.mem_dedup, List.mem_filterMap, get?, ne_eq, OrderedDict.find_eq_none_iff, not_not,
    List.mem_map]
  refine exists_congr fun e => and_congr_right fun _ => ?_
  constructor
  · intro listed
    split at listed
    · rename_i inDir
      rw [← inDir]
      exact (List.dropLast_append_getLast? _ listed).symm
    · cases listed
  · intro at_
    rw [at_, List.dropLast_concat, if_pos rfl, List.getLast?_concat]

section Files

variable {name name' : N} {c : C}

/-- Nothing lies below a file. -/
theorem Rooted.below_file (rooted : t.Rooted) (file : t.get? (dir ++ [name]) = some (.file c))
    (below : dir ++ [name] <+: q) (there : t.get? q ≠ none) : q = dir ++ [name] := by
  obtain ⟨rest, rfl⟩ := below
  by_contra more
  have more' : rest ≠ [] := fun none_ => more (by rw [none_, List.append_nil])
  rcases isDir_iff.mp (rooted.isDir_above more' there) with root | found
  · exact absurd root (List.append_ne_nil_of_right_ne_nil dir (List.cons_ne_nil name []))
  · rw [file] at found
    cases found

/-- Removing a file changes its path only. -/
theorem prune_file (rooted : t.Rooted) (file : t.get? (dir ++ [name]) = some (.file c)) (q : List N) :
    (t.prune (dir ++ [name])).get? q = if dir ++ [name] = q then none else t.get? q := by
  rw [get?_prune]
  by_cases same : dir ++ [name] = q
  · rw [if_pos same, if_pos (same ▸ List.prefix_refl _)]
  · rw [if_neg same]
    split
    · rename_i below
      by_contra there
      exact same (rooted.below_file file below (Ne.symm there)).symm
    · rfl

/-- **Moving a file inside its directory**, to a name with nothing below it, changes the
two paths only. -/
theorem get?_move_file (rooted : t.Rooted) (other : name ≠ name')
    (file : t.get? (dir ++ [name]) = some (.file c))
    (free : ∀ q, dir ++ [name'] <+: q → q ≠ dir ++ [name'] → t.get? q = none) (q : List N) :
    (t.move (dir ++ [name]) (dir ++ [name'])).get? q = if dir ++ [name'] = q then some (.file c)
      else if dir ++ [name] = q then none else t.get? q := by
  have below : ¬ dir ++ [name] <+: dir ++ [name'] := not_prefix_sibling other
  have above : ¬ dir ++ [name'] <+: dir ++ [name] := not_prefix_sibling other.symm
  have under : ∀ q, dir ++ [name] <+: q → q ≠ dir ++ [name] → t.get? q = none := by
    intro q inside differs
    by_contra there
    exact differs (rooted.below_file file inside there)
  rw [get?_move t below above]
  by_cases inside : dir ++ [name'] <+: q
  · rw [if_pos inside]
    obtain ⟨rest, rfl⟩ := inside
    rw [List.drop_left]
    by_cases here : rest = []
    · subst here
      rw [List.append_nil, List.append_nil, if_pos rfl, file]
    · have away : dir ++ [name] ≠ dir ++ [name'] ++ rest := fun same => above ⟨rest, same.symm⟩
      rw [under _ (List.prefix_append _ rest) (by simpa using here), if_neg (by simpa using here),
        if_neg away, free _ (List.prefix_append _ rest) (by simpa using here)]
  · have away : dir ++ [name'] ≠ q := fun same => inside (same ▸ List.prefix_refl _)
    rw [if_neg inside, if_neg away]
    by_cases gone : dir ++ [name] <+: q
    · rw [if_pos gone]
      split
      · rfl
      · rename_i differs
        rw [under q gone (Ne.symm differs)]
    · have away' : dir ++ [name] ≠ q := fun same => gone (same ▸ List.prefix_refl _)
      rw [if_neg gone, if_neg away']

/-- **Renaming a file inside its directory**: it replaces a file, is refused by a
directory, and only the two paths change. -/
theorem rename_file (rooted : t.Rooted) (other : name ≠ name')
    (file : t.get? (dir ++ [name]) = some (.file c)) :
    (t.get? (dir ++ [name']) = some .dir ∧
        t.rename (dir ++ [name]) (dir ++ [name']) = .error .isDirectory) ∨
      ∃ t', t.rename (dir ++ [name]) (dir ++ [name']) = .ok t' ∧ t.get? (dir ++ [name']) ≠ some .dir ∧
        ∀ q, t'.get? q = if dir ++ [name'] = q then some (.file c)
          else if dir ++ [name] = q then none else t.get? q := by
  have ne : dir ++ [name] ≠ dir ++ [name'] := by simpa using other
  have below : ¬ dir ++ [name] <+: dir ++ [name'] := not_prefix_sibling other
  have above : ¬ dir ++ [name'] <+: dir ++ [name] := not_prefix_sibling other.symm
  have root : dir ++ [name'] ≠ [] := List.append_ne_nil_of_right_ne_nil dir (List.cons_ne_nil name' [])
  cases target : t.get? (dir ++ [name']) with
  | none =>
      refine Or.inr ⟨_, rename_fresh file target below above, by simp,
        get?_move_file rooted other file ?_⟩
      intro q inside _
      exact rooted.unused root target inside
  | some node =>
      cases node with
      | dir => exact Or.inl ⟨rfl, by simp [rename, file, ne, below, root, target]⟩
      | file c' =>
          refine Or.inr ⟨t.move (dir ++ [name]) (dir ++ [name']),
            by simp [rename, file, ne, below, above, root, target], by simp,
            get?_move_file rooted other file ?_⟩
          intro q inside differs
          by_contra there
          exact differs (rooted.below_file target inside there)

end Files

/-! ## Files of one directory -/

/-- Two trees that differ in nothing but files of a directory. -/
def FilesDiffer (dir : List N) (t t' : DirTree N C) : Prop :=
  ∀ q, t'.get? q = t.get? q ∨ (∃ name, q = dir ++ [name]) ∧ t.get? q ≠ some .dir ∧ t'.get? q ≠ some .dir

namespace FilesDiffer

theorem refl (dir : List N) (t : DirTree N C) : FilesDiffer dir t t := fun _ => Or.inl rfl

theorem trans {mid : DirTree N C} (first : FilesDiffer dir t mid) (later : FilesDiffer dir mid t') :
    FilesDiffer dir t t' := by
  intro q
  rcases later q with same | ⟨inDir, before, after⟩
  · rw [same]
    exact first q
  · rcases first q with same | ⟨-, before', -⟩
    · exact Or.inr ⟨inDir, same ▸ before, after⟩
    · exact Or.inr ⟨inDir, before', after⟩

theorem dir_iff (differ : FilesDiffer dir t t') (q : List N) :
    t'.get? q = some .dir ↔ t.get? q = some .dir := by
  rcases differ q with same | ⟨-, before, after⟩
  · rw [same]
  · exact iff_of_false after before

theorem isDir (differ : FilesDiffer dir t t') (q : List N) : t'.isDir q = t.isDir q := by
  rw [Bool.eq_iff_iff, isDir_iff, isDir_iff, differ.dir_iff]

theorem rooted (differ : FilesDiffer dir t t') (rooted : t.Rooted) (there : t.isDir dir = true) :
    t'.Rooted := by
  intro q some_
  rw [differ.isDir]
  rcases differ q with same | ⟨⟨name, rfl⟩, -⟩
  · exact rooted q (same ▸ some_)
  · rwa [List.dropLast_concat]

variable {name name' : N} {c c' : C}

theorem write (done : t.writeFile (dir ++ [name]) c = .ok t') : FilesDiffer dir t t' := by
  obtain ⟨-, other, rfl⟩ := writeFile_ok_iff.mp done
  intro q
  rw [get?_set]
  split
  · rename_i same
    refine Or.inr ⟨⟨name, same.symm⟩, fun found => ?_, by simp⟩
    rw [same, isDir_iff.mpr (Or.inr found)] at other
    cases other
  · exact Or.inl rfl

theorem rename (rooted : t.Rooted) (other : name ≠ name')
    (file : t.get? (dir ++ [name]) = some (.file c))
    (done : t.rename (dir ++ [name]) (dir ++ [name']) = .ok t') : FilesDiffer dir t t' := by
  rcases rename_file rooted other file with ⟨-, refused⟩ | ⟨t'', renamed, target, reads⟩
  · rw [refused] at done
    cases done
  · rw [renamed] at done
    cases done
    intro q
    rw [reads]
    split
    · rename_i same
      exact Or.inr ⟨⟨name', same.symm⟩, same ▸ target, by simp⟩
    · split
      · rename_i same
        exact Or.inr ⟨⟨name, same.symm⟩, by rw [← same, file]; simp, by simp⟩
      · exact Or.inl rfl

theorem prune (rooted : t.Rooted) (file : t.get? (dir ++ [name]) = some (.file c)) :
    FilesDiffer dir t (t.prune (dir ++ [name])) := by
  intro q
  rw [prune_file rooted file]
  split
  · rename_i same
    exact Or.inr ⟨⟨name, same.symm⟩, by rw [← same, file]; simp, by simp⟩
  · exact Or.inl rfl

end FilesDiffer

end KoyuRuntime.Theory.DirTree
