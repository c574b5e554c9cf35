/-
# Theory.DirTreeFrame — what the operations on a tree leave alone

A tree is `Rooted` when the parent of every entry is a directory; every operation
keeps it so, and in a rooted tree nothing lies below a missing path or a file.
That is what makes a rename safe for its neighbours: it may only land on a path
with nothing below it (`rename_keeps_file`).

* `Grows`: directories are created, nothing that was there changes.
* `Rooted.rename`, `Rooted.mkdirParents`, …: rootedness through each operation.
* `rename_below`: what lay below the source lies below the target.
* `place_of_plain`: where a plain name in an existing directory lies.
-/
import KoyuRuntime.Theory.DirTree

namespace KoyuRuntime.Theory.DirTree

set_option autoImplicit false

variable {N C : Type} [DecidableEq N] {t t' : DirTree N C} {p q : List N}

theorem isDir_iff : t.isDir p = true ↔ p = [] ∨ t.get? p = some .dir := by
  unfold isDir
  cases p with
  | nil => simp
  | cons name rest =>
      simp only [List.isEmpty_cons, Bool.false_or, reduceCtorEq, false_or]
      split
      · rename_i found
        simp [found]
      · rename_i other
        simp only [Bool.false_eq_true, false_iff]
        exact other

theorem get?_of_unlisted {top : List N} (unlisted : ∀ e ∈ t.entries, ¬ top <+: e.1)
    (below : top <+: p) : t.get? p = none := by
  rw [get?, OrderedDict.find_eq_none_iff]
  intro mem
  obtain ⟨e, listed, rfl⟩ := List.mem_map.mp mem
  exact unlisted e listed below

omit [DecidableEq N] in
/-- Neither of two names in a directory leads below the other. -/
theorem not_prefix_sibling {dir : List N} {a b : N} (ne : a ≠ b) : ¬ dir ++ [a] <+: dir ++ [b] := by
  rw [List.prefix_append_right_inj]
  intro below
  exact ne (by simpa using below.eq_of_length rfl)

/-! ## Growing -/

/-- Every entry of `t` reads the same in `t'`. -/
def Grows (t t' : DirTree N C) : Prop := ∀ q, t.get? q ≠ none → t'.get? q = t.get? q

theorem Grows.refl (t : DirTree N C) : Grows t t := fun _ _ => rfl

theorem Grows.trans {mid : DirTree N C} (first : Grows t mid) (later : Grows mid t') :
    Grows t t' := by
  intro q there
  have same := first q there
  exact (later q (same ▸ there)).trans same

theorem Grows.set_absent {n : Node C} (absent : t.get? p = none) : Grows t (t.set p n) := by
  intro q there
  rw [get?_set, if_neg]
  rintro rfl
  exact there absent

/-- The missing directories along a path are created, and nothing else. -/
theorem makeParents_spec {here names : List N} (done : makeParents t here names = .ok t') :
    Grows t t' ∧ (t.isDir here = true → t'.isDir (here ++ names) = true) := by
  induction names generalizing t here with
  | nil =>
      cases done
      exact ⟨Grows.refl _, fun dir => by simpa using dir⟩
  | cons name rest ih =>
      simp only [makeParents] at done
      split at done
      · rename_i found
        obtain ⟨grows, dir⟩ := ih done
        exact ⟨grows, fun _ => by simpa using dir (isDir_iff.mpr (.inr found))⟩
      · cases done
      · rename_i absent
        obtain ⟨grows, dir⟩ := ih done
        refine ⟨(Grows.set_absent absent).trans grows, ?_⟩
        intro _
        simpa using dir (isDir_iff.mpr (.inr (by rw [get?_set, if_pos rfl])))

theorem mkdirParents_spec (done : t.mkdirParents p = .ok t') :
    ∃ mid, makeParents t [] p.dropLast = .ok mid ∧ mid.get? p = none ∧ t' = mid.set p .dir := by
  unfold mkdirParents at done
  split at done
  · cases done
  · rename_i mid made
    split at done
    · cases done
    · rename_i absent
      rw [not_or] at absent
      cases done
      exact ⟨mid, made, by simpa using absent.2, rfl⟩

/-- Making parents changes nothing but the path they are on. -/
theorem makeParents_get? {here names : List N} (done : makeParents t here names = .ok t') (q : List N) :
    t'.get? q = t.get? q ∨ t'.get? q = some .dir ∧ q <+: here ++ names := by
  induction names generalizing t here with
  | nil =>
      cases done
      exact .inl rfl
  | cons name rest ih =>
      simp only [makeParents] at done
      split at done
      · simpa using ih done
      · cases done
      · rcases ih done with same | made
        · rw [get?_set] at same
          by_cases here_ : here ++ [name] = q
          · subst here_
            refine .inr ⟨by rw [same, if_pos rfl], ?_⟩
            exact ⟨rest, by simp⟩
          · rw [if_neg here_] at same
            exact .inl same
        · exact .inr (by simpa using made)

theorem mkdirParents_get? (done : t.mkdirParents p = .ok t') (q : List N) :
    t'.get? q = t.get? q ∨ t'.get? q = some .dir ∧ q <+: p := by
  obtain ⟨mid, made, absent, rfl⟩ := mkdirParents_spec done
  rw [get?_set]
  by_cases top : p = q
  · exact .inr ⟨by rw [if_pos top], top ▸ List.prefix_refl p⟩
  · rw [if_neg top]
    rcases makeParents_get? made q with same | ⟨dir, above⟩
    · exact .inl same
    · exact .inr ⟨dir, above.trans (List.dropLast_prefix p)⟩

theorem mkdirParents_grows (done : t.mkdirParents p = .ok t') : Grows t t' := by
  obtain ⟨mid, made, absent, rfl⟩ := mkdirParents_spec done
  exact (makeParents_spec made).1.trans (Grows.set_absent absent)

theorem mkdirParents_dir (done : t.mkdirParents p = .ok t') : t'.get? p = some .dir := by
  obtain ⟨mid, -, -, rfl⟩ := mkdirParents_spec done
  rw [get?_set, if_pos rfl]

/-! ## Files -/

theorem writeFile_ok_iff {content : C} :
    t.writeFile p content = .ok t' ↔
      t.isDir p.dropLast = true ∧ t.isDir p = false ∧ t' = t.set p (.file content) := by
  unfold writeFile
  by_cases parent : t.isDir p.dropLast = true
  · by_cases dir : t.isDir p = true
    · simp [parent, dir]
    · simp [parent, dir, eq_comm]
  · simp [parent]

/-- A directory stays one when a file is written. -/
theorem writeFile_dir {content : C} (done : t.writeFile p content = .ok t')
    (dir : t.get? q = some .dir) : t'.get? q = some .dir := by
  obtain ⟨-, other, rfl⟩ := writeFile_ok_iff.mp done
  rw [get?_set, if_neg, dir]
  rintro rfl
  rw [isDir_iff.mpr (.inr dir)] at other
  cases other

/-! ## Rooted trees -/

/-- The parent of every entry is a directory. -/
def Rooted (t : DirTree N C) : Prop := ∀ p, t.get? p ≠ none → t.isDir p.dropLast = true

theorem rooted_of_entries (all : ∀ e ∈ t.entries, t.isDir e.1.dropLast = true) : t.Rooted := by
  intro p there
  rw [get?, ne_eq, OrderedDict.find_eq_none_iff, not_not] at there
  obtain ⟨e, listed, rfl⟩ := List.mem_map.mp there
  exact all e listed

/-- Above an entry of a rooted tree there are only directories. -/
theorem Rooted.isDir_above (rooted : t.Rooted) {rest : List N} (more : rest ≠ [])
    (there : t.get? (p ++ rest) ≠ none) : t.isDir p = true := by
  induction rest using List.reverseRecOn with
  | nil => exact absurd rfl more
  | append_singleton front name ih =>
      have parent := rooted _ there
      rw [← List.append_assoc, List.dropLast_concat] at parent
      cases front with
      | nil => simpa using parent
      | cons head tail =>
          apply ih (by simp)
          rcases isDir_iff.mp parent with root | found
          · simp at root
          · simp [found]

theorem Rooted.set (rooted : t.Rooted) {n : Node C} (parent : t.isDir p.dropLast = true)
    (kept : t.isDir p = true → n = .dir) : (t.set p n).Rooted := by
  have same : ∀ q, t.isDir q = true → (t.set p n).isDir q = true := by
    intro q dir
    rcases isDir_iff.mp dir with root | found
    · exact isDir_iff.mpr (.inl root)
    · refine isDir_iff.mpr (.inr ?_)
      rw [get?_set]
      split
      · rename_i hit
        rw [kept (hit ▸ dir)]
      · exact found
  intro q there
  rw [get?_set] at there
  by_cases hit : p = q
  · exact same _ (hit ▸ parent)
  · rw [if_neg hit] at there
    exact same _ (rooted q there)

theorem Rooted.makeParents (rooted : t.Rooted) {here names : List N} (dir : t.isDir here = true)
    (done : DirTree.makeParents t here names = .ok t') : t'.Rooted := by
  induction names generalizing t here with
  | nil =>
      cases done
      exact rooted
  | cons name rest ih =>
      simp only [DirTree.makeParents] at done
      split at done
      · rename_i found
        exact ih rooted (isDir_iff.mpr (.inr found)) done
      · cases done
      · rename_i absent
        refine ih (rooted.set (by simpa using dir) fun _ => rfl) ?_ done
        exact isDir_iff.mpr (.inr (by rw [get?_set, if_pos rfl]))

theorem Rooted.mkdirParents (rooted : t.Rooted) (done : t.mkdirParents p = .ok t') : t'.Rooted := by
  obtain ⟨mid, made, -, rfl⟩ := mkdirParents_spec done
  have top : t.isDir [] = true := isDir_iff.mpr (.inl rfl)
  refine (rooted.makeParents top made).set ?_ fun _ => rfl
  simpa using (makeParents_spec made).2 top

theorem Rooted.writeFile (rooted : t.Rooted) {content : C}
    (done : t.writeFile p content = .ok t') : t'.Rooted := by
  obtain ⟨parent, other, rfl⟩ := writeFile_ok_iff.mp done
  exact rooted.set parent fun dir => by simp [dir] at other

theorem Rooted.prune (rooted : t.Rooted) (top : List N) : (t.prune top).Rooted := by
  intro q there
  rw [get?_prune] at there
  split at there
  · exact absurd rfl there
  · rename_i outside
    rcases isDir_iff.mp (rooted q there) with root | found
    · exact isDir_iff.mpr (.inl root)
    · refine isDir_iff.mpr (.inr ?_)
      rw [get?_prune, if_neg, found]
      exact fun below => outside (below.trans (List.dropLast_prefix q))

/-! ## Renames -/

/-- What an accepted rename found at its target. -/
theorem rename_target {src dst : List N} (ne : src ≠ dst) (dir : t.get? src = some .dir)
    (done : t.rename src dst = .ok t') :
    dst ≠ [] ∧ (t.get? dst = none ∨ t.get? dst = some .dir ∧ t.vacant dst = true) := by
  simp only [rename, dir, if_neg ne] at done
  split at done
  · cases done
  · rename_i guard
    rw [not_or] at guard
    refine ⟨guard.2, ?_⟩
    cases target : t.get? dst with
    | none => exact .inl rfl
    | some node =>
        cases node with
        | file content => simp [target] at done
        | dir =>
            simp only [target] at done
            split at done
            · rename_i vacant
              exact .inr ⟨rfl, vacant⟩
            · cases done

/-- **When a directory is renamed**, and what to. -/
theorem rename_dir_ok_iff {src dst : List N} (ne : src ≠ dst) (dir : t.get? src = some .dir) :
    t.rename src dst = .ok t' ↔
      ¬ src <+: dst ∧ ¬ dst <+: src ∧ dst ≠ [] ∧
        (t.get? dst = none ∨ t.get? dst = some .dir ∧ t.vacant dst = true) ∧ t' = t.move src dst := by
  constructor
  · intro done
    obtain ⟨root, target⟩ := rename_target ne dir done
    obtain ⟨moved, below, above⟩ := rename_ok ne dir done
    exact ⟨below, above, root, target, moved⟩
  · rintro ⟨below, above, root, target, rfl⟩
    rcases target with absent | ⟨found, vacant⟩
    · exact rename_fresh dir absent below above
    · simp [rename, dir, ne, below, root, found, vacant]

/-- What lay below a renamed directory lies below the target. -/
theorem rename_below {src dst : List N} (dir : t.get? src = some .dir)
    (done : t.rename src dst = .ok t') (rest : List N) :
    t'.get? (dst ++ rest) = t.get? (src ++ rest) := by
  by_cases same : src = dst
  · subst same
    simp only [rename, dir, if_true, Except.ok.injEq] at done
    rw [done]
  · obtain ⟨rfl, below, above⟩ := rename_ok same dir done
    rw [get?_move t below above, if_pos (List.prefix_append dst rest), List.drop_left]

/-- A vacant path has nothing strictly below it. -/
theorem vacant_below (vacant : t.vacant p = true) {rest : List N} (more : rest ≠ []) :
    t.get? (p ++ rest) = none := by
  rw [get?, OrderedDict.find_eq_none_iff]
  intro mem
  obtain ⟨e, listed, key⟩ := List.mem_map.mp mem
  have only := of_decide_eq_true (List.all_eq_true.mp vacant e listed)
  rw [key] at only
  exact more (List.append_right_eq_self.mp (only (List.prefix_append p rest)))

/-- In a rooted tree nothing lies strictly below the target of a rename. -/
theorem rename_target_empty (rooted : t.Rooted) {src dst : List N} (ne : src ≠ dst)
    (dir : t.get? src = some .dir) (done : t.rename src dst = .ok t') {rest : List N}
    (more : rest ≠ []) : t.get? (dst ++ rest) = none := by
  obtain ⟨root, target⟩ := rename_target ne dir done
  rcases target with absent | ⟨-, vacant⟩
  · by_contra there
    rcases isDir_iff.mp (rooted.isDir_above more there) with empty | found
    · exact root empty
    · rw [absent] at found
      cases found
  · exact vacant_below vacant more

/-- In a rooted tree a rename never hits a file outside its source. -/
theorem rename_keeps_file (rooted : t.Rooted) {src dst : List N} {content : C}
    (dir : t.get? src = some .dir) (done : t.rename src dst = .ok t')
    (there : t.get? q = some (.file content)) (outside : ¬ src <+: q) :
    t'.get? q = some (.file content) := by
  by_cases same : src = dst
  · subst same
    simp only [rename, dir, if_true, Except.ok.injEq] at done
    rw [← done, there]
  · have target := (rename_target same dir done).2
    have empty : ∀ rest, rest ≠ [] → t.get? (dst ++ rest) = none :=
      fun rest => rename_target_empty rooted same dir done
    obtain ⟨rfl, below, above⟩ := rename_ok same dir done
    rw [get?_move t below above, if_neg, if_neg outside, there]
    rintro ⟨rest, rfl⟩
    by_cases more : rest = []
    · subst more
      rw [List.append_nil] at there
      simp [there] at target
    · rw [empty rest more] at there
      cases there

/-- Nor does it remove a directory outside its source. -/
theorem rename_keeps_dir (rooted : t.Rooted) {src dst : List N} (dir : t.get? src = some .dir)
    (done : t.rename src dst = .ok t') (there : t.isDir q = true) (outside : ¬ src <+: q) :
    t'.isDir q = true := by
  by_cases same : src = dst
  · subst same
    simp only [rename, dir, if_true, Except.ok.injEq] at done
    exact done ▸ there
  · rcases isDir_iff.mp there with root | found
    · exact isDir_iff.mpr (.inl root)
    · have moved := rename_below dir done []
      have empty : ∀ rest, rest ≠ [] → t.get? (dst ++ rest) = none :=
        fun rest => rename_target_empty rooted same dir done
      obtain ⟨rfl, below, above⟩ := rename_ok same dir done
      refine isDir_iff.mpr (.inr ?_)
      by_cases inside : dst <+: q
      · obtain ⟨rest, rfl⟩ := inside
        by_cases more : rest = []
        · subst more
          rw [moved, List.append_nil, dir]
        · rw [empty rest more] at found
          cases found
      · rw [get?_move t below above, if_neg inside, if_neg outside, found]

theorem Rooted.rename (rooted : t.Rooted) {src dst : List N} (dir : t.get? src = some .dir)
    (parent : t.isDir dst.dropLast = true) (done : t.rename src dst = .ok t') : t'.Rooted := by
  by_cases same : src = dst
  · subst same
    simp only [DirTree.rename, dir, if_true, Except.ok.injEq] at done
    exact done ▸ rooted
  · have kept := fun q => rename_keeps_dir rooted dir done (q := q)
    have moved := rename_below dir done
    obtain ⟨rfl, below, above⟩ := rename_ok same dir done
    intro q there
    by_cases inside : dst <+: q
    · obtain ⟨rest, rfl⟩ := inside
      by_cases more : rest = []
      · subst more
        rw [List.append_nil]
        exact kept _ parent fun under => below (under.trans (List.dropLast_prefix dst))
      · rw [moved] at there
        have under := rooted _ there
        rw [List.dropLast_append_of_ne_nil more] at under ⊢
        rcases isDir_iff.mp under with root | found
        · exact absurd ((List.append_eq_nil_iff.mp root).1 ▸ List.nil_prefix) below
        · exact isDir_iff.mpr (.inr ((moved _).trans found))
    · rw [get?_move t below above, if_neg inside] at there
      split at there
      · exact absurd rfl there
      · rename_i outside
        exact kept _ (rooted q there) fun under => outside (under.trans (List.dropLast_prefix q))

/-! ## Places -/

/-- A walk that ends well in a rooted tree ends at a directory. -/
theorem Rooted.resolve_isDir (rooted : t.Rooted) {legal : N → Bool} {here end_ : List N}
    {hops : List (Hop N)} (dir : t.isDir here = true)
    (walked : resolve legal t here hops = .ok end_) : t.isDir end_ = true := by
  induction hops generalizing here with
  | nil =>
      cases walked
      exact dir
  | cons hop rest ih =>
      cases hop with
      | up =>
          refine ih ?_ walked
          rcases isDir_iff.mp dir with root | found
          · subst root
            exact dir
          · exact rooted here (by simp [found])
      | into name =>
          simp only [resolve] at walked
          split at walked
          · split at walked
            · rename_i found
              exact ih (isDir_iff.mpr (.inr found)) walked
            · cases walked
            · cases walked
          · cases walked

theorem place_ok {legal : N → Bool} {hops : List (Hop N)} (placed : place legal t hops = .ok p) :
    ∃ parent name, resolve legal t [] hops.dropLast = .ok parent ∧ legal name = true ∧
      hops.getLast? = some (.into name) ∧ p = parent ++ [name] := by
  unfold place at placed
  split at placed
  · rename_i name last
    split at placed
    · rename_i parent walked
      split at placed
      · rename_i accepted
        cases placed
        exact ⟨parent, name, walked, accepted, last, rfl⟩
      · cases placed
    · cases placed
  · cases placed

/-- The directory a rooted tree places a path in exists. -/
theorem Rooted.place_parent (rooted : t.Rooted) {legal : N → Bool} {hops : List (Hop N)}
    (placed : place legal t hops = .ok p) : t.isDir p.dropLast = true := by
  obtain ⟨parent, name, walked, -, -, rfl⟩ := place_ok placed
  rw [List.dropLast_concat]
  exact rooted.resolve_isDir (isDir_iff.mpr (.inl rfl)) walked

/-- Nothing is missing along a path that resolves. -/
theorem makeParents_of_resolve {legal : N → Bool} {here end_ names : List N}
    (walked : resolve legal t here (names.map .into) = .ok end_) : makeParents t here names = .ok t := by
  induction names generalizing here with
  | nil => rfl
  | cons name rest ih =>
      simp only [List.map_cons, resolve] at walked
      split at walked
      · split at walked
        · rename_i found
          simp only [makeParents, found]
          exact ih walked
        · cases walked
        · cases walked
      · cases walked

theorem mkdirParents_of_resolve {legal : N → Bool} {dir : List N} {name : N}
    (walked : resolve legal t [] (dir.map .into) = .ok dir) (absent : t.get? (dir ++ [name]) = none) :
    t.mkdirParents (dir ++ [name]) = .ok (t.set (dir ++ [name]) .dir) := by
  simp [mkdirParents, makeParents_of_resolve walked, absent]

/-- A walk down by names ends where the names lead. -/
theorem resolve_names {legal : N → Bool} {here end_ names : List N}
    (walked : resolve legal t here (names.map .into) = .ok end_) :
    end_ = here ++ names ∧ ∀ name ∈ names, legal name = true := by
  induction names generalizing here with
  | nil =>
      cases walked
      simp
  | cons name rest ih =>
      simp only [List.map_cons, resolve] at walked
      split at walked
      · rename_i accepted
        split at walked
        · obtain ⟨ends, others⟩ := ih walked
          exact ⟨by simp [ends], List.forall_mem_cons.mpr ⟨accepted, others⟩⟩
        · cases walked
        · cases walked
      · cases walked

/-- In a rooted tree accepted names lead to every directory. -/
theorem Rooted.resolve_down (rooted : t.Rooted) {legal : N → Bool} {here names : List N}
    (accepted : ∀ name ∈ names, legal name = true) (dir : t.isDir (here ++ names) = true) :
    resolve legal t here (names.map .into) = .ok (here ++ names) := by
  induction names generalizing here with
  | nil => simp [resolve]
  | cons name rest ih =>
      have found : t.get? (here ++ [name]) = some .dir := by
        have top : t.isDir (here ++ [name]) = true := by
          cases rest with
          | nil => exact dir
          | cons next more =>
              refine rooted.isDir_above (List.cons_ne_nil next more) ?_
              rcases isDir_iff.mp dir with root | found
              · simp at root
              · simp [found]
        rcases isDir_iff.mp top with root | found
        · simp at root
        · exact found
      have dir' : t.isDir (here ++ [name] ++ rest) = true := by simpa using dir
      have later := ih (fun n mem => accepted n (List.mem_cons_of_mem name mem)) dir'
      simp only [List.map_cons, resolve, accepted name List.mem_cons_self, if_true, found, later]
      simp

/-- Nothing lies below a missing path of a rooted tree. -/
theorem Rooted.unused (rooted : t.Rooted) (some_ : p ≠ []) (absent : t.get? p = none) (below : p <+: q) :
    t.get? q = none := by
  obtain ⟨rest, rfl⟩ := below
  cases rest with
  | nil => simpa using absent
  | cons name more =>
      by_contra there
      rcases isDir_iff.mp (rooted.isDir_above (List.cons_ne_nil name more) there) with root | found
      · exact some_ root
      · rw [absent] at found
        cases found

/-- A plain name in a directory that resolves. -/
theorem place_of_plain {legal : N → Bool} {dir : List N} {name : N}
    (walked : resolve legal t [] (dir.map .into) = .ok dir) :
    place legal t (dir.map .into ++ [.into name]) =
      if legal name then .ok (dir ++ [name]) else .error .badName := by
  simp [place, walked]

/-! ## Contents do not matter

Two trees that differ in the content of one file walk and rename alike. -/

section Contents

variable {a b : C}

theorem isDir_kept_set_file (found : (t.set p (.file a)).get? q = some .dir) :
    (t.set p (.file b)).get? q = some .dir := by
  rw [get?_set] at found ⊢
  split at found
  · cases found
  · rename_i other
    rw [if_neg other, found]

theorem place_set_file {legal : N → Bool} {hops : List (Hop N)}
    (placed : place legal (t.set p (.file a)) hops = .ok q) :
    place legal (t.set p (.file b)) hops = .ok q := by
  obtain ⟨parent, name, walked, accepted, last, rfl⟩ := place_ok placed
  have walked' : resolve legal (t.set p (.file b)) [] hops.dropLast = .ok parent :=
    resolve_congr legal (fun _ => isDir_kept_set_file) walked
  simp [place, last, walked', accepted]

theorem vacant_set (n : Node C) :
    (t.set p n).vacant q = (decide (q <+: p → p = q) && t.vacant q) := rfl

/-- A rename that carries the file along goes the same way, and only the file's
content tells the results apart. -/
theorem rename_set_file {src dst : List N} {name : N}
    (dir : (t.set (src ++ [name]) (.file a)).get? src = some .dir)
    (done : (t.set (src ++ [name]) (.file a)).rename src dst = .ok t') :
    ∃ t'', (t.set (src ++ [name]) (.file b)).rename src dst = .ok t'' ∧
      (∀ q, q ≠ dst ++ [name] → t''.get? q = t'.get? q) := by
  have dir' : (t.set (src ++ [name]) (.file b)).get? src = some .dir := isDir_kept_set_file dir
  by_cases same : src = dst
  · subst same
    simp only [rename, dir, if_true, Except.ok.injEq] at done
    subst done
    refine ⟨t.set (src ++ [name]) (.file b), by simp only [rename, dir', if_true], ?_⟩
    intro q other
    rw [get?_set, get?_set, if_neg (Ne.symm other), if_neg (Ne.symm other)]
  · obtain ⟨below, above, root, target, rfl⟩ := (rename_dir_ok_iff same dir).mp done
    have apart : src ++ [name] ≠ dst := by
      rintro rfl
      exact below (List.prefix_append src [name])
    rw [get?_set, if_neg apart, vacant_set] at target
    refine ⟨_, (rename_dir_ok_iff same dir').mpr ⟨below, above, root, ?_, rfl⟩, fun q other => ?_⟩
    · rw [get?_set, if_neg apart, vacant_set]
      exact target
    · rw [get?_move _ below above, get?_move _ below above]
      by_cases inside : dst <+: q
      · obtain ⟨rest, rfl⟩ := inside
        have ne : src ++ [name] ≠ src ++ rest := fun eq =>
          other (by rw [List.append_cancel_left eq])
        simp only [List.prefix_append, if_true, List.drop_left]
        rw [get?_set, get?_set, if_neg ne, if_neg ne]
      · rw [if_neg inside, if_neg inside]
        split
        · rfl
        · rename_i outside
          have ne : src ++ [name] ≠ q := fun eq => outside (eq ▸ List.prefix_append src [name])
          rw [get?_set, get?_set, if_neg ne, if_neg ne]

end Contents

end KoyuRuntime.Theory.DirTree
