/-
# Theory.OrderedDict — finite maps that remember insertion order

A dictionary is a list of entries whose keys are distinct, so a key reads one
value and the listing order is the order in which the keys were first written.
`set` overwrites in place or appends; `erase` drops one key.  Every operation
carries the distinctness of its keys with it.

* `get?_set`, `get?_erase`: what one write and one removal do to every key.
* `keys_set`: a write changes the key list only by appending a new key.
* `keys_ofList`: building from entries with distinct keys keeps them all, in order.
* `size_eraseKey`: removing a present key shrinks the dictionary by exactly one.

Every function is structurally recursive, so closed instances evaluate by `decide`.
-/
import Mathlib.Data.List.Nodup
import Mathlib.Data.List.Basic

namespace KoyuRuntime.Theory

set_option autoImplicit false

universe u v

/-- A finite map with its insertion order. -/
structure OrderedDict (K : Type u) (V : Type v) where
  entries : List (K × V)
  nodup : (entries.map Prod.fst).Nodup
  deriving DecidableEq

namespace OrderedDict

variable {K : Type u} {V : Type v}

/-! ## Entry lists -/

section Entries

variable [DecidableEq K]

/-- The value an entry list gives `k`. -/
def find (k : K) : List (K × V) → Option V
  | [] => none
  | (k', v) :: rest => if k' = k then some v else find k rest

/-- Overwrite `k` in place, or append it. -/
def put (k : K) (v : V) : List (K × V) → List (K × V)
  | [] => [(k, v)]
  | (k', v') :: rest => if k' = k then (k', v) :: rest else (k', v') :: put k v rest

theorem find_put (k q : K) (v : V) (es : List (K × V)) :
    find q (put k v es) = if k = q then some v else find q es := by
  induction es with
  | nil => rfl
  | cons e rest ih =>
      obtain ⟨k', v'⟩ := e
      by_cases hit : k' = k
      · subst hit
        by_cases same : k' = q <;> simp [put, find, same]
      · by_cases same : k' = q
        · subst same
          simp [put, find, hit, Ne.symm hit]
        · simp [put, find, hit, same, ih]

theorem put_fresh {k : K} {v : V} {es : List (K × V)} (fresh : k ∉ es.map Prod.fst) :
    put k v es = es ++ [(k, v)] := by
  induction es with
  | nil => rfl
  | cons e rest ih =>
      simp only [List.map_cons, List.mem_cons, not_or] at fresh
      simp only [put, Ne.symm fresh.1, if_false, ih fresh.2, List.cons_append]

theorem find_last {k : K} {v : V} {es : List (K × V)} (fresh : k ∉ es.map Prod.fst) :
    find k (es ++ [(k, v)]) = some v := by
  rw [← put_fresh fresh, find_put, if_pos rfl]

theorem put_last {k : K} {v w : V} {es : List (K × V)} (fresh : k ∉ es.map Prod.fst) :
    put k w (es ++ [(k, v)]) = es ++ [(k, w)] := by
  induction es with
  | nil => simp [put]
  | cons e rest ih =>
      simp only [List.map_cons, List.mem_cons, not_or] at fresh
      simp only [List.cons_append, put, Ne.symm fresh.1, if_false, ih fresh.2]

theorem map_fst_put (k : K) (v : V) (es : List (K × V)) :
    (put k v es).map Prod.fst =
      if k ∈ es.map Prod.fst then es.map Prod.fst else es.map Prod.fst ++ [k] := by
  induction es with
  | nil => rfl
  | cons e rest ih =>
      obtain ⟨k', v'⟩ := e
      by_cases hit : k' = k
      · subst hit
        simp [put]
      · simp only [put, hit, if_false, List.map_cons, ih, List.mem_cons, Ne.symm hit, false_or]
        split <;> rfl

theorem find_eq_none_iff {k : K} {es : List (K × V)} :
    find k es = none ↔ k ∉ es.map Prod.fst := by
  induction es with
  | nil => simp [find]
  | cons e rest ih =>
      obtain ⟨k', v'⟩ := e
      by_cases hit : k' = k
      · simp [find, hit]
      · simp only [find, hit, if_false, ih, List.map_cons, List.mem_cons, Ne.symm hit, false_or]

theorem mem_of_find {k : K} {v : V} {es : List (K × V)} (found : find k es = some v) :
    (k, v) ∈ es := by
  induction es with
  | nil => cases found
  | cons e rest ih =>
      obtain ⟨k', v'⟩ := e
      simp only [find] at found
      split at found
      · rename_i same
        cases found
        rw [same]
        exact List.mem_cons_self
      · exact List.mem_cons_of_mem _ (ih found)

theorem find_filter_ne (k q : K) (es : List (K × V)) :
    find q (es.filter fun e => decide (e.1 ≠ k)) = if k = q then none else find q es := by
  induction es with
  | nil => simp [find]
  | cons e rest ih =>
      obtain ⟨k', v'⟩ := e
      by_cases drop : k' = k
      · subst drop
        by_cases same : k' = q <;> simp_all [find]
      · by_cases same : k' = q
        · subst same
          simp [find, drop, Ne.symm drop]
        · simp_all [find]

end Entries

/-! ## The dictionary operations -/

/-- The dictionary with no entry. -/
def empty : OrderedDict K V := ⟨[], List.nodup_nil⟩

instance : EmptyCollection (OrderedDict K V) := ⟨empty⟩

def keys (d : OrderedDict K V) : List K := d.entries.map Prod.fst

def size (d : OrderedDict K V) : Nat := d.entries.length

variable [DecidableEq K]

def get? (d : OrderedDict K V) (k : K) : Option V := find k d.entries

def set (d : OrderedDict K V) (k : K) (v : V) : OrderedDict K V :=
  ⟨put k v d.entries, by
    rw [map_fst_put]
    split
    · exact d.nodup
    · rename_i fresh
      rw [List.nodup_append]
      exact ⟨d.nodup, List.nodup_singleton k, fun a ha b hb same =>
        fresh (by rw [List.mem_singleton.mp hb] at same; exact same ▸ ha)⟩⟩

def erase (d : OrderedDict K V) (k : K) : OrderedDict K V :=
  ⟨d.entries.filter fun e => decide (e.1 ≠ k),
    d.nodup.sublist (List.Sublist.map _ List.filter_sublist)⟩

/-- Write a list of entries in order. -/
def setAll (d : OrderedDict K V) (es : List (K × V)) : OrderedDict K V :=
  es.foldl (fun d e => d.set e.1 e.2) d

def ofList (es : List (K × V)) : OrderedDict K V := setAll ∅ es

@[simp] theorem get?_empty (k : K) : (∅ : OrderedDict K V).get? k = none := rfl

omit [DecidableEq K] in
@[simp] theorem keys_empty : (∅ : OrderedDict K V).keys = [] := rfl

theorem get?_set (d : OrderedDict K V) (k q : K) (v : V) :
    (d.set k v).get? q = if k = q then some v else d.get? q :=
  find_put k q v d.entries

@[simp] theorem get?_set_self (d : OrderedDict K V) (k : K) (v : V) :
    (d.set k v).get? k = some v := by
  rw [get?_set, if_pos rfl]

theorem get?_set_ne (d : OrderedDict K V) {k q : K} (v : V) (ne : k ≠ q) :
    (d.set k v).get? q = d.get? q := by
  rw [get?_set, if_neg ne]

theorem get?_erase (d : OrderedDict K V) (k q : K) :
    (d.erase k).get? q = if k = q then none else d.get? q :=
  find_filter_ne k q d.entries

theorem get?_of_erase {d : OrderedDict K V} {k q : K} {v : V}
    (found : (d.erase k).get? q = some v) : d.get? q = some v := by
  rw [get?_erase] at found
  split at found
  · cases found
  · exact found

theorem keys_set (d : OrderedDict K V) (k : K) (v : V) :
    (d.set k v).keys = if k ∈ d.keys then d.keys else d.keys ++ [k] :=
  map_fst_put k v d.entries

theorem mem_keys_set {d : OrderedDict K V} {k q : K} {v : V} :
    q ∈ (d.set k v).keys ↔ q = k ∨ q ∈ d.keys := by
  rw [keys_set]
  split
  · rename_i old
    exact ⟨Or.inr, fun here => here.elim (fun same => same ▸ old) id⟩
  · rw [List.mem_append, List.mem_singleton, or_comm]

theorem get?_eq_none_iff {d : OrderedDict K V} {k : K} : d.get? k = none ↔ k ∉ d.keys :=
  find_eq_none_iff

theorem mem_keys_iff {d : OrderedDict K V} {k : K} : k ∈ d.keys ↔ (d.get? k).isSome := by
  rw [Option.isSome_iff_ne_none, Ne, get?_eq_none_iff, Decidable.not_not]

/-- Keys are distinct, so every entry is the one its key reads. -/
theorem get?_of_mem {d : OrderedDict K V} {k : K} {v : V} (mem : (k, v) ∈ d.entries) :
    d.get? k = some v := by
  obtain ⟨es, nodup⟩ := d
  simp only [get?] at mem ⊢
  induction es with
  | nil => cases mem
  | cons e rest ih =>
      obtain ⟨k', v'⟩ := e
      simp only [List.map_cons, List.nodup_cons] at nodup
      rcases List.mem_cons.mp mem with here | later
      · cases here
        simp [find]
      · have ne : k' ≠ k := by
          rintro rfl
          exact nodup.1 (List.mem_map_of_mem later)
        rw [find, if_neg ne]
        exact ih nodup.2 later

/-- The entries after a write: the new one, and all of other keys. -/
theorem mem_entries_set {d : OrderedDict K V} {k : K} {v : V} {e : K × V} :
    e ∈ (d.set k v).entries ↔ e = (k, v) ∨ e ∈ d.entries ∧ e.1 ≠ k := by
  obtain ⟨q, w⟩ := e
  have entry : ∀ d : OrderedDict K V, (q, w) ∈ d.entries ↔ d.get? q = some w :=
    fun d => ⟨get?_of_mem, mem_of_find⟩
  rw [entry, entry, get?_set]
  by_cases same : k = q
  · subst same
    simp [eq_comm]
  · simp [same, Ne.symm same, eq_comm]

/-- Erasing the first key of a listing of the entries leaves the rest of it. -/
theorem perm_erase {d : OrderedDict K V} {e : K × V} {rest : List (K × V)}
    (listed : d.entries.Perm (e :: rest)) : (d.erase e.1).entries.Perm rest := by
  have distinct : ((e :: rest).map Prod.fst).Nodup := (listed.map Prod.fst).nodup_iff.mp d.nodup
  have others : ∀ e' ∈ rest, e'.1 ≠ e.1 := fun e' mem same =>
    (List.nodup_cons.mp distinct).1 (same ▸ List.mem_map_of_mem mem)
  have kept : (e :: rest).filter (fun e' => decide (e'.1 ≠ e.1)) = rest := by
    rw [List.filter_cons_of_neg (by simp), List.filter_eq_self]
    exact fun e' mem => decide_eq_true (others e' mem)
  have filtered := listed.filter fun e' => decide (e'.1 ≠ e.1)
  rw [kept] at filtered
  exact filtered

/-- Removing a present key removes exactly one entry. -/
theorem size_erase {d : OrderedDict K V} {k : K} (present : k ∈ d.keys) :
    (d.erase k).size + 1 = d.size := by
  obtain ⟨es, nodup⟩ := d
  simp only [size, erase, keys] at present ⊢
  induction es with
  | nil => simp at present
  | cons e rest ih =>
      obtain ⟨k', v'⟩ := e
      simp only [List.map_cons, List.nodup_cons] at nodup
      by_cases hit : k' = k
      · subst hit
        have absent : rest.filter (fun e => decide (e.1 ≠ k')) = rest := by
          rw [List.filter_eq_self]
          intro e he
          simp only [decide_eq_true_eq]
          exact fun same => nodup.1 (same ▸ List.mem_map_of_mem he)
        rw [List.filter_cons_of_neg (by simp), absent, List.length_cons]
      · have inRest : k ∈ rest.map Prod.fst := by
          simpa [Ne.symm hit] using present
        rw [List.filter_cons_of_pos (by simpa using hit), List.length_cons, List.length_cons,
          ih nodup.2 inRest]

/-- Entries with distinct new keys are all appended, in order. -/
theorem keys_setAll (d : OrderedDict K V) (es : List (K × V))
    (distinct : (d.keys ++ es.map Prod.fst).Nodup) :
    (d.setAll es).keys = d.keys ++ es.map Prod.fst := by
  induction es generalizing d with
  | nil => simp [setAll]
  | cons e rest ih =>
      have fresh : e.1 ∉ d.keys := fun mem =>
        (List.nodup_append.mp distinct).2.2 _ mem _ (by simp) rfl
      have keys' : (d.set e.1 e.2).keys = d.keys ++ [e.1] := by rw [keys_set, if_neg fresh]
      have next := ih (d.set e.1 e.2) (by rw [keys']; simpa using distinct)
      rw [keys'] at next
      simpa [setAll, List.append_assoc] using next

/-- Entries with distinct new keys stand after the old ones, as they were written. -/
theorem entries_setAll (d : OrderedDict K V) (es : List (K × V))
    (distinct : (d.keys ++ es.map Prod.fst).Nodup) : (d.setAll es).entries = d.entries ++ es := by
  induction es generalizing d with
  | nil => simp [setAll]
  | cons e rest ih =>
      have fresh : e.1 ∉ d.entries.map Prod.fst := fun mem =>
        (List.nodup_append.mp distinct).2.2 _ mem _ (by simp) rfl
      have entries' : (d.set e.1 e.2).entries = d.entries ++ [e] := put_fresh fresh
      have keys' : (d.set e.1 e.2).keys = d.keys ++ [e.1] := by
        simp only [keys, entries', List.map_append, List.map_cons, List.map_nil]
      have next := ih (d.set e.1 e.2) (by rw [keys']; simpa using distinct)
      rw [entries'] at next
      simpa [setAll, List.append_assoc] using next

theorem keys_ofList (es : List (K × V)) (distinct : (es.map Prod.fst).Nodup) :
    (ofList es).keys = es.map Prod.fst := by
  simpa [ofList] using keys_setAll ∅ es (by simpa using distinct)

theorem entries_ofList (es : List (K × V)) (distinct : (es.map Prod.fst).Nodup) :
    (ofList es).entries = es :=
  (entries_setAll ∅ es (by simpa using distinct)).trans (List.nil_append es)

theorem get?_setAll_of_not_mem (d : OrderedDict K V) (es : List (K × V)) {q : K}
    (absent : q ∉ es.map Prod.fst) : (d.setAll es).get? q = d.get? q := by
  induction es generalizing d with
  | nil => rfl
  | cons e rest ih =>
      simp only [List.map_cons, List.mem_cons, not_or] at absent
      calc (d.setAll (e :: rest)).get? q = ((d.set e.1 e.2).setAll rest).get? q := rfl
        _ = (d.set e.1 e.2).get? q := ih _ absent.2
        _ = d.get? q := get?_set_ne d e.2 (Ne.symm absent.1)

/-- Entries with distinct keys each read back their own value. -/
theorem get?_setAll_of_mem (d : OrderedDict K V) (es : List (K × V))
    (distinct : (es.map Prod.fst).Nodup) {k : K} {v : V} (mem : (k, v) ∈ es) :
    (d.setAll es).get? k = some v := by
  induction es generalizing d with
  | nil => cases mem
  | cons e rest ih =>
      simp only [List.map_cons, List.nodup_cons] at distinct
      rcases List.mem_cons.mp mem with rfl | later
      · calc (d.setAll ((k, v) :: rest)).get? k = ((d.set k v).setAll rest).get? k := rfl
          _ = (d.set k v).get? k := get?_setAll_of_not_mem _ rest distinct.1
          _ = some v := get?_set_self d k v
      · exact ih (d.set e.1 e.2) distinct.2 later

/-- A value read after writing a list of entries was written by one of them or
was there before. -/
theorem get?_setAll_cases (d : OrderedDict K V) (es : List (K × V)) {k : K} {v : V}
    (found : (d.setAll es).get? k = some v) : (k, v) ∈ es ∨ d.get? k = some v := by
  induction es generalizing d with
  | nil => exact Or.inr found
  | cons e rest ih =>
      rcases ih (d.set e.1 e.2) found with later | now
      · exact Or.inl (List.mem_cons_of_mem e later)
      · rw [get?_set] at now
        split at now
        · rename_i same
          cases now
          exact Or.inl (by rw [← same]; exact List.mem_cons_self)
        · exact Or.inr now

/-- A key that is written is there afterwards. -/
theorem mem_keys_setAll (d : OrderedDict K V) (es : List (K × V)) {k : K}
    (mem : k ∈ d.keys ∨ k ∈ es.map Prod.fst) : k ∈ (d.setAll es).keys := by
  induction es generalizing d with
  | nil => simpa [setAll] using mem
  | cons e rest ih =>
      apply ih (d.set e.1 e.2)
      rw [keys_set]
      rcases mem with old | new
      · left
        split
        · exact old
        · exact List.mem_append_left _ old
      · rcases List.mem_cons.mp new with rfl | later
        · left
          split
          · assumption
          · exact List.mem_append_right _ (List.mem_singleton.mpr rfl)
        · exact Or.inr later

/-- What a built dictionary holds was written. -/
theorem mem_of_get?_ofList {es : List (K × V)} {k : K} {v : V}
    (found : (ofList es).get? k = some v) : (k, v) ∈ es := by
  rcases get?_setAll_cases ∅ es found with mem | old
  · exact mem
  · simp at old

/-- What is written under a key, or something written there later, is held. -/
theorem exists_get?_ofList {es : List (K × V)} {k : K} {v : V} (mem : (k, v) ∈ es) :
    ∃ v', (ofList es).get? k = some v' ∧ (k, v') ∈ es := by
  have inKeys : k ∈ (ofList es).keys :=
    mem_keys_setAll ∅ es (Or.inr (List.mem_map_of_mem mem))
  obtain ⟨v', found⟩ := Option.isSome_iff_exists.mp (mem_keys_iff.mp inKeys)
  exact ⟨v', found, mem_of_get?_ofList found⟩

end OrderedDict

end KoyuRuntime.Theory
