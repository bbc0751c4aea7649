/-!
# Insertion-Ordered Maps

A map from keys to values whose keys stand in the order in which they were first inserted.
The entries are the view of a map: looking a key up (`OrderedMap.get?`) and changing the
value at a key (`OrderedMap.update`) are described through them. An update keeps the place
of a key that is present and appends one that is not (`keys_update`), and it changes the
value at no other key (`get?_update`).
-/

namespace LatticeObservables

/-- An **insertion-ordered map** with distinct keys. -/
structure OrderedMap (κ ν : Type) where
  entries : List (κ × ν)
  nodup : (entries.map Prod.fst).Nodup

namespace OrderedMap

variable {κ ν : Type} [DecidableEq κ]

/-- Changes the value at a key in a list of entries; a new key goes to the end. -/
def updateEntries (k : κ) (f : Option ν → ν) : List (κ × ν) → List (κ × ν)
  | [] => [(k, f none)]
  | (k', v) :: rest =>
    if k' = k then (k, f (some v)) :: rest else (k', v) :: updateEntries k f rest

/-- The keys after an update: a key that is present keeps its place. -/
theorem map_fst_updateEntries (k : κ) (f : Option ν → ν) (l : List (κ × ν)) :
    (updateEntries k f l).map Prod.fst =
      if k ∈ l.map Prod.fst then l.map Prod.fst else l.map Prod.fst ++ [k] := by
  induction l with
  | nil => simp [updateEntries]
  | cons e rest ih =>
      obtain ⟨k', v⟩ := e
      by_cases h : k' = k
      · subst h; simp [updateEntries]
      · have h' : ¬ k = k' := fun e => h e.symm
        by_cases hk : k ∈ rest.map Prod.fst
        · simp [updateEntries, h, h', ih, hk]
        · simp [updateEntries, h, h', ih, hk]

/-- The map without entries. -/
def empty : OrderedMap κ ν :=
  ⟨[], List.nodup_nil⟩

/-- The keys in insertion order. -/
def keys (m : OrderedMap κ ν) : List κ :=
  m.entries.map Prod.fst

/-- The number of keys. -/
def size (m : OrderedMap κ ν) : Nat :=
  m.entries.length

/-- The value at a key. -/
def get? (m : OrderedMap κ ν) (k : κ) : Option ν :=
  m.entries.lookup k

/-- Whether a key is present. -/
def contains (m : OrderedMap κ ν) (k : κ) : Bool :=
  (m.get? k).isSome

/-- The map with the value at `k` changed to `f` of what was there. -/
def update (m : OrderedMap κ ν) (k : κ) (f : Option ν → ν) : OrderedMap κ ν where
  entries := updateEntries k f m.entries
  nodup := by
    rw [map_fst_updateEntries]
    split
    · exact m.nodup
    next h =>
      rw [List.nodup_append]
      refine ⟨m.nodup, by simp, ?_⟩
      intro a ha b hb
      rw [List.mem_singleton.mp hb]
      rintro rfl
      exact h ha

/-- The map with the value `v` at `k`. -/
def insert (m : OrderedMap κ ν) (k : κ) (v : ν) : OrderedMap κ ν :=
  m.update k fun _ => v

/-- The map of a list of entries, inserted one after the other. -/
def ofList (l : List (κ × ν)) : OrderedMap κ ν :=
  l.foldl (fun m e => m.insert e.1 e.2) empty

/-- The map with every value replaced by a value that may not exist; such entries are
left out. -/
def filterMapValues {μ : Type} (f : ν → Option μ) (m : OrderedMap κ ν) : OrderedMap κ μ where
  entries := m.entries.filterMap fun e => (f e.2).map fun v => (e.1, v)
  nodup := by
    have sub : ∀ l : List (κ × ν),
        ((l.filterMap fun e => (f e.2).map fun v => (e.1, v)).map Prod.fst).Sublist
          (l.map Prod.fst) := by
      intro l
      induction l with
      | nil => simp
      | cons e rest ih =>
          cases h : f e.2 with
          | none => simpa [h] using ih.cons _
          | some v => simp [h, ih]
    exact (sub m.entries).nodup m.nodup

/-! ### What an update does to keys and values -/

/-- An update keeps the place of a key that is present and appends one that is not. -/
theorem keys_update (m : OrderedMap κ ν) (k : κ) (f : Option ν → ν) :
    (m.update k f).keys = if k ∈ m.keys then m.keys else m.keys ++ [k] :=
  map_fst_updateEntries k f m.entries

/-- An update changes the value at its own key and at no other. -/
theorem get?_update (m : OrderedMap κ ν) (k k' : κ) (f : Option ν → ν) :
    (m.update k f).get? k' = if k' = k then some (f (m.get? k)) else m.get? k' := by
  simp only [get?, update]
  induction m.entries with
  | nil => by_cases h : k' = k <;> simp [updateEntries, h]
  | cons e rest ih =>
      obtain ⟨j, v⟩ := e
      by_cases hj : j = k
      · subst hj
        by_cases h : k' = j
        · simp [updateEntries, h]
        · have h' : (k' == j) = false := by rwa [beq_eq_false_iff_ne]
          simp [updateEntries, h, h', List.lookup_cons]
      · have hk : (k == j) = false := by
          rw [beq_eq_false_iff_ne]
          exact fun e => hj e.symm
        by_cases h : k' = j
        · subst h
          simp [updateEntries, hj]
        · have h' : (k' == j) = false := by rwa [beq_eq_false_iff_ne]
          simp only [updateEntries, hj, if_false, List.lookup_cons, h', hk, ih]

end OrderedMap

end LatticeObservables
