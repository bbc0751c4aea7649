import LatticeObservables.Collection.OrderedMap
import LatticeObservables.Proofs.Collection.FirstSeen

/-!
# Maps Built Step by Step

A map that is built by updating it once for each element of a list is known through two
laws. Its keys are the keys of the elements in first-seen order (`keys_foldl_update`), and
its value at a key is what the elements of that key alone make of it, in their order
(`get?_foldl_update`); in the map of a list of entries the last one counts (`get?_ofList`). The
keys and the values together are the whole map (`entries_eq_map`).
-/

namespace LatticeObservables

namespace OrderedMap

variable {κ ν : Type} [DecidableEq κ]

/-! ### Looking up -/

/-- The entries of a map are what it returns. -/
theorem get?_eq_some_iff {m : OrderedMap κ ν} {k : κ} {v : ν} :
    m.get? k = some v ↔ (k, v) ∈ m.entries := by
  obtain ⟨entries, nodup⟩ := m
  simp only [get?]
  induction entries with
  | nil => simp
  | cons e rest ih =>
      obtain ⟨j, w⟩ := e
      simp only [List.map_cons, List.nodup_cons] at nodup
      by_cases h : k = j
      · subst h
        have hrest : (k, v) ∉ rest := fun hmem => nodup.1 (List.mem_map_of_mem hmem)
        simp [hrest, eq_comm]
      · have hkj : (k == j) = false := by rwa [beq_eq_false_iff_ne]
        simp [List.lookup_cons, hkj, ih nodup.2, h]

/-- A key is present exactly when something is found at it. -/
theorem isSome_get? {m : OrderedMap κ ν} {k : κ} : (m.get? k).isSome ↔ k ∈ m.keys := by
  simp only [Option.isSome_iff_exists, get?_eq_some_iff, keys, List.mem_map, Prod.exists]
  constructor
  · rintro ⟨v, hv⟩
    exact ⟨k, v, hv, rfl⟩
  · rintro ⟨_, v, hv, rfl⟩
    exact ⟨v, hv⟩

/-- A map is its keys with their values. -/
theorem entries_eq_map {m : OrderedMap κ ν} {value : κ → ν}
    (h : ∀ k ∈ m.keys, m.get? k = some (value k)) :
    m.entries = m.keys.map fun k => (k, value k) := by
  have hentry : m.entries.map (fun e => (e.1, value e.1)) = m.entries.map id := by
    refine List.map_congr_left ?_
    rintro ⟨k, v⟩ he
    have hk := h k (List.mem_map_of_mem he)
    rw [get?_eq_some_iff.mpr he] at hk
    simp [Option.some.inj hk]
  rw [List.map_id] at hentry
  rw [keys, List.map_map]
  exact hentry.symm

/-- The entries of one key are at most one, the one that is found. -/
theorem filter_entries (m : OrderedMap κ ν) (k : κ) :
    m.entries.filter (·.1 = k) = ((m.get? k).map fun v => (k, v)).toList := by
  obtain ⟨entries, nodup⟩ := m
  simp only [get?]
  induction entries with
  | nil => simp
  | cons e rest ih =>
      obtain ⟨j, w⟩ := e
      simp only [List.map_cons, List.nodup_cons] at nodup
      by_cases h : k = j
      · subst h
        have hrest : rest.filter (·.1 = k) = [] := by
          simp only [List.filter_eq_nil_iff, decide_eq_true_eq]
          rintro e he rfl
          exact nodup.1 (List.mem_map_of_mem he)
        simp [hrest]
      · have hkj : (k == j) = false := by rwa [beq_eq_false_iff_ne]
        have hjk : ¬ j = k := fun e => h e.symm
        simp [List.lookup_cons, hkj, hjk, ih nodup.2]

/-- A map without keys has nothing at any key. -/
theorem get?_eq_none_iff {m : OrderedMap κ ν} {k : κ} : m.get? k = none ↔ k ∉ m.keys := by
  rw [← isSome_get?, Option.not_isSome_iff_eq_none]

/-- A map is its keys with what is found at them. -/
theorem entries_eq_filterMap (m : OrderedMap κ ν) :
    m.entries = m.keys.filterMap fun k => (m.get? k).map fun v => (k, v) := by
  rw [keys, List.filterMap_map]
  have hself : m.entries.filterMap some = m.entries := List.filterMap_some
  refine hself.symm.trans (List.filterMap_congr ?_)
  intro e he
  simp [get?_eq_some_iff.mpr he]

/-! ### Updating once for each element of a list -/

/-- The keys after one update, in **first-seen order**. -/
theorem keys_update_eq_firstSeen (m : OrderedMap κ ν) (k : κ) (f : Option ν → ν) :
    (m.update k f).keys = firstSeen (m.keys ++ [k]) := by
  have hkeys : firstSeen m.keys = m.keys := firstSeen_eq_self m.nodup
  rw [keys_update, firstSeen_append_singleton, hkeys]

section Fold

variable {α : Type} (key : α → κ) (change : α → Option ν → ν)

/-- The keys of a map that was updated for each element of a list, in **first-seen order**. -/
theorem keys_foldl_update (l : List α) (m : OrderedMap κ ν) :
    (l.foldl (fun m a => m.update (key a) (change a)) m).keys =
      firstSeen (m.keys ++ l.map key) := by
  induction l using List.reverseRecOn with
  | nil =>
      rw [List.map_nil, List.append_nil]
      exact (firstSeen_eq_self m.nodup).symm
  | append_singleton l a ih =>
      rw [List.foldl_append, List.map_append, ← List.append_assoc, List.map_singleton,
        List.foldl_cons, List.foldl_nil, keys_update_eq_firstSeen, ih,
        firstSeen_firstSeen_append]

/-- The value at a key is what the elements **of that key** make of it, one after the
other. -/
theorem get?_foldl_update (l : List α) (m : OrderedMap κ ν) (k : κ) :
    (l.foldl (fun m a => m.update (key a) (change a)) m).get? k =
      (l.filter (key · = k)).foldl (fun v a => some (change a v)) (m.get? k) := by
  induction l generalizing m with
  | nil => rfl
  | cons a rest ih =>
      rw [List.foldl_cons, ih, get?_update]
      by_cases h : key a = k
      · subst h
        simp
      · have h' : ¬ k = key a := fun e => h e.symm
        simp [h, h']

end Fold

/-! ### Maps of lists and of maps -/

/-- What counts of a list of values is the last one. -/
theorem foldl_some_eq_getLast? {α β : Type} (f : α → β) (l : List α) :
    l.foldl (fun _ a => some (f a)) none = l.getLast?.map f := by
  induction l using List.reverseRecOn with
  | nil => rfl
  | append_singleton l a _ => simp

/-- In the map of a list of entries, the value at a key is that of its **last entry**. -/
theorem get?_ofList (l : List (κ × ν)) (k : κ) :
    (ofList l).get? k = (l.filter (·.1 = k)).getLast?.map Prod.snd := by
  have hget := get?_foldl_update Prod.fst (fun (e : κ × ν) _ => e.2) l empty k
  rw [ofList]
  exact hget.trans (foldl_some_eq_getLast? Prod.snd _)

/-- An update at a new key appends its entry. -/
theorem updateEntries_of_notMem {l : List (κ × ν)} {k : κ} (h : k ∉ l.map Prod.fst)
    (f : Option ν → ν) : updateEntries k f l = l ++ [(k, f none)] := by
  induction l with
  | nil => rfl
  | cons e rest ih =>
      rw [List.map_cons, List.mem_cons, not_or] at h
      rw [updateEntries, if_neg fun heq => h.1 heq.symm, ih h.2, List.cons_append]

/-- The map of a list of entries with **different keys** is that list. -/
theorem entries_ofList {l : List (κ × ν)} (h : (l.map Prod.fst).Nodup) :
    (ofList l).entries = l := by
  induction l using List.reverseRecOn with
  | nil => rfl
  | append_singleton l e ih =>
      rw [List.map_append, List.map_singleton, List.nodup_append] at h
      obtain ⟨hl, -, hnew⟩ := h
      have hkey : e.1 ∉ l.map Prod.fst := fun hmem => hnew e.1 hmem e.1 (by simp) rfl
      rw [ofList, List.foldl_append, List.foldl_cons, List.foldl_nil, ← ofList, insert, update]
      simp only [ih hl]
      exact updateEntries_of_notMem hkey _

section FilterMapValues

variable {μ : Type}

/-- What is found in a map of replaced values is what replaces the value of the key. -/
theorem get?_filterMapValues (f : ν → Option μ) (m : OrderedMap κ ν) (k : κ) :
    (m.filterMapValues f).get? k = (m.get? k).bind f := by
  obtain ⟨entries, nodup⟩ := m
  simp only [get?, filterMapValues]
  induction entries with
  | nil => rfl
  | cons e rest ih =>
      obtain ⟨j, v⟩ := e
      simp only [List.map_cons, List.nodup_cons] at nodup
      have ih := ih nodup.2
      by_cases h : k = j
      · subst h
        cases hf : f v with
        | none =>
            -- The key stands only once, so it is not found behind the value left out.
            have hrest : rest.lookup k = none := by
              rw [List.lookup_eq_none_iff]
              rintro ⟨j, w⟩ he
              rw [bne_iff_ne]
              rintro rfl
              exact nodup.1 (List.mem_map_of_mem he)
            simp [hf, ih, hrest]
        | some w => simp [hf]
      · have hkj : (k == j) = false := by rwa [beq_eq_false_iff_ne]
        cases hf : f v with
        | none => simpa [hf, List.lookup_cons, hkj] using ih
        | some w => simpa [hf, List.lookup_cons, hkj] using ih

/-- If every value is replaced, no key is left out. -/
theorem keys_filterMapValues {f : ν → Option μ} {m : OrderedMap κ ν}
    (hf : ∀ k v, m.get? k = some v → (f v).isSome) : (m.filterMapValues f).keys = m.keys := by
  have hall : ∀ e ∈ m.entries, (f e.2).isSome := fun e he => hf e.1 e.2 (get?_eq_some_iff.mpr he)
  simp only [keys, filterMapValues]
  generalize m.entries = entries at hall
  induction entries with
  | nil => rfl
  | cons e rest ih =>
      obtain ⟨he, hrest⟩ := List.forall_mem_cons.mp hall
      obtain ⟨w, hw⟩ := Option.isSome_iff_exists.mp he
      simp [hw, ih hrest]

omit [DecidableEq κ] in
/-- Values can be replaced in two steps. -/
theorem map_entries_filterMapValues {ρ : Type} (f : ν → Option μ) (g : μ → ρ)
    (m : OrderedMap κ ν) :
    ((m.filterMapValues f).entries.map fun e => (e.1, g e.2)) =
      (m.filterMapValues fun v => (f v).map g).entries := by
  simp only [filterMapValues, List.map_filterMap, Option.map_map]
  rfl

end FilterMapValues

end OrderedMap

end LatticeObservables
