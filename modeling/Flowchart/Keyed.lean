/-!
# Tables by key

A table is a list of keys with their values, and what it holds under a key is `List.lookup`. The
index of a graph, the numbers of the nodes of a diagram, owners, classes and styles of links are
kept this way. `setKey` writes a value, `addKey` writes one only under a key that is new; both keep
every key once.
-/

namespace Flowchart

variable {κ β : Type} [BEq κ]

/-- A table with the value of one key set: a known key keeps its place. -/
def setKey (key : κ) (value : β) : List (κ × β) → List (κ × β)
  | [] => [(key, value)]
  | (k, v) :: rest => if k == key then (key, value) :: rest else (k, v) :: setKey key value rest

/-- A table with a value for one key, unless the key has a value. -/
def addKey (key : κ) (value : β) (l : List (κ × β)) : List (κ × β) :=
  if (l.lookup key).isSome then l else l ++ [(key, value)]

variable [LawfulBEq κ]

/-- Exactly the keys of a table have a value. -/
theorem isSome_lookup_iff {l : List (κ × β)} {k : κ} :
    (l.lookup k).isSome ↔ k ∈ l.map Prod.fst := by
  induction l with
  | nil => simp
  | cons p l ih =>
    rw [List.lookup_cons, List.map_cons, List.mem_cons, ← ih]
    cases hk : k == p.1 with
    | true => simp [beq_iff_eq.mp hk]
    | false => simp [beq_eq_false_iff_ne.mp hk]

/-- Where every key stands once, every entry is what the table holds under its key. -/
theorem lookup_of_mem {l : List (κ × β)} (hl : (l.map Prod.fst).Nodup) {k : κ} {v : β}
    (h : (k, v) ∈ l) : l.lookup k = some v := by
  induction l with
  | nil => cases h
  | cons p l ih =>
    rw [List.map_cons, List.nodup_cons] at hl
    rw [List.lookup_cons]
    cases List.mem_cons.mp h with
    | inl hp =>
      subst hp
      simp
    | inr hrest =>
      have hne : k ≠ p.1 := fun hk => hl.1 (hk ▸ List.mem_map_of_mem hrest)
      rw [beq_eq_false_iff_ne.mpr hne]
      exact ih hl.2 hrest

/-- What is looked up after one key was set. -/
theorem lookup_setKey (key : κ) (value : β) (l : List (κ × β)) (k : κ) :
    (setKey key value l).lookup k = if k == key then some value else l.lookup k := by
  induction l with
  | nil =>
    rw [setKey, List.lookup_cons]
    cases k == key <;> rfl
  | cons p l ih =>
    obtain ⟨k', v⟩ := p
    rw [setKey]
    split
    next h =>
      obtain rfl := beq_iff_eq.mp h
      rw [List.lookup_cons, List.lookup_cons]
      cases k == k' <;> rfl
    next h =>
      rw [List.lookup_cons, List.lookup_cons, ih]
      cases hk : k == k' with
      | false => rfl
      | true =>
        obtain rfl := beq_iff_eq.mp hk
        exact (if_neg h).symm

/-- A new key stands behind the others. -/
theorem setKey_of_new {key : κ} {l : List (κ × β)} (h : l.lookup key = none) (value : β) :
    setKey key value l = l ++ [(key, value)] := by
  induction l with
  | nil => rfl
  | cons p l ih =>
    rw [List.lookup_cons] at h
    cases hk : key == p.1 with
    | true => simp [hk] at h
    | false =>
      rw [hk] at h
      have hne : ¬(p.1 == key) = true := fun hp => by simp [beq_iff_eq.mp hp] at hk
      rw [setKey, if_neg hne, ih h, List.cons_append]

theorem addKey_of_known {key : κ} {l : List (κ × β)} (h : key ∈ l.map Prod.fst) (value : β) :
    addKey key value l = l :=
  if_pos (isSome_lookup_iff.mpr h)

theorem addKey_of_new {key : κ} {l : List (κ × β)} (h : key ∉ l.map Prod.fst) (value : β) :
    addKey key value l = l ++ [(key, value)] :=
  if_neg (mt isSome_lookup_iff.mp h)

/-- What is looked up after some keys were removed. -/
theorem lookup_filter_key (keep : κ → Bool) (l : List (κ × β)) (k : κ) :
    (l.filter fun p => keep p.1).lookup k = if keep k then l.lookup k else none := by
  induction l with
  | nil => simp
  | cons p l ih =>
    obtain ⟨k', v⟩ := p
    rw [List.filter_cons, List.lookup_cons]
    cases hk : k == k' with
    | true =>
      obtain rfl := beq_iff_eq.mp hk
      cases hkeep : keep k with
      | true => simp
      | false => simp [hkeep, ih]
    | false =>
      split
      · rw [List.lookup_cons, hk, ih]
      · exact ih

end Flowchart
