/-!
# Keyed lists

Pairs of a name and a value in insertion order. Writing a name again keeps its first position and
gives it the last value, so the names stay distinct. Reading is `List.lookup`.
-/

namespace QueryTypes

/-- Values under names, in insertion order. -/
abbrev Keyed (α : Type) := List (String × α)

namespace Keyed
variable {α : Type}

/-- The names, in insertion order. -/
def keys (m : Keyed α) : List String := m.map Prod.fst

/-- Writes `value` under `key`: in place where the key is present, else at the end. -/
def put (m : Keyed α) (key : String) (value : α) : Keyed α :=
  match m with
  | [] => [(key, value)]
  | (k, v) :: rest => if k = key then (k, value) :: rest else (k, v) :: put rest key value

/-- The pairs written one after the other. -/
def ofPairs (pairs : List (String × α)) : Keyed α :=
  pairs.foldl (fun m p => put m p.1 p.2) []

theorem lookup_cons (p : String × α) (rest : Keyed α) (k : String) :
    List.lookup k (p :: rest) = if k = p.1 then some p.2 else List.lookup k rest := by
  obtain ⟨name, value⟩ := p
  rw [List.lookup_cons]
  by_cases h : k = name
  · simp [h]
  · have hb : (k == name) = false := by simpa using h
    simp [hb, h]

theorem lookup_put (m : Keyed α) (key : String) (value : α) (k : String) :
    (put m key value).lookup k = if k = key then some value else m.lookup k := by
  induction m with
  | nil => simp [put, lookup_cons]
  | cons p rest ih =>
    simp only [put]
    split
    · rename_i h; subst h; simp only [lookup_cons]; split <;> rfl
    · rename_i h
      simp only [lookup_cons, ih]
      by_cases hk : k = p.1
      · subst hk; simp [h]
      · simp [hk]

theorem keys_put (m : Keyed α) (key : String) (value : α) :
    keys (put m key value) = if key ∈ keys m then keys m else keys m ++ [key] := by
  induction m with
  | nil => simp [put, keys]
  | cons p rest ih =>
    by_cases hk : p.1 = key
    · simp [put, keys, hk]
    · have hk' : ¬ key = p.1 := fun h => hk h.symm
      simp only [put, if_neg hk]
      simp only [keys, List.map_cons, List.mem_cons, hk', false_or] at ih ⊢
      rw [ih]
      by_cases hm : key ∈ rest.map Prod.fst <;> simp only [hm, if_true, if_false, List.cons_append]

theorem nodup_keys_put (m : Keyed α) (key : String) (value : α) (h : (keys m).Nodup) :
    (keys (put m key value)).Nodup := by
  rw [keys_put]
  split
  · exact h
  · rename_i hk
    refine List.nodup_append.2 ⟨h, by simp, ?_⟩
    intro a ha b hb
    rw [List.mem_singleton] at hb
    rintro rfl
    exact hk (hb ▸ ha)

/-- A list built by writing pairs has distinct names. -/
theorem nodup_keys_ofPairs (pairs : List (String × α)) : (keys (ofPairs pairs)).Nodup := by
  suffices h : ∀ m : Keyed α, (keys m).Nodup →
      (keys (pairs.foldl (fun m p => put m p.1 p.2) m)).Nodup from h [] (by simp [keys])
  induction pairs with
  | nil => exact fun _ h => h
  | cons p rest ih => exact fun m h => ih _ (nodup_keys_put m p.1 p.2 h)

/-- Of the pairs written under a name, the last one is read. -/
theorem lookup_ofPairs (pairs : List (String × α)) (k : String) :
    (ofPairs pairs).lookup k = pairs.reverse.lookup k := by
  suffices h : ∀ m : Keyed α, (pairs.foldl (fun m p => put m p.1 p.2) m).lookup k =
      (pairs.reverse.lookup k).or (m.lookup k) from (h []).trans (by simp)
  induction pairs with
  | nil => simp
  | cons p rest ih =>
    intro m
    rw [List.foldl_cons, ih, List.reverse_cons, List.lookup_append, lookup_put, lookup_cons]
    cases rest.reverse.lookup k <;> by_cases h : k = p.1 <;> simp [h]

theorem exists_lookup {m : Keyed α} {k : String} : (∃ a, m.lookup k = some a) ↔ k ∈ keys m := by
  rw [← Option.isSome_iff_exists, List.lookup_isSome_iff]
  simp [keys, @eq_comm _ k]

theorem lookup_map {β : Type} (f : α → β) (m : Keyed α) (k : String) :
    List.lookup k (m.map fun p => (p.1, f p.2)) = (m.lookup k).map f := by
  induction m with
  | nil => rfl
  | cons p rest ih =>
    rw [List.map_cons, lookup_cons, lookup_cons, ih]
    split <;> rfl

theorem exists_lookup_ofPairs {pairs : List (String × α)} {k : String} :
    (∃ a, (ofPairs pairs).lookup k = some a) ↔ k ∈ pairs.map Prod.fst := by
  rw [lookup_ofPairs, exists_lookup]
  simp [keys]

theorem mem_of_lookup {m : Keyed α} {k : String} {a : α} (h : m.lookup k = some a) : (k, a) ∈ m := by
  obtain ⟨before, rest, rfl, _⟩ := List.lookup_eq_some_iff.1 h
  simp

theorem lookup_eq_some_of_mem {m : Keyed α} (h : (keys m).Nodup) {p : String × α} (hp : p ∈ m) :
    m.lookup p.1 = some p.2 := by
  induction m with
  | nil => cases hp
  | cons q rest ih =>
    rw [keys, List.map_cons, List.nodup_cons] at h
    rw [lookup_cons]
    rcases List.mem_cons.1 hp with rfl | hp
    · rw [if_pos rfl]
    · have hne : p.1 ≠ q.1 := fun heq => h.1 (heq ▸ List.mem_map_of_mem hp)
      rw [if_neg hne, ih h.2 hp]

/-- Of pairs with distinct names each one is read. -/
theorem lookup_ofPairs_of_mem {pairs : List (String × α)} (h : (pairs.map Prod.fst).Nodup)
    {p : String × α} (hp : p ∈ pairs) : (ofPairs pairs).lookup p.1 = some p.2 := by
  rw [lookup_ofPairs]
  refine lookup_eq_some_of_mem ?_ (List.mem_reverse.2 hp)
  rw [keys, List.map_reverse]
  exact List.pairwise_reverse.2 (h.imp Ne.symm)

theorem put_of_not_mem {m : Keyed α} {key : String} (h : key ∉ keys m)
    (value : α) : put m key value = m ++ [(key, value)] := by
  induction m with
  | nil => rfl
  | cons p rest ih =>
    rw [keys, List.map_cons, List.mem_cons, not_or] at h
    rw [put, if_neg (Ne.symm h.1), ih h.2, List.cons_append]

/-- Pairs with distinct names are written as they are. -/
theorem ofPairs_eq_self {pairs : List (String × α)}
    (h : (pairs.map Prod.fst).Nodup) : ofPairs pairs = pairs := by
  suffices hmore : ∀ m : Keyed α, (m.keys ++ pairs.map Prod.fst).Nodup →
      pairs.foldl (fun m p => put m p.1 p.2) m = m ++ pairs from hmore [] h
  induction pairs with
  | nil => exact fun m _ => (List.append_nil m).symm
  | cons p rest ih =>
    intro m hm
    rw [List.map_cons] at h hm
    have hnew : p.1 ∉ m.keys := fun hp =>
      (List.nodup_append.1 hm).2.2 _ hp _ List.mem_cons_self rfl
    rw [List.foldl_cons, put_of_not_mem hnew, ih (List.nodup_cons.1 h).2, List.append_assoc,
      List.singleton_append]
    rwa [keys, List.map_append, List.append_assoc]

end Keyed
end QueryTypes
