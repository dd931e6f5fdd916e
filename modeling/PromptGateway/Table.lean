/-
  Values under names.

  A table keeps one value for each of its names, in the order in which the names
  came. `find?` is its view: each operation is described by what `find?` answers
  afterwards (`find?_insert`, `find?_erase`, `find?_modify`), and
  `mem_entries_iff` says that nothing else is in a table.
-/

namespace PromptGateway

/-- Values under names, each name once. -/
structure Table (κ α : Type) where
  entries : List (κ × α)
  nodup : (entries.map Prod.fst).Nodup

namespace Table

variable {κ α : Type} [DecidableEq κ]

/-- The table without names. -/
def empty : Table κ α := ⟨[], List.nodup_nil⟩

instance : Inhabited (Table κ α) := ⟨empty⟩

/-- The names, in the order in which they came. -/
def keys (t : Table κ α) : List κ := t.entries.map Prod.fst

/-- The values, in the order of their names. -/
def values (t : Table κ α) : List α := t.entries.map Prod.snd

/-- The number of names. -/
def size (t : Table κ α) : Nat := t.entries.length

/-- The value under a name. -/
def find? (t : Table κ α) (k : κ) : Option α :=
  (t.entries.find? (·.1 == k)).map Prod.snd

/-- Whether there is a value under a name. -/
def contains (t : Table κ α) (k : κ) : Bool := (t.find? k).isSome

theorem find?_eq_none_iff (t : Table κ α) (k : κ) : t.find? k = none ↔ k ∉ t.keys := by
  simp only [find?, Option.map_eq_none_iff, List.find?_eq_none, keys, List.mem_map, not_exists,
    not_and, beq_iff_eq]

/-- A table holds what it answers, and nothing else. -/
theorem mem_entries_iff (t : Table κ α) (k : κ) (a : α) :
    (k, a) ∈ t.entries ↔ t.find? k = some a := by
  obtain ⟨entries, nodup⟩ := t
  simp only [find?]
  induction entries with
  | nil => simp
  | cons x xs ih =>
    obtain ⟨n, b⟩ := x
    simp only [List.map_cons, List.nodup_cons] at nodup
    rw [List.find?_cons, List.mem_cons]
    by_cases h : n = k
    · subst h
      simp only [beq_self_eq_true, Option.map_some, Option.some.injEq, Prod.mk.injEq, true_and]
      constructor
      · rintro (e | hm)
        · exact e.symm
        · exact absurd (List.mem_map_of_mem (f := Prod.fst) hm) nodup.1
      · exact fun e => .inl e.symm
    · have hb : (n == k) = false := by simpa using h
      simp only [hb, ih nodup.2, Prod.mk.injEq]
      exact ⟨fun e => e.resolve_left fun e => h e.1.symm, .inr⟩

/-- Changes the value under a name, if there is one. -/
def modify (t : Table κ α) (k : κ) (f : α → α) : Table κ α where
  entries := t.entries.map fun (n, a) => (n, if n = k then f a else a)
  nodup := by simpa [List.map_map, Function.comp_def] using t.nodup

/-- Takes a name and its value out. -/
def erase (t : Table κ α) (k : κ) : Table κ α where
  entries := t.entries.filter (·.1 ≠ k)
  nodup := t.nodup.sublist (List.filter_sublist.map _)

theorem nodup_append_of_not_contains (t : Table κ α) {k : κ} (a : α)
    (h : t.contains k = false) : ((t.entries ++ [(k, a)]).map Prod.fst).Nodup := by
  have hk : k ∉ t.keys := by
    rw [← find?_eq_none_iff]
    simpa [contains] using h
  rw [List.map_append, List.nodup_append]
  refine ⟨t.nodup, by simp, ?_⟩
  intro x hx y hy e
  simp only [List.map_cons, List.map_nil, List.mem_singleton] at hy
  subst hy e
  exact hk hx

/-- Puts a value under a name, in place of the one there if there is one. -/
def insert (t : Table κ α) (k : κ) (a : α) : Table κ α :=
  if h : t.contains k = false then ⟨t.entries ++ [(k, a)], t.nodup_append_of_not_contains a h⟩
  else t.modify k fun _ => a

@[simp] theorem find?_empty (k : κ) : (empty : Table κ α).find? k = none := rfl

omit [DecidableEq κ] in
@[simp] theorem size_empty : (empty : Table κ α).size = 0 := rfl

theorem find?_modify (t : Table κ α) (k : κ) (f : α → α) (j : κ) :
    (t.modify k f).find? j = if j = k then (t.find? k).map f else t.find? j := by
  obtain ⟨entries, nodup⟩ := t
  simp only [find?, modify]
  clear nodup
  induction entries with
  | nil => simp
  | cons x xs ih =>
    obtain ⟨n, b⟩ := x
    simp only [List.map_cons, List.find?_cons]
    by_cases hn : n = j
    · subst hn
      by_cases hk : n = k
      · subst hk; simp
      · simp [hk]
    · have hb : (n == j) = false := by simpa using hn
      simp only [hb, ih]
      by_cases hj : j = k
      · subst hj; simp [hb]
      · simp [hj]

theorem find?_erase (t : Table κ α) (k j : κ) :
    (t.erase k).find? j = if j = k then none else t.find? j := by
  obtain ⟨entries, nodup⟩ := t
  simp only [find?, erase]
  clear nodup
  induction entries with
  | nil => simp
  | cons x xs ih =>
    obtain ⟨n, b⟩ := x
    rw [List.filter_cons]
    by_cases hk : n = k
    · subst hk
      simp only [ne_eq, not_true_eq_false, decide_false, Bool.false_eq_true, if_false]
      rw [ih, List.find?_cons]
      by_cases hj : j = n
      · simp [hj]
      · have hb : (n == j) = false := by simpa using fun e => hj e.symm
        simp [hj, hb]
    · simp only [ne_eq, hk, not_false_eq_true, decide_true, if_true, List.find?_cons]
      by_cases hn : n = j
      · subst hn; simp [hk]
      · have hb : (n == j) = false := by simpa using hn
        simp only [hb, ih]

theorem find?_insert (t : Table κ α) (k : κ) (a : α) (j : κ) :
    (t.insert k a).find? j = if j = k then some a else t.find? j := by
  unfold insert
  split
  · next h =>
    have hk : t.find? k = none := by simpa [contains] using h
    simp only [find?, List.find?_append, Option.map_or]
    by_cases hj : j = k
    · subst hj
      rw [find?] at hk
      rw [hk]
      simp
    · have hb : (k == j) = false := by simpa using fun e => hj e.symm
      simp [hj, hb]
  · next h =>
    have hk : (t.find? k).isSome := by simpa [contains, ← Option.isSome_iff_ne_none] using h
    rw [find?_modify]
    split
    · obtain ⟨b, hb⟩ := Option.isSome_iff_exists.mp hk
      rw [hb]; rfl
    · rfl

@[simp] theorem size_modify (t : Table κ α) (k : κ) (f : α → α) :
    (t.modify k f).size = t.size := by simp [modify, size]

@[simp] theorem keys_modify (t : Table κ α) (k : κ) (f : α → α) :
    (t.modify k f).keys = t.keys := by simp [modify, keys, List.map_map, Function.comp_def]

theorem keys_erase (t : Table κ α) (k : κ) : (t.erase k).keys = t.keys.filter (· ≠ k) := by
  simp [erase, keys, List.filter_map, Function.comp_def]

theorem keys_insert_of_not_contains (t : Table κ α) (k : κ) (a : α)
    (h : t.contains k = false) : (t.insert k a).keys = t.keys ++ [k] := by
  simp [insert, h, keys]

omit [DecidableEq κ] in
theorem size_eq_length_keys (t : Table κ α) : t.size = t.keys.length := by simp [size, keys]

/-! ## Membership -/

theorem mem_keys_iff (t : Table κ α) (k : κ) : k ∈ t.keys ↔ ∃ a, t.find? k = some a := by
  have h := t.find?_eq_none_iff k
  cases hk : t.find? k with
  | none => simpa [hk] using h
  | some a => simpa [hk] using h

theorem mem_values_iff (t : Table κ α) (a : α) : a ∈ t.values ↔ ∃ k, t.find? k = some a := by
  simp only [values, List.mem_map, Prod.exists, mem_entries_iff, exists_eq_right]

theorem contains_eq_false_iff (t : Table κ α) (k : κ) :
    t.contains k = false ↔ t.find? k = none := by
  simp [contains]

theorem size_insert_of_not_contains (t : Table κ α) (k : κ) (a : α)
    (h : t.contains k = false) : (t.insert k a).size = t.size + 1 := by
  simp [insert, h, size]

theorem size_erase_le (t : Table κ α) (k : κ) : (t.erase k).size ≤ t.size :=
  List.length_filter_le _ _

/-! ## Two changes under one name -/

/-- What is done to a value before its name is taken out does not matter. -/
theorem erase_modify (t : Table κ α) (k : κ) (f : α → α) :
    (t.modify k f).erase k = t.erase k := by
  obtain ⟨entries, nodup⟩ := t
  simp only [erase, modify, mk.injEq]
  clear nodup
  induction entries with
  | nil => rfl
  | cons x xs ih =>
    obtain ⟨n, a⟩ := x
    by_cases h : n = k
    · simpa [h] using ih
    · simpa [h] using ih

theorem modify_modify (t : Table κ α) (k : κ) (f g : α → α) :
    (t.modify k f).modify k g = t.modify k fun a => g (f a) := by
  obtain ⟨entries, nodup⟩ := t
  simp only [modify, mk.injEq, List.map_map]
  refine List.map_congr_left fun x _ => ?_
  obtain ⟨n, a⟩ := x
  by_cases h : n = k
  · simp [h]
  · simp [h]

/-- The value under a name decides what a change of it comes to. -/
theorem modify_congr (t : Table κ α) (k : κ) {f g : α → α}
    (h : ∀ a, t.find? k = some a → f a = g a) : t.modify k f = t.modify k g := by
  obtain ⟨entries, nodup⟩ := t
  simp only [modify, mk.injEq]
  refine List.map_congr_left fun x hx => ?_
  obtain ⟨n, a⟩ := x
  by_cases hn : n = k
  · subst hn
    simp only [if_true]
    rw [h a ((mem_entries_iff ⟨entries, nodup⟩ n a).mp hx)]
  · simp only [hn, if_false]

/-- A value put in place of one that has just been put there. -/
theorem insert_insert (t : Table κ α) (k : κ) (a b : α) :
    (t.insert k a).insert k b = t.insert k b := by
  have hc : (t.insert k a).contains k = true := by simp [contains, find?_insert]
  rw [insert, dif_neg (by simp [hc])]
  by_cases h : t.contains k = false
  · have hk : k ∉ t.keys := by rw [← find?_eq_none_iff]; simpa [contains] using h
    simp only [insert, dif_pos h, modify, mk.injEq, List.map_append, List.map_cons, List.map_nil,
      if_true]
    refine congrArg (· ++ _) ((List.map_congr_left fun x hx => ?_).trans t.entries.map_id)
    have hne : x.1 ≠ k := fun e => hk (e ▸ List.mem_map_of_mem (f := Prod.fst) hx)
    simp [hne]
  · simp only [insert, dif_neg h, modify_modify]

end Table

end PromptGateway
