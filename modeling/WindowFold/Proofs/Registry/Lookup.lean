import Mathlib
import WindowFold.Aggregate.Total
import WindowFold.Aggregate.Registry

/-!
# Looking functions up

Functions are registered one after the other, each under its own name.  A lookup finds the one
that was registered last under the name asked for, put in lower case (`get?_registerAll`).  So a
function whose name is in lower case is found and typed under every spelling of it, while a name
with capitals in it is registered and listed all the same, but nothing is ever found under it
(`found_in_lowercase`).
-/

namespace WindowFold

/-- There are no capitals in it. -/
def LowerCase (name : String) : Prop := name.toLower = name

theorem lowerCase_toLower (name : String) : LowerCase name.toLower := by
  unfold LowerCase String.toLower
  rw [String.map_map]
  congr 1
  funext c
  exact Char.toLower_toLower_eq_toLower c

namespace Registry

variable {α : Type}

/-- The functions registered in this order, each under its own name. -/
def registerAll (r : Registry Aggregate) (aggs : List Aggregate) : Registry Aggregate :=
  aggs.foldl (fun r agg => r.register agg.name agg) r

/-! ## One registration -/

theorem lookup_replace (name key : String) (a : α) (entries : List (String × α)) :
    (replace name a entries).lookup key = if key = name then some a else entries.lookup key := by
  induction entries with
  | nil =>
    rw [replace, List.lookup_cons]
    by_cases h : key = name
    · simp [h]
    · simp [h, beq_false_of_ne h]
  | cons e rest ih =>
    obtain ⟨n, b⟩ := e
    rw [replace]
    by_cases hn : n = name
    · rw [if_pos hn, hn, List.lookup_cons, List.lookup_cons]
      by_cases h : key = name
      · simp [h]
      · simp [h, beq_false_of_ne h]
    · rw [if_neg hn, List.lookup_cons, List.lookup_cons, ih]
      by_cases h : key = n
      · simp [h, hn]
      · simp only [beq_false_of_ne h]

theorem get?_register (r : Registry α) (name key : String) (a : α) :
    (r.register name a).get? key = if key.toLower = name then some a else r.get? key :=
  lookup_replace name key.toLower a r.entries

/-- A name that is there already keeps its place, and any other comes last. -/
theorem names_register (r : Registry α) (name : String) (a : α) :
    (r.register name a).names = if name ∈ r.names then r.names else r.names ++ [name] := by
  unfold names register
  simp only
  induction r.entries with
  | nil => rfl
  | cons e rest ih =>
    obtain ⟨n, b⟩ := e
    rw [replace]
    by_cases hn : n = name
    · simp [hn]
    · have hne : name ≠ n := fun h => hn h.symm
      rw [if_neg hn, List.map_cons, ih]
      by_cases h : name ∈ rest.map Prod.fst
      · rw [if_pos h, List.map_cons, if_pos (List.mem_cons_of_mem _ h)]
      · rw [if_neg h, List.map_cons, if_neg (by simp [hne, h]), List.cons_append]

theorem nodup_names_register {r : Registry α} (h : r.names.Nodup) (name : String) (a : α) :
    (r.register name a).names.Nodup := by
  rw [names_register]
  by_cases hmem : name ∈ r.names
  · rw [if_pos hmem]
    exact h
  · rw [if_neg hmem, ← List.concat_eq_append]
    exact h.concat hmem

/-! ## Many registrations -/

/-- What was registered last under the name counts, and what was there before if nothing was. -/
theorem get?_registerAll (r : Registry Aggregate) (aggs : List Aggregate) (key : String) :
    (r.registerAll aggs).get? key =
      (aggs.reverse.find? fun agg => agg.name = key.toLower).or (r.get? key) := by
  induction aggs generalizing r with
  | nil => rfl
  | cons agg rest ih =>
    rw [registerAll, List.foldl_cons, ← registerAll, ih, get?_register, List.reverse_cons,
      List.find?_append, Option.or_assoc]
    by_cases h : agg.name = key.toLower
    · simp [h]
    · have hne : key.toLower ≠ agg.name := fun h' => h h'.symm
      simp [h, hne]

theorem nodup_names_registerAll {r : Registry Aggregate} (h : r.names.Nodup)
    (aggs : List Aggregate) : (r.registerAll aggs).names.Nodup := by
  induction aggs generalizing r with
  | nil => exact h
  | cons agg rest ih => exact ih (nodup_names_register h agg.name agg)

theorem mem_names_registerAll (r : Registry Aggregate) (aggs : List Aggregate) (name : String) :
    name ∈ (r.registerAll aggs).names ↔ name ∈ r.names ∨ ∃ agg ∈ aggs, agg.name = name := by
  induction aggs generalizing r with
  | nil => simp [registerAll]
  | cons agg rest ih =>
    rw [registerAll, List.foldl_cons, ← registerAll, ih, names_register]
    by_cases h : agg.name ∈ r.names
    · rw [if_pos h]
      grind
    · rw [if_neg h]
      grind

/-- A name that nothing was registered under later is still that of the function. -/
theorem get?_registered {r : Registry Aggregate} {before after : List Aggregate} {agg : Aggregate}
    {key : String} (hkey : agg.name = key.toLower) (hlast : ∀ b ∈ after, b.name ≠ agg.name) :
    (r.registerAll (before ++ agg :: after)).get? key = some agg := by
  have hafter : (after.reverse.find? fun b => b.name = key.toLower) = none := by
    rw [List.find?_eq_none]
    intro b hb
    rw [List.mem_reverse] at hb
    have hb := hlast b hb
    rw [hkey] at hb
    simpa using hb
  rw [get?_registerAll, List.reverse_append, List.reverse_cons, List.append_assoc,
    List.find?_append, hafter, Option.none_or, List.singleton_append,
    List.find?_cons_of_pos (by simpa using hkey), Option.some_or]

theorem name_of_get?_registerAll {aggs : List Aggregate} {agg : Aggregate} {key : String}
    (h : (empty.registerAll aggs).get? key = some agg) : agg ∈ aggs ∧ agg.name = key.toLower := by
  have hnone : (empty : Registry Aggregate).get? key = none := rfl
  rw [get?_registerAll, hnone, Option.or_none] at h
  have hmem := List.mem_of_find?_eq_some h
  have hname := List.find?_some h
  exact ⟨List.mem_reverse.mp hmem, by simpa using hname⟩

theorem resolve_of_get? {r : Registry Aggregate} {name : String} {agg : Aggregate}
    (h : r.get? name = some agg) (types : List DataType) (distinct : Bool) :
    r.resolve name types distinct = (agg.typing types).map fun t =>
      (.of agg.name types t.1 t.2 distinct, agg) := by
  simp only [resolve, h]
  cases agg.typing types <;> rfl

/-- Every function registered under a name in lower case is found and typed under all spellings of
that name, unless the name has been given to a function registered later.  No other function is
ever found.  No name is listed twice, nor are two names in lower case that differ in case only. -/
theorem found_in_lowercase (aggs : List Aggregate) :
    (∀ before agg after, aggs = before ++ agg :: after → LowerCase agg.name →
      (∀ b ∈ after, b.name ≠ agg.name) → ∀ n : String, n.toLower = agg.name.toLower →
      (empty.registerAll aggs).get? n = some agg ∧
      ∀ types distinct, (empty.registerAll aggs).resolve n types distinct =
        (agg.typing types).map fun t => (.of agg.name types t.1 t.2 distinct, agg)) ∧
    (∀ n agg, (empty.registerAll aggs).get? n = some agg →
      agg ∈ aggs ∧ LowerCase agg.name ∧ agg.name = n.toLower) ∧
    (∀ n types distinct, (∀ agg ∈ aggs, agg.name ≠ n.toLower) →
      (empty.registerAll aggs).resolve n types distinct = .error (.unknownFunction n)) ∧
    (empty.registerAll aggs).names.Nodup ∧
    (∀ name, name ∈ (empty.registerAll aggs).names ↔ ∃ agg ∈ aggs, agg.name = name) ∧
    ∀ a ∈ (empty.registerAll aggs).names, ∀ b ∈ (empty.registerAll aggs).names,
      a.toLower = b.toLower → a ≠ b → ¬ LowerCase a ∨ ¬ LowerCase b := by
  refine ⟨?_, ?_, ?_, nodup_names_registerAll (r := empty) List.nodup_nil aggs,
    ?_, ?_⟩
  · rintro before agg after rfl hlower hlast n hn
    have hget : (empty.registerAll (before ++ agg :: after)).get? n = some agg :=
      get?_registered (hlower.symm.trans hn.symm) hlast
    exact ⟨hget, resolve_of_get? hget⟩
  · intro n agg h
    obtain ⟨hmem, hname⟩ := name_of_get?_registerAll h
    exact ⟨hmem, hname ▸ lowerCase_toLower n, hname⟩
  · intro n types distinct hnone
    have hget : (empty.registerAll aggs).get? n = none := by
      cases h : (empty.registerAll aggs).get? n with
      | none => rfl
      | some agg =>
        obtain ⟨hmem, hname⟩ := name_of_get?_registerAll h
        exact absurd hname (hnone agg hmem)
    rw [resolve, hget]
  · intro name
    rw [mem_names_registerAll]
    simp [empty, names]
  · intro a _ b _ hcase hne
    by_contra hlower
    rw [not_or, not_not, not_not] at hlower
    exact hne (hlower.1.symm.trans (hcase.trans hlower.2))

/-- A count under another name. -/
def countAs (name : String) : Aggregate := { Aggregate.count with name := name }

/-- A median registered between a count and a function whose name is spelled with a capital is
what is found under that spelling too. -/
theorem median_found : LowerCase "median" ∧
    (∀ b ∈ [countAs "Median"], b.name ≠ (countAs "median").name) ∧
    (empty.registerAll [countAs "count", countAs "median", countAs "Median"]).get? "Median" =
      some (countAs "median") := by
  have hlower : LowerCase "median" := by
    unfold LowerCase
    cbv
  have hlast : ∀ b ∈ [countAs "Median"], b.name ≠ (countAs "median").name := by
    simp [countAs]
  have hspelled : "Median".toLower = (countAs "median").name.toLower := by cbv
  obtain ⟨hfound, _⟩ := found_in_lowercase [countAs "count", countAs "median", countAs "Median"]
  exact ⟨hlower, hlast, (hfound [countAs "count"] _ _ rfl hlower hlast "Median" hspelled).1⟩

/-- A function registered with a capital in its name is listed, but neither found nor typed, even
under the name it was given. -/
theorem capital_lost : (empty.registerAll [countAs "Median"]).names = ["Median"] ∧
    (empty.registerAll [countAs "Median"]).get? "Median" = none ∧
    (empty.registerAll [countAs "Median"]).get? "median" = none ∧
    (empty.registerAll [countAs "Median"]).resolve "Median" [] false =
      .error (.unknownFunction "Median") ∧
    (empty.registerAll [countAs "Median", countAs "median"]).names = ["Median", "median"] := by
  have hlower : "Median".toLower = "median" := by cbv
  have hlower' : "median".toLower = "median" := by cbv
  have hget : (empty.registerAll [countAs "Median"]).get? "Median" = none := by
    rw [get?_registerAll, hlower]
    simp [countAs, empty, get?]
  refine ⟨rfl, hget, ?_, ?_, ?_⟩
  · rw [get?_registerAll, hlower']
    simp [countAs, empty, get?]
  · rw [resolve, hget]
  · rfl

end Registry
end WindowFold
