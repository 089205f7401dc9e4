import WindowFold.Proofs.Builtin.Codes

/-!
# The layouts of calls that are merged

A merge that goes through has compared the signatures of the two calls and how many slots they
have.  The slots themselves come from the functions, so their types agree exactly if the two
functions lay out the one signature alike (`merge_layouts`).  Functions that were resolved by
their names do, for then a signature tells the function.

Nothing makes a caller resolve them.  Two functions under one signature may lay out as many slots
of other types, and are merged all the same (`count_merges_list`).
-/

namespace WindowFold

/-- A call as some pass has created it for some signature and some function, in whatever state. -/
def Tally.Created (t : Tally) : Prop :=
  ∃ sig agg t₀ p p', Tally.create sig agg p = .ok t₀ p' ∧ t₀.Becomes t

namespace Tally

variable {t other : Tally} {p p' : Pass}

def slotTypes (t : Tally) : List DataType := t.accumulator.slots.map Slot.type

theorem OfBuiltin.created (h : t.OfBuiltin) : t.Created := by
  obtain ⟨_, _, _, sig, agg, t₀, p, p', _, hcreate, hbecomes⟩ := h
  exact ⟨sig, agg, t₀, p, p', hcreate, hbecomes⟩

/-- The types of a call's slots are those that its function lays out for its signature. -/
theorem Created.slotTypes (h : t.Created) : t.slotTypes = t.aggregate.layout t.signature := by
  obtain ⟨sig, agg, t₀, p, p', hcreate, hbecomes⟩ := h
  obtain ⟨hsignature, haccumulator⟩ := Site.mk.inj hbecomes.site
  obtain ⟨rfl, _⟩ := create_ok.mp hcreate
  rw [Tally.slotTypes, hsignature, haccumulator, hbecomes.aggregate]
  exact zipWith_slot_types _ _ (by simp)

theorem OfBuiltin.slotTypes_eq (h : t.OfBuiltin) (h' : other.OfBuiltin)
    (hsig : other.signature = t.signature) : other.slotTypes = t.slotTypes := by
  obtain ⟨b, s, hb⟩ := h.resolved
  obtain ⟨b', s', hb'⟩ := h'.resolved
  exact (hb.same hb' hsig).2

/-- Whatever the calls, their functions and the passes they were created in: if a merge goes
through then both are of one signature and have equally many slots.  Slot by slot the types agree
if and only if the two functions lay out that signature alike, as the same function does, and as
builtin functions do that were resolved by name. -/
theorem merge_layouts (ht : t.Created) (ho : other.Created)
    (h : t.merge other p = .ok () p') :
    other.signature = t.signature ∧ other.accumulator.size = t.accumulator.size ∧
    ((∀ (i : Nat) (a b : Slot), t.accumulator.slots[i]? = some a →
        other.accumulator.slots[i]? = some b → b.type = a.type) ↔
      other.aggregate.layout t.signature = t.aggregate.layout t.signature) ∧
    (t.OfBuiltin → other.OfBuiltin →
      other.aggregate.layout t.signature = t.aggregate.layout t.signature) := by
  obtain ⟨_, hsig, hsize⟩ := requireMergeable_ok.mp (merge_ok.mp h).2.2.1
  have htypes := ht.slotTypes
  have hothers := ho.slotTypes
  rw [hsig] at hothers
  refine ⟨hsig, hsize, ?_, ?_⟩
  · rw [← htypes, ← hothers]
    constructor
    · intro hall
      apply List.ext_getElem
      · simpa [Tally.slotTypes, Accumulator.size] using hsize
      · intro i hi hi'
        rw [Tally.slotTypes, List.length_map] at hi hi'
        simp only [Tally.slotTypes, List.getElem_map]
        exact hall i _ _ (List.getElem?_eq_getElem hi') (List.getElem?_eq_getElem hi)
    · intro heq i a b ha hb
      have hi := congrArg (fun l => l[i]?) heq
      simp only [Tally.slotTypes, List.getElem?_map, ha, hb, Option.map_some] at hi
      exact Option.some.inj hi
  · intro hb hb'
    rw [← htypes, ← hothers, hb.slotTypes_eq hb' hsig]

/-- Two means that were resolved by name are merged slot by slot. -/
theorem avg_merges_avg : ∃ (t other : Tally) (p p' : Pass), t.OfBuiltin ∧ other.OfBuiltin ∧
    t.merge other p = .ok () p' ∧ t.slotTypes = [.float, .int] ∧
    ∀ (i : Nat) (a b : Slot), t.accumulator.slots[i]? = some a →
      other.accumulator.slots[i]? = some b → b.type = a.type := by
  have hpasses : ∃ (t₀ other₀ t other : Tally) (p₁ p₂ p₃ p p' : Pass),
      create (.of "avg" [.int] .float true false) Builtin.avg.aggregate
        (.start (.strict "agg")) = .ok t₀ p₁ ∧
      create (.of "avg" [.int] .float true false) Builtin.avg.aggregate p₁ = .ok other₀ p₂ ∧
      t₀.reset p₂ = .ok t p₃ ∧ other₀.reset p₃ = .ok other p ∧ t.merge other p = .ok () p' ∧
      t₀.Becomes t ∧ other₀.Becomes other ∧ t.slotTypes = [.float, .int] :=
    ⟨_, _, _, _, _, _, _, _, _, rfl, rfl, rfl, rfl,
      merge_ok.mpr ⟨rfl, rfl, requireMergeable_ok.mpr ⟨rfl, rfl, rfl⟩, rfl⟩,
      becomes_opened _ (.reset 0), becomes_opened _ (.reset 1), rfl⟩
  obtain ⟨t₀, other₀, t, other, p₁, p₂, p₃, p, p', ht₀, ho₀, _, _, hmerge, ht, ho, htypes⟩ :=
    hpasses
  have htyping : Builtin.avg.aggregate.typing [.int] = .ok (.float, true) := rfl
  have hresolve := Builtin.resolve_name htyping false
  have hb : t.OfBuiltin := ⟨_, _, _, _, _, t₀, _, p₁, hresolve, ht₀, ht⟩
  have hb' : other.OfBuiltin := ⟨_, _, _, _, _, other₀, _, p₂, hresolve, ho₀, ho⟩
  obtain ⟨_, _, hslots, halike⟩ := merge_layouts hb.created hb'.created hmerge
  exact ⟨t, other, p, p', hb, hb', hmerge, htypes, hslots.mpr (halike hb hb')⟩

/-- A count and a list under one signature are merged, though one holds a number and the other an
array.  The code that is emitted fails when it is run. -/
theorem count_merges_list : ∃ (t₀ other₀ t other : Tally) (p₁ p₂ p₃ p p' : Pass) (st : Store)
    (e : RunError),
    create (.of "tally" [.int] .int false false) .count (.start (.strict "agg")) = .ok t₀ p₁ ∧
    create (.of "tally" [.int] .int false false) .arrayAgg p₁ = .ok other₀ p₂ ∧
    t₀.reset p₂ = .ok t p₃ ∧ other₀.reset p₃ = .ok other p ∧ t.merge other p = .ok () p' ∧
    t.slotTypes = [.int] ∧ other.slotTypes = [.array] ∧
    Stmt.runAll ⟨[], none⟩ .fresh p'.draft.stmts = (st, .error e) :=
  ⟨_, _, _, _, _, _, _, _, _, _, _, rfl, rfl, rfl, rfl,
    merge_ok.mpr ⟨rfl, rfl, requireMergeable_ok.mpr ⟨rfl, rfl, rfl⟩, rfl⟩, rfl, rfl, rfl⟩

end Tally

end WindowFold
