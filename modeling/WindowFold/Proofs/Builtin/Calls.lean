import WindowFold.Proofs.Builtin.Record
import WindowFold.Proofs.Workspace.Answers

/-!
# The calls of a record are what they were created as

A call that a record ends with comes from one of its instructions (`record_created`).  So a call
of a builtin function has its slots one after the other, and as many arguments as the function
admits if its signature was resolved (`record_call`).
-/

namespace WindowFold

namespace Workspace

variable {w w' : Workspace} {e : Entry} {u : Nat} {t t' : Tally}

/-- A call has been there before or is new. -/
theorem Takes.origin (h : w.Takes e w') (ht' : w'.tallies[u]? = some t') :
    (∃ t, w.tallies[u]? = some t ∧ t.Becomes t') ∨
      ∃ sig agg, e.instruction = .create sig agg ∧ Tally.create sig agg w.pass = .ok t' w'.pass := by
  cases ht : w.tallies[u]? with
  | some t =>
    obtain ⟨t₁, ht₁, hbecomes⟩ := h.becomes ht
    obtain rfl : t₁ = t' := Option.some.inj (ht₁.symm.trans ht')
    exact .inl ⟨t, rfl, hbecomes⟩
  | none =>
    have hlen : w.tallies.length ≤ u := List.getElem?_eq_none_iff.mp ht
    have grown (hsame : w'.tallies.length = w.tallies.length) : False := by
      obtain ⟨hlt, _⟩ := List.getElem?_eq_some_iff.mp ht'
      omega
    cases h with
    | @created s agg t p hc =>
      rw [List.getElem?_append_right hlen, List.getElem?_singleton] at ht'
      split at ht'
      · obtain rfl := Option.some.inj ht'
        exact .inr ⟨s, agg, rfl, hc⟩
      · simp at ht'
    | opened => exact (grown (List.length_set ..)).elim
    | @warmed hint ts ss p hw _ =>
      have haccumulators := congrArg List.length (warmUpAll_accumulators hint w.pass w.tallies)
      rw [hw, List.length_map, List.length_map] at haccumulators
      exact (grown haccumulators).elim
    | updated => exact (grown rfl).elim
    | yielded => exact (grown rfl).elim
    | bound => exact (grown rfl).elim
    | emitted => exact (grown rfl).elim

theorem record_created {config : Config} {is : List Instruction} {es : List Entry}
    (h : (start config).record is = .ok (es, w)) (ht : w.tallies[u]? = some t) :
    ∃ sig agg, .create sig agg ∈ is ∧
      ∃ t₀ p p', Tally.create sig agg p = .ok t₀ p' ∧ t₀.Becomes t := by
  rw [← record_instructions h]
  refine record_induction (P := fun es w => ∀ u t, w.tallies[u]? = some t →
    ∃ sig agg, .create sig agg ∈ es.map Entry.instruction ∧
      ∃ t₀ p p', Tally.create sig agg p = .ok t₀ p' ∧ t₀.Becomes t) ?_ ?_ h u t ht
  · intro u t ht
    simp [start] at ht
  · intro es w e w' ih htakes u t ht
    rw [List.map_append, List.map_singleton]
    rcases htakes.origin ht with ⟨t₁, ht₁, hbecomes⟩ | ⟨sig, agg, hi, hc⟩
    · obtain ⟨sig, agg, hmem, t₀, p, p', hc, hbefore⟩ := ih u t₁ ht₁
      exact ⟨sig, agg, List.mem_append_left _ hmem, t₀, p, p', hc, hbefore.trans hbecomes⟩
    · exact ⟨sig, agg, by simp [hi], t, _, _, hc, .refl t⟩

end Workspace

namespace Builtin

open Workspace

variable {b : Builtin} {s : Nat → SlotId} {t t' : Tally}

theorem Call.becomes (h : b.Call s t) (ht : t.Becomes t') : b.Call s t' :=
  ⟨ht.aggregate.trans h.aggregate, by rw [ht.site]; exact h.fits⟩

theorem record_call {config : Config} {is : List Instruction} {es : List Entry} {w : Workspace}
    (h : (start config).record is = .ok (es, w)) {u : Nat} (ht : w.tallies[u]? = some t)
    (hb : t.aggregate = b.aggregate) (hn : b.Admits t.signature.arity) : ∃ s, b.Call s t := by
  obtain ⟨sig, agg, _, t₀, p, p', hc, hbecomes⟩ := record_created h ht
  obtain ⟨hsignature, _⟩ := Site.mk.inj hbecomes.site
  obtain ⟨rfl, _⟩ := Tally.create_ok.mp hc
  obtain rfl : agg = b.aggregate := hbecomes.aggregate.symm.trans hb
  rw [hsignature] at hn
  exact ⟨_, (create_call hn hc).becomes hbecomes⟩

end Builtin

end WindowFold
