import WindowFold.Proofs.Machine.Assignment

/-!
# The ways through a block

A way through a block is what is left of it when every branch that is met goes to one side, without
regard to its condition.  A run that succeeds is the run of one of them (`runAll_way`).

`assigned` is exact for ways: a slot is in it if and only if each of them assigns the slot
(`mem_assignedAll_iff`), be it in a different statement each time.
-/

namespace WindowFold
namespace Stmt

mutual

/-- The ways through a statement, each of them a list of plain statements. -/
def ways : Stmt → List (List Stmt)
  | .branch _ yes no => waysAll yes ++ waysAll no
  | s => [[s]]

def waysAll : List Stmt → List (List Stmt)
  | [] => [[]]
  | s :: rest => s.ways.flatMap fun a => (waysAll rest).map fun b => a ++ b

end

/-- One of the statements is an assignment to the slot. -/
def Assigns (ss : List Stmt) (x : SlotId) : Prop := ∃ e, Stmt.assign x e ∈ ss

theorem assigns_append {a b : List Stmt} {x : SlotId} :
    Assigns (a ++ b) x ↔ Assigns a x ∨ Assigns b x := by
  simp only [Assigns, List.mem_append, exists_or]

theorem forall_or_iff {α : Type} {a b : List α} {P : α → Prop} :
    (∀ x ∈ a, ∀ y ∈ b, P x ∨ P y) ↔ (∀ x ∈ a, P x) ∨ ∀ y ∈ b, P y := by
  constructor
  · intro h
    by_cases hb : ∀ y ∈ b, P y
    · exact .inr hb
    · -- Some `y` falls short, so every `x` has to make up for it.
      refine .inl fun x hx => Classical.byContradiction fun hP => hb fun y hy => ?_
      exact (h x hx y hy).resolve_left hP
  · rintro (h | h) x hx y hy
    · exact .inl (h x hx)
    · exact .inr (h y hy)

mutual

theorem mem_assigned_iff {x : SlotId} :
    ∀ s : Stmt, x ∈ s.assigned ↔ ∀ way ∈ s.ways, Assigns way x
  | .declare y name e => by simp [assigned, ways, Assigns]
  | .setLocal y e => by simp [assigned, ways, Assigns]
  | .assign y e => by simp [assigned, ways, Assigns]
  | .push y e => by simp [assigned, ways, Assigns]
  | .reserve y e => by simp [assigned, ways, Assigns]
  | .branch c yes no => by
    rw [mem_assigned_branch, mem_assignedAll_iff yes, mem_assignedAll_iff no, ways,
      List.forall_mem_append]

/-- A block surely assigns a slot if and only if every way through it does. -/
theorem mem_assignedAll_iff {x : SlotId} :
    ∀ ss : List Stmt, x ∈ assignedAll ss ↔ ∀ way ∈ waysAll ss, Assigns way x
  | [] => by simp [assignedAll, waysAll, Assigns]
  | s :: rest => by
    have hways : (∀ way ∈ waysAll (s :: rest), Assigns way x) ↔
        ∀ a ∈ s.ways, ∀ b ∈ waysAll rest, Assigns a x ∨ Assigns b x := by
      simp only [waysAll, List.forall_mem_flatMap, List.forall_mem_map, assigns_append]
    rw [hways, forall_or_iff, assignedAll, List.mem_append, mem_assigned_iff s,
      mem_assignedAll_iff rest]

end

theorem assignedAll_eq (ss : List Stmt) : assignedAll ss = ss.flatMap assigned := by
  induction ss with
  | nil => rfl
  | cons s rest ih => rw [assignedAll, ih, List.flatMap_cons]

theorem Assigns.mem_assignedAll {ss : List Stmt} {x : SlotId} (h : Assigns ss x) :
    x ∈ assignedAll ss := by
  obtain ⟨e, he⟩ := h
  rw [assignedAll_eq, List.mem_flatMap]
  exact ⟨_, he, by simp [assigned]⟩

/-! ## Runs go along a way -/

variable {env : Env} {st st' : Store}

mutual

theorem run_way : ∀ (s : Stmt) {st st' : Store}, s.run env st = (st', .ok ()) →
    ∃ way ∈ s.ways, runAll env st way = (st', .ok ())
  | .branch c yes no, st, st', h => by
    obtain ⟨t, _, ht⟩ := proceed_eq_ok h
    split at ht
    · obtain ⟨way, hway, hrun⟩ := runAll_way yes ht
      exact ⟨way, List.mem_append_left _ hway, hrun⟩
    · obtain ⟨way, hway, hrun⟩ := runAll_way no ht
      exact ⟨way, List.mem_append_right _ hway, hrun⟩
  | .declare x name e, st, st', h => ⟨[.declare x name e], by simp [ways], by simp [runAll, h]⟩
  | .setLocal x e, st, st', h => ⟨[.setLocal x e], by simp [ways], by simp [runAll, h]⟩
  | .assign x e, st, st', h => ⟨[.assign x e], by simp [ways], by simp [runAll, h]⟩
  | .push x e, st, st', h => ⟨[.push x e], by simp [ways], by simp [runAll, h]⟩
  | .reserve x e, st, st', h => ⟨[.reserve x e], by simp [ways], by simp [runAll, h]⟩

/-- A run that comes to its end is that of one of the ways. -/
theorem runAll_way : ∀ (ss : List Stmt) {st st' : Store}, runAll env st ss = (st', .ok ()) →
    ∃ way ∈ waysAll ss, runAll env st way = (st', .ok ())
  | [], st, st', h => ⟨[], by simp [waysAll], h⟩
  | s :: rest, st, st', h => by
    obtain ⟨st₁, hs, hrest⟩ := andThen_eq_ok h
    obtain ⟨a, ha, hruna⟩ := run_way s hs
    obtain ⟨b, hb, hrunb⟩ := runAll_way rest hrest
    refine ⟨a ++ b, ?_, ?_⟩
    · exact List.mem_flatMap.mpr ⟨a, ha, List.mem_map_of_mem hb⟩
    · rw [runAll_append, hruna, andThen_ok, hrunb]

end

/-- What every way assigns is set when a run has come to its end. -/
theorem runAll_holds_of_ways {ss : List Stmt} {x : SlotId} (h : runAll env st ss = (st', .ok ()))
    (hways : ∀ way ∈ waysAll ss, Assigns way x) : st'.Holds x := by
  obtain ⟨way, hway, hrun⟩ := runAll_way ss h
  exact runAll_assigned env way hrun (hways way hway).mem_assignedAll

end Stmt
end WindowFold
