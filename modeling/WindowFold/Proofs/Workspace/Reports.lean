import WindowFold.Proofs.Workspace.Record

/-!
# Results that are bound

Asking for a result and binding it are two instructions, and nothing in them says that what is bound
is what came back.  A report is a place in a run where it is (`Reports`), and a run may be such that
every result is bound as it came back (`BindsReplies`).  Whether this is so can be seen from the
steps (`reports_iff`), and it holds of a long run if it holds of its parts (`BindsReplies.append`).
-/

namespace WindowFold
namespace Workspace

/-- Among the instructions, behind `before`: the result of a call is asked for, and the expression
that comes back is what is bound under the name.  The answer to the binding is `r`. -/
def Reports (w : Workspace) (is before : List Instruction) (u : Nat) (name : String)
    (r : Except EmitError Reply) : Prop :=
  ∃ v after, is = before ++ .result u :: .bind name v :: after ∧
    (w.attempts is).1[before.length]? = some (.ok (.value v)) ∧
    (w.attempts is).1[before.length + 1]? = some r

/-- Every result that is asked for comes back and is bound at once. -/
def BindsReplies (w : Workspace) (is : List Instruction) : Prop :=
  ∀ before u after, is = before ++ .result u :: after → ∃ name r, w.Reports is before u name r

section

variable {w : Workspace} {is is' before after : List Instruction} {u : Nat} {name : String}
  {v : Expr} {r : Except EmitError Reply}

/-- What came of an instruction is found at its place. -/
theorem attempts_getElem (w : Workspace) (before : List Instruction) (i : Instruction)
    (after : List Instruction) : (w.attempts (before ++ i :: after)).1[before.length]? =
      some ((w.attempts before).2.step i).2 := by
  rw [attempts_append]
  show ((w.attempts before).1 ++ _)[before.length]? = _
  rw [List.getElem?_append_right (Nat.le_of_eq (attempts_length w before)), attempts_length,
    Nat.sub_self]
  rfl

/-- A report is read off the two steps. -/
theorem reports_iff :
    w.Reports (before ++ .result u :: .bind name v :: after) before u name r ↔
      ((w.attempts before).2.step (.result u)).2 = .ok (.value v) ∧
        (((w.attempts before).2.step (.result u)).1.step (.bind name v)).2 = r := by
  have hasked := w.attempts_getElem before (.result u) (.bind name v :: after)
  have hbound : (w.attempts (before ++ .result u :: .bind name v :: after)).1[before.length + 1]? =
      some (((w.attempts before).2.step (.result u)).1.step (.bind name v)).2 := by
    have hnext := w.attempts_getElem (before ++ [.result u]) (.bind name v) after
    rw [← List.append_cons, List.length_append, w.attempts_append before [.result u]] at hnext
    exact hnext
  unfold Reports
  constructor
  · rintro ⟨v', after', heq, hvalue, hreply⟩
    obtain ⟨rfl, rfl⟩ : v = v' ∧ after = after' := by simpa using heq
    rw [hasked] at hvalue
    rw [hbound] at hreply
    exact ⟨Option.some.inj hvalue, Option.some.inj hreply⟩
  · rintro ⟨hvalue, hreply⟩
    exact ⟨v, after, rfl, hasked.trans (congrArg some hvalue), hbound.trans (congrArg some hreply)⟩

theorem Reports.steps (h : w.Reports is before u name r) :
    ∃ v after, is = before ++ .result u :: .bind name v :: after ∧
      ((w.attempts before).2.step (.result u)).2 = .ok (.value v) ∧
        (((w.attempts before).2.step (.result u)).1.step (.bind name v)).2 = r := by
  obtain ⟨v, after, rfl, hasked, hbound⟩ := h
  exact ⟨v, after, rfl, reports_iff.mp ⟨v, after, rfl, hasked, hbound⟩⟩

/-- Instructions that follow change nothing about a report. -/
theorem Reports.append (h : w.Reports is before u name r) (is' : List Instruction) :
    w.Reports (is ++ is') before u name r := by
  obtain ⟨v, after, rfl, hreport⟩ := h.steps
  rw [List.append_assoc]
  exact reports_iff.mpr hreport

theorem Reports.behind (h : (w.attempts is).2.Reports is' before u name r) :
    w.Reports (is ++ is') (is ++ before) u name r := by
  obtain ⟨v, after, rfl, hreport⟩ := h.steps
  rw [← List.append_assoc, reports_iff, attempts_append]
  exact hreport

/-- Where no result is asked for there is none to bind. -/
theorem bindsReplies_of_none (w : Workspace) (h : ∀ u, .result u ∉ is) : w.BindsReplies is := by
  rintro before u after rfl
  exact absurd (List.mem_append_right _ List.mem_cons_self) (h u)

theorem bindsReplies_report (h : (w.step (.result u)).2 = .ok (.value v)) (name : String) :
    w.BindsReplies [.result u, .bind name v] := by
  intro before u' after hsplit
  cases before with
  | nil =>
    obtain ⟨hfirst, rfl⟩ := List.cons.inj hsplit
    obtain rfl := Instruction.result.inj hfirst
    have hreport : w.Reports ([] ++ [.result u, .bind name v]) [] u name _ :=
      reports_iff.mpr ⟨h, rfl⟩
    exact ⟨name, _, hreport⟩
  | cons i before =>
    obtain ⟨_, hrest⟩ := List.cons.inj hsplit
    have hmem : .result u' ∈ [Instruction.bind name v] :=
      hrest ▸ List.mem_append_right _ List.mem_cons_self
    cases List.mem_singleton.mp hmem

/-- A result is asked for among the first instructions or among those that follow them. -/
theorem BindsReplies.append (h : w.BindsReplies is)
    (h' : (w.attempts is).2.BindsReplies is') : w.BindsReplies (is ++ is') := by
  intro before u after hsplit
  rcases List.append_eq_append_iff.mp hsplit with ⟨c, rfl, hsecond⟩ | ⟨c, rfl, hsecond⟩
  · obtain ⟨name, r, hreport⟩ := h' c u after hsecond
    exact ⟨name, r, hreport.behind⟩
  · cases c with
    | nil =>
      obtain ⟨name, r, hreport⟩ := h' [] u after hsecond.symm
      refine ⟨name, r, ?_⟩
      simpa only [List.append_nil] using hreport.behind
    | cons i c =>
      rw [List.cons_append] at hsecond
      obtain ⟨rfl, _⟩ := List.cons.inj hsecond
      obtain ⟨name, r, hreport⟩ := h before u c rfl
      exact ⟨name, r, hreport.append is'⟩

end

end Workspace
end WindowFold
