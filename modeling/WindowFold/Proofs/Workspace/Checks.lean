import WindowFold.Proofs.Builtin.Record
import WindowFold.Proofs.Workspace.Lockstep

/-!
# Checks only observe

A pass that makes fewer checks follows whatever a stricter one follows, and comes to the same
calls and the same block (`checks_observe`).  Warming up some of the calls at once is warming up
one after another, as long as none of them fails.
-/

namespace WindowFold

/-- The same pass, going on under another configuration. -/
def Pass.under (p : Pass) (config : Config) : Pass := { p with config := config }

def Workspace.under (w : Workspace) (config : Config) : Workspace :=
  { w with pass := w.pass.under config }

/-- The two passes differ in their configurations, of which the second makes no check that the
first does not. -/
theorem lockstep_under {a b : Config} (hab : a.Covers b) :
    Lockstep (fun p q => p.config = a ∧ q = p.under b) False where
  covers := by
    rintro p _ ⟨rfl, rfl⟩
    exact hab
  config h := h.elim
  emit m := by
    rintro p _ ⟨hp, rfl⟩
    simp only [Pass.emit, Pass.under]
    cases (p.draft.perform m).2 with
    | ok v => exact .ok ⟨hp, rfl⟩
    | error e => exact .error ⟨hp, rfl⟩
  allocate n := by
    rintro p _ ⟨hp, rfl⟩
    exact .ok ⟨hp, rfl⟩
  bind name e := by
    rintro p _ ⟨rfl, rfl⟩
    have hname : (p.under b).bindingName name = p.bindingName name := by
      simp only [Pass.bindingName, Pass.under, hab.stem]
    simp only [Pass.bind, hname]
    simp only [Pass.under]
    cases p.draft.declare (p.bindingName name) e with
    | ok out => exact .ok ⟨rfl, rfl⟩
    | error err => exact .error ⟨rfl, rfl⟩

namespace Workspace

theorem beside_under {w : Workspace} {a : Config} (h : w.pass.config = a) (b : Config) :
    Beside (fun p q => p.config = a ∧ q = p.under b) w (w.under b) :=
  ⟨⟨h, rfl⟩, rfl⟩

theorem step_under {a b : Config} (hab : a.Covers b) {w w' : Workspace} {i : Instruction}
    {r : Reply} (hw : w.pass.config = a) (h : w.step i = (w', .ok r)) :
    w'.pass.config = a ∧ (w.under b).step i = (w'.under b, .ok r) := by
  rcases (lockstep_under hab).step (beside_under hw b) i with ⟨⟨⟨hc, hp⟩, ht⟩, hr⟩ | ⟨_, e, he⟩
  · rw [h] at hc hp ht hr
    refine ⟨hc, Prod.ext ?_ hr⟩
    generalize ((w.under b).step i).1 = v at hp ht
    obtain ⟨p, ts⟩ := v
    simp only at hp ht
    rw [hp, ht]
    rfl
  · rw [h] at he
    nomatch he

theorem record_under {a b : Config} (hab : a.Covers b) {w w' : Workspace} {is : List Instruction}
    {es : List Entry} (hw : w.pass.config = a) (h : w.record is = .ok (es, w')) :
    (w.under b).record is = .ok (es, w'.under b) := by
  induction is generalizing w es with
  | nil =>
    simp only [record, Except.ok.injEq, Prod.mk.injEq] at h ⊢
    exact ⟨h.1, congrArg (under · b) h.2⟩
  | cons i is ih =>
    obtain ⟨w₁, r, es', hs, hr, rfl⟩ := record_cons_ok.mp h
    obtain ⟨hw₁, hstep⟩ := step_under hab hw hs
    exact record_cons_ok.mpr ⟨w₁.under b, r, es', hstep, ih hw₁ hr, rfl⟩

theorem record_split {w w'' : Workspace} {before after : List Instruction} {es : List Entry}
    (h : w.record (before ++ after) = .ok (es, w'')) :
    ∃ w' es₁ es₂, w.record before = .ok (es₁, w') ∧ w'.record after = .ok (es₂, w'') := by
  induction before generalizing w es with
  | nil => exact ⟨w, [], es, rfl, h⟩
  | cons i before ih =>
    obtain ⟨w₁, r, es', hs, hr, rfl⟩ := record_cons_ok.mp h
    obtain ⟨w', es₁, es₂, h₁, h₂⟩ := ih hr
    exact ⟨w', _, es₂, record_cons_ok.mpr ⟨w₁, r, es₁, hs, h₁, rfl⟩, h₂⟩

/-- Whatever a pass comes through, one that makes no further checks comes through as well.  At
every point it has emitted and answered the same, and its calls and its block are the same. -/
theorem checks_observe {a b : Config} (hab : a.Covers b) {is : List Instruction}
    {es : List Entry} {w : Workspace} (h : (start a).record is = .ok (es, w)) :
    (start b).record is = .ok (es, w.under b) ∧
      ∀ before after, is = before ++ after → ∃ es₁ w₁,
        (start a).record before = .ok (es₁, w₁) ∧
        (start b).record before = .ok (es₁, w₁.under b) := by
  refine ⟨record_under hab rfl h, ?_⟩
  rintro before after rfl
  obtain ⟨w₁, es₁, _, h₁, _⟩ := record_split h
  exact ⟨es₁, w₁, h₁, record_under hab rfl h₁⟩

/-- A sum over a window of one row, and its result bound to a name. -/
def sumBound : List Instruction :=
  [.create (.of "sum" [.int] .int true false) .sum, .warmUpAll Opening.unknownSize,
    .openPartition 0 (.constant 0 0 0 1), .addRow 0 (.constant 0 0 0 1) (.columns 1), .result 0,
    .bind "total" (.slot ⟨0⟩)]

/-- With all checks and with none of them, the sum is emitted and bound alike. -/
theorem sum_unchecked : (Config.strict "agg").Covers (.relaxed "agg") ∧ ∃ es w,
    (start (.strict "agg")).record sumBound = .ok (es, w) ∧ es.length = 6 ∧
    (start (.relaxed "agg")).record sumBound = .ok (es, w.under (.relaxed "agg")) := by
  have hcovers : (Config.strict "agg").Covers (.relaxed "agg") := ⟨nofun, nofun, rfl⟩
  have hrun : ∃ es w, (start (.strict "agg")).record sumBound = .ok (es, w) ∧ es.length = 6 :=
    ⟨_, _, rfl, rfl⟩
  obtain ⟨es, w, h, hlength⟩ := hrun
  exact ⟨hcovers, es, w, h, hlength, (checks_observe hcovers h).1⟩

end Workspace
end WindowFold
