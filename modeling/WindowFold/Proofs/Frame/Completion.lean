import WindowFold.Frame

/-!
# Frames that can be completed

Some facts of a frame are numbers, and the others are told only while the block runs.  A frame
that has rows can be completed if there are numbers for the open facts with which it lies in the
partition, around the current row.

The check never refuses such a frame, and where the first row, the last row and the row count are
numbers it refuses all others.  Elsewhere it overlooks one thing, a position that lies outside the
partition by itself (`completable_iff_check`): a frame that starts at row 5 of 3 passes as long as
its end is open (`outside_accepted`).
-/

namespace WindowFold
namespace Frame

/-- A fact that is a number is that number; an open one may turn out to be any. -/
def MayBe (x : Expr) (k : Int) : Prop := ∀ l, x.int? = some l → l = k

/-- There are numbers for the open facts with which the frame lies in the partition, around the
current row. -/
def Completable (f : Frame) : Prop :=
  ∃ c s e n, MayBe f.currentRow c ∧ MayBe f.frameStart s ∧ MayBe f.frameEnd e ∧
    MayBe f.rowCount n ∧ 0 ≤ s ∧ s ≤ c ∧ c ≤ e ∧ e < n

/-- A position that is a number is one of the partition, as far as the row count is known. -/
def Inside (f : Frame) (x : Expr) : Prop :=
  ∀ k, x.int? = some k → 0 ≤ k ∧ ∀ n, f.rowCount.int? = some n → k < n

variable {f : Frame}

/-! ## What the checks ask -/

theorem checkOrder_ok : f.checkOrder = .ok () ↔
    ∀ s e, f.frameStart.int? = some s → f.frameEnd.int? = some e → s ≤ e := by
  unfold checkOrder
  cases f.frameStart.int? with
  | none => simp
  | some s =>
    cases f.frameEnd.int? with
    | none => simp
    | some e =>
      by_cases h : e < s
      · simp [h]
      · simp [h, Int.not_lt.mp h]

theorem checkCurrent_ok : f.checkCurrent = .ok () ↔
    ∀ c, f.currentRow.int? = some c →
      (∀ s, f.frameStart.int? = some s → s ≤ c) ∧ ∀ e, f.frameEnd.int? = some e → c ≤ e := by
  unfold checkCurrent
  cases f.currentRow.int? with
  | none => simp
  | some c => cases f.frameStart.int? <;> cases f.frameEnd.int? <;> simp

theorem checkPartition_ok : f.checkPartition = .ok () ↔
    ∀ n, f.rowCount.int? = some n → 0 < n ∧
      (∀ s, f.frameStart.int? = some s → 0 ≤ s) ∧ ∀ e, f.frameEnd.int? = some e → e < n := by
  unfold checkPartition
  cases f.rowCount.int? with
  | none => simp
  | some n =>
    by_cases hn : n ≤ 0
    · simp only [hn, if_true, reduceCtorEq, false_iff]
      intro h
      have hpos := (h n rfl).1
      omega
    · cases f.frameStart.int? <;> cases f.frameEnd.int? <;> simp [hn, Int.not_le.mp hn]

theorem check_ok (hrows : f.hasRows = .bool true) : f.check = .ok () ↔
    f.checkOrder = .ok () ∧ f.checkCurrent = .ok () ∧ f.checkPartition = .ok () := by
  have hcheck : f.check = (do f.checkOrder; f.checkCurrent; f.checkPartition) := by
    rw [check, hrows]
    rfl
  rw [hcheck]
  cases f.checkOrder with
  | error e => simp [bind, Except.bind]
  | ok _ =>
    cases f.checkCurrent with
    | error e => simp [bind, Except.bind]
    | ok _ => simp [bind, Except.bind]

/-! ## What the checks leave open -/

theorem mayBe_getD (x : Expr) (d : Int) : MayBe x (x.int?.getD d) := by
  intro l hl
  rw [hl, Option.getD_some]

/-- A number with a property that the fact has if it is a number, and the default if it is not. -/
theorem getD_of {P : Int → Prop} (x : Expr) {d : Int} (hx : ∀ k, x.int? = some k → P k)
    (hd : x.int? = none → P d) : P (x.int?.getD d) := by
  cases h : x.int? with
  | none => exact hd h
  | some k => exact hx k h

theorem Completable.check (hrows : f.hasRows = .bool true) (h : f.Completable) :
    f.check = .ok () := by
  obtain ⟨c, s, e, n, hc, hs, he, hn, h₀, hsc, hce, hen⟩ := h
  refine (check_ok hrows).mpr ⟨checkOrder_ok.mpr ?_, checkCurrent_ok.mpr ?_,
    checkPartition_ok.mpr ?_⟩
  · intro s' e' hs' he'
    obtain rfl := hs s' hs'
    obtain rfl := he e' he'
    omega
  · intro c' hc'
    obtain rfl := hc c' hc'
    exact ⟨fun s' hs' => hs s' hs' ▸ hsc, fun e' he' => he e' he' ▸ hce⟩
  · intro n' hn'
    obtain rfl := hn n' hn'
    refine ⟨by omega, fun s' hs' => hs s' hs' ▸ h₀, fun e' he' => he e' he' ▸ hen⟩

theorem Completable.inside (h : f.Completable) :
    f.Inside f.currentRow ∧ f.Inside f.frameStart ∧ f.Inside f.frameEnd := by
  obtain ⟨c, s, e, n, hc, hs, he, hn, h₀, hsc, hce, hen⟩ := h
  refine ⟨fun k hk => ?_, fun k hk => ?_, fun k hk => ?_⟩
  · obtain rfl := hc k hk
    exact ⟨by omega, fun n' hn' => by rw [hn n' hn']; omega⟩
  · obtain rfl := hs k hk
    exact ⟨h₀, fun n' hn' => by rw [hn n' hn']; omega⟩
  · obtain rfl := he k hk
    exact ⟨by omega, fun n' hn' => by rw [hn n' hn']; exact hen⟩

/-- An open first row may be row 0, an open current row the first row, an open last row the
current one, and the partition may end after it. -/
theorem completable_of_inside (hrows : f.hasRows = .bool true) (hcheck : f.check = .ok ())
    (hc : f.Inside f.currentRow) (hs : f.Inside f.frameStart) (he : f.Inside f.frameEnd) :
    f.Completable := by
  obtain ⟨horder, hcurrent, hpartition⟩ := (check_ok hrows).mp hcheck
  have horder := checkOrder_ok.mp horder
  have hcurrent := checkCurrent_ok.mp hcurrent
  have hpartition := checkPartition_ok.mp hpartition
  let s := f.frameStart.int?.getD 0
  let c := f.currentRow.int?.getD s
  let e := f.frameEnd.int?.getD c
  let n := f.rowCount.int?.getD (e + 1)
  have h₀ : 0 ≤ s := getD_of _ (fun k hk => (hs k hk).1) fun _ => Int.le_refl 0
  have hsc : s ≤ c := by
    refine getD_of _ (fun k hk => ?_) fun _ => Int.le_refl s
    exact getD_of (P := (· ≤ k)) _ (hcurrent k hk).1 fun _ => (hc k hk).1
  have hce : c ≤ e := by
    refine getD_of _ (fun k hk => ?_) fun _ => Int.le_refl c
    refine getD_of (P := (· ≤ k)) _ (fun l hl => (hcurrent l hl).2 k hk) fun _ => ?_
    exact getD_of (P := (· ≤ k)) _ (fun l hl => horder l k hl hk) fun _ => (he k hk).1
  have hen : e < n := by
    refine getD_of _ (fun m hm => ?_) fun _ => Int.lt_succ e
    refine getD_of (P := (· < m)) _ (fun k hk => (he k hk).2 m hm) fun _ => ?_
    refine getD_of (P := (· < m)) _ (fun k hk => (hc k hk).2 m hm) fun _ => ?_
    exact getD_of (P := (· < m)) _ (fun k hk => (hs k hk).2 m hm) fun _ => (hpartition m hm).1
  exact ⟨c, s, e, n, mayBe_getD _ _, mayBe_getD _ _, mayBe_getD _ _, mayBe_getD _ _,
    h₀, hsc, hce, hen⟩

/-- A frame that has rows can be completed if and only if it passes the check and every position
that is a number is one of the partition.  The check sees to the latter by itself where the first
row, the last row and the row count are numbers, or where no position is one. -/
theorem completable_iff_check (hrows : f.hasRows = .bool true) :
    (f.Completable ↔ f.check = .ok () ∧
      f.Inside f.currentRow ∧ f.Inside f.frameStart ∧ f.Inside f.frameEnd) ∧
    ((∃ s e n, f.frameStart.int? = some s ∧ f.frameEnd.int? = some e ∧
        f.rowCount.int? = some n) ∨
      (f.currentRow.int? = none ∧ f.frameStart.int? = none ∧ f.frameEnd.int? = none) →
      (f.check = .ok () ↔ f.Completable)) := by
  refine ⟨⟨fun h => ⟨h.check hrows, h.inside⟩, fun ⟨hcheck, hc, hs, he⟩ =>
    completable_of_inside hrows hcheck hc hs he⟩, ?_⟩
  intro hsettled
  refine ⟨fun hcheck => ?_, fun h => h.check hrows⟩
  rcases hsettled with ⟨s, e, n, hs, he, hn⟩ | ⟨hc, hs, he⟩
  · obtain ⟨horder, hcurrent, hpartition⟩ := (check_ok hrows).mp hcheck
    have hse := checkOrder_ok.mp horder s e hs he
    obtain ⟨_, hstart, hlast⟩ := checkPartition_ok.mp hpartition n hn
    have h₀ := hstart s hs
    have hen := hlast e he
    -- Every position lies between the first row and the last.
    have inside {x : Expr} (hx : ∀ k, x.int? = some k → s ≤ k ∧ k ≤ e) : f.Inside x := by
      intro k hk
      have hk := hx k hk
      refine ⟨by omega, fun m hm => ?_⟩
      obtain rfl := Option.some.inj (hn.symm.trans hm)
      omega
    refine completable_of_inside hrows hcheck (inside fun k hk => ?_) (inside fun k hk => ?_)
      (inside fun k hk => ?_)
    · have hk := checkCurrent_ok.mp hcurrent k hk
      exact ⟨hk.1 s hs, hk.2 e he⟩
    · obtain rfl := Option.some.inj (hs.symm.trans hk)
      exact ⟨Int.le_refl _, hse⟩
    · obtain rfl := Option.some.inj (he.symm.trans hk)
      exact ⟨hse, Int.le_refl _⟩
  · have inside {x : Expr} (hx : x.int? = none) : f.Inside x := by
      intro k hk
      rw [hx] at hk
      cases hk
    exact completable_of_inside hrows hcheck (inside hc) (inside hs) (inside he)

/-- Rows 1 and 2 of three, around either of them. -/
def lastTwo : Frame :=
  { symbolic with
    frameStart := .int 1
    frameEnd := .int 2
    hasRows := .bool true
    rowCount := .int 3 }

theorem last_two_completable : lastTwo.check = .ok () ∧ lastTwo.Completable :=
  ⟨rfl, ((completable_iff_check rfl).2 (.inl ⟨1, 2, 3, rfl, rfl, rfl⟩)).mp rfl⟩

/-- Row 5 of three as the first row, the other positions being open. -/
def startsOutside : Frame :=
  { symbolic with
    frameStart := .int 5
    hasRows := .bool true
    rowCount := .int 3 }

theorem outside_accepted : startsOutside.hasRows = .bool true ∧ startsOutside.check = .ok () ∧
    ¬ startsOutside.Completable := by
  refine ⟨rfl, rfl, ?_⟩
  rintro ⟨c, s, e, n, _, hs, _, hn, _, hsc, hce, hen⟩
  have hs := hs 5 rfl
  have hn := hn 3 rfl
  omega

end Frame
end WindowFold
