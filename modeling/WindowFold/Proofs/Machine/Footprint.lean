import WindowFold.Machine.Run

/-!
# What a run depends on and what it changes

`touched` and `written` are read off the text of a statement.  Two facts make them
meaningful.  A run changes no slot outside `written`, even when it fails midway
(`runAll_slots_of_not_mem`).  Its outcome depends only on the slots in `touched` and on the
locals that its text names (`runAll_agree`): two stores that agree there give the same
result or the same error, and still agree afterwards.  `footprint_sound` says both of the
statements of a block, and the second of an expression.

Agreement is relative to a set of slots and a set of locals, because a block is run on
behalf of one call while the slots of the others and the bound locals differ.
-/

namespace WindowFold

namespace Expr

/-- The locals an expression reads, left to right. -/
def locals : Expr → List LocalId
  | .literal _ | .slot _ | .fact _ | .emptyList => []
  | .var x => [x]
  | .argument _ row => row.locals
  | .unary _ e => e.locals
  | .binary _ l r => l.locals ++ r.locals
  | .choose c t e => c.locals ++ t.locals ++ e.locals

end Expr

namespace Stmt

mutual

/-- The locals a statement reads or sets, in the order of its text. -/
def locals : Stmt → List LocalId
  | .declare x _ e => x :: e.locals
  | .setLocal x e => x :: e.locals
  | .assign _ e => e.locals
  | .push _ e => e.locals
  | .reserve _ e => e.locals
  | .branch c yes no => c.locals ++ localsAll yes ++ localsAll no

def localsAll : List Stmt → List LocalId
  | [] => []
  | s :: rest => s.locals ++ localsAll rest

end

/-! ## Slots that are left alone -/

mutual

theorem run_slots_of_not_mem (env : Env) (st : Store) (t : SlotId) :
    ∀ s : Stmt, t ∉ s.written → (s.run env st).1.slots t = st.slots t
  | .declare x _ e, _ => by
    cases h : e.eval env st <;> simp [run, h]
  | .setLocal x e, _ => by
    cases h : e.eval env st <;> simp [run, h]
  | .assign s e, ht => by
    have hne : t ≠ s := by simpa [written] using ht
    cases h : e.eval env st <;> simp [run, h, hne]
  | .push s e, ht => by
    have hne : t ≠ s := by simpa [written] using ht
    cases h : e.eval env st with
    | error err => simp [run, h]
    | ok v => cases hl : st.list s <;> simp [run, h, hl, hne]
  | .reserve s e, _ => by
    cases hl : st.list s <;> simp [run_reserve, hl]
  | .branch c yes no, ht => by
    have hts : t ∉ writtenAll yes ∧ t ∉ writtenAll no := by simpa [written] using ht
    cases h : c.test env st with
    | error err => simp [run, h]
    | ok b =>
      by_cases hb : b = some true
      · simpa [run, h, hb] using runAll_slots_of_not_mem env st t yes hts.1
      · simpa [run, h, hb] using runAll_slots_of_not_mem env st t no hts.2

/-- A run changes only slots that its text writes, also when it stops with an error. -/
theorem runAll_slots_of_not_mem (env : Env) (st : Store) (t : SlotId) :
    ∀ ss : List Stmt, t ∉ writtenAll ss → (runAll env st ss).1.slots t = st.slots t
  | [], _ => rfl
  | s :: rest, ht => by
    have hts : t ∉ s.written ∧ t ∉ writtenAll rest := by simpa [writtenAll] using ht
    have hs := run_slots_of_not_mem env st t s hts.1
    cases h : s.run env st with
    | mk st' r =>
      rw [h] at hs
      cases r with
      | error err => simpa [runAll, h] using hs
      | ok _ =>
        have hrest := runAll_slots_of_not_mem env st' t rest hts.2
        simp only [runAll, h]
        exact hrest.trans hs

end

/-! ## Locals that are left alone -/

mutual

theorem run_locals_of_not_mem (env : Env) (st : Store) (x : LocalId) :
    ∀ s : Stmt, x ∉ s.locals → (s.run env st).1.locals x = st.locals x
  | .declare y _ e, hx => by
    have hne : x ≠ y := fun h => hx (by simp [locals, h])
    cases h : e.eval env st <;> simp [run, h, hne]
  | .setLocal y e, hx => by
    have hne : x ≠ y := fun h => hx (by simp [locals, h])
    cases h : e.eval env st <;> simp [run, h, hne]
  | .assign s e, _ => by
    cases h : e.eval env st <;> simp [run, h]
  | .push s e, _ => by
    cases h : e.eval env st with
    | error err => simp [run, h]
    | ok v => cases hl : st.list s <;> simp [run, h, hl]
  | .reserve s e, _ => by
    cases hl : st.list s <;> simp [run_reserve, hl]
  | .branch c yes no, hx => by
    have hxs : x ∉ localsAll yes ∧ x ∉ localsAll no := by
      simp only [locals, List.mem_append, not_or] at hx
      exact ⟨hx.1.2, hx.2⟩
    cases h : c.test env st with
    | error err => simp [run, h]
    | ok b =>
      by_cases hb : b = some true
      · simpa [run, h, hb] using runAll_locals_of_not_mem env st x yes hxs.1
      · simpa [run, h, hb] using runAll_locals_of_not_mem env st x no hxs.2

/-- A run changes only locals that its text names. -/
theorem runAll_locals_of_not_mem (env : Env) (st : Store) (x : LocalId) :
    ∀ ss : List Stmt, x ∉ localsAll ss → (runAll env st ss).1.locals x = st.locals x
  | [], _ => rfl
  | s :: rest, hx => by
    have hxs : x ∉ s.locals ∧ x ∉ localsAll rest := by simpa [localsAll] using hx
    have hs := run_locals_of_not_mem env st x s hxs.1
    cases h : s.run env st with
    | mk st' r =>
      rw [h] at hs
      cases r with
      | error err => simpa [runAll, h] using hs
      | ok _ =>
        have hrest := runAll_locals_of_not_mem env st' x rest hxs.2
        simp only [runAll, h]
        exact hrest.trans hs

end

mutual

theorem written_subset_touched : ∀ s : Stmt, s.written ⊆ s.touched
  | .declare _ _ _ => by simp [written]
  | .setLocal _ _ => by simp [written]
  | .assign s e => by simp [written, touched]
  | .push s e => by simp [written, touched]
  | .reserve s e => by simp [written, touched]
  | .branch c yes no => by
    intro s hs
    simp only [written, List.mem_append] at hs
    simp only [touched, List.mem_append]
    rcases hs with hs | hs
    · exact .inl (.inr (writtenAll_subset_touchedAll yes hs))
    · exact .inr (writtenAll_subset_touchedAll no hs)

theorem writtenAll_subset_touchedAll : ∀ ss : List Stmt, writtenAll ss ⊆ touchedAll ss
  | [] => by simp [writtenAll]
  | s :: rest => by
    intro t ht
    simp only [writtenAll, List.mem_append] at ht
    simp only [touchedAll, List.mem_append]
    exact ht.imp (fun h => written_subset_touched s h)
      (fun h => writtenAll_subset_touchedAll rest h)

end

end Stmt

/-! ## Stores that agree -/

/-- Two stores that cannot be told apart by code reading slots in `S` and locals in `L`. -/
structure Store.Agree (S : SlotId → Prop) (L : LocalId → Prop) (a b : Store) : Prop where
  slots : ∀ s, S s → a.slots s = b.slots s
  locals : ∀ x, L x → a.locals x = b.locals x

namespace Store.Agree

variable {S : SlotId → Prop} {L : LocalId → Prop} {a b : Store}

theorem refl (a : Store) : Agree S L a a := ⟨fun _ _ => rfl, fun _ _ => rfl⟩

theorem setSlot (h : Agree S L a b) (s : SlotId) (v : Value) :
    Agree S L (a.setSlot s v) (b.setSlot s v) := by
  refine ⟨fun t ht => ?_, h.locals⟩
  simp only [setSlot_slots, h.slots t ht]

theorem setLocal (h : Agree S L a b) (x : LocalId) (v : Value) :
    Agree S L (a.setLocal x v) (b.setLocal x v) := by
  refine ⟨h.slots, fun y hy => ?_⟩
  simp only [setLocal_locals, h.locals y hy]

theorem list (h : Agree S L a b) {s : SlotId} (hs : S s) : a.list s = b.list s := by
  simp only [Store.list, h.slots s hs]

end Store.Agree

section

variable {S : SlotId → Prop} {L : LocalId → Prop} {a b : Store}

theorem Expr.eval_agree (env : Env) (h : a.Agree S L b) (e : Expr)
    (hs : ∀ s ∈ e.slots, S s) (hl : ∀ x ∈ e.locals, L x) : e.eval env a = e.eval env b := by
  induction e with
  | literal l => rfl
  | slot s => simp only [eval, h.slots s (hs s (by simp [slots]))]
  | var x => simp only [eval, h.locals x (hl x (by simp [locals]))]
  | fact f => rfl
  | argument i row ih => simp only [eval, ih hs hl]
  | unary op e ih => simp only [eval, ih hs hl]
  | binary op l r ihl ihr =>
    have hL := ihl (fun s m => hs s (by simp [slots, m])) (fun x m => hl x (by simp [locals, m]))
    have hR := ihr (fun s m => hs s (by simp [slots, m])) (fun x m => hl x (by simp [locals, m]))
    cases op <;> simp only [eval, hL, hR]
  | choose c t e ihc iht ihe =>
    have hC := ihc (fun s m => hs s (by simp [slots, m])) (fun x m => hl x (by simp [locals, m]))
    have hT := iht (fun s m => hs s (by simp [slots, m])) (fun x m => hl x (by simp [locals, m]))
    have hE := ihe (fun s m => hs s (by simp [slots, m])) (fun x m => hl x (by simp [locals, m]))
    simp only [eval, hC, hT, hE]
  | emptyList => rfl

/-- Two outcomes that cannot be told apart: the same error or none, and stores that agree. -/
structure Outcome.Agree (S : SlotId → Prop) (L : LocalId → Prop) (o o' : Outcome) : Prop where
  result : o.2 = o'.2
  store : o.1.Agree S L o'.1

theorem Outcome.Agree.proceed {α : Type} (h : a.Agree S L b) (r : Except RunError α)
    {k l : α → Outcome} (hk : ∀ v, r = .ok v → Outcome.Agree S L (k v) (l v)) :
    Outcome.Agree S L (WindowFold.proceed a r k) (WindowFold.proceed b r l) := by
  cases r with
  | error err => exact ⟨rfl, h⟩
  | ok v => exact hk v rfl

namespace Stmt

mutual

theorem run_agree (env : Env) {a b : Store} (h : a.Agree S L b) :
    ∀ s : Stmt, (∀ t ∈ s.touched, S t) → (∀ x ∈ s.locals, L x) →
      Outcome.Agree S L (s.run env a) (s.run env b)
  | .declare x _ e, hs, hl => by
    have he := Expr.eval_agree env h e hs (fun y m => hl y (by simp [locals, m]))
    simp only [run, he]
    exact .proceed h _ fun v _ => ⟨rfl, h.setLocal x v⟩
  | .setLocal x e, hs, hl => by
    have he := Expr.eval_agree env h e hs (fun y m => hl y (by simp [locals, m]))
    simp only [run, he]
    exact .proceed h _ fun v _ => ⟨rfl, h.setLocal x v⟩
  | .assign s e, hs, hl => by
    have he := Expr.eval_agree env h e (fun t m => hs t (by simp [touched, m])) hl
    simp only [run, he]
    exact .proceed h _ fun v _ => ⟨rfl, h.setSlot s v⟩
  | .push s e, hs, hl => by
    have he := Expr.eval_agree env h e (fun t m => hs t (by simp [touched, m])) hl
    have hlist := h.list (hs s (by simp [touched]))
    simp only [run, he, hlist]
    exact .proceed h _ fun v _ => .proceed h _ fun items _ => ⟨rfl, h.setSlot s _⟩
  | .reserve s e, hs, _ => by
    have hlist := h.list (hs s (by simp [touched]))
    simp only [run_reserve, hlist]
    exact .proceed h _ fun _ _ => ⟨rfl, h⟩
  | .branch c yes no, hs, hl => by
    have hc := Expr.eval_agree env h c (fun t m => hs t (by simp [touched, m]))
      (fun y m => hl y (by simp [locals, m]))
    have hyes := runAll_agree env h yes (fun t m => hs t (by simp [touched, m]))
      (fun y m => hl y (by simp [locals, m]))
    have hno := runAll_agree env h no (fun t m => hs t (by simp [touched, m]))
      (fun y m => hl y (by simp [locals, m]))
    simp only [run, Expr.test, hc]
    refine .proceed h _ fun t _ => ?_
    by_cases ht : t = some true
    · simpa only [if_pos ht] using hyes
    · simpa only [if_neg ht] using hno

/-- Runs from stores that agree on what the text names end alike and agree again. -/
theorem runAll_agree (env : Env) {a b : Store} (h : a.Agree S L b) :
    ∀ ss : List Stmt, (∀ t ∈ touchedAll ss, S t) → (∀ x ∈ localsAll ss, L x) →
      Outcome.Agree S L (runAll env a ss) (runAll env b ss)
  | [], _, _ => ⟨rfl, h⟩
  | s :: rest, hs, hl => by
    have hhead := run_agree env h s (fun t m => hs t (by simp [touchedAll, m]))
      (fun y m => hl y (by simp [localsAll, m]))
    obtain ⟨hr, hst⟩ := hhead
    simp only [runAll]
    cases ha : s.run env a with
    | mk a' ra =>
      cases hb : s.run env b with
      | mk b' rb =>
        simp only [ha, hb] at hr hst
        subst hr
        cases ra with
        | error err => exact ⟨rfl, hst⟩
        | ok _ =>
          exact runAll_agree env hst rest (fun t m => hs t (by simp [touchedAll, m]))
            (fun y m => hl y (by simp [localsAll, m]))

end

end Stmt

end

/-! ## Both facts, statement by statement -/

namespace Stmt

theorem mem_touchedAll {ss : List Stmt} {x : SlotId} :
    x ∈ touchedAll ss ↔ ∃ s ∈ ss, x ∈ s.touched := by
  induction ss with
  | nil => simp [touchedAll]
  | cons s rest ih => simp [touchedAll, ih]

theorem mem_writtenAll {ss : List Stmt} {x : SlotId} :
    x ∈ writtenAll ss ↔ ∃ s ∈ ss, x ∈ s.written := by
  induction ss with
  | nil => simp [writtenAll]
  | cons s rest ih => simp [writtenAll, ih]

end Stmt

/-- A run, also one that fails midway, changes no slot that none of its statements writes.  Two runs
from stores with the same locals that agree on every slot that one of the statements touches, set
or unset, end with the same error or none, in stores with the same locals that agree on those slots
again.  An expression depends on the locals and on the slots that it reads, and on no others. -/
theorem footprint_sound (env : Env) (ss : List Stmt) :
    (∀ st x, (∀ s ∈ ss, x ∉ s.written) → (Stmt.runAll env st ss).1.slots x = st.slots x) ∧
    (∀ a b : Store, a.locals = b.locals → (∀ s ∈ ss, ∀ x ∈ s.touched, a.slots x = b.slots x) →
      (Stmt.runAll env a ss).2 = (Stmt.runAll env b ss).2 ∧
      (Stmt.runAll env a ss).1.locals = (Stmt.runAll env b ss).1.locals ∧
      ∀ s ∈ ss, ∀ x ∈ s.touched,
        (Stmt.runAll env a ss).1.slots x = (Stmt.runAll env b ss).1.slots x) ∧
    ∀ (e : Expr) (a b : Store), a.locals = b.locals → (∀ x ∈ e.slots, a.slots x = b.slots x) →
      e.eval env a = e.eval env b := by
  refine ⟨?_, ?_, ?_⟩
  · intro st x hx
    refine Stmt.runAll_slots_of_not_mem env st x ss fun hmem => ?_
    obtain ⟨s, hs, hw⟩ := Stmt.mem_writtenAll.mp hmem
    exact hx s hs hw
  · intro a b hlocals hslots
    have hagree : a.Agree (fun x => ∃ s ∈ ss, x ∈ s.touched) (fun _ => True) b :=
      ⟨fun x ⟨s, hs, hx⟩ => hslots s hs x hx, fun y _ => congrFun hlocals y⟩
    have hend := Stmt.runAll_agree env hagree ss (fun _ => Stmt.mem_touchedAll.mp)
      (fun _ _ => trivial)
    exact ⟨hend.result, funext fun y => hend.store.locals y trivial,
      fun s hs x hx => hend.store.slots x ⟨s, hs, hx⟩⟩
  · intro e a b hlocals hslots
    have hagree : a.Agree (· ∈ e.slots) (fun _ => True) b :=
      ⟨hslots, fun y _ => congrFun hlocals y⟩
    exact Expr.eval_agree env hagree e (fun _ => id) (fun _ _ => trivial)

/-- A count goes up, and then a value is pushed onto what is no list. -/
def interruptedPush : List Stmt :=
  [.assign ⟨0⟩ ((Expr.slot ⟨0⟩).add (.int 1)),
    .branch (.slot ⟨1⟩) [.push ⟨2⟩ (.slot ⟨0⟩), .assign ⟨1⟩ .null] [.assign ⟨2⟩ .emptyList]]

def storeBeside (other : Option Value) : Store where
  slots := fun x =>
    match x.index with
    | 0 => some (.int 4)
    | 1 => some (.bool true)
    | 2 => some (.int 7)
    | _ => other
  locals := fun _ => none

/-- The push fails after the count has gone up, and it fails alike whatever another slot holds,
which is left as it was. -/
theorem push_interrupted_alike :
    let env : Env := ⟨[], none⟩
    let unset := storeBeside none
    let set := storeBeside (some (.int 9))
    unset.locals = set.locals ∧
    (∀ s ∈ interruptedPush, ∀ x ∈ s.touched, unset.slots x = set.slots x) ∧
    (Stmt.runAll env unset interruptedPush).2 = .error (.notList ⟨2⟩ (.int 7)) ∧
    (Stmt.runAll env set interruptedPush).2 = .error (.notList ⟨2⟩ (.int 7)) ∧
    (Stmt.runAll env unset interruptedPush).1.slots ⟨0⟩ = some (.int 5) ∧
    (Stmt.runAll env set interruptedPush).1.slots ⟨0⟩ = some (.int 5) ∧
    (Stmt.runAll env unset interruptedPush).1.slots ⟨3⟩ = none ∧
    (Stmt.runAll env set interruptedPush).1.slots ⟨3⟩ = some (.int 9) := by
  intro env unset set
  obtain ⟨hkept, halike, _⟩ := footprint_sound env interruptedPush
  have hagree : ∀ s ∈ interruptedPush, ∀ x ∈ s.touched, unset.slots x = set.slots x := by
    intro s hs x hx
    have htouched : x ∈ [⟨0⟩, ⟨0⟩, ⟨1⟩, ⟨2⟩, ⟨0⟩, ⟨1⟩, ⟨2⟩] := Stmt.mem_touchedAll.mpr ⟨s, hs, hx⟩
    simp only [List.mem_cons, List.not_mem_nil, or_false] at htouched
    rcases htouched with rfl | rfl | rfl | rfl | rfl | rfl | rfl <;> rfl
  have hunwritten : ∀ s ∈ interruptedPush, (⟨3⟩ : SlotId) ∉ s.written := by
    decide
  have hrun : (Stmt.runAll env unset interruptedPush).2 = .error (.notList ⟨2⟩ (.int 7)) := rfl
  have hcount : (Stmt.runAll env unset interruptedPush).1.slots ⟨0⟩ = some (.int 5) := rfl
  obtain ⟨hresult, _, hslots⟩ := halike unset set rfl hagree
  have hcounted := hslots (.assign ⟨0⟩ ((Expr.slot ⟨0⟩).add (.int 1))) List.mem_cons_self ⟨0⟩
    List.mem_cons_self
  exact ⟨rfl, hagree, hrun, hresult.symm.trans hrun, hcount, hcounted.symm.trans hcount,
    hkept unset ⟨3⟩ hunwritten, hkept set ⟨3⟩ hunwritten⟩

end WindowFold
