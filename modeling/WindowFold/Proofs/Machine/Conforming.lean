import WindowFold.Machine.Run

/-!
# Values of a type

A value conforms to a type if it is NULL or of the type; everything conforms to `any`, and whole
numbers of type `int` are signed words.  Operations on words give words and operations on doubles
give doubles, or NULL where a double is not finite (`apply_int`, `apply_float`); of the doubles
themselves nothing else is used.

An expression has a type at a store if its value conforms whenever it has one.
-/

namespace WindowFold

namespace Value

def Conforms (v : Value) (type : DataType) : Prop :=
  v = .null ∨ type = .any ∨ (v.dataType = type ∧ ∀ n, v = .int n → IsWord n)

variable {v : Value} {type : DataType} {n : Int} {x : Float}

theorem conforms_null (type : DataType) : Value.null.Conforms type := .inl rfl

theorem conforms_word (h : IsWord n) : (Value.int n).Conforms .int :=
  .inr (.inr ⟨rfl, fun _ hm => Value.int.inj hm ▸ h⟩)

theorem conforms_bool (b : Bool) : (Value.bool b).Conforms .bool :=
  .inr (.inr ⟨rfl, fun _ hm => by simp at hm⟩)

theorem conforms_array (items : List Value) : (Value.array items).Conforms .array :=
  .inr (.inr ⟨rfl, fun _ hm => by simp at hm⟩)

theorem conforms_ofFloat (x : Float) : (ofFloat x).Conforms .float := by
  unfold ofFloat
  split
  · exact .inr (.inr ⟨rfl, fun _ hm => by simp at hm⟩)
  · exact .inl rfl

theorem conforms_int (h : v.Conforms .int) : v = .null ∨ ∃ n, v = .int n ∧ IsWord n := by
  rcases h with h | h | ⟨htype, hword⟩
  · exact .inl h
  · simp at h
  · cases v with
    | int n => exact .inr ⟨n, rfl, hword n rfl⟩
    | null | bool | float | string | array | object => simp [dataType] at htype

theorem conforms_float (h : v.Conforms .float) : v = .null ∨ ∃ x, v = .float x := by
  rcases h with h | h | ⟨htype, _⟩
  · exact .inl h
  · simp at h
  · cases v with
    | float x => exact .inr ⟨x, rfl⟩
    | null | bool | int | string | array | object => simp [dataType] at htype

end Value

/-! ## Operators -/

variable {l r v : Value} {op : ArithOp}

theorem wordResult_conforms {n : Int} (h : wordResult n = .ok v) : v.Conforms .int := by
  unfold wordResult at h
  split at h
  · rename_i hn
    obtain rfl := Except.ok.inj h
    exact Value.conforms_word hn
  · simp at h

theorem words_conforms {m n : Int} (h : op.words m n = .ok v) : v.Conforms .int := by
  cases op with
  | add | sub | mul => exact wordResult_conforms h
  | div =>
    simp only [ArithOp.words] at h
    split at h
    · simp at h
    · exact wordResult_conforms h

theorem floats_conforms {x y : Float} (h : op.floats x y = .ok v) : v.Conforms .float := by
  cases op with
  | add | sub | mul =>
    obtain rfl := Except.ok.inj h
    exact Value.conforms_ofFloat _
  | div =>
    simp only [ArithOp.floats] at h
    split at h
    · simp at h
    · obtain rfl := Except.ok.inj h
      exact Value.conforms_ofFloat _

theorem apply_null_left : op.apply .null r = .ok .null := by
  cases r <;> rfl

theorem apply_null_right : op.apply l .null = .ok .null := by
  cases l <;> rfl

/-- Two words come to a word. -/
theorem apply_int (hl : l.Conforms .int) (hr : r.Conforms .int) (h : op.apply l r = .ok v) :
    v.Conforms .int := by
  rcases Value.conforms_int hl with rfl | ⟨m, rfl, hm⟩
  · rw [apply_null_left, Except.ok.injEq] at h
    exact .inl h.symm
  · rcases Value.conforms_int hr with rfl | ⟨n, rfl, hn⟩
    · rw [apply_null_right, Except.ok.injEq] at h
      exact .inl h.symm
    · simp only [ArithOp.apply, Value.word?, if_pos hm, if_pos hn] at h
      exact words_conforms h

/-- A double and anything that can be added to it come to a double. -/
theorem apply_float (hl : l.Conforms .float) (h : op.apply l r = .ok v) : v.Conforms .float := by
  rcases Value.conforms_float hl with rfl | ⟨x, rfl⟩
  · rw [apply_null_left, Except.ok.injEq] at h
    exact .inl h.symm
  · by_cases hr : r = .null
    · rw [hr, apply_null_right, Except.ok.injEq] at h
      exact .inl h.symm
    · have hword : (Value.float x).word? = none := rfl
      have hfloat : (Value.float x).float? = some x := rfl
      cases hy : r.float? with
      | some y =>
        have happly : op.apply (.float x) r = op.floats x y := by
          cases r <;> simp_all [ArithOp.apply]
        rw [happly] at h
        exact floats_conforms h
      | none =>
        have happly : op.apply (.float x) r = .error (.badOperands op (.float x) r) := by
          cases r <;> simp_all [ArithOp.apply]
        rw [happly] at h
        simp at h

/-! ## Expressions -/

/-- The value of the expression conforms if it has one. -/
def Expr.HasType (env : Env) (st : Store) (e : Expr) (type : DataType) : Prop :=
  ∀ v, e.eval env st = .ok v → v.Conforms type

namespace Expr.HasType

variable {env : Env} {st : Store} {a b c : Expr} {type : DataType}

theorem of_eval (h : a.eval env st = .ok v) (hv : v.Conforms type) : a.HasType env st type := by
  intro w hw
  rw [h, Except.ok.injEq] at hw
  exact hw ▸ hv

theorem null : Expr.null.HasType env st type := of_eval rfl (.inl rfl)

theorem slot {x : SlotId} (h : st.slots x = some v) (hv : v.Conforms type) :
    (Expr.slot x).HasType env st type :=
  of_eval (by simp only [eval, h]) hv

theorem add (ha : a.HasType env st .int) (hb : b.HasType env st .int) :
    (a.add b).HasType env st .int := by
  intro v hv
  simp only [Expr.add, eval, bind, Except.bind] at hv
  cases hl : a.eval env st with
  | error err => simp [hl] at hv
  | ok l =>
    cases hr : b.eval env st with
    | error err => simp [hl, hr] at hv
    | ok r =>
      simp only [hl, hr] at hv
      exact apply_int (ha l hl) (hb r hr) hv

theorem arith_float (op : ArithOp) (ha : a.HasType env st .float) (b : Expr) :
    (Expr.binary (.arith op) a b).HasType env st .float := by
  intro v hv
  simp only [eval, bind, Except.bind] at hv
  cases hl : a.eval env st with
  | error err => simp [hl] at hv
  | ok l =>
    cases hr : b.eval env st with
    | error err => simp [hl, hr] at hv
    | ok r =>
      simp only [hl, hr] at hv
      exact apply_float (ha l hl) hv

/-- Whichever side is taken. -/
theorem choose (c : Expr) (ha : a.HasType env st type) (hb : b.HasType env st type) :
    (Expr.choose c a b).HasType env st type := by
  intro v hv
  simp only [eval, bind, Except.bind] at hv
  split at hv
  · simp at hv
  · split at hv
    · simp at hv
    · split at hv
      · exact ha v hv
      · exact hb v hv

end Expr.HasType

end WindowFold
