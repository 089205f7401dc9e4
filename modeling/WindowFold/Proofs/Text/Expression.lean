import WindowFold.Expr.Text
import WindowFold.Proofs.Text.Reader

/-!
# Expressions read back

An expression whose literals are whole numbers, truth values and NULL can be read off its text
(`Expr.nested_reads`).  The first word of the text tells the form of the expression, except that
what stands in brackets is only told from behind.
-/

namespace WindowFold

open Reader

/-- A literal whose text says what it is.  A string stands between quotes as it is, and the text
of a double may be that of a whole number. -/
def Literal.Plain : Literal → Prop
  | .int _ | .bool _ | .null => True
  | .string _ | .float _ => False

namespace Expr

/-- All literals are plain. -/
def Plain : Expr → Prop
  | .literal l => l.Plain
  | .slot _ | .var _ | .fact _ | .emptyList => True
  | .argument _ row => row.Plain
  | .unary _ e => e.Plain
  | .binary _ l r => l.Plain ∧ r.Plain
  | .choose c t e => c.Plain ∧ t.Plain ∧ e.Plain

def depth : Expr → Nat
  | .literal _ | .slot _ | .var _ | .fact _ | .emptyList => 0
  | .argument _ row => row.depth + 1
  | .unary _ e => e.depth + 1
  | .binary _ l r => max l.depth r.depth + 1
  | .choose c t e => max c.depth (max t.depth e.depth) + 1

end Expr

/-- All operators that stand between operands. -/
def BinaryOp.all : List BinaryOp :=
  [.arith .add, .arith .sub, .arith .mul, .arith .div, .compare .eq, .compare .ne, .compare .lt,
    .compare .le, .compare .gt, .compare .ge, .logic .and, .logic .or]

def BinaryOp.ofSymbol? (symbol : String) : Option BinaryOp := all.find? (·.symbol = symbol)

theorem BinaryOp.ofSymbol?_symbol (op : BinaryOp) : ofSymbol? op.symbol = some op := by
  rcases op with op | op | op <;> cases op <;> decide

theorem BinaryOp.no_blank (op : BinaryOp) : ' ' ∉ op.symbol.toList := by
  rcases op with op | op | op <;> cases op <;> decide

namespace Expr

section

variable (operand : Reader Expr)

/-- What follows the first operand in brackets. -/
def afterFirst (l : Expr) : Reader Expr :=
  byWord [
    (") IS NULL", pure l.isNull),
    (") IS NOT NULL", pure l.isNotNull),
    (" ", do
      let symbol ← upTo ' '
      let op ← known (BinaryOp.ofSymbol? symbol)
      let r ← operand
      word ")"
      return .binary op l r)]

def bracketed : Reader Expr := do
  let l ← operand
  afterFirst operand l

/-- What stands in brackets behind a name. -/
def applied (f : Expr → Expr) : Reader Expr := do
  let e ← operand
  word ")"
  return f e

def negated : Reader Expr := numberOr (fun n => .int (-n)) do
  word "("
  applied operand (.unary .neg)

def alternatives : Reader Expr := do
  let c ← operand
  word " THEN "
  let t ← operand
  word " ELSE "
  let e ← operand
  word " END"
  return .choose c t e

def argumentAt : Reader Expr := do
  let index ← number
  word "@["
  let row ← operand
  word "]"
  return .argument index row

/-- The forms of expressions by their first words. -/
def forms : List (String × Reader Expr) := [
  ("(", bracketed operand),
  ("NOT (", applied operand .not),
  ("-", negated operand),
  ("CASE WHEN ", alternatives operand),
  ("acc$", do return .slot ⟨← number⟩),
  ("local$", do return .var ⟨← number⟩),
  ("arg", argumentAt operand),
  ("[]", pure .emptyList),
  ("true", pure (.bool true)),
  ("false", pure (.bool false)),
  ("NULL", pure .null),
  ("CurrentRow", pure (.fact .currentRow)),
  ("FrameStart", pure (.fact .frameStart)),
  ("FrameEnd", pure (.fact .frameEnd)),
  ("HasRows", pure (.fact .hasRows)),
  ("PartitionRowCount", pure (.fact .rowCount))]

/-- Expressions that are nested less deep than a bound. -/
def nested : Nat → Reader Expr
  | 0 => fun _ => none
  | n + 1 => numberOr (fun k => .int k) (byWord (forms (nested n)))

end

variable {operand : Reader Expr} {n : Nat} {e l r : Expr} {t : String}

/-! ## The forms one by one -/

theorem close_stops : Stops ")" := fun _ => rfl

/-- The first word leads to the form. -/
theorem form_reads (w : String) (p : Reader Expr) (hw : Stops w)
    (hp : ∀ cs, byWord (forms (nested n)) (w.toList ++ cs) = p cs) (h : Reads Ends p t e) :
    Reads Ends (nested (n + 1)) (w ++ t) e :=
  .numberOr (hw.append t) (.byWord hp h) _

theorem word_reads (w : String) (hw : Stops w)
    (hp : ∀ cs, byWord (forms (nested n)) (w.toList ++ cs) = some (e, cs)) :
    Reads Ends (nested (n + 1)) w e := by
  have hread : Reads Ends (nested (n + 1)) (w ++ "") e := form_reads w (pure e) hw hp fun _ _ => rfl
  rwa [String.append_empty] at hread

theorem int_reads (k : Int) : Reads Ends (nested (n + 1)) (toString k) (.int k) := by
  have htext : toString k = if 0 ≤ k then toString k.toNat else "-" ++ toString (-k).toNat :=
    Int.repr_eq_if
  by_cases hk : 0 ≤ k
  · have hint : Expr.int k = Expr.int (k.toNat : Nat) := by rw [Int.toNat_of_nonneg hk]
    rw [htext, if_pos hk, hint]
    exact numberOr_reads (fun i : Nat => Expr.int i) _ k.toNat
  · have hint : Expr.int k = Expr.int (-((-k).toNat : Nat)) := by
      rw [Int.toNat_of_nonneg (by omega), Int.neg_neg]
    rw [htext, if_neg hk, hint]
    exact form_reads "-" (negated (nested n)) (fun _ => rfl) (fun _ => rfl)
      (numberOr_reads (fun i : Nat => Expr.int (-i)) _ (-k).toNat)

theorem literal_reads {v : Literal} (hv : v.Plain) :
    Reads Ends (nested (n + 1)) v.text (.literal v) := by
  cases v with
  | string s => exact hv.elim
  | float x => exact hv.elim
  | int k => exact int_reads k
  | null => exact word_reads "NULL" (fun _ => rfl) fun _ => rfl
  | bool b =>
    cases b with
    | true => exact word_reads "true" (fun _ => rfl) fun _ => rfl
    | false => exact word_reads "false" (fun _ => rfl) fun _ => rfl

theorem fact_reads (f : Fact) : Reads Ends (nested (n + 1)) f.text (.fact f) := by
  cases f with
  | currentRow => exact word_reads "CurrentRow" (fun _ => rfl) fun _ => rfl
  | frameStart => exact word_reads "FrameStart" (fun _ => rfl) fun _ => rfl
  | frameEnd => exact word_reads "FrameEnd" (fun _ => rfl) fun _ => rfl
  | hasRows => exact word_reads "HasRows" (fun _ => rfl) fun _ => rfl
  | rowCount => exact word_reads "PartitionRowCount" (fun _ => rfl) fun _ => rfl

theorem slot_reads (x : SlotId) : Reads Ends (nested (n + 1)) x.text (.slot x) :=
  form_reads "acc$" (do return .slot ⟨← number⟩) (fun _ => rfl) (fun _ => rfl)
    (number_reads x.index |>.map _)

theorem var_reads (x : LocalId) : Reads Ends (nested (n + 1)) x.text (.var x) :=
  form_reads "local$" (do return .var ⟨← number⟩) (fun _ => rfl) (fun _ => rfl)
    (number_reads x.index |>.map _)

theorem argument_reads (index : Nat) (hrow : Reads Ends (nested n) e.text e) :
    Reads Ends (nested (n + 1)) (Expr.argument index e).text (.argument index e) := by
  have hat : Stops "@[" := fun _ => rfl
  have hclose : Stops "]" := fun _ => rfl
  simp only [text, String.append_assoc]
  refine form_reads "arg" (argumentAt (nested n)) (fun _ => rfl) (fun _ => rfl) ?_
  exact .bind (number_reads index) (hat.append _) (.word "@[" (.bind hrow hclose (.close "]" _)))

theorem choose_reads {c : Expr} (hc : Reads Ends (nested n) c.text c)
    (hl : Reads Ends (nested n) l.text l) (hr : Reads Ends (nested n) r.text r) :
    Reads Ends (nested (n + 1)) (Expr.choose c l r).text (.choose c l r) := by
  have hthen : Stops " THEN " := fun _ => rfl
  have helse : Stops " ELSE " := fun _ => rfl
  have hend : Stops " END" := fun _ => rfl
  simp only [text, String.append_assoc]
  refine form_reads "CASE WHEN " (alternatives (nested n)) (fun _ => rfl) (fun _ => rfl) ?_
  refine .bind hc (hthen.append _) (.word " THEN " ?_)
  refine .bind hl (helse.append _) (.word " ELSE " ?_)
  exact .bind hr hend (.close " END" _)

theorem applied_reads (he : Reads Ends operand e.text e) (f : Expr → Expr) :
    Reads Ends (applied operand f) (e.text ++ ")") (f e) :=
  .bind he close_stops (.close ")" _)

/-- What stands in brackets is told by what follows its first part. -/
theorem bracketed_reads (hl : Reads Ends operand l.text l) (ht : Stops t)
    (h : Reads Ends (afterFirst operand l) t e) : Reads Ends (bracketed operand) (l.text ++ t) e :=
  .bind hl ht h

theorem unary_reads (op : UnaryOp) (he : Reads Ends (nested n) e.text e) :
    Reads Ends (nested (n + 1)) (Expr.unary op e).text (.unary op e) := by
  rw [text, String.append_assoc]
  cases op with
  | not =>
    show Reads Ends _ ("NOT (" ++ (e.text ++ ")")) (Expr.not e)
    exact form_reads "NOT (" (applied (nested n) .not) (fun _ => rfl) (fun _ => rfl)
      (applied_reads he .not)
  | neg =>
    show Reads Ends _ ("-" ++ ("(" ++ (e.text ++ ")"))) (Expr.unary .neg e)
    refine form_reads "-" (negated (nested n)) (fun _ => rfl) (fun _ => rfl) ?_
    have hopen : Stops "(" := fun _ => rfl
    exact .numberOr (hopen.append _) (.word "(" (applied_reads he (.unary .neg))) _
  | isNull =>
    show Reads Ends _ ("(" ++ (e.text ++ ") IS NULL")) e.isNull
    refine form_reads "(" (bracketed (nested n)) (fun _ => rfl) (fun _ => rfl) ?_
    exact bracketed_reads he (fun _ => rfl) fun _ _ => rfl
  | isNotNull =>
    show Reads Ends _ ("(" ++ (e.text ++ ") IS NOT NULL")) e.isNotNull
    refine form_reads "(" (bracketed (nested n)) (fun _ => rfl) (fun _ => rfl) ?_
    exact bracketed_reads he (fun _ => rfl) fun _ _ => rfl

theorem binary_reads (op : BinaryOp) (hl : Reads Ends (nested n) l.text l)
    (hr : Reads Ends (nested n) r.text r) :
    Reads Ends (nested (n + 1)) (Expr.binary op l r).text (.binary op l r) := by
  have hblank : Stops " " := fun _ => rfl
  simp only [text, String.append_assoc]
  refine form_reads "(" (bracketed (nested n)) (fun _ => rfl) (fun _ => rfl) ?_
  refine bracketed_reads hl (hblank.append _) (.byWord (fun _ => rfl) ?_)
  exact .upTo rfl op.no_blank (.known op.ofSymbol?_symbol (.bind hr close_stops (.close ")" _)))

/-- With plain literals an expression is read off its text, if that much nesting is allowed. -/
theorem nested_reads (he : e.Plain) (hn : e.depth < n) : Reads Ends (nested n) e.text e := by
  induction n generalizing e with
  | zero => omega
  | succ n ih =>
    cases e with
    | literal v => exact literal_reads he
    | slot x => exact slot_reads x
    | var x => exact var_reads x
    | fact f => exact fact_reads f
    | emptyList => exact word_reads "[]" (fun _ => rfl) fun _ => rfl
    | argument index row => exact argument_reads index (ih he (Nat.lt_of_succ_lt_succ hn))
    | unary op e => exact unary_reads op (ih he (Nat.lt_of_succ_lt_succ hn))
    | binary op l r =>
      have hdepth : l.depth < n ∧ r.depth < n := by
        rw [← Nat.max_lt]
        exact Nat.lt_of_succ_lt_succ hn
      exact binary_reads op (ih he.1 hdepth.1) (ih he.2 hdepth.2)
    | choose c l r =>
      have hdepth : c.depth < n ∧ l.depth < n ∧ r.depth < n := by
        rw [← Nat.max_lt, ← Nat.max_lt]
        exact Nat.lt_of_succ_lt_succ hn
      exact choose_reads (ih he.1 hdepth.1) (ih he.2.1 hdepth.2.1) (ih he.2.2 hdepth.2.2)

/-- Expressions with plain literals have different texts. -/
theorem text_inj {a b : Expr} (ha : a.Plain) (hb : b.Plain) (h : a.text = b.text) : a = b := by
  have hreada := nested_reads (n := max a.depth b.depth + 1) ha (by omega) [] rfl
  have hreadb := nested_reads (n := max a.depth b.depth + 1) hb (by omega) [] rfl
  rw [h, hreadb] at hreada
  exact (Prod.mk.inj (Option.some.inj hreada)).1.symm

end Expr
end WindowFold
