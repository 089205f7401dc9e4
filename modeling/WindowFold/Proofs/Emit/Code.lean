import WindowFold.Emit.Emission

/-!
# Emissions as statements

An emission without declarations and failures puts the same statements at the end of whatever
draft it is performed on.  `Emission.Gives` says so, and is closed under the ways in which
emissions are put together.
-/

namespace WindowFold

/-- The draft with statements put at its end. -/
def Draft.extend (d : Draft) (ss : List Stmt) : Draft := { d with stmts := d.stmts ++ ss }

namespace Draft

theorem extend_nil (d : Draft) : d.extend [] = d := by
  simp [extend]

theorem extend_extend (d : Draft) (a b : List Stmt) :
    (d.extend a).extend b = d.extend (a ++ b) := by
  simp [extend]

theorem extend_since (d : Draft) (ss : List Stmt) :
    (d.extend ss).since d.stmts.length = ss := by
  simp [extend, since]

end Draft

namespace Emission

variable {α β : Type}

/-- The emission succeeds on every draft, with these statements and this value. -/
structure Gives (m : Emission α) (ss : List Stmt) (a : α) : Prop where
  outcome : ∀ n, m.outcome n = .ok a
  ops : ∀ n, ∀ d : Draft, d.emitAll (m.ops n) = (d.extend ss, .ok ())

namespace Gives

theorem pure (a : α) : (Pure.pure a : Emission α).Gives [] a :=
  ⟨fun _ => rfl, fun _ d => by rw [Draft.extend_nil]; rfl⟩

theorem bind {m : Emission α} {f : α → Emission β} {a : α} {b : β} {ss ss' : List Stmt}
    (hm : m.Gives ss a) (hf : (f a).Gives ss' b) : (m >>= f).Gives (ss ++ ss') b := by
  refine ⟨fun n => ?_, fun n d => ?_⟩
  · rw [outcome_bind_ok (hm.outcome n), hf.outcome]
  · rw [ops_bind_ok (hm.outcome n), Draft.emitAll_append, hm.ops n d]
    simp only [hf.ops, Draft.extend_extend]

theorem assign (s : SlotId) (e : Expr) : (Emission.assign s e).Gives [.assign s e] () :=
  ⟨fun _ => rfl, fun _ _ => rfl⟩

theorem push (s : SlotId) (e : Expr) : (Emission.push s e).Gives [.push s e] () :=
  ⟨fun _ => rfl, fun _ _ => rfl⟩

theorem reserve (s : SlotId) (e : Expr) : (Emission.reserve s e).Gives [.reserve s e] () :=
  ⟨fun _ => rfl, fun _ _ => rfl⟩

theorem ofOps_nil : (Emission.ofOps []).Gives [] () := pure ()

theorem ofOps_cons {o : Op} {rest : List Op} {ss ss' : List Stmt} (h : (op o).Gives ss ())
    (hrest : (Emission.ofOps rest).Gives ss' ()) :
    (Emission.ofOps (o :: rest)).Gives (ss ++ ss') () := by
  have hcons : Emission.ofOps (o :: rest) = op o >>= fun _ => Emission.ofOps rest := rfl
  rw [hcons]
  exact bind h hrest

theorem whenOps {body : List Op} {ss : List Stmt} (c : Expr)
    (h : (Emission.ofOps body).Gives ss ()) :
    (Emission.when c body).Gives [.branch c ss []] () := by
  refine ⟨fun _ => rfl, fun n d => ?_⟩
  have hbody : d.child.emitAll body = (d.child.extend ss, .ok ()) := h.ops n d.child
  simp only [Emission.when, op, Op.when, Draft.emitAll, Draft.emit, hbody]
  rfl

theorem perform {m : Emission α} {ss : List Stmt} {a : α} (h : m.Gives ss a) (d : Draft) :
    d.perform m = (d.extend ss, .ok a) := by
  simp only [Draft.perform, h.ops, h.outcome]

end Gives

end Emission
end WindowFold
