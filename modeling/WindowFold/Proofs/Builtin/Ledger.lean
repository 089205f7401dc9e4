import Mathlib.Data.List.Perm.Basic
import WindowFold.Expr.Basic

/-!
# Calls merged into one

Several calls of one function are created, reset, fed and merged into each other until one of
them is left, in any order in which each of them is done with before it is merged away
(`Move.MergesInto`).  A ledger says of each call what it has taken in: its own adds and those of
the calls merged into it.

No add is lost or taken in twice on the way, so that in the end the call that is left has taken
in what all of them were fed, in some order (`Move.followAll_perm`, `Move.fed_perm`).
-/

namespace WindowFold

/-- Something done with several calls of one function. -/
inductive Move where
  | create
  | reset (u : Nat)
  /-- Add arguments, which evaluate to the values. -/
  | add (u : Nat) (args : List Expr) (values : List Value)
  | merge (u v : Nat)

/-- Where a call stands: not yet reset, taking things in, or merged into another. -/
inductive Stage where
  | unset
  | live (inputs : List (List Value))
  | spent

/-- What a call can still hand on. -/
def Stage.inputs : Stage → List (List Value)
  | .live inputs => inputs
  | .unset | .spent => []

namespace Move

/-- The stages after a move, if it is one that the stages admit. -/
def follow (ledger : List Stage) : Move → Option (List Stage)
  | .create => some (ledger ++ [.unset])
  | .reset u =>
    match ledger[u]? with
    | some .unset => some (ledger.set u (.live []))
    | _ => none
  | .add u _ values =>
    match ledger[u]? with
    | some (.live inputs) => some (ledger.set u (.live (inputs ++ [values])))
    | _ => none
  | .merge u v =>
    match ledger[u]?, ledger[v]? with
    | some (.live as), some (.live bs) =>
      if u = v then none else some ((ledger.set u (.live (as ++ bs))).set v .spent)
    | _, _ => none

/-- Every form of move that the stages admit. -/
inductive Follows (ledger : List Stage) : Move → List Stage → Prop
  | create : Follows ledger .create (ledger ++ [.unset])
  | reset {u} (hu : ledger[u]? = some .unset) :
      Follows ledger (.reset u) (ledger.set u (.live []))
  | add {u args values inputs} (hu : ledger[u]? = some (.live inputs)) :
      Follows ledger (.add u args values) (ledger.set u (.live (inputs ++ [values])))
  | merge {u v as bs} (hu : ledger[u]? = some (.live as)) (hv : ledger[v]? = some (.live bs))
      (hne : u ≠ v) :
      Follows ledger (.merge u v) ((ledger.set u (.live (as ++ bs))).set v .spent)

theorem follows_of_follow {ledger ledger' : List Stage} {m : Move}
    (h : m.follow ledger = some ledger') : Follows ledger m ledger' := by
  cases m with
  | create =>
    obtain rfl := Option.some.inj h
    exact .create
  | reset u =>
    simp only [follow] at h
    split at h
    · rename_i hu
      obtain rfl := Option.some.inj h
      exact .reset hu
    · simp at h
  | add u args values =>
    simp only [follow] at h
    split at h
    · rename_i hu
      obtain rfl := Option.some.inj h
      exact .add hu
    · simp at h
  | merge u v =>
    simp only [follow] at h
    split at h
    · rename_i hu hv
      by_cases hne : u = v
      · simp [hne] at h
      · rw [if_neg hne] at h
        obtain rfl := Option.some.inj h
        exact .merge hu hv hne
    · simp at h

/-- What a move adds to the call. -/
def fedTo (u : Nat) : Move → List (List Expr × List Value)
  | .add w args values => if u = w then [(args, values)] else []
  | _ => []

def added : Move → List (List Expr × List Value)
  | .add _ args values => [(args, values)]
  | _ => []

/-- The stages after moves that all are admitted. -/
def followAll (ledger : List Stage) (moves : List Move) : Option (List Stage) :=
  moves.foldlM follow ledger

theorem followAll_cons {ledger ledger' : List Stage} {m : Move} {rest : List Move} :
    followAll ledger (m :: rest) = some ledger' ↔
      ∃ ledger₁, m.follow ledger = some ledger₁ ∧ followAll ledger₁ rest = some ledger' := by
  rw [followAll, List.foldlM_cons]
  exact Option.bind_eq_some_iff

/-- What the moves add to the call. -/
def fed (moves : List Move) (u : Nat) : List (List Expr × List Value) := moves.flatMap (fedTo u)

/-- The moves leave `root` as the only one of `k` calls. -/
def MergesInto (moves : List Move) (root k : Nat) : Prop :=
  ∃ ledger inputs, followAll [] moves = some ledger ∧ ledger.length = k ∧
    ledger[root]? = some (.live inputs) ∧ ∀ u < k, u ≠ root → ledger[u]? = some .spent

/-! ## Nothing is lost or taken in twice -/

/-- Replacing one item exchanges what it contributes. -/
theorem count_flatMap_set {α β : Type} [BEq β] [LawfulBEq β] (f : α → List β) (z : β) {l : List α}
    {u : Nat} {a : α} (h : l[u]? = some a) (a' : α) :
    ((l.set u a').flatMap f).count z + (f a).count z =
      (l.flatMap f).count z + (f a').count z := by
  induction l generalizing u with
  | nil => simp at h
  | cons x rest ih =>
    cases u with
    | zero =>
      obtain rfl := Option.some.inj h
      rw [List.set_cons_zero]
      simp only [List.flatMap_cons, List.count_append]
      omega
    | succ u =>
      have hrest := ih h
      rw [List.set_cons_succ]
      simp only [List.flatMap_cons, List.count_append]
      omega

/-- A move hands on what the calls had taken in, together with what it adds itself. -/
theorem Follows.perm {ledger ledger' : List Stage} {m : Move} (h : Follows ledger m ledger') :
    (ledger'.flatMap Stage.inputs).Perm
      (ledger.flatMap Stage.inputs ++ m.added.map Prod.snd) := by
  classical
  rw [List.perm_iff_count]
  intro z
  rw [List.count_append]
  cases h with
  | create => simp [Stage.inputs, added]
  | reset hu =>
    have hset := count_flatMap_set Stage.inputs z hu (.live [])
    simp only [Stage.inputs, added, List.map_nil, List.count_nil] at hset ⊢
    omega
  | @add u args values inputs hu =>
    have hset := count_flatMap_set Stage.inputs z hu (.live (inputs ++ [values]))
    simp only [Stage.inputs, added, List.map_singleton, List.count_append] at hset ⊢
    omega
  | @merge u v as bs hu hv hne =>
    have hset := count_flatMap_set Stage.inputs z hu (.live (as ++ bs))
    have hv' : (ledger.set u (.live (as ++ bs)))[v]? = some (.live bs) := by
      rw [List.getElem?_set_ne hne, hv]
    have hset' := count_flatMap_set Stage.inputs z hv' .spent
    simp only [Stage.inputs, added, List.map_nil, List.count_nil, List.count_append] at hset hset' ⊢
    omega

theorem followAll_perm {ledger ledger' : List Stage} {moves : List Move}
    (h : followAll ledger moves = some ledger') : (ledger'.flatMap Stage.inputs).Perm
      (ledger.flatMap Stage.inputs ++ (moves.flatMap added).map Prod.snd) := by
  induction moves generalizing ledger with
  | nil =>
    obtain rfl := Option.some.inj h
    simp
  | cons m rest ih =>
    obtain ⟨ledger₁, hm, hrest⟩ := followAll_cons.mp h
    refine (ih hrest).trans ?_
    rw [List.flatMap_cons, List.map_append, ← List.append_assoc]
    exact (follows_of_follow hm).perm.append_right _

theorem Follows.length_le {ledger ledger' : List Stage} {m : Move} (h : Follows ledger m ledger') :
    ledger.length ≤ ledger'.length := by
  cases h <;> simp

/-- Only calls that there are can be added to. -/
theorem followAll_lt {ledger ledger' : List Stage} {moves : List Move}
    (h : followAll ledger moves = some ledger') : ledger.length ≤ ledger'.length ∧
      ∀ u args values, .add u args values ∈ moves → u < ledger'.length := by
  induction moves generalizing ledger with
  | nil =>
    obtain rfl := Option.some.inj h
    exact ⟨Nat.le_refl _, by simp⟩
  | cons m rest ih =>
    obtain ⟨ledger₁, hm, hrest⟩ := followAll_cons.mp h
    have hm := follows_of_follow hm
    obtain ⟨hle, hlt⟩ := ih hrest
    have hle' := hm.length_le
    refine ⟨by omega, ?_⟩
    intro u args values hmem
    rcases List.mem_cons.mp hmem with rfl | hmem
    · have hu : u < ledger.length := by
        cases hm with
        | add hu => exact (List.getElem?_eq_some_iff.mp hu).1
      omega
    · exact hlt u args values hmem

theorem fedTo_range {m : Move} {k : Nat} (h : ∀ u args values, m = .add u args values → u < k) :
    (List.range k).flatMap (fun u => m.fedTo u) = m.added := by
  cases m with
  | create | reset | merge => simp [fedTo, added]
  | add w args values =>
    have hw := h w args values rfl
    have none_below {j : Nat} (hj : j ≤ w) :
        (List.range j).flatMap (fun u => (Move.add w args values).fedTo u) = [] := by
      rw [List.flatMap_eq_nil_iff]
      intro u hu
      have hne : u ≠ w := by
        have hlt := List.mem_range.mp hu
        omega
      rw [fedTo, if_neg hne]
    clear h
    induction k with
    | zero => omega
    | succ k ih =>
      rw [List.range_succ, List.flatMap_append, List.flatMap_singleton]
      by_cases hk : w = k
      · subst hk
        rw [none_below (Nat.le_refl w), fedTo, if_pos rfl]
        rfl
      · rw [ih (by omega), fedTo, if_neg (fun h => hk h.symm), List.append_nil]

/-- What the calls are fed, one call after the other, is all that is added. -/
theorem fed_perm {moves : List Move} {k : Nat}
    (h : ∀ u args values, .add u args values ∈ moves → u < k) :
    ((List.range k).flatMap (fed moves)).Perm (moves.flatMap added) := by
  induction moves with
  | nil =>
    have hnil : (List.range k).flatMap (fed []) = [] :=
      List.flatMap_eq_nil_iff.mpr fun _ _ => rfl
    rw [hnil]
    exact .nil
  | cons m rest ih =>
    have hrest := ih fun u args values hmem => h u args values (List.mem_cons_of_mem _ hmem)
    have hm : (List.range k).flatMap (fun u => m.fedTo u) = m.added :=
      fedTo_range fun u args values hadd => h u args values (hadd ▸ List.mem_cons_self)
    have hsplit := (List.flatMap_append_perm (List.range k) (fun u => m.fedTo u) (fed rest)).symm
    rw [hm] at hsplit
    exact hsplit.trans (hrest.append_left _)

/-- Where all but one call are spent, that one holds everything. -/
theorem inputs_of_root {ledger : List Stage} {root : Nat} {inputs : List (List Value)}
    (hroot : ledger[root]? = some (.live inputs))
    (hothers : ∀ u < ledger.length, u ≠ root → ledger[u]? = some .spent) :
    inputs.Perm (ledger.flatMap Stage.inputs) := by
  classical
  rw [List.perm_iff_count]
  intro z
  have hset := count_flatMap_set Stage.inputs z hroot .spent
  have hnone : (ledger.set root .spent).flatMap Stage.inputs = [] := by
    rw [List.flatMap_eq_nil_iff]
    intro x hx
    obtain ⟨u, hu⟩ := List.mem_iff_getElem?.mp hx
    by_cases hur : root = u
    · subst hur
      rw [List.getElem?_set_self (List.getElem?_eq_some_iff.mp hroot).1] at hu
      obtain rfl := Option.some.inj hu
      rfl
    · rw [List.getElem?_set_ne hur] at hu
      have hlt := (List.getElem?_eq_some_iff.mp hu).1
      rw [hothers u hlt (fun h => hur h.symm)] at hu
      obtain rfl := Option.some.inj hu
      rfl
  simp only [hnone, Stage.inputs, List.count_nil] at hset
  omega

/-! ## One call -/

/-- One call that is fed all the items. -/
def single (items : List (List Expr × List Value)) : List Move :=
  [.create, .reset 0] ++ items.map fun x => .add 0 x.1 x.2

theorem followAll_adds (items : List (List Expr × List Value)) (inputs : List (List Value)) :
    followAll [.live inputs] (items.map fun x => .add 0 x.1 x.2) =
      some [.live (inputs ++ items.map Prod.snd)] := by
  induction items generalizing inputs with
  | nil =>
    rw [List.map_nil, List.map_nil, List.append_nil]
    rfl
  | cons x rest ih =>
    rw [List.map_cons, List.map_cons]
    refine followAll_cons.mpr ⟨_, rfl, (ih _).trans ?_⟩
    rw [List.append_assoc, List.singleton_append]

theorem single_mergesInto (items : List (List Expr × List Value)) :
    MergesInto (single items) 0 1 := by
  refine ⟨[.live (items.map Prod.snd)], items.map Prod.snd, ?_, rfl, rfl, ?_⟩
  · exact followAll_cons.mpr ⟨_, rfl, followAll_cons.mpr ⟨_, rfl, followAll_adds items []⟩⟩
  · intro u hu hne
    omega

theorem single_added (items : List (List Expr × List Value)) :
    (single items).flatMap added = items := by
  rw [single, List.flatMap_append, List.flatMap_map]
  exact List.flatMap_singleton' items

end Move
end WindowFold
