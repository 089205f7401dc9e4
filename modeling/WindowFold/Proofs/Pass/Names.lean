import WindowFold.Proofs.Pass.Phases

/-!
# Names of bound results

The local of a bound result is named by the stem of the pass, the name asked for and a number,
with underscores in between.  Such a name is valid as soon as the stem is a valid name or empty
and the name asked for is made of letters, digits and underscores, whatever the number
(`validName_bindingName`), and then the result is bound (`bind_of_names`).  Otherwise it is not
valid (`validName_bindingName_iff`).
-/

namespace WindowFold

/-- A letter, a digit or an underscore. -/
def wordChar (c : Char) : Bool := c.isAlphanum || c == '_'

theorem validName_append {a b : String} (ha : validName a = true)
    (hb : b.toList.all wordChar = true) : validName (a ++ b) = true := by
  unfold validName at ha ⊢
  rw [String.toList_append]
  cases h : a.toList with
  | nil => simp [h] at ha
  | cons c rest =>
    rw [h] at ha
    have hfirst : (c.isAlpha || c == '_') = true ∧ rest.all wordChar = true :=
      (Bool.and_eq_true _ _).mp ha
    show ((c.isAlpha || c == '_') && (rest ++ b.toList).all wordChar) = true
    rw [hfirst.1, List.all_append, hfirst.2, hb]
    rfl

theorem toString_wordChars (n : Nat) : (toString n).toList.all wordChar = true := by
  rw [Nat.toString_eq_ofList_toDigits, String.toList_ofList, List.all_eq_true]
  intro c hc
  have hdigit := Nat.isDigit_of_mem_toDigits (by decide) (by decide) hc
  rw [wordChar, Char.isAlphanum, hdigit, Bool.or_true, Bool.true_or]

/-- Results can be bound under the name. -/
structure Config.Names (c : Config) (name : String) : Prop where
  stem : c.localStem = "" ∨ validName c.localStem = true
  name : name.toList.all wordChar = true

theorem Pass.validName_bindingName {p : Pass} {name : String} (h : p.config.Names name) :
    validName (p.bindingName name) = true := by
  have hunderscore : "_".toList.all wordChar = true := by decide
  have hstem : validName (p.config.localStem ++ "_") = true := by
    rcases h.stem with hempty | hvalid
    · rw [hempty]
      decide
    · exact validName_append hvalid hunderscore
  exact validName_append (validName_append (validName_append hstem h.name) hunderscore)
    (toString_wordChars p.bindings)

/-! ## Characters of a name -/

theorem not_isDigit_of_isAlpha {c : Char} (h : c.isAlpha = true) : c.isDigit = false := by
  have hletter : 'A'.val ≤ c.val := by
    rcases (Bool.or_eq_true _ _).mp h with hupper | hlower
    · have hrange : 'A'.val ≤ c.val ∧ c.val ≤ 'Z'.val := of_decide_eq_true hupper
      exact hrange.1
    · have hge : 'a'.val ≤ c.val := of_decide_eq_true ((Bool.and_eq_true _ _).mp hlower).1
      exact UInt32.le_trans (by decide) hge
  have hbeyond : ¬c.val ≤ '9'.val := fun hle => absurd (UInt32.le_trans hletter hle) (by decide)
  exact Bool.and_eq_false_imp.mpr fun _ => decide_eq_false hbeyond

/-- What can come first is what can follow, but for the digits. -/
theorem first_iff {c : Char} :
    (c.isAlpha || c == '_') = true ↔ wordChar c = true ∧ c.isDigit = false := by
  have hunderscore : '_'.isDigit = false := by decide
  rw [wordChar, Char.isAlphanum]
  constructor
  · intro h
    rcases (Bool.or_eq_true _ _).mp h with halpha | heq
    · exact ⟨by rw [halpha]; rfl, not_isDigit_of_isAlpha halpha⟩
    · rw [beq_iff_eq.mp heq]
      exact ⟨by decide, hunderscore⟩
  · rintro ⟨hword, hdigit⟩
    rwa [hdigit, Bool.or_false] at hword

theorem validName_iff {s : String} : validName s = true ↔
    (∀ c ∈ s.toList, wordChar c = true) ∧ ∃ c, s.toList.head? = some c ∧ c.isDigit = false := by
  unfold validName
  cases s.toList with
  | nil => simp
  | cons c rest =>
    show ((c.isAlpha || c == '_') && rest.all wordChar) = true ↔ _
    rw [Bool.and_eq_true, first_iff, List.all_eq_true, List.forall_mem_cons, List.head?_cons]
    simp only [Option.some.injEq, exists_eq_left']
    exact ⟨fun h => ⟨⟨h.1.1, h.2⟩, h.1.2⟩, fun h => ⟨⟨h.1.1, h.2⟩, h.1.2⟩⟩

/-- The stem and the name asked for may have any characters of names, and the stem must not begin
with a digit.  Either may be empty. -/
theorem Pass.validName_bindingName_iff (p : Pass) (name : String) :
    validName (p.bindingName name) = true ↔
      (∀ c ∈ p.config.localStem.toList ++ name.toList, wordChar c = true) ∧
      ∀ c, p.config.localStem.toList.head? = some c → c.isDigit = false := by
  have hnumber := List.all_eq_true.mp (toString_wordChars p.bindings)
  have hunderscore : wordChar '_' = true := by decide
  have hchars : (p.bindingName name).toList = p.config.localStem.toList ++ '_' :: (name.toList ++
      '_' :: (toString p.bindings).toList) := by
    simp [bindingName]
  rw [validName_iff, hchars]
  have hall : (∀ c ∈ p.config.localStem.toList ++ '_' :: (name.toList ++
      '_' :: (toString p.bindings).toList), wordChar c = true) ↔
        ∀ c ∈ p.config.localStem.toList ++ name.toList, wordChar c = true := by
    simp only [List.forall_mem_append, List.forall_mem_cons, hunderscore, true_and]
    exact ⟨fun h => ⟨h.1, h.2.1⟩, fun h => ⟨h.1, h.2, hnumber⟩⟩
  rw [hall]
  refine and_congr_right fun _ => ?_
  cases p.config.localStem.toList with
  | nil => simp
  | cons c rest => simp

/-! ## Binding -/

/-- The pass after a value has been bound to a new local. -/
def Pass.declared (p : Pass) (x : Local) (e : Expr) : Pass where
  config := p.config
  draft :=
    { p.draft with
      stmts := p.draft.stmts ++ [.declare x.id x.name e]
      declared := p.draft.declared ++ [x] }
  bindings := p.bindings + 1

/-- The local that the next result is bound to. -/
def Pass.nextLocal (p : Pass) (name : String) : Local :=
  ⟨⟨p.draft.declared.length⟩, p.bindingName name⟩

/-- What binding a result emits.  Its local is declared if the name is valid. -/
def Pass.bindCode (p : Pass) (name : String) (e : Expr) : List Stmt :=
  if validName (p.bindingName name) then
    [.declare (p.nextLocal name).id (p.nextLocal name).name e]
  else []

theorem Pass.bind_valid {p : Pass} {name : String} (h : validName (p.bindingName name) = true)
    (e : Expr) : Pass.bind name e p = .ok (p.nextLocal name) (p.declared (p.nextLocal name) e) := by
  simp only [bind, Draft.declare, if_pos h]
  rfl

/-- A name that is refused uses up a number and does nothing else. -/
theorem Pass.bind_refused {p : Pass} {name : String} (h : validName (p.bindingName name) = false)
    (e : Expr) : Pass.bind name e p =
      .error (.invalidName (p.bindingName name)) { p with bindings := p.bindings + 1 } := by
  simp only [bind, Draft.declare, h, if_neg Bool.false_ne_true]

theorem Pass.bind_of_names {p : Pass} {name : String} (h : p.config.Names name) (e : Expr) :
    let x : Local := ⟨⟨p.draft.declared.length⟩, p.bindingName name⟩
    Pass.bind name e p = .ok x (p.declared x e) :=
  bind_valid (validName_bindingName h) e

end WindowFold
