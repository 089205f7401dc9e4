import WindowFold.Proofs.Text.Reader
import WindowFold.Proofs.Workspace.Lockstep

/-!
# Results are bound to locals of their own

The name of a bound result ends in the number of the attempt, which can be read off it
(`bindings_of_bindingName`).  Every attempt uses up a number, also one that is refused, and nothing
else that is done to a pass sets the numbers back (`later_attempts`).  So no two results share a
name or a local (`bindings_distinct`).
-/

namespace WindowFold

/-! ## The number in a name -/

/-- The last underscore of a name is the one before the number. -/
theorem Pass.takeWhile_bindingName (p : Pass) (name : String) :
    (p.bindingName name).toList.reverse.takeWhile (· != '_') =
      (toString p.bindings).toList.reverse := by
  have hdigits : ∀ c ∈ (toString p.bindings).toList.reverse, (c != '_') = true := by
    intro c hc
    have hdigit := Reader.isDigit_of_mem p.bindings c (List.mem_reverse.mp hc)
    rw [bne_iff_ne]
    rintro rfl
    exact absurd hdigit (by decide)
  have hchars : (p.bindingName name).toList = (p.config.localStem ++ "_" ++ name).toList ++
      '_' :: (toString p.bindings).toList := by
    simp [bindingName]
  rw [hchars, List.reverse_append, List.reverse_cons, List.append_assoc,
    List.takeWhile_append_of_pos hdigits, List.singleton_append,
    List.takeWhile_cons_of_neg (by decide), List.append_nil]

theorem Pass.bindings_of_bindingName {p q : Pass} {name name' : String}
    (h : p.bindingName name = q.bindingName name') : p.bindings = q.bindings := by
  have hnumbers := p.takeWhile_bindingName name
  rw [h, q.takeWhile_bindingName name', List.reverse_inj, Reader.toList_toString,
    Reader.toList_toString] at hnumbers
  have hvalues := congrArg (fun ds => Nat.ofDigitChars 10 ds 0) hnumbers
  simpa only [Nat.ofDigitChars_ten_toDigits] using hvalues.symm

/-! ## Numbers only go up -/

/-- What a pass has come to: it is configured as before, and has handed out no fewer numbers. -/
structure Pass.Later (p p' : Pass) : Prop where
  config : p'.config = p.config
  bindings : p.bindings ≤ p'.bindings
  declared : p.draft.declared.length ≤ p'.draft.declared.length

namespace Pass.Later

variable {p p₁ p₂ : Pass}

theorem refl (p : Pass) : p.Later p := ⟨rfl, Nat.le_refl _, Nat.le_refl _⟩

theorem trans (h : p.Later p₁) (h' : p₁.Later p₂) : p.Later p₂ :=
  ⟨h'.config.trans h.config, h.bindings.trans h'.bindings, h.declared.trans h'.declared⟩

end Pass.Later

/-- All that actions do to a pass leads to a later one. -/
theorem lockstep_later (p₀ : Pass) : Lockstep (fun p q => q = p ∧ p₀.Later p) True where
  covers := by
    rintro _ p ⟨rfl, _⟩
    exact ⟨id, id, rfl⟩
  config := by
    rintro _ _ p ⟨rfl, _⟩
    rfl
  emit m := by
    rintro _ p ⟨rfl, h⟩
    obtain ⟨ss, hextends⟩ := p.draft.perform_extends m
    unfold Pass.emit
    generalize p.draft.perform m = out at hextends
    have hlater : p₀.Later { p with draft := out.1 } :=
      ⟨h.config, h.bindings, h.declared.trans hextends.declared.length_le⟩
    obtain ⟨d, e | a⟩ := out
    · exact .error ⟨rfl, hlater⟩
    · exact .ok ⟨rfl, hlater⟩
  allocate n := by
    rintro _ p ⟨rfl, h⟩
    rw [Pass.allocate, Draft.newSlots_eq]
    exact .ok ⟨rfl, h.config, h.bindings, h.declared⟩
  bind name e := by
    rintro _ p ⟨rfl, h⟩
    have hnext : p₀.bindings ≤ p.bindings + 1 := Nat.le_succ_of_le h.bindings
    cases hname : validName (p.bindingName name) with
    | true =>
      rw [Pass.bind_valid hname]
      refine .ok ⟨rfl, h.config, hnext, ?_⟩
      show _ ≤ (p.draft.declared ++ [_]).length
      rw [List.length_append]
      exact Nat.le_add_right_of_le h.declared
    | false =>
      rw [Pass.bind_refused hname]
      exact .error ⟨rfl, h.config, hnext, h.declared⟩

namespace Workspace

variable {w w' : Workspace} {i : Instruction} {x : Local}

theorem later_step (w : Workspace) (i : Instruction) : w.pass.Later (w.step i).1.pass := by
  have hbeside : Beside (fun p q => q = p ∧ w.pass.Later p) w w := ⟨⟨rfl, .refl _⟩, rfl⟩
  rcases (lockstep_later w.pass).step hbeside i with h | h
  · exact h.1.pass.2
  · exact absurd trivial h.1

theorem later_attempts (w : Workspace) (is : List Instruction) :
    w.pass.Later (w.attempts is).2.pass := by
  induction is generalizing w with
  | nil => exact .refl _
  | cons i rest ih => exact (w.later_step i).trans (ih _)

/-! ## Locals -/

/-- The local that a reply hands out. -/
def bound? : Except EmitError Reply → Option Local
  | .ok (.bound x) => some x
  | _ => none

/-- The locals that the replies hand out, in their order. -/
def boundBy (replies : List (Except EmitError Reply)) : List Local := replies.filterMap bound?

/-- Only binding a result hands out a local. -/
theorem Takes.binds {e : Entry} (h : w.Takes e w') (hreply : e.reply = .bound x) :
    ∃ name v, e.instruction = .bind name v := by
  cases h with
  | bound _ => exact ⟨_, _, rfl⟩
  | created | opened | updated | yielded | warmed | emitted => cases hreply

/-- A local is handed out for a result, and its number and that of its name are used up. -/
theorem bound_step (h : bound? (w.step i).2 = some x) :
    (∃ name, x = w.pass.nextLocal name) ∧ w.pass.bindings < (w.step i).1.pass.bindings ∧
      w.pass.draft.declared.length < (w.step i).1.pass.draft.declared.length := by
  have hreply : (w.step i).2 = .ok (.bound x) := by
    unfold bound? at h
    split at h
    · rename_i y hy
      rw [hy, Option.some.inj h]
    · cases h
  have htakes := takes_of_step (show w.step i = (_, .ok _) from Prod.ext rfl hreply)
  obtain ⟨name, v, rfl⟩ := htakes.binds rfl
  obtain ⟨hvalid, rfl⟩ := bound_of_step hreply
  rw [step_bind_valid hvalid]
  refine ⟨⟨name, rfl⟩, Nat.lt_succ_self _, ?_⟩
  show _ < (w.pass.draft.declared ++ [_]).length
  rw [List.length_append]
  exact Nat.lt_succ_self _

/-- Locals that are handed out from here on have names with numbers from here on. -/
theorem boundBy_attempts {is : List Instruction} (hx : x ∈ boundBy (w.attempts is).1) :
    ∃ p name, w.pass.Later p ∧ x = p.nextLocal name := by
  induction is generalizing w with
  | nil => cases hx
  | cons i rest ih =>
    have hrest (h : x ∈ boundBy ((w.step i).1.attempts rest).1) :
        ∃ p name, w.pass.Later p ∧ x = p.nextLocal name := by
      obtain ⟨p, name, hlater, rfl⟩ := ih h
      exact ⟨p, name, (w.later_step i).trans hlater, rfl⟩
    rw [attempts, boundBy, List.filterMap_cons] at hx
    cases hbound : bound? (w.step i).2 with
    | none =>
      rw [hbound] at hx
      exact hrest hx
    | some y =>
      rw [hbound] at hx
      rcases List.mem_cons.mp hx with rfl | hx
      · obtain ⟨name, rfl⟩ := (bound_step hbound).1
        exact ⟨w.pass, name, .refl _, rfl⟩
      · exact hrest hx

/-- A local differs from all that are handed out after it. -/
theorem boundBy_pairwise (w : Workspace) (is : List Instruction) :
    (boundBy (w.attempts is).1).Pairwise fun x y => x.name ≠ y.name ∧ x.id ≠ y.id := by
  induction is generalizing w with
  | nil => exact .nil
  | cons i rest ih =>
    rw [attempts, boundBy, List.filterMap_cons]
    cases hbound : bound? (w.step i).2 with
    | none => exact ih _
    | some x =>
      obtain ⟨⟨name, rfl⟩, hbindings, hdeclared⟩ := bound_step hbound
      refine .cons (fun y hy => ?_) (ih _)
      obtain ⟨p, name', hlater, rfl⟩ := boundBy_attempts hy
      refine ⟨fun h => ?_, fun h => ?_⟩
      · have hsame : w.pass.bindings = p.bindings := Pass.bindings_of_bindingName h
        have hle := hlater.bindings
        omega
      · have hsame : w.pass.draft.declared.length = p.draft.declared.length :=
          congrArg LocalId.index h
        have hle := hlater.declared
        omega

/-- Whatever is done to a pass, in any order and whether it succeeds, the locals of all results that
have been bound differ in their names and in their numbers.  A result is bound exactly if the stem of
the pass and the name asked for are made of letters, digits and underscores and the stem does not
begin with a digit; if not, nothing is emitted and no local is taken. -/
theorem bindings_distinct (config : Config) (is : List Instruction) :
    let out := (start config).attempts is
    ((boundBy out.1).map Local.name).Nodup ∧ ((boundBy out.1).map Local.id).Nodup ∧
    ∀ name v, let attempt := out.2.step (.bind name v)
      ((∃ x, attempt.2 = .ok (.bound x)) ↔
        (∀ c ∈ config.localStem.toList ++ name.toList, c.isAlphanum = true ∨ c = '_') ∧
        ∀ c, config.localStem.toList.head? = some c → c.isDigit = false) ∧
      ∀ e, attempt.2 = .error e → attempt.1.pass.draft = out.2.pass.draft := by
  intro out
  have hpairwise := (start config).boundBy_pairwise is
  refine ⟨List.pairwise_map.mpr (hpairwise.imp And.left),
    List.pairwise_map.mpr (hpairwise.imp And.right), fun name v => ?_⟩
  intro attempt
  have hconfig : out.2.pass.config = config := ((start config).later_attempts is).config
  have hwords : (∀ c ∈ config.localStem.toList ++ name.toList, c.isAlphanum = true ∨ c = '_') ↔
      ∀ c ∈ config.localStem.toList ++ name.toList, wordChar c = true := by
    simp only [wordChar, Bool.or_eq_true, beq_iff_eq]
  have hvalid := Pass.validName_bindingName_iff out.2.pass name
  rw [hconfig] at hvalid
  rw [hwords, ← hvalid]
  cases hname : validName (out.2.pass.bindingName name) with
  | true =>
    have hstep : attempt = _ := step_bind_valid hname v
    rw [hstep]
    refine ⟨⟨fun _ => rfl, fun _ => ⟨_, rfl⟩⟩, ?_⟩
    intro e he
    cases he
  | false =>
    have hstep : attempt = _ := step_bind_refused hname v
    rw [hstep]
    refine ⟨⟨?_, fun h => absurd h Bool.false_ne_true⟩, fun _ _ => rfl⟩
    rintro ⟨x, hx⟩
    cases hx

/-- A name may look like that of another result with its number, and a refused one uses up a
number. -/
example : (boundBy ((start (.strict "a")).attempts [.bind "b_0" .null, .bind "b-0" .null,
    .bind "b" .null, .bind "" .null]).1).map Local.name = ["a_b_0_0", "a_b_2", "a__3"] := by
  decide +kernel

end Workspace
end WindowFold
