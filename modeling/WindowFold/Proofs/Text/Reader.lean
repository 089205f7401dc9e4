import Mathlib.Data.List.TakeWhile
import WindowFold.Emit.Draft

/-!
# Readers

A reader takes something off the front of a text and leaves the rest, or refuses.  `Reads F p t a`
says that `p` reads the text `t` as `a` whatever follows it, if only what follows it is `F`: a
number must not go on, and neither must a block.
-/

namespace WindowFold

abbrev Reader := StateT (List Char) Option

namespace Reader

variable {α β : Type}

/-- Drop a word that comes next. -/
def word (w : String) : Reader Unit := fun cs =>
  (w.toList.isPrefixOf? cs).map fun rest => ((), rest)

/-- Go on by the first of the words that the text begins with. -/
def byWord : List (String × Reader α) → Reader α
  | [], _ => none
  | (w, p) :: others, cs =>
    match w.toList.isPrefixOf? cs with
    | some rest => p rest
    | none => byWord others cs

/-- All that stands in front of a character, which is dropped. -/
def upTo (stop : Char) : Reader String := fun cs =>
  match cs.dropWhile (· != stop) with
  | _ :: rest => some (String.ofList (cs.takeWhile (· != stop)), rest)
  | [] => none

/-- Refuse unless there is a value; the text is left alone. -/
def known (r : Option α) : Reader α := fun cs => r.map fun a => (a, cs)

def number : Reader Nat := fun cs =>
  some (Nat.ofDigitChars 10 (cs.takeWhile Char.isDigit) 0, cs.dropWhile Char.isDigit)

/-- A number, if the text begins with a digit. -/
def numberOr (f : Nat → α) (p : Reader α) : Reader α := fun cs =>
  if cs.head?.any Char.isDigit then (f <$> number) cs else p cs

/-- No digit comes next. -/
def Ends (rest : List Char) : Prop := rest.head?.any Char.isDigit = false

def Reads (F : List Char → Prop) (p : Reader α) (t : String) (a : α) : Prop :=
  ∀ rest, F rest → p (t.toList ++ rest) = some (a, rest)

/-- Whatever comes behind the text, it does not begin with a digit. -/
def Stops (t : String) : Prop := ∀ cs, Ends (t.toList ++ cs)

theorem Stops.append {s : String} (h : Stops s) (t : String) : Stops (s ++ t) := by
  intro cs
  rw [String.toList_append, List.append_assoc]
  exact h _

/-! ## One after the other -/

section

variable {F G : List Char → Prop} {p : Reader α} {f : α → Reader β} {s t : String} {a : α} {b : β}

theorem bind_of {cs rest : List Char} (h : p cs = some (a, rest)) : (p >>= f) cs = f a rest := by
  simp only [bind, StateT.bind, h, Option.bind_some]

theorem Reads.seq (hp : Reads F p s a) (ht : ∀ rest, G rest → F (t.toList ++ rest))
    (hf : Reads G (f a) t b) : Reads G (p >>= f) (s ++ t) b := by
  intro rest h
  rw [String.toList_append, List.append_assoc, bind_of (hp _ (ht rest h))]
  exact hf rest h

theorem Reads.bind (hp : Reads Ends p s a) (ht : Stops t) (hf : Reads G (f a) t b) :
    Reads G (p >>= f) (s ++ t) b :=
  hp.seq (fun rest _ => ht rest) hf

theorem Reads.map (hp : Reads F p s a) (g : α → β) :
    Reads F (p >>= fun x => Pure.pure (g x)) s (g a) := by
  intro rest h
  rw [bind_of (hp rest h)]
  rfl

theorem isPrefixOf?_common (u v w : List Char) :
    (u ++ v).isPrefixOf? (u ++ w) = v.isPrefixOf? w := by
  induction u with
  | nil => rfl
  | cons c u ih =>
    show (if c == c then (u ++ v).isPrefixOf? (u ++ w) else none) = _
    rw [if_pos (beq_self_eq_true c), ih]

theorem isPrefixOf?_append (w cs : List Char) : w.isPrefixOf? (w ++ cs) = some cs := by
  have hcommon := isPrefixOf?_common w [] cs
  rwa [List.append_nil] at hcommon

theorem word_append (w : String) (cs : List Char) : word w (w.toList ++ cs) = some ((), cs) := by
  rw [word, isPrefixOf?_append]
  rfl

theorem Reads.word (w : String) (hp : Reads F p t a) :
    Reads F (Reader.word w >>= fun _ => p) (w ++ t) a := by
  intro rest h
  rw [String.toList_append, List.append_assoc, bind_of (word_append w _)]
  exact hp rest h

theorem Reads.close (w : String) (a : α) :
    Reads F (Reader.word w >>= fun _ => Pure.pure a) w a := by
  intro rest _
  rw [bind_of (word_append w rest)]
  rfl

theorem Reads.known {r : Option α} (hr : r = some a) (hf : Reads F (f a) t b) :
    Reads F (Reader.known r >>= f) t b := by
  subst hr
  exact hf

theorem Reads.byWord {table : List (String × Reader α)} {w : String}
    (hw : ∀ cs, Reader.byWord table (w.toList ++ cs) = p cs) (hp : Reads F p t a) :
    Reads F (Reader.byWord table) (w ++ t) a := by
  intro rest h
  rw [String.toList_append, List.append_assoc, hw]
  exact hp rest h

theorem Reads.upTo {stop : Char} {w : String} (hw : w.toList = [stop]) (hs : stop ∉ s.toList)
    {f : String → Reader β} (hf : Reads F (f s) t b) :
    Reads F (Reader.upTo stop >>= f) (s ++ (w ++ t)) b := by
  intro rest h
  have hall : ∀ c ∈ s.toList, (c != stop) = true := by
    intro c hc
    rw [bne_iff_ne]
    rintro rfl
    exact hs hc
  have hread : Reader.upTo stop (s.toList ++ stop :: (t.toList ++ rest)) =
      some (s, t.toList ++ rest) := by
    rw [Reader.upTo, List.dropWhile_append_of_pos hall, List.dropWhile_cons_of_neg (by simp),
      List.takeWhile_append_of_pos hall, List.takeWhile_cons_of_neg (by simp), List.append_nil,
      String.ofList_toList]
  simp only [String.toList_append, hw, List.append_assoc, List.cons_append, List.nil_append]
  rw [bind_of hread]
  exact hf rest h

end

/-! ## Numbers -/

theorem toList_toString (n : Nat) : (toString n).toList = Nat.toDigits 10 n := by
  rw [Nat.toString_eq_ofList_toDigits, String.toList_ofList]

theorem isDigit_of_mem (n : Nat) : ∀ c ∈ (toString n).toList, c.isDigit = true := by
  intro c hc
  rw [toList_toString] at hc
  exact Nat.isDigit_of_mem_toDigits (by decide) (by decide) hc

theorem number_reads (n : Nat) : Reads Ends number (toString n) n := by
  intro rest h
  have hstop : rest.takeWhile Char.isDigit = [] ∧ rest.dropWhile Char.isDigit = rest := by
    cases rest with
    | nil => exact ⟨rfl, rfl⟩
    | cons c rest =>
      have hc : ¬ c.isDigit = true := by simpa [Ends] using h
      exact ⟨List.takeWhile_cons_of_neg hc, List.dropWhile_cons_of_neg hc⟩
  rw [number, List.takeWhile_append_of_pos (isDigit_of_mem n),
    List.dropWhile_append_of_pos (isDigit_of_mem n), hstop.1, hstop.2, List.append_nil,
    toList_toString, Nat.ofDigitChars_ten_toDigits]

/-- A number begins with a digit. -/
theorem not_ends_number (n : Nat) (rest : List Char) :
    ((toString n).toList ++ rest).head?.any Char.isDigit = true := by
  have hdigits := isDigit_of_mem n
  have hne : (toString n).toList ≠ [] := by
    rw [toList_toString]
    exact Nat.toDigits_ne_nil
  cases h : (toString n).toList with
  | nil => exact absurd h hne
  | cons c cs =>
    rw [h] at hdigits
    simp [hdigits c List.mem_cons_self]

theorem numberOr_reads (f : Nat → α) (p : Reader α) (n : Nat) :
    Reads Ends (numberOr f p) (toString n) (f n) := by
  intro rest h
  rw [numberOr, if_pos (not_ends_number n rest)]
  simp only [Functor.map, StateT.map, number_reads n rest h]
  rfl

theorem Reads.numberOr {F : List Char → Prop} {p : Reader α} {t : String} {a : α} (ht : Stops t)
    (hp : Reads F p t a) (f : Nat → α) : Reads F (Reader.numberOr f p) t a := by
  intro rest h
  have hfirst : ¬ (t.toList ++ rest).head?.any Char.isDigit = true := by
    rw [ht rest]
    decide
  rw [Reader.numberOr, if_neg hfirst]
  exact hp rest h

end Reader
end WindowFold
