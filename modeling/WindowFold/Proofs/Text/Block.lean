import WindowFold.Proofs.Text.Expression
import WindowFold.Stmt.Text

/-!
# Blocks read back

A block is read off its text statement by statement (`readAll_text`).  A block ends where no
statement of its depth begins: at the end of the text, or at a closing brace, which stands less
deep.  So blocks that differ, or expressions that do, have different texts (`text_determines`),
as long as their literals are plain and their locals have valid names.
-/

namespace WindowFold

open Reader

namespace Stmt

mutual

/-- All literals are plain, and locals are declared under valid names. -/
def Plain : Stmt → Prop
  | .declare _ name e => validName name = true ∧ e.Plain
  | .setLocal _ e => e.Plain
  | .assign _ e => e.Plain
  | .push _ e => e.Plain
  | .reserve _ e => e.Plain
  | .branch c yes no => c.Plain ∧ PlainAll yes ∧ PlainAll no

def PlainAll : List Stmt → Prop
  | [] => True
  | s :: rest => s.Plain ∧ PlainAll rest

end

mutual

def depth : Stmt → Nat
  | .declare _ _ e => e.depth + 1
  | .setLocal _ e => e.depth + 1
  | .assign _ e => e.depth + 1
  | .push _ e => e.depth + 1
  | .reserve _ e => e.depth + 1
  | .branch c yes no => max (c.depth + 1) (max (depthAll yes) (depthAll no))

/-- The depth of a list counts its items as well. -/
def depthAll : List Stmt → Nat
  | [] => 0
  | s :: rest => max s.depth (depthAll rest) + 1

end

section

variable (expr : Reader Expr) (block : Reader (List Stmt)) (indent : String)

/-- An expression, and what stands behind it. -/
def ending (w : String) (f : Expr → Stmt) : Reader Stmt := do
  let e ← expr
  word w
  return f e

def declaration : Reader Stmt := do
  let name ← upTo '$'
  let index ← number
  word " = "
  ending expr ";\n" (.declare ⟨index⟩ name)

def update : Reader Stmt := do
  let index ← number
  word " = "
  ending expr ";\n" (.setLocal ⟨index⟩)

def slotForms (x : SlotId) : List (String × Reader Stmt) := [
  (" = ", ending expr ";\n" (.assign x)),
  (".push(", ending expr ");\n" (.push x)),
  (".reserve(", ending expr ");\n" (.reserve x))]

def slotChange : Reader Stmt := do
  let index ← number
  byWord (slotForms expr ⟨index⟩)

def otherwise : Reader (List Stmt) := do
  let no ← block
  word indent
  word "\x7d\n"
  return no

/-- What follows the first side of a branch. -/
def rests (c : Expr) (yes : List Stmt) : Reader Stmt := byWord [
  ("\x7d else \x7b\n", do return .branch c yes (← otherwise block indent)),
  ("\x7d\n", pure (.branch c yes []))]

def conditional : Reader Stmt := do
  let c ← expr
  word " \x7b\n"
  let yes ← block
  word indent
  rests block indent c yes

def forms : List (String × Reader Stmt) := [
  ("let ", declaration expr),
  ("local$", update expr),
  ("acc$", slotChange expr),
  ("if ", conditional expr block indent)]

def single : Reader Stmt := do
  word indent
  byWord (forms expr block indent)

end

/-- Statements of one depth for as long as there are any. -/
def readAll : Nat → Nat → Reader (List Stmt)
  | 0, _ => pure []
  | n + 1, depth => fun cs =>
    match single (Expr.nested n) (readAll n (depth + 1)) (pad depth) cs with
    | some (s, rest) => ((s :: ·) <$> readAll n depth) rest
    | none => some ([], cs)

/-! ## Where a block ends -/

/-- The text is over, or the block around goes on. -/
inductive Closes : Nat → List Char → Prop
  | atEnd {d} : Closes d []
  | brace {d} (rest : List Char) : Closes (d + 1) ((pad d).toList ++ '\x7d' :: rest)

theorem toList_pad (d : Nat) : (pad d).toList = List.replicate (2 * d) ' ' := by
  rw [pad, String.toList_ofList]

section

variable {F : List Char → Prop} {expr : Reader Expr} {e : Expr} {d : Nat}

/-- No statement begins where a block ends. -/
theorem single_closes (expr : Reader Expr) (block : Reader (List Stmt)) {rest : List Char}
    (h : Closes d rest) : single expr block (pad d) rest = none := by
  have hword : word (pad d) rest = none ∨ d = 0 ∧ rest = [] := by
    cases h with
    | atEnd =>
      cases d with
      | zero => exact .inr ⟨rfl, rfl⟩
      | succ d =>
        left
        rw [word, toList_pad, Nat.mul_succ, List.replicate_succ]
        rfl
    | @brace d rest =>
      left
      have hsplit : (pad (d + 1)).toList = (pad d).toList ++ [' ', ' '] := by
        rw [toList_pad, toList_pad, Nat.mul_succ, ← List.replicate_append_replicate]
        rfl
      rw [word, hsplit, isPrefixOf?_common]
      rfl
  rcases hword with hword | ⟨rfl, rfl⟩
  · simp only [single, bind, StateT.bind, hword, Option.bind_none]
  · rfl

/-- A side of a branch goes up to the brace behind it. -/
theorem brace_closes (d : Nat) {w t : String} (hw : w.toList = '\x7d' :: t.toList)
    (rest : List Char) : Closes (d + 1) ((pad d ++ w).toList ++ rest) := by
  rw [String.toList_append, hw, List.append_assoc]
  exact .brace _

/-! ## Statements -/

theorem dollar_not_mem {name : String} (h : validName name = true) : '$' ∉ name.toList := by
  intro hmem
  unfold validName at h
  cases hname : name.toList with
  | nil => simp [hname] at hmem
  | cons c rest =>
    rw [hname] at h hmem
    obtain ⟨hfirst, hrest⟩ := (Bool.and_eq_true _ _).mp h
    rcases List.mem_cons.mp hmem with rfl | hmem
    · exact absurd hfirst (by decide)
    · exact absurd (List.all_eq_true.mp hrest _ hmem) (by decide)

theorem ending_reads (he : Reads Ends expr e.text e) {w : String} (hw : Stops w)
    (f : Expr → Stmt) : Reads F (ending expr w f) (e.text ++ w) (f e) :=
  .bind he hw (.close w _)

theorem declaration_reads {name : String} (hname : validName name = true) (x : LocalId)
    (he : Reads Ends expr e.text e) :
    Reads F (declaration expr) (name ++ ("$" ++ (toString x.index ++ (" = " ++ (e.text ++ ";\n")))))
      (.declare x name e) := by
  have hassign : Stops " = " := fun _ => rfl
  have hend : Stops ";\n" := fun _ => rfl
  refine .upTo rfl (dollar_not_mem hname) (.bind (number_reads x.index) (hassign.append _) ?_)
  exact .word " = " (ending_reads he hend _)

theorem update_reads (x : LocalId) (he : Reads Ends expr e.text e) :
    Reads F (update expr) (toString x.index ++ (" = " ++ (e.text ++ ";\n"))) (.setLocal x e) := by
  have hassign : Stops " = " := fun _ => rfl
  have hend : Stops ";\n" := fun _ => rfl
  refine .bind (number_reads x.index) (hassign.append _) ?_
  exact .word " = " (ending_reads he hend _)

/-- What is done to a slot is told by the word behind it. -/
theorem slotChange_reads (x : SlotId) {w v : String} (f : Expr → Stmt) (hw : Stops w)
    (hv : Stops v) (hf : ∀ cs, byWord (slotForms expr x) (w.toList ++ cs) = ending expr v f cs)
    (he : Reads Ends expr e.text e) :
    Reads F (slotChange expr) (toString x.index ++ (w ++ (e.text ++ v))) (f e) :=
  .bind (number_reads x.index) (hw.append _) (.byWord hf (ending_reads he hv f))

/-- Without a second side the text goes on with the brace, as it does behind the second side. -/
theorem conditional_reads {block : Reader (List Stmt)} {yes no : List Stmt}
    (he : Reads Ends expr e.text e) (hyes : Reads (Closes (d + 1)) block (textAll (d + 1) yes) yes)
    (hno : Reads (Closes (d + 1)) block (textAll (d + 1) no) no) :
    Reads F (conditional expr block (pad d)) (e.text ++ (" \x7b\n" ++ (textAll (d + 1) yes ++
      ((if no.isEmpty then "" else pad d ++ "\x7d else \x7b\n" ++ textAll (d + 1) no) ++
        (pad d ++ "\x7d\n"))))) (.branch e yes no) := by
  have hopen : Stops " \x7b\n" := fun _ => rfl
  have hclose : "\x7d\n".toList = '\x7d' :: "\n".toList := rfl
  refine .bind he (hopen.append _) (.word " \x7b\n" ?_)
  cases no with
  | nil =>
    simp only [List.isEmpty_nil, if_true, String.empty_append]
    refine .seq hyes (fun rest _ => brace_closes d hclose rest) (.word (pad d) ?_)
    exact fun _ _ => rfl
  | cons s ss =>
    have helse (t : String) :
        ("\x7d else \x7b\n" ++ t).toList = '\x7d' :: (" else \x7b\n" ++ t).toList := by
      rw [String.toList_append, String.toList_append]
      rfl
    simp only [List.isEmpty_cons, Bool.false_eq_true, if_false, String.append_assoc]
    refine .seq hyes (fun rest _ => brace_closes d (helse _) rest) (.word (pad d) ?_)
    refine .byWord (p := do return .branch e yes (← otherwise block (pad d))) (fun _ => rfl) ?_
    refine .map (.seq hno (fun rest _ => brace_closes d hclose rest) ?_) (Stmt.branch e yes)
    exact .word (pad d) (.close "\x7d\n" _)

end

mutual

theorem single_reads (n d : Nat) : ∀ s : Stmt, s.Plain → s.depth ≤ n →
    Reads (fun _ => True) (single (Expr.nested n) (readAll n (d + 1)) (pad d)) (s.text d) s
  | .declare x name e, hs, hn => by
    simp only [text, String.append_assoc]
    exact .word (pad d) (.byWord (fun _ => rfl)
      (declaration_reads hs.1 x (Expr.nested_reads hs.2 hn)))
  | .setLocal x e, hs, hn => by
    simp only [text, LocalId.text, String.append_assoc]
    exact .word (pad d) (.byWord (fun _ => rfl) (update_reads x (Expr.nested_reads hs hn)))
  | .assign x e, hs, hn => by
    simp only [text, SlotId.text, String.append_assoc]
    exact .word (pad d) (.byWord (fun _ => rfl) (slotChange_reads x (.assign x) (fun _ => rfl)
      (fun _ => rfl) (fun _ => rfl) (Expr.nested_reads hs hn)))
  | .push x e, hs, hn => by
    simp only [text, SlotId.text, String.append_assoc]
    exact .word (pad d) (.byWord (fun _ => rfl) (slotChange_reads x (.push x) (fun _ => rfl)
      (fun _ => rfl) (fun _ => rfl) (Expr.nested_reads hs hn)))
  | .reserve x e, hs, hn => by
    simp only [text, SlotId.text, String.append_assoc]
    exact .word (pad d) (.byWord (fun _ => rfl) (slotChange_reads x (.reserve x) (fun _ => rfl)
      (fun _ => rfl) (fun _ => rfl) (Expr.nested_reads hs hn)))
  | .branch c yes no, hs, hn => by
    have hdepth : c.depth < n ∧ depthAll yes ≤ n ∧ depthAll no ≤ n := by
      simp only [depth] at hn
      omega
    have hyes := readAll_reads n (d + 1) yes hs.2.1 hdepth.2.1
    have hno := readAll_reads n (d + 1) no hs.2.2 hdepth.2.2
    have hc := Expr.nested_reads hs.1 hdepth.1
    have hread := conditional_reads (F := fun _ => True) hc hyes hno
    rw [text]
    simp only [String.append_assoc] at hread ⊢
    exact .word (pad d) (.byWord (fun _ => rfl) hread)

/-- A block of plain statements is read off its text, if that much nesting is allowed. -/
theorem readAll_reads (n d : Nat) : ∀ ss : List Stmt, PlainAll ss → depthAll ss ≤ n →
    Reads (Closes d) (readAll n d) (textAll d ss) ss
  | [], _, _ => by
    intro rest h
    cases n with
    | zero => rfl
    | succ n =>
      have hnone := single_closes (Expr.nested n) (readAll n (d + 1)) h
      simp only [textAll, readAll, String.toList_empty, List.nil_append, hnone]
  | s :: ss, hss, hn => by
    obtain _ | n := n
    · simp [depthAll] at hn
    intro rest h
    have hdepth : s.depth ≤ n ∧ depthAll ss ≤ n := by
      simp only [depthAll] at hn
      omega
    have hs := single_reads n d s hss.1 hdepth.1 ((textAll d ss).toList ++ rest) trivial
    have hrest := readAll_reads n d ss hss.2 hdepth.2 rest h
    simp only [textAll, readAll, String.toList_append, List.append_assoc, hs]
    simp only [Functor.map, StateT.map, hrest]
    rfl

end

end Stmt

/-- Blocks that differ have different texts, and so have expressions, if their literals are whole
numbers, truth values and NULL and their locals are declared under valid names. -/
theorem text_determines :
    (∀ a b : List Stmt, Stmt.PlainAll a → Stmt.PlainAll b → blockText a = blockText b → a = b) ∧
      ∀ a b : Expr, a.Plain → b.Plain → a.text = b.text → a = b := by
  constructor
  · intro a b ha hb h
    have hn := Nat.le_max_left (Stmt.depthAll a) (Stmt.depthAll b)
    have hn' := Nat.le_max_right (Stmt.depthAll a) (Stmt.depthAll b)
    have hreada := Stmt.readAll_reads _ 0 a ha hn [] .atEnd
    have hreadb := Stmt.readAll_reads _ 0 b hb hn' [] .atEnd
    have htext : Stmt.textAll 0 a = Stmt.textAll 0 b := h
    rw [htext, hreadb] at hreada
    exact (Prod.mk.inj (Option.some.inj hreada)).1.symm
  · intro a b
    exact Expr.text_inj

/-- A block is known by its text, however it has come about; and a negative literal is told from
a number that is negated. -/
theorem negation_told_apart :
    let ops : List Op := [.declare "agg_n" (.int (-5)),
      .when (Expr.isNotNull (.var ⟨0⟩)) [.assign ⟨0⟩ (.unary .neg (.int 5))]]
    let block : List Stmt := [.declare ⟨0⟩ "agg_n" (.int (-5)),
      .branch (Expr.isNotNull (.var ⟨0⟩)) [.assign ⟨0⟩ (.unary .neg (.int 5))] []]
    Stmt.PlainAll (Draft.empty.emitAll ops).1.stmts ∧ Stmt.PlainAll block ∧
      blockText (Draft.empty.emitAll ops).1.stmts = blockText block ∧
      (Draft.empty.emitAll ops).1.stmts = block ∧
      (Expr.int (-5)).text ≠ (Expr.unary .neg (.int 5)).text := by
  intro ops block
  obtain ⟨hblocks, hexprs⟩ := text_determines
  have hemitted : Stmt.PlainAll (Draft.empty.emitAll ops).1.stmts :=
    ⟨⟨rfl, trivial⟩, ⟨trivial, ⟨trivial, trivial⟩, trivial⟩, trivial⟩
  have hblock : Stmt.PlainAll block :=
    ⟨⟨rfl, trivial⟩, ⟨trivial, ⟨trivial, trivial⟩, trivial⟩, trivial⟩
  have htext : blockText (Draft.empty.emitAll ops).1.stmts = blockText block := rfl
  refine ⟨hemitted, hblock, htext, hblocks _ _ hemitted hblock htext, ?_⟩
  intro h
  have heq := hexprs (.int (-5)) (.unary .neg (.int 5)) trivial trivial h
  nomatch heq

end WindowFold
