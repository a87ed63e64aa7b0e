import Mathlib.Data.Fintype.Card
import Mathlib.Data.Fintype.EquivFin
import StringReach.Proofs.Quoting
import StringReach.Proofs.Termination
import StringReach.Proofs.Tree

/-!
# The text of a term has one reading

The text of a tree without calls shows where it ends, whatever follows it (`CallFree.delimited`):
brackets close what they open, the items of a union and the parts of a concatenation are told apart
by what stands between them, and a literal is quoted. So two such trees with the same text are
equal. A box without cycles below is written out as its tree (`Expands.render_below_eq`), which
makes the text of a box, in whatever arena, stand for one tree (`render_unambiguous`).
-/

namespace StringReach

namespace Tree

mutual

/-- The characters of the text of a tree. -/
def chars : Tree → List Char
  | top => ['T', 'O', 'P']
  | bottom => ['B', 'O', 'T', 'T', 'O', 'M']
  | terminal value => (Text.quoted value).toList
  | parameter => ['P', 'A', 'R', 'A', 'M']
  | call callee => ['C', 'A', 'L', 'L', '('] ++ callee.toList ++ [')']
  | pending => ['P', 'E', 'N', 'D', 'I', 'N', 'G']
  | union [] => ['(', ')']
  | union (first :: rest) => '(' :: (first.chars ++ charsAfter rest)
  | concat left right => '(' :: (left.chars ++ [' ', '.', ' '] ++ right.chars ++ [')'])
  | eq inner => '=' :: inner.chars

/-- The characters after an item of a union, when these are the items that follow. -/
def charsAfter : List Tree → List Char
  | [] => [')']
  | item :: rest => [' ', '|', ' '] ++ item.chars ++ charsAfter rest

end

/-- A tree in which nothing stands for the value of a call. -/
inductive CallFree : Tree → Prop where
  | top : CallFree .top
  | bottom : CallFree .bottom
  | terminal (value) : CallFree (.terminal value)
  | parameter : CallFree .parameter
  | pending : CallFree .pending
  | union (items) : (∀ item ∈ items, CallFree item) → CallFree (.union items)
  | concat (left right) : CallFree left → CallFree right → CallFree (.concat left right)
  | eq (inner) : CallFree inner → CallFree (.eq inner)

/-- A tree is delimited when its text, whatever follows, is not the text of another tree. -/
def Delimited (tree : Tree) : Prop :=
  ∀ other rest rest', other.CallFree → tree.chars ++ rest = other.chars ++ rest' →
    tree = other ∧ rest = rest'

variable {tree other : Tree} {items others : List Tree} {rest rest' : List Char}

/-- The text of a union that has an item, with what follows it. -/
theorem union_cons_append (first : Tree) (items : List Tree) (rest : List Char) :
    (union (first :: items)).chars ++ rest =
      '(' :: (first.chars ++ (charsAfter items ++ rest)) := by
  rw [chars, List.cons_append, List.append_assoc]

/-- The text of a concatenation, with what follows it. -/
theorem concat_append (left right : Tree) (rest : List Char) :
    (concat left right).chars ++ rest =
      '(' :: (left.chars ++ ' ' :: '.' :: ' ' :: (right.chars ++ ')' :: rest)) := by
  simp [chars]

/-- The text of a tree is not taken for the end of a union. -/
theorem chars_ne_close (tree : Tree) : tree.chars ++ rest ≠ ')' :: rest' := by
  cases tree with
  | union items => cases items <;> simp [chars]
  | _ => simp [chars, Text.quoted]

/-- What follows an item of a union is not taken for what follows the left part of a
concatenation. -/
theorem chars_after_ne_dot (items : List Tree) :
    charsAfter items ++ rest ≠ ' ' :: '.' :: rest' := by
  cases items <;> simp [charsAfter]

/-- The items that follow in a union are determined, when each of them is delimited. -/
theorem chars_after_append_inj (hitems : ∀ item ∈ items, item.Delimited)
    (hothers : ∀ item ∈ others, item.CallFree)
    (heq : charsAfter items ++ rest = charsAfter others ++ rest') :
    items = others ∧ rest = rest' := by
  induction items generalizing others with
  | nil =>
      cases others with
      | nil => exact ⟨rfl, (List.cons.inj heq).2⟩
      | cons other others => simp [charsAfter] at heq
  | cons item items ih =>
      cases others with
      | nil => simp [charsAfter] at heq
      | cons other others =>
          simp only [charsAfter, List.append_assoc, List.append_cancel_left_eq] at heq
          obtain ⟨rfl, hafter⟩ := hitems item List.mem_cons_self other _ _
            (hothers other List.mem_cons_self) heq
          obtain ⟨rfl, hrest⟩ := ih (fun item h => hitems item (.tail _ h))
            (fun item h => hothers item (.tail _ h)) hafter
          exact ⟨rfl, hrest⟩

/-- The items of a union are determined, when each of them is delimited. -/
theorem union_append_inj (hitems : ∀ item ∈ items, item.Delimited)
    (hothers : ∀ item ∈ others, item.CallFree)
    (heq : (union items).chars ++ rest = (union others).chars ++ rest') :
    items = others ∧ rest = rest' := by
  cases items with
  | nil =>
      cases others with
      | nil => exact ⟨rfl, List.append_cancel_left heq⟩
      | cons other others =>
          rw [union_cons_append] at heq
          exact absurd (List.cons.inj heq).2.symm (chars_ne_close other)
  | cons item items =>
      rw [union_cons_append] at heq
      cases others with
      | nil => exact absurd (List.cons.inj heq).2 (chars_ne_close item)
      | cons other others =>
          rw [union_cons_append] at heq
          obtain ⟨rfl, hafter⟩ := hitems item List.mem_cons_self other _ _
            (hothers other List.mem_cons_self) (List.cons.inj heq).2
          obtain ⟨rfl, hrest⟩ := chars_after_append_inj (fun item h => hitems item (.tail _ h))
            (fun item h => hothers item (.tail _ h)) hafter
          exact ⟨rfl, hrest⟩

/-- A tree without calls is delimited. -/
theorem CallFree.delimited (htree : tree.CallFree) : tree.Delimited := by
  intro other rest rest' hother heq
  -- Texts of trees of different kinds part within two characters, except that a union and a
  -- concatenation part only after their first items.
  induction htree generalizing other rest rest' with
  | top | bottom | parameter | pending =>
      cases hother with
      | union others => cases others <;> simp [chars] at heq
      | _ => simp_all [chars, Text.quoted]
  | terminal value =>
      cases hother with
      | terminal value' =>
          rw [chars, chars] at heq
          obtain ⟨rfl, hrest⟩ := Text.quoted_append_inj heq
          exact ⟨rfl, hrest⟩
      | union others => cases others <;> simp [chars, Text.quoted] at heq
      | _ => simp [chars, Text.quoted] at heq
  | union items _ ih =>
      cases hother with
      | union others hothers =>
          obtain ⟨rfl, hrest⟩ := union_append_inj ih hothers heq
          exact ⟨rfl, hrest⟩
      | concat left right hleft _ =>
          rw [concat_append] at heq
          cases items with
          | nil => exact absurd (List.cons.inj heq).2.symm (chars_ne_close left)
          | cons first items =>
              rw [union_cons_append] at heq
              obtain ⟨-, hafter⟩ :=
                ih first List.mem_cons_self left _ _ hleft (List.cons.inj heq).2
              exact absurd hafter (chars_after_ne_dot items)
      | _ => cases items <;> simp [chars, Text.quoted] at heq
  | concat left right _ _ ihleft ihright =>
      cases hother with
      | union others hothers =>
          rw [concat_append] at heq
          cases others with
          | nil => exact absurd (List.cons.inj heq).2 (chars_ne_close left)
          | cons first others =>
              rw [union_cons_append] at heq
              obtain ⟨-, hafter⟩ :=
                ihleft first _ _ (hothers first List.mem_cons_self) (List.cons.inj heq).2
              exact absurd hafter.symm (chars_after_ne_dot others)
      | concat left' right' hleft hright =>
          rw [concat_append, concat_append] at heq
          obtain ⟨rfl, hdot⟩ := ihleft left' _ _ hleft (List.cons.inj heq).2
          have hafter : right.chars ++ ')' :: rest = right'.chars ++ ')' :: rest' := by
            simpa using hdot
          obtain ⟨rfl, hclose⟩ := ihright right' _ _ hright hafter
          exact ⟨rfl, (List.cons.inj hclose).2⟩
      | _ => simp [chars, Text.quoted] at heq
  | eq inner _ ih =>
      cases hother with
      | eq inner' hinner =>
          rw [chars, chars] at heq
          obtain ⟨rfl, hrest⟩ := ih inner' _ _ hinner (List.cons.inj heq).2
          exact ⟨rfl, hrest⟩
      | union others => cases others <;> simp [chars] at heq
      | _ => simp [chars, Text.quoted] at heq

/-- Trees without calls that have the same text are equal. -/
theorem CallFree.eq_of_chars_eq (htree : tree.CallFree) (hother : other.CallFree)
    (heq : tree.chars = other.chars) : tree = other :=
  (htree.delimited other [] [] hother (congrArg (· ++ []) heq)).1

/-- The texts of the items of a union stand between brackets, with bars between them. -/
theorem chars_union (items : List Tree) :
    String.ofList (union items).chars =
      "(" ++ String.intercalate " | " (items.map fun item => String.ofList item.chars) ++ ")" := by
  have hafter : ∀ first rest, first.chars ++ charsAfter rest =
      [' ', '|', ' '].intercalate ((first :: rest).map chars) ++ [')'] := by
    intro first rest
    induction rest generalizing first with
    | nil => simp [charsAfter]
    | cons second rest ih =>
        rw [charsAfter, List.append_assoc, ih second]
        simp
  rw [← String.toList_inj]
  cases items with
  | nil => simp [chars]
  | cons first rest => simp [chars, hafter, Function.comp_def]

end Tree

namespace Arena

/-- A box is plain when what lies below it is a finite tree without calls: no handle dangles, and
there is neither a cycle nor a call. -/
structure Plain (arena : Arena) (root : Handle) : Prop where
  intact : arena.Intact root
  acyclic : ¬ arena.ReachesSome arena.OnCycle root
  callFree : ¬ arena.ReachesSome (fun h => ∃ callee, arena.get? h = some (.call callee)) root

variable {arena : Arena} {root h : Handle} {tree other : Tree}

/-- Where no handle dangles and there is no cycle, every descent ends. -/
theorem grounded_of_acyclic (hintact : arena.Intact root)
    (hacyclic : ¬ arena.ReachesSome arena.OnCycle root) :
    arena.Grounded (fun _ => True) root := by
  -- The boxes at or below the root are finitely many, and none of them lies below itself.
  let below (a b : {h // arena.Reaches root h}) : Prop := Relation.TransGen arena.Child b.1 a.1
  have hfinite : Finite {h // arena.Reaches root h} := by
    have hbox : ∀ a : {h // arena.Reaches root h}, a.1 < arena.size := by
      intro a
      obtain ⟨term, hget⟩ := hintact a.1 a.2
      exact lt_size_of_get? hget
    refine Finite.of_injective (fun a => (⟨a.1, hbox a⟩ : Fin arena.size)) ?_
    intro a b heq
    exact Subtype.ext (Fin.mk.inj heq)
  have htrans : IsTrans _ below := ⟨fun _ _ _ hab hbc => hbc.trans hab⟩
  have hirrefl : Std.Irrefl below := ⟨fun a hcycle => hacyclic ⟨a.1, a.2, hcycle⟩⟩
  have hwf : WellFounded below := Finite.wellFounded_of_trans_of_irrefl below
  have hground : ∀ a : {h // arena.Reaches root h}, arena.Grounded (fun _ => True) a.1 := by
    intro a
    induction a using hwf.induction with
    | _ a ih =>
        obtain ⟨term, hget⟩ := hintact a.1 a.2
        refine .intro a.1 term hget trivial ?_
        intro child hmem
        have hchild := (child_iff hget).mpr hmem
        exact ih ⟨child, a.2.tail hchild⟩ (.single hchild)
  exact hground ⟨root, .refl⟩

namespace Expands

/-- A box has one tree. -/
theorem unique (hexpands : arena.Expands h tree) (hother : arena.Expands h other) :
    tree = other := by
  induction hexpands generalizing other with
  | top h hget | bottom h hget | terminal h _ hget | parameter h hget | call h _ hget
  | pending h hget => cases hother <;> simp_all
  | union h items tree hget _ ih =>
      cases hother with
      | union _ items' tree' hget' hitems' =>
          cases hget.symm.trans hget'
          exact congrArg Tree.union (List.map_congr_left fun item hmem =>
            ih item hmem (hitems' item hmem))
      | _ => simp_all
  | concat h left right leftTree rightTree hget _ _ ihleft ihright =>
      cases hother with
      | concat _ _ _ _ _ hget' hleft' hright' =>
          cases hget.symm.trans hget'
          rw [ihleft hleft', ihright hright']
      | _ => simp_all
  | eq h inner tree hget _ ih =>
      cases hother with
      | eq _ _ _ hget' hinner' =>
          cases hget.symm.trans hget'
          rw [ih hinner']
      | _ => simp_all

/-- The tree of a box below which there is no call has none. -/
theorem call_free (hexpands : arena.Expands h tree)
    (hcall : ¬ arena.ReachesSome (fun h => ∃ callee, arena.get? h = some (.call callee)) h) :
    tree.CallFree := by
  induction hexpands with
  | top => exact .top
  | bottom => exact .bottom
  | terminal => exact .terminal _
  | parameter => exact .parameter
  | pending => exact .pending
  | call h callee hget => exact absurd ⟨h, .refl, callee, hget⟩ hcall
  | union h items tree hget _ ih =>
      refine .union _ ?_
      intro itemTree hmem
      obtain ⟨item, hitem, rfl⟩ := List.mem_map.mp hmem
      exact ih item hitem fun hsome => hcall (hsome.of_child ((child_iff hget).mpr hitem))
  | concat h left right _ _ hget _ _ ihleft ihright =>
      have hbelow : ∀ child ∈ [left, right], ¬ arena.ReachesSome _ child :=
        fun child hmem hsome => hcall (hsome.of_child ((child_iff hget).mpr hmem))
      exact .concat _ _ (ihleft (hbelow left (by simp))) (ihright (hbelow right (by simp)))
  | eq h inner _ hget _ ih =>
      refine .eq _ (ih fun hsome => hcall (hsome.of_child ((child_iff hget).mpr ?_)))
      simp [Term.children]

end Expands

/-! ## Writing out a tree -/

/-- A box without children is written out as its term. -/
theorem render_below_leaf {term : Term} (hget : arena.get? h = some term)
    (hleaf : term.isCompound = false) (path : Path) :
    arena.renderBelow false path h = .ok (term.renderWith []) := by
  rw [← render_level_render_below]
  simp [renderLevel, hget, hleaf]

/-- A compound box is written out as its term, with what is written for its children. -/
theorem render_below_compound {term : Term} {path : Path} {parts : List String}
    (hget : arena.get? h = some term) (hcompound : term.isCompound = true)
    (hcount : path.boxes.count h = 0)
    (hparts : term.children.mapM (arena.renderBelow false (path.enter h)) = .ok parts) :
    arena.renderBelow false path h = .ok (term.renderWith parts) := by
  rw [← render_level_render_below]
  simp [renderLevel, hget, hcompound, Path.count_eq, hcount, hparts, bind, Except.bind, pure,
    Except.pure]

/-- Several boxes are written out as their trees when each of them is. -/
theorem map_render_below {items : List Handle} {trees : Handle → Tree} {path : Path}
    (hitems : ∀ item ∈ items,
      arena.renderBelow false path item = .ok (String.ofList (trees item).chars)) :
    items.mapM (arena.renderBelow false path) =
      .ok (items.map fun item => String.ofList (trees item).chars) := by
  induction items with
  | nil => rfl
  | cons item items ih =>
      rw [List.mapM_cons, hitems item List.mem_cons_self,
        ih fun item hmem => hitems item (.tail _ hmem)]
      rfl

/-- A box is written out as its tree, from every path that leads to it. -/
theorem Expands.render_below_eq (hexpands : arena.Expands h tree) (path : Path)
    (hleads : arena.Leads path.boxes h) :
    arena.renderBelow false path h = .ok (String.ofList tree.chars) := by
  -- A box that has a tree is never written as its handle, since no way to it passes through it.
  have hcount : ∀ {h tree path}, arena.Expands h tree → arena.Leads path h → path.count h = 0 :=
    fun hexpands hleads => hexpands.grounded.count_eq_zero hleads
  induction hexpands generalizing path with
  | top h hget | bottom h hget | parameter h hget | pending h hget | terminal h _ hget
  | call h _ hget =>
      rw [render_below_leaf hget rfl]
      simp [Term.renderWith, Tree.chars, ← String.toList_inj]
  | union h items tree hget hitems ih =>
      have hparts := map_render_below fun item hmem =>
        ih item hmem (path.enter h) (hleads.enter ((child_iff hget).mpr hmem))
      rw [render_below_compound hget rfl (hcount (.union h items tree hget hitems) hleads) hparts,
        Tree.chars_union, List.map_map]
      rfl
  | concat h left right leftTree rightTree hget hleft hright ihleft ihright =>
      have hbelow : ∀ child ∈ [left, right], arena.Leads (path.enter h).boxes child :=
        fun child hmem => hleads.enter ((child_iff hget).mpr hmem)
      have hparts : [left, right].mapM (arena.renderBelow false (path.enter h)) =
          .ok [String.ofList leftTree.chars, String.ofList rightTree.chars] := by
        rw [List.mapM_cons, List.mapM_cons, List.mapM_nil, ihleft _ (hbelow left (by simp)),
          ihright _ (hbelow right (by simp))]
        rfl
      rw [render_below_compound hget rfl
        (hcount (.concat h left right leftTree rightTree hget hleft hright) hleads) hparts]
      simp [Term.renderWith, Tree.chars, ← String.toList_inj]
  | eq h inner tree hget hinner ih =>
      have hchild : arena.Child h inner := (child_iff hget).mpr (by simp [Term.children])
      have hparts : [inner].mapM (arena.renderBelow false (path.enter h)) =
          .ok [String.ofList tree.chars] := by
        rw [List.mapM_cons, List.mapM_nil, ih (path.enter h) (hleads.enter hchild)]
        rfl
      rw [render_below_compound hget rfl (hcount (.eq h inner tree hget hinner) hleads) hparts]
      simp [Term.renderWith, Tree.chars]

namespace Plain

/-- A plain box has one tree. It has no calls, and the box is written out as the tree. -/
theorem exists_tree (hplain : arena.Plain root) :
    ∃ tree, (∀ other, arena.Expands root other ↔ other = tree) ∧ tree.CallFree ∧
      arena.render false root = .ok (String.ofList tree.chars) := by
  obtain ⟨tree, hexpands⟩ := (grounded_of_acyclic hplain.intact hplain.acyclic).exists_expands
  refine ⟨tree, fun other => ⟨fun hother => hother.unique hexpands, ?_⟩,
    hexpands.call_free hplain.callFree, hexpands.render_below_eq .empty leads_nil⟩
  rintro rfl
  exact hexpands

/-- A plain box below which every box has content is solved, by a solver with any history, and its
solution is that of its tree. -/
theorem exists_solution (hplain : arena.Plain root)
    (hpending : ¬ arena.ReachesSome (fun h => arena.get? h = some .pending) root) :
    ∃ solution, (∀ solver : AcyclicSolver, (solver.solve arena root).1 = .ok solution) ∧
      ∀ tree, arena.Expands root tree →
        solution.language = tree.language ∧ solution.warnings = tree.warnings := by
  have hends : ¬ arena.ReachesSome arena.Endless root := by
    intro hendless
    obtain ⟨h, hreach, hempty | hcycle⟩ := hendless
    · exact hpending ⟨h, hreach, hempty⟩
    · exact hplain.acyclic ⟨h, hreach, hcycle⟩
  obtain ⟨solution, hsolve, _, htree⟩ := solve_acyclic_of_ends hplain.intact hends
  exact ⟨solution, fun solver => (solver.solve_eq arena root).trans hsolve, htree⟩

end Plain

/-- Plain boxes of any two arenas are written out, and the texts are the same exactly if the boxes
have the same tree. Their solutions are then the same too, if every box below has content. -/
theorem render_unambiguous (arena arena' : Arena) (root root' : Handle) (hplain : arena.Plain root)
    (hplain' : arena'.Plain root') :
    ∃ tree tree' text text',
      (∀ other, arena.Expands root other ↔ other = tree) ∧
      (∀ other, arena'.Expands root' other ↔ other = tree') ∧
      arena.render false root = .ok text ∧ arena'.render false root' = .ok text' ∧
      (text = text' ↔ tree = tree') ∧
      (text = text' →
        ¬ arena.ReachesSome (fun h => arena.get? h = some .pending) root →
        ¬ arena'.ReachesSome (fun h => arena'.get? h = some .pending) root' →
        ∃ solution, ∀ solver solver' : AcyclicSolver,
          (solver.solve arena root).1 = .ok solution ∧
          (solver'.solve arena' root').1 = .ok solution) := by
  obtain ⟨tree, htree, hfree, htext⟩ := hplain.exists_tree
  obtain ⟨tree', htree', hfree', htext'⟩ := hplain'.exists_tree
  have hsame : String.ofList tree.chars = String.ofList tree'.chars ↔ tree = tree' := by
    constructor
    · exact fun heq => hfree.eq_of_chars_eq hfree' (String.ofList_injective heq)
    · rintro rfl
      rfl
  refine ⟨tree, tree', _, _, htree, htree', htext, htext', hsame, ?_⟩
  intro heq hpending hpending'
  obtain rfl := hsame.mp heq
  obtain ⟨solution, hsolve, hvalue⟩ := hplain.exists_solution hpending
  obtain ⟨solution', hsolve', hvalue'⟩ := hplain'.exists_solution hpending'
  obtain ⟨hlanguage, hwarnings⟩ := hvalue tree ((htree tree).mpr rfl)
  obtain ⟨hlanguage', hwarnings'⟩ := hvalue' tree ((htree' tree).mpr rfl)
  obtain rfl : solution = solution' := Solution.ext_language (hlanguage.trans hlanguage'.symm)
    (hwarnings.trans hwarnings'.symm)
  exact ⟨solution, fun solver solver' => ⟨hsolve solver, hsolve' solver'⟩⟩

/-- A box that a checker which follows calls finds not to be recursive is plain, and every box below
it has content. -/
theorem plain_of_check (hcheck : arena.isRecursive true root = .ok false) :
    arena.Plain root ∧ ¬ arena.ReachesSome (fun h => arena.get? h = some .pending) root := by
  have hground := Checker.grounded_of_check hcheck
  have hopen := Checker.not_reaches_blocked_of_check hcheck
  refine ⟨⟨hground.intact, ?_, ?_⟩, ?_⟩
  · intro hsome
    obtain ⟨h, hreach, hcycle⟩ := hsome
    exact hground.not_reaches_endless ⟨h, hreach, .inr hcycle⟩
  · intro hsome
    obtain ⟨h, hreach, hcall⟩ := hsome
    exact hopen ⟨h, hreach, .inr ⟨rfl, hcall⟩⟩
  · intro hsome
    obtain ⟨h, hreach, hpending⟩ := hsome
    exact hground.not_reaches_endless ⟨h, hreach, .inl hpending⟩

/-- A literal that looks like two items of a union is shared by the parts of a term. -/
def sharedLiteral : Arena where
  slots := #[.terminal "a\" | \"b", .union [0], .eq 1, .concat 2 1]

/-- The same term with a copy of the literal in each part. -/
def copiedLiteral : Arena where
  slots := #[.concat 1 3, .eq 2, .union [5], .union [4], .terminal "a\" | \"b",
    .terminal "a\" | \"b"]

/-- One term shares its literal and the other copies it. They print the same, so they are one tree
and have one solution. -/
theorem render_unambiguous_copied_literal :
    sharedLiteral.Plain 3 ∧ copiedLiteral.Plain 0 ∧
      sharedLiteral.render false 3 = copiedLiteral.render false 0 ∧
      (∃ tree, sharedLiteral.Expands 3 tree ∧ copiedLiteral.Expands 0 tree) ∧
      ∃ solution, ∀ solver solver' : AcyclicSolver,
        (solver.solve sharedLiteral 3).1 = .ok solution ∧
        (solver'.solve copiedLiteral 0).1 = .ok solution := by
  have hcheck : sharedLiteral.isRecursive true 3 = .ok false := by
    simp [isRecursive, Checker.check, Checker.reset, sweep, sweepAll, Sweep.pass, sharedLiteral,
      get?, Term.isCompound, Term.children, Path.count_enter, Path.count_empty, bind, Except.bind,
      pure, Except.pure]
  have hcheck' : copiedLiteral.isRecursive true 0 = .ok false := by
    simp [isRecursive, Checker.check, Checker.reset, sweep, sweepAll, Sweep.pass, copiedLiteral,
      get?, Term.isCompound, Term.children, Path.count_enter, Path.count_empty, bind, Except.bind,
      pure, Except.pure]
  have hrender : sharedLiteral.render false 3 = copiedLiteral.render false 0 := by
    simp [render, renderBelow, renderAll, sharedLiteral, copiedLiteral, get?, Term.isCompound,
      Term.children, Term.renderWith, Path.count_enter, Path.count_empty, bind, Except.bind, pure,
      Except.pure]
  obtain ⟨hplain, hpending⟩ := plain_of_check hcheck
  obtain ⟨hplain', hpending'⟩ := plain_of_check hcheck'
  obtain ⟨tree, tree', text, text', htree, htree', htext, htext', hsame, hsolution⟩ :=
    render_unambiguous sharedLiteral copiedLiteral 3 0 hplain hplain'
  have heq : text = text' := Except.ok.inj (htext.symm.trans (hrender.trans htext'))
  obtain rfl := hsame.mp heq
  exact ⟨hplain, hplain', hrender, ⟨tree, (htree tree).mpr rfl, (htree' tree).mpr rfl⟩,
    hsolution heq hpending hpending'⟩

end Arena

end StringReach
