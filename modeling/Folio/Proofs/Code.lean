/-
# Proofs.Code -- what is counted in code

What is counted in the list of all nodes is what `number` counts part by part, and the longest chain of loops is the
greatest number of loops on a way down (`chain_eq`, `loopDepth_eq`).  Functions in JavaScript are the exception: a
method of a class is counted as a method, and its value once more as a function.

A method in C# goes by the first identifier below its declaration, which is its name unless one stands before it.
Classes are told apart by their names only, so a class with its own name among its bases overrides all that it has.

The score of classes is rated as it is and worded as it is shown, rounded to hundredths (`bands_agree_iff`).
-/
import Folio.Code.C
import Folio.Code.Csharp
import Folio.Code.Java
import Folio.Code.JavaScript
import Folio.Code.Python
import Folio.Proofs.Action
import Folio.Proofs.Path
import Folio.Proofs.Value
import Mathlib.Algebra.BigOperators.Group.List.Basic
import Mathlib.Algebra.Order.Field.Rat
import Mathlib.Algebra.Order.Ring.Nat
import Mathlib.Tactic.Linarith
import Mathlib.Tactic.NormNum
import Mathlib.Tactic.Ring

namespace Folio.Code

open List

def greatest (ns : List Nat) : Nat := ns.foldr max 0

theorem greatest_cons (n : Nat) (ns : List Nat) : greatest (n :: ns) = max n (greatest ns) := rfl

theorem greatest_append (ms ns : List Nat) : greatest (ms ++ ns) = max (greatest ms) (greatest ns) := by
  induction ms with
  | nil => exact (Nat.zero_max _).symm
  | cons m ms ih => rw [cons_append, greatest_cons, greatest_cons, ih, Nat.max_assoc]

theorem greatest_add (more : Nat) (ns : List Nat) : greatest ((0 :: ns).map (more + ·)) = more + greatest ns := by
  induction ns with
  | nil => simp [greatest]
  | cons n ns ih =>
    simp only [map_cons, greatest_cons] at ih ⊢
    omega

theorem greatest_ways (kinds : List String) (k : String) (ways : List (List String)) :
    greatest ((([] :: ways).map (k :: ·)).map (·.countP kinds.contains)) =
      (if kinds.contains k then 1 else 0) + greatest (ways.map (·.countP kinds.contains)) := by
  rw [← greatest_add, map_map]
  show _ = greatest ((([] :: ways).map (·.countP kinds.contains)).map _)
  rw [map_map]
  exact congrArg greatest (map_congr_left fun ks _ => by simp [countP_cons, Nat.add_comm])

theorem Loops.of_ofDepths (depths : List Nat) : (ofDepths depths).functions = depths.length ∧
    (ofDepths depths).nested = depths.countP (2 ≤ ·) ∧ (ofDepths depths).depth = greatest depths := by
  suffices run : ∀ l : Loops, (depths.foldl count l).functions = l.functions + depths.length ∧
      (depths.foldl count l).nested = l.nested + depths.countP (2 ≤ ·) ∧
      (depths.foldl count l).depth = max l.depth (greatest depths) by
    simpa [ofDepths, none] using run none
  induction depths with
  | nil => exact fun l => ⟨rfl, rfl, (Nat.max_zero _).symm⟩
  | cons d depths ih =>
    intro l
    obtain ⟨functions, nested, depth⟩ := ih (l.count d)
    refine ⟨functions.trans ?_, nested.trans ?_, depth.trans (Nat.max_assoc ..)⟩
    · rw [count, length_cons, Nat.add_assoc, Nat.add_comm 1]
    · simp only [count, countP_cons, decide_eq_true_eq]
      split <;> omega

namespace Ast

/-! ## How many nodes -/

mutual

/-- How many nodes of a tree are of a kind that counts. -/
def number (counts : String → Bool) : Ast → Nat
  | .node k ps => (if counts k then 1 else 0) + numberOfParts counts ps
  | .list xs => numberOfItems counts xs
  | _ => 0

def numberOfParts (counts : String → Bool) : List (String × Ast) → Nat
  | [] => 0
  | (_, a) :: ps => number counts a + numberOfParts counts ps

def numberOfItems (counts : String → Bool) : List Ast → Nat
  | [] => 0
  | a :: as => number counts a + numberOfItems counts as

end

mutual

theorem countP_nodes (counts : String → Bool) : ∀ a : Ast, a.nodes.countP (counts ·.kind) = a.number counts
  | .node k ps => by rw [nodes, countP_cons, countP_nodesOfParts counts ps, number, Nat.add_comm, kind]
  | .list xs => countP_nodesOfItems counts xs
  | .word _ | .absent => rfl

theorem countP_nodesOfParts (counts : String → Bool) : ∀ ps : List (String × Ast),
    (nodesOfParts ps).countP (counts ·.kind) = numberOfParts counts ps
  | [] => rfl
  | (_, a) :: ps => by
    rw [nodesOfParts, countP_append, countP_nodes counts a, countP_nodesOfParts counts ps, numberOfParts]

theorem countP_nodesOfItems (counts : String → Bool) : ∀ as : List Ast,
    (nodesOfItems as).countP (counts ·.kind) = numberOfItems counts as
  | [] => rfl
  | a :: as => by
    rw [nodesOfItems, countP_append, countP_nodes counts a, countP_nodesOfItems counts as, numberOfItems]

end

/-! ## Ways down -/

mutual

/-- The ways down from a node, as the kinds of the nodes on them.  A way starts at the node and ends anywhere. -/
def ways : Ast → List (List String)
  | .node k ps => ([] :: waysOfParts ps).map (k :: ·)
  | .list xs => waysOfItems xs
  | _ => []

def waysOfParts : List (String × Ast) → List (List String)
  | [] => []
  | (_, a) :: ps => ways a ++ waysOfParts ps

def waysOfItems : List Ast → List (List String)
  | [] => []
  | a :: as => ways a ++ waysOfItems as

end

variable (kinds : List String)

mutual

theorem chain_eq : ∀ a : Ast, a.chain kinds = greatest (a.ways.map (·.countP kinds.contains))
  | .node k ps => by rw [chain, chainOfParts_eq ps, ways, greatest_ways]
  | .list xs => chainOfItems_eq xs
  | .word _ | .absent => rfl

theorem chainOfParts_eq : ∀ ps : List (String × Ast),
    chainOfParts kinds ps = greatest ((waysOfParts ps).map (·.countP kinds.contains))
  | [] => rfl
  | (_, a) :: ps => by
    rw [chainOfParts, chain_eq a, chainOfParts_eq ps, waysOfParts, map_append, greatest_append]

theorem chainOfItems_eq : ∀ as : List Ast,
    chainOfItems kinds as = greatest ((waysOfItems as).map (·.countP kinds.contains))
  | [] => rfl
  | a :: as => by
    rw [chainOfItems, chain_eq a, chainOfItems_eq as, waysOfItems, map_append, greatest_append]

end

end Ast

namespace Tree

mutual

/-- The ways down from a node, as the kinds of the nodes on them. -/
def ways : Tree → List (List String)
  | .node k _ _ cs => ([] :: waysOfAll cs).map (k :: ·)

def waysOfAll : List Tree → List (List String)
  | [] => []
  | t :: ts => ways t ++ waysOfAll ts

end

mutual

theorem loopDepth_eq : ∀ t : Tree, t.loopDepth = greatest (t.ways.map (·.countP loopKinds.contains))
  | .node k _ _ cs => by rw [loopDepth, loopDepthOfAll_eq cs, ways, greatest_ways]

theorem loopDepthOfAll_eq : ∀ ts : List Tree,
    loopDepthOfAll ts = greatest ((waysOfAll ts).map (·.countP loopKinds.contains))
  | [] => rfl
  | t :: ts => by
    rw [loopDepthOfAll, loopDepth_eq t, loopDepthOfAll_eq ts, waysOfAll, map_append, greatest_append]

end

mutual

theorem loopDepth_le_of_mem_nodes {u : Tree} : ∀ t : Tree, u ∈ t.nodes → u.loopDepth ≤ t.loopDepth
  | .node k s e cs, member => by
    obtain rfl | later := mem_cons.1 member
    · exact Nat.le_refl _
    · exact (loopDepth_le_of_mem_nodesOfAll cs later).trans (Nat.le_add_left ..)

theorem loopDepth_le_of_mem_nodesOfAll {u : Tree} : ∀ ts, u ∈ nodesOfAll ts → u.loopDepth ≤ loopDepthOfAll ts
  | t :: ts, member => by
    obtain here | later := mem_append.1 member
    · exact (loopDepth_le_of_mem_nodes t here).trans (Nat.le_max_left ..)
    · exact (loopDepth_le_of_mem_nodesOfAll ts later).trans (Nat.le_max_right ..)

end

end Tree

namespace Python

mutual

theorem classNodes_perm : ∀ a : Ast, (classNodes a).Perm (a.nodes.filter (·.kind == "ClassDef"))
  | .node k ps => by
    have below : (((classNodesOfParts ps).mergeSort fun a b => a.1 ≤ b.1).flatMap (·.2)).Perm _ :=
      ((mergeSort_perm _ _).flatMap_right _).trans (classNodesOfParts_perm ps)
    rw [classNodes, Ast.nodes, filter_cons, Ast.kind]
    split
    · exact below.cons _
    · exact below
  | .list xs => classNodesOfItems_perm xs
  | .word _ | .absent => .refl _

theorem classNodesOfParts_perm : ∀ ps : List (String × Ast),
    ((classNodesOfParts ps).flatMap (·.2)).Perm ((Ast.nodesOfParts ps).filter (·.kind == "ClassDef"))
  | [] => .refl _
  | (_, a) :: ps => by
    rw [classNodesOfParts, flatMap_cons, Ast.nodesOfParts, filter_append]
    exact (classNodes_perm a).append (classNodesOfParts_perm ps)

theorem classNodesOfItems_perm : ∀ as : List Ast,
    (classNodesOfItems as).Perm ((Ast.nodesOfItems as).filter (·.kind == "ClassDef"))
  | [] => .refl _
  | a :: as => by
    rw [classNodesOfItems, Ast.nodesOfItems, filter_append]
    exact (classNodes_perm a).append (classNodesOfItems_perm as)

end

end Python

/-! ## JavaScript -/

namespace JavaScript

def topMethods (t : Ast) : List Ast :=
  ((t.itemsOf "body").filter (·.kind == "ClassDeclaration")).flatMap fun c =>
    ((c.part "body").itemsOf "body").filter (·.kind == "MethodDefinition")

/-- A source adds its functions and, once more, the methods of the classes at its top; so every function counts once
exactly if those classes have no methods. -/
theorem functions_added (root file : Path) (sources : List (Path × Parsed Ast)) (t : Ast) :
    let before := (findings root sources).loops.functions
    let after := (findings root (sources ++ [(file, .tree t)])).loops.functions
    after = before + (t.number functionKinds.contains + (topMethods t).length) ∧
    (after = before + t.number functionKinds.contains ↔ topMethods t = []) := by
  intro before after
  have functions (f : Findings) : f.loops.functions =
      (f.sources.map fun s => (s.classes.flatMap (·.defined)).length + s.functions).sum := by
    rw [Findings.loops, (Loops.of_ofDepths _).1, ← sum_eq_foldl, sum_map_add]
    simp [Findings.classes, length_flatMap, flatMap_assoc]
  have own : (((sourceFindings root file t).classes).flatMap (·.defined)).length = (topMethods t).length := by
    simp [sourceFindings, topMethods, classRecord, flatMap_map, length_flatMap]
  have counted : (sourceFindings root file t).functions = t.number functionKinds.contains := by
    rw [← Ast.countP_nodes, countP_eq_length_filter]
    exact congrArg (fun p => (t.nodes.filter p).length) (funext fun a => by cases a <;> rfl)
  have added : (findings root (sources ++ [(file, .tree t)])).sources =
      (findings root sources).sources ++ [sourceFindings root file t] := by
    simp [findings, Parsed.tree?]
  have both : after = before + (t.number functionKinds.contains + (topMethods t).length) := by
    simp only [before, after, functions, added, map_append, sum_append, map_cons, map_nil, sum_cons, sum_nil, own, counted]
    omega
  exact ⟨both, by rw [both, ← length_eq_zero_iff]; omega⟩

def methodSource : Ast :=
  .node "Program" [("body", .list [.node "ClassDeclaration" [("id", .node "Identifier" [("name", .word "A")]),
    ("body", .node "ClassBody" [("body", .list [.node "MethodDefinition" [
      ("key", .node "Identifier" [("name", .word "m")]),
      ("value", .node "FunctionExpression" [("body", .node "BlockStatement" [])])]])])]])]

theorem method_counted_twice : methodSource.number functionKinds.contains = 1 ∧
    (findings ⟨"/", []⟩ [(⟨"/", ["a.js"]⟩, .tree methodSource)]).loops.functions = 2 := by
  decide

end JavaScript

/-! ## C# -/

namespace Csharp

open Tree

variable {className source : String} {front : List Tree} {own t : Tree}

/-- The name of a method is the last identifier among its parts before its parameters. -/
structure Names (t : Tree) (front : List Tree) (own : Tree) : Prop where
  isName : own.kind = "identifier"
  last : ∃ middle params back, t.children = front ++ own :: (middle ++ params :: back) ∧
    params.kind = "parameter_list" ∧ ∀ part ∈ middle, part.kind ≠ "identifier" ∧ part.kind ≠ "parameter_list"

theorem nodesOfAll_append (ts us : List Tree) : nodesOfAll (ts ++ us) = nodesOfAll ts ++ nodesOfAll us := by
  induction ts with
  | nil => rfl
  | cons t ts ih => rw [cons_append, nodesOfAll, nodesOfAll, ih, append_assoc]

/-- The first identifier of a method may stand before its name. -/
theorem firstIdentifier_eq (isMethod : t.kind = "method_declaration") (names : Names t front own) (source : String) :
    firstIdentifier t source = (((nodesOfAll front).find? (·.kind == "identifier")).getD own).textIn source := by
  obtain ⟨middle, params, back, parts, -⟩ := names.last
  obtain ⟨kind, start, stop, children⟩ := t
  obtain ⟨kind', start', stop', children'⟩ := own
  obtain rfl : kind = "method_declaration" := isMethod
  obtain rfl : kind' = "identifier" := names.isName
  obtain rfl : children = _ := parts
  rw [firstIdentifier, nodes, nodesOfAll_append, find?_cons_of_neg (by simp [kind]), find?_append]
  cases (nodesOfAll front).find? (·.kind == "identifier") <;> rfl

/-- A method is recorded under its own name exactly if no identifier with another text stands before it. -/
theorem method_named_iff (isMethod : t.kind = "method_declaration") (names : Names t front own)
    (some_ : own.textIn source ≠ "") :
    (memberGain source className t).methods = [own.textIn source] ↔
      ∀ first ∈ (nodesOfAll front).find? (·.kind == "identifier"), first.textIn source = own.textIn source := by
  have gain : (memberGain source className t).methods =
      if firstIdentifier t source = "" then [] else [firstIdentifier t source] := by
    simp only [memberGain, isMethod, beq_iff_eq]
    split <;> rfl
  rw [gain, firstIdentifier_eq isMethod names]
  cases (nodesOfAll front).find? (·.kind == "identifier") with
  | none => simp [some_]
  | some first => by_cases empty : first.textIn source = "" <;> simp [empty, some_.symm]

def method (type : String) : Tree :=
  .node "method_declaration" 0 9 [.node type 0 3 [], .node "identifier" 4 7 [], .node "parameter_list" 7 9 []]

theorem names_method (type : String) : Names (method type) [.node type 0 3 []] (.node "identifier" 4 7 []) :=
  ⟨rfl, [], _, [], rfl, rfl, by simp⟩

theorem method_named_run : (memberGain "int Run()" "A" (method "predefined_type")).methods = ["Run"] :=
  (method_named_iff rfl (names_method _) (by decide)).2 (by decide)

/-- A method that gives a `Foo` is recorded as `Foo`. -/
theorem method_named_for_type : Names (method "identifier") [.node "identifier" 0 3 []] (.node "identifier" 4 7 []) ∧
    (memberGain "Foo Bar()" "A" (method "identifier")).methods = ["Foo"] := ⟨names_method _, by decide⟩

end Csharp

end Folio.Code

/-! ## C code without loops

Loops are looked for line by line.  A line opens one if it starts with the word of a loop that has its condition in
front (`hasWord_of_line`), and also if it starts with the letters of the third kind, whatever word they belong to. -/

namespace Folio.Code.C

open List Pattern Text

variable {code line w : String}

/-- A word of a text stands between characters that cannot stand in one. -/
def HasWord (w code : String) : Prop := w.toList ∈ code.toList.splitOnP fun c => !isWordChar c

instance : Decidable (HasWord w code) := inferInstanceAs (Decidable (_ ∈ _))

theorem isWordChar_of_blank {c : Char} (blank : isBlank c) : isWordChar c = false := by
  have all : ∀ n ∈ range' 9 5 ++ range' 28 5 ++ range' 8192 11 ++ [133, 160, 5760, 8232, 8233, 8239, 8287, 12288],
      isWordChar (Char.ofNat n) = false := by decide +kernel
  rw [← Char.ofNat_toNat c]
  refine all _ ?_
  simp only [isBlank, Bool.or_eq_true, Bool.and_eq_true, decide_eq_true_eq, beq_iff_eq] at blank
  simp only [mem_append, mem_range'_1, mem_cons, not_mem_nil, or_false]
  omega

theorem run_lit {s : Spot} {g : Groups} {rest : Rest} {e : Ending} (found : (lit w).run s g rest = some e) :
    ∃ t, s.after = w.toList ++ t.after ∧ rest t g = some e := by
  rw [lit] at found
  revert s
  induction w.toList with
  | nil => exact fun found => ⟨_, rfl, found⟩
  | cons c cs ih =>
    intro s found
    simp only [Pattern.sequence, map_cons, foldr_cons, run, Spot.next?] at found
    cases after : s.after with
    | nil => simp [after] at found
    | cons x xs =>
      simp only [after] at found
      split at found
      · obtain ⟨t, here, found⟩ := ih found
        exact ⟨t, by simp_all, found⟩
      · cases found

theorem run_edge {test : List Char → List Char → Bool} {s : Spot} {g : Groups} {rest : Rest} {e : Ending}
    (found : (Pattern.edge test).run s g rest = some e) : rest s g = some e := by
  rw [run] at found
  split at found
  · exact found
  · cases found

theorem starts_of_heads (opens : (sequence [wordEdge, lit w, blanks, lit "("]).heads line) :
    ∃ c after, line.toList = w.toList ++ c :: after ∧ isWordChar c = false := by
  rw [heads, matchHead?, matchAt?, Option.isSome_map, Option.isSome_iff_exists] at opens
  obtain ⟨e, found⟩ := opens
  simp only [Pattern.sequence, foldr_cons, foldr_nil, run.eq_5] at found
  obtain ⟨s, here, found⟩ := run_lit (run_edge found)
  simp only [blanks, Pattern.star, run, if_true] at found
  obtain ⟨t, reached, found⟩ := exists_of_findSome?_eq_some found
  obtain ⟨_, bracket, -⟩ := run_lit found
  replace reached := (mem_filter.1 reached).1
  -- What follows the word is the bracket or, before it, a blank.
  cases after : s.after with
  | nil => simp_all [reach]
  | cons c cs =>
    refine ⟨c, cs, after ▸ here, ?_⟩
    rw [after, reach] at reached
    by_cases blank : isBlank c
    · exact isWordChar_of_blank blank
    · simp [blank] at reached
      obtain rfl : c = '(' := by simp_all
      decide

theorem hasWord_of_line (letters : w.toList.all isWordChar) (member : line ∈ splitOn code "\n")
    (opens : (sequence [wordEdge, lit w, blanks, lit "("]).heads (trim line)) : HasWord w code := by
  obtain ⟨c, after, starts, edge⟩ := starts_of_heads opens
  rw [show splitOn code "\n" = _ from splitOn_single code '\n', splitOn_eq_splitOnP] at member
  obtain ⟨piece, inside, rfl⟩ := mem_map.1 member
  rw [HasWord, splitOnP_of_finer (p := (· == '\n')) (by simp; decide), mem_flatMap]
  refine ⟨piece, inside, ?_⟩
  have own (more : List Char) : w.toList ∈ (w.toList ++ c :: more).splitOnP fun c => !isWordChar c := by
    rw [splitOnP_append_cons_of_forall_mem (by simpa using letters) c (by simp [edge])]
    exact mem_cons_self
  rw [trim, String.toList_ofList, String.toList_ofList, trimWhile, dropEndWhile] at starts
  rw [← takeWhile_append_dropWhile (p := isBlank) (l := piece), ← reverse_reverse (piece.dropWhile isBlank),
    ← takeWhile_append_dropWhile (p := isBlank) (l := (piece.dropWhile isBlank).reverse), reverse_append, starts,
    append_assoc, cons_append]
  obtain lead | ⟨before, b, lead⟩ := eq_nil_or_concat (piece.takeWhile isBlank)
  · rw [lead]
    exact own _
  · have blank : isBlank b := all_eq_true.1 all_takeWhile b (by rw [lead]; simp)
    rw [lead, concat_append, splitOnP_append_cons _ _ (by simp [isWordChar_of_blank blank])]
    exact mem_append_right _ (own _)

theorem loopDepth_eq_zero_iff : loopDepth code = 0 ↔ ∀ line ∈ splitOn code "\n", opensLoop (trim line) = false := by
  suffices general : ∀ (lines : List String) (s : Nat × Nat), s.1 ≤ s.2 →
      ((lines.foldl loopStep s).2 = 0 ↔ s.2 = 0 ∧ ∀ line ∈ lines, opensLoop (trim line) = false) by
    simpa [loopDepth] using general (splitOn code "\n") (0, 0) (Nat.le_refl 0)
  intro lines
  induction lines with
  | nil => simp
  | cons line lines ih =>
    intro s below
    have still : (loopStep s line).1 ≤ (loopStep s line).2 :=
      Nat.le_trans (Nat.sub_le _ _) (Nat.le_max_right _ _)
    rw [foldl_cons, ih _ still, forall_mem_cons]
    simp only [loopStep]
    cases opensLoop (trim line) <;> grind

/-- Without the words of loops that have their condition in front, the depth is 0 exactly if no line starts with the
letters of the third kind. -/
theorem loopDepth_eq_zero_iff_of_words (noFor : ¬ HasWord "for" code) (noWhile : ¬ HasWord "while" code) :
    loopDepth code = 0 ↔ ∀ line ∈ splitOn code "\n", startsWith (trim line) "do" = false := by
  rw [loopDepth_eq_zero_iff]
  refine forall₂_congr fun line member => ?_
  have first : (sequence [wordEdge, lit "for", blanks, lit "("]).heads (trim line) = false :=
    Bool.eq_false_iff.2 fun opens => noFor (hasWord_of_line (by decide) member opens)
  have second : (sequence [wordEdge, lit "while", blanks, lit "("]).heads (trim line) = false :=
    Bool.eq_false_iff.2 fun opens => noWhile (hasWord_of_line (by decide) member opens)
  simp [opensLoop, first, second]

theorem loopDepth_declaration : loopDepth "int x;" = 0 :=
  (loopDepth_eq_zero_iff_of_words (by decide +kernel) (by decide +kernel)).2 (by decide +kernel)

/-- A declaration without any loop counts as one. -/
theorem double_opens_loop : ¬ HasWord "for" "double x;" ∧ ¬ HasWord "while" "double x;" ∧ ¬ HasWord "do" "double x;" ∧
    loopDepth "double x;" = 1 := by
  decide +kernel

end Folio.Code.C

namespace Folio.Code

open Action List

variable {classes : List ClassFacts} {c : ClassFacts} {reports : List Value} {files m : Value}

theorem mem_overrides {name : String} : name ∈ overrides classes c ↔
    name ∈ c.methods ∧ ∃ b ∈ classes, b.name ∈ c.bases ∧ name ∈ b.methods := by
  simp only [overrides, methodsNamed, mem_filter, (Text.unique_perm_dedup _).mem_iff, mem_dedup, any_eq_true,
    contains_iff_mem]
  grind

theorem nodup_overrides (classes : List ClassFacts) (c : ClassFacts) : (overrides classes c).Nodup :=
  .filter _ ((Text.unique_perm_dedup _).nodup_iff.2 (nodup_dedup _))

/-- The figures of classes and those of structs count what the entries of all reports override. -/
theorem overridden_of_metrics (made : classMetrics reports files = .ok m ∨ structMetrics reports files = .ok m) :
    ∃ entries, reports.mapM classesOf = .ok entries ∧
      m.at? ["polymorphism", "override_method_count"] = some (.nat (ClassTotals.of entries.flatten).overridden) := by
  -- The other figures are computed as well, and may fail; none of them says what is overridden.
  rcases made with made | made <;> obtain ⟨t, tally, made⟩ := ok_of_bind made <;>
    obtain ⟨entries, classes, tally⟩ := ok_of_bind tally
  all_goals
    repeat obtain ⟨_, -, tally⟩ := ok_of_bind tally
    repeat obtain ⟨_, -, made⟩ := ok_of_bind made
    cases tally
    cases made
    exact ⟨entries, classes, rfl⟩

/-- What is counted are the different methods of each class that another class named among its bases has; and if a class
is itself named among its bases, all that it has. -/
theorem overridden_exactly (made : classMetrics reports files = .ok m ∨ structMetrics reports files = .ok m) :
    ∃ entries : List ClassFacts, flatten <$> reports.mapM classesOf = .ok entries ∧
      m.at? ["polymorphism", "override_method_count"] = some (.nat (entries.flatMap (overrides entries)).length) ∧
      ∀ i : Fin entries.length, (overrides entries (entries.get i)).Nodup ∧
        ∀ name, name ∈ overrides entries (entries.get i) ↔ name ∈ (entries.get i).methods ∧
          ((entries.get i).name ∈ (entries.get i).bases ∨
            ∃ j ≠ i, (entries.get j).name ∈ (entries.get i).bases ∧ name ∈ (entries.get j).methods) := by
  obtain ⟨entries, classes, counted⟩ := overridden_of_metrics made
  refine ⟨entries.flatten, by rw [classes]; rfl, ?_, fun i => ⟨nodup_overrides _ _, fun name => ?_⟩⟩
  · rw [counted, ClassTotals.of, length_flatMap, sum_eq_foldl]
  · rw [mem_overrides]
    refine and_congr_right fun own => ⟨?_, ?_⟩
    · rintro ⟨b, member, based, has⟩
      obtain ⟨j, rfl⟩ := get_of_mem member
      by_cases same : j = i
      · exact Or.inl (same ▸ based)
      · exact Or.inr ⟨j, same, based, has⟩
    · rintro (based | ⟨j, -, based, has⟩)
      · exact ⟨_, get_mem _ i, based, own⟩
      · exact ⟨_, get_mem _ j, based, has⟩

def oneClass (name base : String) : Value := .object [("classes", .list [.object [
  ("name", .text name), ("bases", .texts [base]), ("methods", .texts ["run"])]])]

theorem made_of_isOk {x : Except Fault Value} (fine : x.isOk) : ∃ m, x = .ok m := by
  cases x with
  | error f => cases fine
  | ok m => exact ⟨m, rfl⟩

theorem overridden_exactly_subclass : ∃ m entries, classMetrics [oneClass "A" "", oneClass "B" "A"] .null = .ok m ∧
    flatten <$> [oneClass "A" "", oneClass "B" "A"].mapM classesOf = .ok entries ∧
    m.at? ["polymorphism", "override_method_count"] = some (.nat (entries.flatMap (overrides entries)).length) := by
  obtain ⟨m, made⟩ := made_of_isOk (x := classMetrics [oneClass "A" "", oneClass "B" "A"] .null) (by decide +kernel)
  obtain ⟨entries, classes, counted, -⟩ := overridden_exactly (Or.inl made)
  exact ⟨m, entries, made, classes, counted⟩

/-- There is one class, which names itself among its bases: its method counts as overridden. -/
theorem overridden_by_itself : ∃ m, classMetrics [oneClass "A" "A"] .null = .ok m ∧
    m.at? ["polymorphism", "override_method_count"] = some (.nat 1) := by
  obtain ⟨m, made⟩ := made_of_isOk (x := classMetrics [oneClass "A" "A"] .null) (by decide +kernel)
  obtain ⟨entries, ⟨⟩, counted⟩ := overridden_of_metrics (Or.inl made)
  exact ⟨m, made, counted⟩

/-! ## Bands of scores -/

open Decimal (roundDiv)

variable {a b k : Nat} {x : ℚ}

/-- A quotient is rounded to an even number or above from halfway below that number on. -/
theorem le_roundDiv_iff (some_ : 0 < b) (even : k % 2 = 0) : k ≤ roundDiv a b ↔ 2 * k * b ≤ 2 * a + b := by
  have parts := Nat.div_add_mod a b
  have rest := Nat.mod_lt a some_
  have below : a / b + 1 < k → b * (a / b) + 2 * b ≤ k * b := fun less => by nlinarith
  have above : k ≤ a / b → k * b ≤ b * (a / b) := fun least => by nlinarith
  have next : k = a / b + 1 → k * b = b * (a / b) + b := fun same => by rw [same]; ring
  rw [Nat.mul_assoc]
  simp only [roundDiv]
  split
  · omega
  · split <;> omega

def hundredths (x : ℚ) : Nat := roundDiv (100 * x.num.toNat) x.den

theorem hundredths_lt_iff (positive : 0 ≤ x) (even : k % 2 = 0) :
    (hundredths x / 100 : ℚ) < k / 100 ↔ x < (2 * k - 1) / 200 := by
  obtain ⟨n, whole⟩ := Int.eq_ofNat_of_zero_le (Rat.num_nonneg.2 positive)
  have some_ : (0 : ℚ) < x.den := by exact_mod_cast x.den_pos
  have scaled : x * x.den = n := by rw [Rat.mul_den_eq_num, whole]; rfl
  have rounded : hundredths x < k ↔ ¬ 2 * k * x.den ≤ 2 * (100 * n) + x.den := by
    rw [← not_le, hundredths, le_roundDiv_iff x.den_pos even, whole, Int.toNat_natCast]
  have below : x < (2 * k - 1) / 200 ↔ (n : ℚ) < (2 * k - 1) / 200 * x.den := by
    rw [← scaled, mul_lt_mul_iff_of_pos_right some_]
  rw [div_lt_div_iff_of_pos_right (by norm_num), Nat.cast_lt, rounded, not_le, ← Nat.cast_lt (α := ℚ), below]
  push_cast
  constructor <;> intro less <;> linarith

theorem Band.reached_eq_of (x : ℚ) : Band.reached x = .of x := by
  unfold reached of between
  split_ifs <;> first | rfl | linarith

theorem Band.of_hundredths (positive : 0 ≤ x) : Band.of (hundredths x / 100 : ℚ) = .between 0.295 0.595 x := by
  have lower := hundredths_lt_iff (k := 30) positive rfl
  have upper := hundredths_lt_iff (k := 60) positive rfl
  norm_num at lower upper
  norm_num [of, between, lower, upper]

def exactScore (t : ClassTotals) : ℚ := scoreOf (fun a b => a / b) t

theorem exactScore_nonneg (t : ClassTotals) : 0 ≤ exactScore t := by
  unfold exactScore scoreOf clamp greater
  dsimp only
  split <;> linarith

/-- The rating goes by the score itself, the narrative and the impact by the rounded score.  They name one band unless
rounding lifts the score to the bound of a band. -/
theorem bands_agree_iff (t : ClassTotals) :
    Band.reached (hundredths (exactScore t) / 100 : ℚ) = .of (hundredths (exactScore t) / 100 : ℚ) ∧
    (Band.of (hundredths (exactScore t) / 100 : ℚ) = .of (exactScore t) ↔
      ¬ (0.295 ≤ exactScore t ∧ exactScore t < 0.3 ∨ 0.595 ≤ exactScore t ∧ exactScore t < 0.6)) := by
  refine ⟨Band.reached_eq_of _, ?_⟩
  rw [Band.of_hundredths (exactScore_nonneg t)]
  generalize exactScore t = x
  unfold Band.of Band.between
  split_ifs <;> simp <;> grind

/-- Four classes, of which three inherit and one overrides. -/
def fourClasses : List ClassFacts :=
  let facts (name : String) (bases methods : List String) : ClassFacts := ⟨name, bases, methods, false, 0, false, false⟩
  [facts "A" [] ["run"], facts "B" ["A"] ["run"], facts "C" ["X"] ["f", "g"], facts "D" ["X"] ["f"]]

/-- The rating is low, and the rounded score is of the medium band. -/
theorem rounding_lifts_band : Band.of (exactScore (.of fourClasses)) = .low ∧
    Band.of (hundredths (exactScore (.of fourClasses)) / 100 : ℚ) = .medium := by
  have score : exactScore (.of fourClasses) = 71 / 240 := by
    have totals : ClassTotals.of fourClasses = ⟨4, 5, 3, 0, 0, 0, 0, 1, 1⟩ := by decide
    rw [totals]
    norm_num [exactScore, scoreOf, clamp, greater, lesser, weigh]
  rw [Band.of_hundredths (exactScore_nonneg _), score]
  norm_num [Band.of, Band.between]

end Folio.Code
