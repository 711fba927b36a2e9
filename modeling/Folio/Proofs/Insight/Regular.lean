/-
# Proofs.Insight.Regular -- the statistics of regular hierarchies

A hierarchy is regular when its nodes have a text for their type, a list of nodes for their children, and no time of
change with a zone.  A visit with a stack (`Visit`) lists its nodes, and the statistics are those of the files among
them (`Tells`).  Another order of the children changes nothing but which of equals is shown.
-/
import Folio.Proofs.Insight.FileStats
import Folio.Proofs.Value

namespace Folio.Insight.FileStats

open Fields Function List Option Text Value

variable {fs g : Fields} {h h' x stats : Value} {xs ys : List Value} {files : List Fields}
  {key : Fields → Option Int} {best : Option Fields}

/-! ## The first of the greatest -/

/-- The first file with the greatest key; none when no file has a key. -/
def Leads (key : Fields → Option Int) (files : List Fields) : Option Fields → Prop
  | none => ∀ f ∈ files, key f = none
  | some f => ∃ before after k, files = before ++ f :: after ∧ key f = some k ∧
      (∀ g ∈ before, ∀ j ∈ key g, j < k) ∧ ∀ g ∈ after, ∀ j ∈ key g, j ≤ k

section

variable (leads : Leads key files best)

include leads

theorem Leads.le : ∀ g ∈ files, ∀ j ∈ key g, ∃ k ∈ best.bind key, j ≤ k := by
  intro g member j own
  cases best with
  | none => rw [leads g member] at own; cases own
  | some f =>
    obtain ⟨before, after, k, rfl, top, less, atMost⟩ := leads
    refine ⟨k, top, ?_⟩
    rcases mem_append.1 member with early | late
    · exact (less g early j own).le
    · rcases mem_cons.1 late with rfl | late
      · exact (some_inj.1 (own.symm.trans top)).le
      · exact atMost g late j own

theorem Leads.replace {k : Int} (own : key g = some k)
    (greater : ∀ j ∈ best.bind key, j < k) : Leads key (files ++ [g]) (some g) := by
  refine ⟨files, [], k, rfl, own, fun f member j old => ?_, by simp⟩
  obtain ⟨i, top, atMost⟩ := leads.le f member j old
  exact atMost.trans_lt (greater i top)

theorem Leads.keep (behind : ∀ k ∈ key g, ∃ j ∈ best.bind key, k ≤ j) : Leads key (files ++ [g]) best := by
  cases best with
  | none =>
    intro f member
    rcases mem_append.1 member with old | new
    · exact leads f old
    · rw [mem_singleton.1 new]
      refine eq_none_iff_forall_not_mem.2 fun k own => ?_
      obtain ⟨j, absurd_, -⟩ := behind k own
      cases absurd_
  | some f =>
    obtain ⟨before, after, k, rfl, top, less, atMost⟩ := leads
    refine ⟨before, after ++ [g], k, by simp, top, less, fun f' member j own => ?_⟩
    rcases mem_append.1 member with old | new
    · exact atMost f' old j own
    · rw [mem_singleton.1 new] at own
      obtain ⟨i, same, le⟩ := behind j own
      rwa [← some_inj.1 (top.symm.trans same)] at le

end

theorem leads_largest? (files : List Fields) : Leads (fun f => some (size f)) files (largest? files) := by
  induction files using reverseRecOn with
  | nil => exact fun f member => absurd member not_mem_nil
  | append_singleton files g ih =>
    cases files with
    | nil => exact ⟨[], [], size g, rfl, rfl, by simp, by simp⟩
    | cons f later =>
      simp only [cons_append, largest?, foldl_append, foldl_cons] at ih ⊢
      split
      · rename_i less
        exact ih.replace rfl (by simpa using less)
      · rename_i notLess
        exact ih.keep (by simpa using notLess)

def ticks? (f : Fields) : Option Int := (changeTime? (modified f)).map (·.ticks)

theorem newest?_snoc (files : List Fields) (f : Fields) : newest? (files ++ [f]) = newest? files >>= fun found =>
      match changeTime? (modified f), found with
      | none, _ => .ok found
      | some t, none => .ok (some (t, f))
      | some t, some b => (before (.moment b.1) (.moment t)).map fun less => some (if less then (t, f) else b) := by
  unfold newest?
  rw [foldlM_append]
  congr 1
  funext found
  rw [foldlM_cons]
  rcases changeTime? (modified f) with _ | t
  · rfl
  · rcases found with _ | b
    · rfl
    · rcases compared : before (.moment b.1) (.moment t) with e | less
      · simp [compared, bind, Except.bind, Except.map]
      · cases less <;> simp [compared, bind, Except.bind, Except.map, pure, Except.pure]

theorem leads_newest? (files : List Fields) (naive : ∀ f ∈ files, ∀ t ∈ changeTime? (modified f), t.offset = none) :
    ∃ found, newest? files = .ok found ∧ Leads ticks? files (found.map (·.2)) ∧
      ∀ b ∈ found, changeTime? (modified b.2) = some b.1 ∧ b.1.offset = none := by
  induction files using reverseRecOn with
  | nil => exact ⟨none, rfl, fun f member => absurd member not_mem_nil, by simp⟩
  | append_singleton files f ih =>
    obtain ⟨found, listed, leads, held⟩ := ih fun f' member => naive f' (mem_append_left _ member)
    rw [newest?_snoc, listed]
    simp only [bind, Except.bind]
    cases own : changeTime? (modified f) with
    | none => exact ⟨found, rfl, leads.keep (by simp [ticks?, own]), held⟩
    | some t =>
      have zoneless := naive f (by simp) t own
      have new : ∀ b ∈ some (t, f), changeTime? (modified b.2) = some b.1 ∧ b.1.offset = none := by
        rintro _ ⟨⟩
        exact ⟨own, zoneless⟩
      have key : ticks? f = some t.ticks := by rw [ticks?, own, map_some]
      cases found with
      | none => exact ⟨_, rfl, leads.replace key (by simp), new⟩
      | some b =>
        obtain ⟨old, oldZoneless⟩ := held b rfl
        have compares : before (.moment b.1) (.moment t) = .ok (decide (b.1.ticks < t.ticks)) := by
          simp [before, Moment.instant, oldZoneless, zoneless]
        have oldKey : ticks? b.2 = some b.1.ticks := by rw [ticks?, old, map_some]
        simp only [compares]
        refine ⟨_, rfl, ?_⟩
        by_cases less : b.1.ticks < t.ticks
        · simp only [less]
          exact ⟨leads.replace key (by simpa [oldKey] using less), new⟩
        · simp only [less]
          exact ⟨leads.keep (by simpa [key, oldKey] using less), held⟩

/-! ## Regular hierarchies -/

/-- A node with a text for its type, no time of change that has a zone, and regular nodes for its children.  Its size
may be any value: what is no whole number is read as one. -/
inductive Regular : Value → Prop
  | node {fs : Fields} {type : String} {xs : List Value} (typed : get? fs "type" = some (.text type))
      (naive : ∀ t ∈ changeTime? (modified fs), t.offset = none)
      (listed : get? fs "children" = some (.list xs)) (below : ∀ x ∈ xs, Regular x) : Regular (.object fs)

/-- The visit of the nodes on a stack: the last one is taken, and its children are put in its place. -/
inductive Visit : List Value → List Fields → Prop
  | done : Visit [] []
  | next {stack xs : List Value} {fs : Fields} {later : List Fields}
      (listed : get? fs "children" = some (.list xs)) (rest : Visit (stack ++ xs) later) :
      Visit (stack ++ [.object fs]) (fs :: later)

/-- What is found on a stretch of the stack: regular nodes, and the files among them. -/
structure Found (files : Except Fault (List Fields)) (xs : List Value) (seen : List Fields) : Prop where
  files : files = .ok (seen.filter isFile)
  regular : ∀ node ∈ seen, Regular (.object node)
  visit : ∀ {stack : List Value} {later : List Fields}, Visit stack later → Visit (stack ++ xs) (seen ++ later)

theorem nodesOfFields_of_get? (listed : get? fs "children" = some (.list xs)) : nodesOfFields fs = nodesOfItems xs := by
  induction fs with
  | nil => cases listed
  | cons f fs ih =>
    obtain ⟨k, v⟩ := f
    rw [get?_cons] at listed
    rw [nodesOfFields]
    split at listed
    · rename_i here
      cases listed
      simp [← here, nodesOfChildren]
    · rename_i other
      simpa [Ne.symm other] using ih listed

theorem found_items (each : ∀ x ∈ xs, ∃ seen, Found (nodes x) [x] seen) : ∃ seen, Found (nodesOfItems xs) xs seen := by
  induction xs with
  | nil => exact ⟨[], rfl, by simp, fun visit => by simpa using visit⟩
  | cons x xs ih =>
    obtain ⟨first, own⟩ := each x mem_cons_self
    obtain ⟨later, others⟩ := ih fun y member => each y (mem_cons_of_mem x member)
    refine ⟨later ++ first, ?_, fun node member => ?_, fun visit => ?_⟩
    · rw [nodesOfItems, others.files, own.files, filter_append]
      rfl
    · exact (mem_append.1 member).elim (others.regular node) (own.regular node)
    · -- The later children lie on top of the first one.
      rw [append_cons, append_assoc later]
      exact others.visit (own.visit visit)

theorem nodes_object (listed : get? fs "children" = some (.list xs)) :
    nodes (.object fs) = (nodesOfItems xs).map (ownNode fs ++ ·) := by
  rw [nodes, nodesOfFields_of_get? listed]
  cases nodesOfItems xs <;> rfl

theorem Regular.found (regular : Regular h) : ∃ seen, Found (nodes h) [h] seen := by
  induction regular with
  | @node fs type xs typed naive listed below ih =>
    obtain ⟨seen, found⟩ := found_items ih
    refine ⟨fs :: seen, ?_, fun node member => ?_, fun visit => .next listed (found.visit visit)⟩
    · rw [nodes_object listed, found.files, filter_cons, ownNode]
      cases isFile fs <;> rfl
    · rcases mem_cons.1 member with rfl | later
      · exact .node typed naive listed below
      · exact found.regular node later

/-! ## Another order of children -/

def filesOf (h : Value) : List Fields := (nodes h).toOption.getD []

theorem Regular.nodes_eq (regular : Regular h) : nodes h = .ok (filesOf h) := by
  obtain ⟨seen, found⟩ := regular.found
  rw [filesOf, found.files]
  rfl

theorem nodesOfItems_eq (each : ∀ x ∈ xs, Regular x) : nodesOfItems xs = .ok (xs.reverse.flatMap filesOf) := by
  induction xs with
  | nil => rfl
  | cons x xs ih =>
    rw [nodesOfItems, ih fun y member => each y (mem_cons_of_mem x member), (each x mem_cons_self).nodes_eq]
    simp [bind, Except.bind, pure, Except.pure]

theorem filesOf_object (listed : get? fs "children" = some (.list xs)) (each : ∀ x ∈ xs, Regular x) :
    filesOf (.object fs) = ownNode fs ++ xs.reverse.flatMap filesOf := by
  rw [filesOf, nodes_object listed, nodesOfItems_eq each]
  rfl

/-- One hierarchy comes from another one by putting the children of nodes in another order. -/
inductive Reordered : Value → Value → Prop
  | order {fs : Fields} {xs ys : List Value} (listed : get? fs "children" = some (.list xs)) (perm : xs.Perm ys) :
      Reordered (.object fs) (.object (set fs "children" (.list ys)))
  | inside {fs : Fields} {xs ys : List Value} {x y : Value}
      (listed : get? fs "children" = some (.list (xs ++ x :: ys))) (below : Reordered x y) :
      Reordered (.object fs) (.object (set fs "children" (.list (xs ++ y :: ys))))
  | trans {a b c : Value} (first : Reordered a b) (second : Reordered b c) : Reordered a c

theorem get?_set_children (fs : Fields) (v : Value) {name : String} (ne : name ≠ "children") :
    get? (set fs "children" v) name = get? fs name := by
  rw [get?_set, if_neg ne]

theorem Regular.set (regular : Regular (.object fs)) (each : ∀ y ∈ ys, Regular y) :
    Regular (.object (set fs "children" (.list ys))) := by
  cases regular with
  | node typed naive =>
    refine .node (by rwa [get?_set_children fs _ (by decide)]) ?_ (by rw [get?_set, if_pos rfl]) each
    rwa [modified, get?_set_children fs _ (by decide)]

theorem Regular.children (regular : Regular (.object fs)) (listed : get? fs "children" = some (.list xs)) :
    ∀ x ∈ xs, Regular x := by
  cases regular with
  | node _ _ listed' below =>
    cases listed.symm.trans listed'
    exact below

/-- What the statistics read of a file besides its name. -/
def facts (f : Fields) : String × Int × Option Int := (typeName f, size f, ticks? f)

theorem facts_ownNode_set (fs : Fields) (v : Value) :
    (ownNode (set fs "children" v)).map facts = (ownNode fs).map facts := by
  have read {name : String} (ne : name ≠ "children") := get?_set_children fs v ne
  have file : isFile (set fs "children" v) = isFile fs := by
    simp [isFile, nodeType, read (show "type" ≠ "children" by decide)]
  have same : facts (set fs "children" v) = facts fs := by
    simp [facts, typeName, size, ticks?, modified, read (show "type" ≠ "children" by decide),
      read (show "size" ≠ "children" by decide), read (show "modified" ≠ "children" by decide)]
  rw [ownNode, ownNode, file]
  split <;> simp [same]

theorem Reordered.keeps (same : Reordered h h') (regular : Regular h) :
    Regular h' ∧ ((filesOf h).map facts).Perm ((filesOf h').map facts) := by
  induction same with
  | @order fs xs ys listed perm =>
    have each := regular.children listed
    have each' : ∀ y ∈ ys, Regular y := fun y member => each y (perm.mem_iff.2 member)
    refine ⟨regular.set each', ?_⟩
    rw [filesOf_object listed each, filesOf_object (by rw [get?_set, if_pos rfl]) each', map_append,
      map_append, facts_ownNode_set]
    have turned : xs.reverse.Perm ys.reverse := xs.reverse_perm.trans (perm.trans ys.reverse_perm.symm)
    exact ((turned.flatMap_right filesOf).map facts).append_left _
  | @inside fs xs ys x y listed below ih =>
    have each := regular.children listed
    obtain ⟨new, perm⟩ := ih (each x (by simp))
    have each' : ∀ z ∈ xs ++ y :: ys, Regular z := fun z member => by
      rcases mem_append.1 member with early | late
      · exact each z (by simp [early])
      · rcases mem_cons.1 late with rfl | late
        · exact new
        · exact each z (by simp [late])
    refine ⟨regular.set each', ?_⟩
    rw [filesOf_object listed each, filesOf_object (by rw [get?_set, if_pos rfl]) each', map_append,
      map_append, facts_ownNode_set]
    simp only [reverse_append, reverse_cons, flatMap_append, flatMap_cons, flatMap_nil, append_nil, map_append]
    exact ((perm.append_left _).append_right _).append_left _
  | trans _ _ ih ih' =>
    obtain ⟨mid, perm⟩ := ih regular
    obtain ⟨last, perm'⟩ := ih' mid
    exact ⟨last, perm.trans perm'⟩

/-! ## The statistics -/

/-- What statistics tell about files: their number, the sum and the mean of their sizes, how often each type occurs, and
the first of the largest and of the newest ones. -/
structure Tells (files : List Fields) (stats : Value) : Prop where
  count : stats.get? "file_count" = some (.nat files.length)
  total : stats.get? "total_size_bytes" = some (.int (files.map size).sum)
  average : stats.get? "average_size_bytes" = some (.int ⌊((files.map size).sum : ℚ) / files.length⌋)
  types : ∀ type, stats.at? ["file_types", type] =
    if type ∈ files.map typeName then some (.nat ((files.map typeName).count type)) else none
  typed : ∃ counts : List (String × Nat), stats.get? "file_types" = some (.object (counts.map fun c => (c.1, .nat c.2))) ∧
    (counts.map (·.2)).sum = files.length
  largest : ∃ best, Leads (fun f => some (size f)) files best ∧ stats.get? "largest_file" = best.map fun f =>
    .object [("name", name f), ("type", .text (typeName f)), ("size_bytes", .int (size f))]
  newest : ∃ best, Leads ticks? files best ∧ stats.get? "newest_file" = best.map fun f =>
    .object [("name", name f), ("type", .text (typeName f)), ("modified", modified f)]

theorem tells_ofFiles (naive : ∀ f ∈ files, ∀ t ∈ changeTime? (modified f), t.offset = none) :
    ∃ stats, ofFiles files = .ok stats ∧ Tells files stats := by
  obtain ⟨found, listed, leads, -⟩ := leads_newest? files naive
  have large := leads_largest? files
  have names := unique_perm_dedup (files.map typeName)
  have sum : (files.map size).foldl (· + ·) 0 = (files.map size).sum := sum_eq_foldl.symm
  refine ⟨_, by rw [ofFiles, listed]; rfl, rfl, ?_, ?_, fun type => ?_, ⟨typeCounts files, rfl, ?_⟩,
    ⟨_, large, ?_⟩, ⟨_, leads, ?_⟩⟩
  · exact congrArg (fun n => some (int n)) sum
  · refine congrArg (fun n => some (int n)) ?_
    rw [sum, Int.fdiv_eq_ediv_of_nonneg _ (by omega), Rat.floor_intCast_div_natCast]
  · rw [at?_pair]
    rw [typeCounts, List.map_map]
    refine (get?_map (fun t => .nat ((files.map typeName).count t)) _ type).trans ?_
    simp [names.mem_iff]
  · rw [typeCounts, List.map_map, ← length_map typeName, ← sum_map_count_dedup_eq_length]
    exact (names.map _).sum_eq
  · cases largest? files <;> cases found <;> rfl
  · cases largest? files <;> cases found <;> rfl

/-- Statistics that differ in nothing but which of equal files they show. -/
structure Alike (a b : Value) : Prop where
  figures : ∀ key ∈ ["file_count", "total_size_bytes", "average_size_bytes"], a.get? key = b.get? key
  types : ∀ type, a.at? ["file_types", type] = b.at? ["file_types", type]
  largest : a.at? ["largest_file", "size_bytes"] = b.at? ["largest_file", "size_bytes"]
  newest : ((a.at? ["newest_file", "modified"]).bind changeTime?).map (·.ticks) =
    ((b.at? ["newest_file", "modified"]).bind changeTime?).map (·.ticks)

theorem Leads.mem {files : List Fields} (leads : Leads key files best) : ∀ k ∈ best.bind key, some k ∈ files.map key := by
  intro k top
  cases best with
  | none => cases top
  | some f =>
    obtain ⟨before, after, -, rfl, -⟩ := leads
    exact mem_map.2 ⟨f, by simp, top⟩

variable {files' : List Fields} {best' : Option Fields}

section

variable (leads : Leads key files best) (leads' : Leads key files' best')
  (perm : (files.map key).Perm (files'.map key))

include leads leads' perm

theorem Leads.mem_of_perm : ∀ k ∈ best.bind key, k ∈ best'.bind key := by
  intro k top
  obtain ⟨g, member, own⟩ := mem_map.1 (perm.mem_iff.1 (leads.mem k top))
  obtain ⟨j, top', le⟩ := leads'.le g member k own
  obtain ⟨f, member', own'⟩ := mem_map.1 (perm.mem_iff.2 (leads'.mem j top'))
  obtain ⟨i, again, ge⟩ := leads.le f member' j own'
  cases top.symm.trans again
  rwa [le_antisymm le ge]

theorem Leads.key_eq : best.bind key = best'.bind key :=
  ext fun k => ⟨leads.mem_of_perm leads' perm k, leads'.mem_of_perm leads perm.symm k⟩

end

theorem Tells.alike {stats' : Value} (tells : Tells files stats) (tells' : Tells files' stats')
    (perm : (files.map facts).Perm (files'.map facts)) : Alike stats stats' := by
  have types : (files.map typeName).Perm (files'.map typeName) := by simpa [facts, comp_def] using perm.map (·.1)
  have sizes : (files.map size).Perm (files'.map size) := by simpa [facts, comp_def] using perm.map (·.2.1)
  have times : (files.map ticks?).Perm (files'.map ticks?) := by simpa [facts, comp_def] using perm.map (·.2.2)
  have count : files.length = files'.length := by simpa using perm.length_eq
  obtain ⟨large, leads, shown⟩ := tells.largest
  obtain ⟨large', leads', shown'⟩ := tells'.largest
  obtain ⟨new, first, told⟩ := tells.newest
  obtain ⟨new', first', told'⟩ := tells'.newest
  refine ⟨?_, fun type => ?_, ?_, ?_⟩
  · simp only [mem_cons, not_mem_nil, or_false, forall_eq_or_imp, forall_eq]
    exact ⟨by rw [tells.count, tells'.count, count], by rw [tells.total, tells'.total, sizes.sum_eq],
      by rw [tells.average, tells'.average, sizes.sum_eq, count]⟩
  · simp [tells.types, tells'.types, types.mem_iff, types.count_eq]
  · have read (b : Option Fields) : (b.map fun f => object [("name", name f), ("type", .text (typeName f)),
        ("size_bytes", .int (size f))]).bind (·.get? "size_bytes") = (b.bind fun f => some (size f)).map .int := by
      cases b <;> rfl
    rw [at?_pair, at?_pair, shown, shown', read, read, leads.key_eq leads' (by simpa [comp_def] using sizes.map some)]
  · have read (b : Option Fields) : (((b.map fun f => object [("name", name f), ("type", .text (typeName f)),
        ("modified", modified f)]).bind (·.get? "modified")).bind changeTime?).map (·.ticks) = b.bind ticks? := by
      cases b <;> rfl
    rw [at?_pair, at?_pair, told, told', read, read, first.key_eq first' times]

theorem Regular.naive {fs : Fields} (regular : Regular (.object fs)) : ∀ t ∈ changeTime? (modified fs), t.offset = none := by
  cases regular with
  | node _ naive => exact naive

theorem isFile_iff {type : String} (typed : get? fs "type" = some (.text type)) :
    isFile fs ↔ type ≠ "" ∧ upper type ≠ "DIR" := by
  have empty : upper type = "" ↔ type = "" := ⟨fun none_ => by_contra fun some_ => upper_ne_empty some_ none_,
    by rintro rfl; rfl⟩
  simp [isFile, nodeType, typed, shown, empty]

/-- The statistics of a regular hierarchy are always taken.  They are those of the files among the nodes that a visit
with a stack lists, where every node counts whose type is neither empty nor, in capitals, the word for a directory.
In whatever other order children stand, they differ only in which of equals is shown. -/
theorem regular_file_stats (regular : Regular h) :
    ∃ seen stats, Visit [h] seen ∧ ofHierarchy h = .ok stats ∧ Tells (seen.filter isFile) stats ∧
      (∀ node ∈ seen, ∃ type, Fields.get? node "type" = some (.text type) ∧
        (isFile node = true ↔ type ≠ "" ∧ Text.upper type ≠ "DIR")) ∧
      ∀ h', Reordered h h' → ∃ stats', ofHierarchy h' = .ok stats' ∧ Alike stats stats' := by
  have taken {h : Value} (regular : Regular h) : ∃ stats, ofHierarchy h = .ok stats ∧ Tells (filesOf h) stats := by
    obtain ⟨seen, found⟩ := regular.found
    have files : filesOf h = seen.filter isFile := by rw [filesOf, found.files]; rfl
    have naive (f : Fields) (member : f ∈ filesOf h) :=
      (found.regular f (mem_of_mem_filter (files ▸ member))).naive
    obtain ⟨stats, made, tells⟩ := tells_ofFiles naive
    exact ⟨stats, by rw [ofHierarchy, regular.nodes_eq]; exact made, tells⟩
  obtain ⟨seen, found⟩ := regular.found
  obtain ⟨stats, made, tells⟩ := taken regular
  have files : filesOf h = seen.filter isFile := by rw [filesOf, found.files]; rfl
  refine ⟨seen, stats, by simpa using found.visit .done, made, files ▸ tells, fun node member => ?_, fun h' same => ?_⟩
  · cases found.regular node member with
    | node typed => exact ⟨_, typed, isFile_iff typed⟩
  · obtain ⟨regular', perm⟩ := same.keeps regular
    obtain ⟨stats', made', tells'⟩ := taken regular'
    exact ⟨stats', made', tells.alike tells' perm⟩

def dated (name type : String) (bytes : Int) : Value := .object [("name", .text name), ("type", .text type),
  ("size", .int bytes), ("modified", .text "2024-01-01"), ("children", .list [])]

def folder (children : List Value) : Value :=
  .object [("type", .text "DIR"), ("size", .int 0), ("children", .list children)]

/-- Two files of one size, of which the inner one is visited first or last. -/
theorem file_stats_of_equals :
    ∃ seen stats stats', Visit [folder [dated "a" "txt" 3, folder [dated "b" "Py" 3]]] seen ∧
      ofHierarchy (folder [dated "a" "txt" 3, folder [dated "b" "Py" 3]]) = .ok stats ∧
      Tells (seen.filter isFile) stats ∧
      ofHierarchy (folder [folder [dated "b" "Py" 3], dated "a" "txt" 3]) = .ok stats' ∧ Alike stats stats' := by
  have zoneless : ∀ t ∈ changeTime? (.text "2024-01-01"), t.offset = none := by
    rw [show changeTime? (.text "2024-01-01") = some ⟨63839664000000000, none⟩ by cbv]
    simp
  have file (name type : String) (bytes : Int) : Regular (dated name type bytes) :=
    .node rfl zoneless rfl (by simp)
  have dir {xs : List Value} (each : ∀ x ∈ xs, Regular x) : Regular (folder xs) :=
    .node rfl (fun t absurd_ => nomatch (absurd_ : none = some t)) rfl each
  have outer : Regular (folder [dated "a" "txt" 3, folder [dated "b" "Py" 3]]) := by
    refine dir fun x member => ?_
    simp only [mem_cons, not_mem_nil, or_false] at member
    rcases member with rfl | rfl
    · exact file _ _ _
    · exact dir (by simpa using file _ _ _)
  obtain ⟨seen, stats, visit, made, tells, -, alike⟩ := regular_file_stats outer
  obtain ⟨stats', made', same⟩ := alike (folder [folder [dated "b" "Py" 3], dated "a" "txt" 3]) (.order rfl (.swap ..))
  exact ⟨seen, stats, stats', visit, made, tells, made', same⟩

end Folio.Insight.FileStats
