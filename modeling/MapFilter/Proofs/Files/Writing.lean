import MapFilter.Files.Tree
import Mathlib.Data.List.Basic
import Mathlib.Tactic.SplitIfs

/-!
# Writing a file

Writing a file changes what stands at one route, the one that the path leads to, and nothing else.

* `FileTree.Reaches`, `FileTree.node?_put_of_ne`: putting a file into a directory keeps every other route;
* `FileTree.walk_of_directories`: where a path leads to depends on the directories only;
* `FileTree.Writable`, `FileTree.exists_of_write`: when a file is written, and what is put where;
* `FileTree.Overwrites`, **`FileTree.overwrites_of_write`**.
-/

namespace MapFilter.FileTree

variable {t u : FileTree} {r s : Route} {name : String} {content : List UInt8} {path : String}

/-! ## What stands at a route -/

/-- The route is the top or the beginning of the route to something that is there. -/
def Reaches (t : FileTree) (r : Route) : Prop :=
  r = [] ∨ (∃ d ∈ t.directories, r <+: d) ∨ ∃ f ∈ t.files, r <+: f.1

theorem Reaches.of_isPrefix (h : t.Reaches r) (hs : s <+: r) : t.Reaches s := by
  obtain rfl | ⟨d, hd, hr⟩ | ⟨f, hf, hr⟩ := h
  · exact .inl (List.prefix_nil.1 hs)
  · exact .inr (.inl ⟨d, hd, hs.trans hr⟩)
  · exact .inr (.inr ⟨f, hf, hs.trans hr⟩)

theorem node?_eq_file_iff :
    t.node? r = some (.file content) ↔ t.files.lookup r = some content := by
  unfold node?
  cases t.files.lookup r with
  | some c => simp
  | none => simp

theorem node?_eq_directory_iff :
    t.node? r = some .directory ↔ t.files.lookup r = none ∧ t.Reaches r := by
  unfold node? Reaches
  cases t.files.lookup r with
  | some c => simp
  | none =>
    dsimp only
    split_ifs with h
    · simpa using h
    · simpa using h

theorem lookup_put_self : (t.put r content).files.lookup r = some content := by
  simp [put]

theorem lookup_put_of_ne (h : s ≠ r) : (t.put r content).files.lookup s = t.files.lookup s := by
  have hs : (s == r) = false := by simpa using h
  rw [put, List.lookup_cons, hs]
  induction t.files with
  | nil => rfl
  | cons f l ih =>
    by_cases hf : f.1 = r
    · -- the file that is replaced is another one
      rw [List.filter_cons_of_neg (by simpa using hf), List.lookup_cons, hf, hs]
      exact ih
    · rw [List.filter_cons_of_pos (by simpa using hf), List.lookup_cons, List.lookup_cons, ← ih]

/-- What is above a new file is the directory that holds it, or above that. -/
theorem reaches_put_iff (hr : t.Reaches r) (h : s ≠ r ++ [name]) :
    (t.put (r ++ [name]) content).Reaches s ↔ t.Reaches s := by
  constructor
  · rintro (hs | hs | ⟨f, hf, hs⟩)
    · exact .inl hs
    · exact .inr (.inl hs)
    · rcases List.mem_cons.1 hf with rfl | hf
      · exact hr.of_isPrefix ((List.prefix_concat_iff.1 hs).resolve_left h)
      · exact .inr (.inr ⟨f, (List.mem_filter.1 hf).1, hs⟩)
  · rintro (hs | hs | ⟨f, hf, hs⟩)
    · exact .inl hs
    · exact .inr (.inl hs)
    · by_cases hn : f.1 = r ++ [name]
      · exact .inr (.inr ⟨_, List.mem_cons_self, hn ▸ hs⟩)
      · have hm : f ∈ t.files.filter (·.1 != r ++ [name]) :=
          List.mem_filter.2 ⟨hf, bne_iff_ne.2 hn⟩
        exact .inr (.inr ⟨f, List.mem_cons_of_mem _ hm, hs⟩)

/-- A file in a directory that is there changes nothing at any other route. -/
theorem node?_put_of_ne (hr : t.node? r = some .directory) (h : s ≠ r ++ [name]) :
    (t.put (r ++ [name]) content).node? s = t.node? s := by
  ext n
  cases n with
  | file c => rw [node?_eq_file_iff, node?_eq_file_iff, lookup_put_of_ne h]
  | directory =>
    rw [node?_eq_directory_iff, node?_eq_directory_iff, lookup_put_of_ne h,
      reaches_put_iff (node?_eq_directory_iff.1 hr).2 h]

/-! ## Where a path leads -/

theorem walk_append (t : FileTree) (r : Route) (xs ys : List String) :
    t.walk r (xs ++ ys) = (t.walk r xs).bind fun s => t.walk s ys := by
  fun_induction walk t r xs with
  | case1 r => rfl
  | case2 r x xs hr =>
    simp only [List.cons_append, walk, hr]
    rfl
  | case3 r x xs c hr =>
    simp only [List.cons_append, walk, hr]
    rfl
  | case4 r x xs hr hx ih => simp only [List.cons_append, walk, hr, if_pos hx, ih]
  | case5 r xs hr hx ih => simp only [List.cons_append, walk, hr, if_neg hx, if_true, ih]
  | case6 r x xs hr hx hy hz =>
    simp only [List.cons_append, walk, hr, if_neg hx, if_neg hy, if_pos hz]
    rfl
  | case7 r x xs hr hx hy hz ih =>
    simp only [List.cons_append, walk, hr, if_neg hx, if_neg hy, if_neg hz, ih]

/-- A tree that has the same directories leads a path to the same route. -/
theorem walk_of_directories (hu : ∀ p, t.node? p = some .directory → u.node? p = some .directory)
    {xs : List String} (h : t.walk r xs = .ok s) : u.walk r xs = .ok s := by
  fun_induction walk t r xs with
  | case1 r => exact h
  | case2 r x xs hr => cases h
  | case3 r x xs c hr => cases h
  | case4 r x xs hr hx ih => simpa only [walk, hu _ hr, if_pos hx] using ih h
  | case5 r xs hr hx ih => simpa only [walk, hu _ hr, if_neg hx, if_true] using ih h
  | case6 r x xs hr hx hy hz => cases h
  | case7 r x xs hr hx hy hz ih =>
    simpa only [walk, hu _ hr, if_neg hx, if_neg hy, if_neg hz] using ih h

/-- What is left of a list of names without the empty ones at its end. -/
theorem reverse_dropWhile_reverse {xs : List String} (h : xs.getLast? ≠ some "") :
    (xs.reverse.dropWhile (· == "")).reverse = xs := by
  rw [List.getLast?_eq_head?_reverse] at h
  cases hx : xs.reverse with
  | nil => simpa using hx.symm
  | cons x l =>
    rw [hx] at h
    rw [List.dropWhile_cons_of_neg (by simpa using h), ← hx, List.reverse_reverse]

/-! ## Writing -/

/-- What a path and a tree are like when a file is written: it goes under the name to the directory
at the route. -/
structure Writable (t : FileTree) (path : String) (r : Route) (name : String) : Prop where
  fault_eq : pathFault? path = none
  parts_eq : parts path = (parts path).dropLast ++ [name]
  walk_eq : t.walk (t.start path) (parts path).dropLast = .ok r
  directory : t.node? r = some .directory
  name_ok : ¬(name = "" ∨ name = ".") ∧ name ≠ ".." ∧ ¬maxName < name.utf8ByteSize
  target : t.node? (r ++ [name]) ≠ some .directory

theorem exists_of_write (h : t.write path content = .ok u) :
    ∃ r name, t.Writable path r name ∧ u = t.put (r ++ [name]) content := by
  unfold write at h
  simp only [bind, Except.bind, pure, Except.pure, throw, throwThe, MonadExceptOf.throw] at h
  split at h
  · cases h
  rename_i hf
  split at h
  · cases h
  rename_i r hw
  split at h
  · cases h
  · cases h
  · cases h
  rename_i name hd hn
  split_ifs at h with hx hs
  -- the path does not end with a slash, so its last part is the name
  have hp := reverse_dropWhile_reverse fun he => hx (.inr (.inr he))
  rw [hp] at hw hn
  have hl := List.dropLast_append_getLast? name hn
  split at h
  · cases h
  rename_i ht
  have hf' : pathFault? path = none := Option.eq_none_iff_forall_ne_some.2 hf
  refine ⟨r, name, ⟨hf', hl.symm, hw, hd, ⟨?_, ?_, hs⟩, ht⟩, (Except.ok.inj h).symm⟩
  · rintro (rfl | rfl)
    · exact hx (.inr (.inr hn))
    · exact hx (.inl rfl)
  · rintro rfl
    exact hx (.inr (.inl rfl))

theorem read_of_walk (hf : pathFault? path = none)
    (hw : t.walk (t.start path) (parts path) = .ok r) (hr : t.node? r = some (.file content)) :
    t.read path = .ok content := by
  simp only [read, hf, hw, bind, Except.bind, hr]
  rfl

/-- `u` is `t` but for one file: the path leads to it, and the content is read there. -/
def Overwrites (t u : FileTree) (path : String) (content : List UInt8) : Prop :=
  u.directory = t.directory ∧ u.read path = .ok content ∧
    ∃ r, u.walk (u.start path) (parts path) = .ok r ∧ ∀ s, s ≠ r → u.node? s = t.node? s

/-- **Writing changes one file.** -/
theorem overwrites_of_write (h : t.write path content = .ok u) : t.Overwrites u path content := by
  obtain ⟨r, name, hw, rfl⟩ := exists_of_write h
  have hn : ∀ s, s ≠ r ++ [name] → (t.put (r ++ [name]) content).node? s = t.node? s :=
    fun s hs => node?_put_of_ne hw.directory hs
  have hu : ∀ s, t.node? s = some .directory →
      (t.put (r ++ [name]) content).node? s = some .directory :=
    fun s hs => (hn s fun he => hw.target (he ▸ hs)).trans hs
  have hp : (t.put (r ++ [name]) content).walk (t.start path) (parts path) =
      .ok (r ++ [name]) := by
    rw [hw.parts_eq, walk_append, walk_of_directories hu hw.walk_eq]
    simp only [Except.bind, walk, hu r hw.directory, if_neg hw.name_ok.1, if_neg hw.name_ok.2.1,
      if_neg hw.name_ok.2.2]
  exact ⟨rfl, read_of_walk hw.fault_eq hp (node?_eq_file_iff.2 lookup_put_self), _, hp, hn⟩

end MapFilter.FileTree
