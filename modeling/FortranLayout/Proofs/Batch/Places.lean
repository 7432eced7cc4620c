import FortranLayout.Selection

/-!
# Where files and their results are

A path that leads to a file ends in the name of the file, and what stands before it leads to the
directory of the file. The result in Fortran source has the name of the file with another extension,
so its place is given by the directory and the stem of the name alone:

* `Environment.eq_source_of_result?`: where a result can be written, it is written there.
* `Arguments.exists_file?_of_mem_files`: every selected path leads to a file.
* `Arguments.result?_eq_iff`: two files have the same place for their results exactly if they have
  the same stem.
-/

namespace FortranLayout

/-! ## Stems of names -/

namespace Path

/-- A name without its extension. -/
def stem (name : String) : String := String.ofList (cutName name.toList).1

theorem cutName_fst_ne_nil {name : List Char} (h : name ≠ []) : (cutName name).1 ≠ [] := by
  rw [cutName]
  split
  · simp
  · exact h

theorem stem_ne_empty {name : String} (h : name ≠ "") : stem name ≠ "" := by
  intro hs
  have hname : name.toList ≠ [] := by simpa using h
  exact cutName_fst_ne_nil hname (by simpa [stem] using congrArg String.toList hs)

/-- An extension without dots that is put behind a stem can be cut off again. -/
theorem cutName_append {s x : List Char} (hs : s ≠ []) (hx : '.' ∉ x) :
    cutName (s ++ '.' :: x) = (s, some x) := by
  have hx' : ∀ c ∈ x.reverse, decide (c ≠ '.') = true := by
    intro c hc
    have : c ≠ '.' := fun h => hx (h ▸ List.mem_reverse.mp hc)
    simpa using this
  have hreverse : (s ++ '.' :: x).reverse = x.reverse ++ '.' :: s.reverse := by simp
  obtain ⟨c, r, hr⟩ := List.exists_cons_of_ne_nil (List.reverse_ne_nil_iff.mpr hs)
  have hs' : s = r.reverse ++ [c] := by simpa using congrArg List.reverse hr
  rw [cutName, hreverse, List.dropWhile_append_of_pos hx', List.takeWhile_append_of_pos hx', hr]
  simp [hs']

theorem stem_append_extension {s : String} (hs : s ≠ "") : stem (s ++ ".F90") = s := by
  have htext : (s ++ ".F90").toList = s.toList ++ '.' :: ['F', '9', '0'] := by simp
  rw [stem, htext, cutName_append (by simpa using hs) (by decide)]
  simp

/-- The segments of a path with the extension of Fortran source. -/
theorem segments_withExtension {p : Path} {way : List String} {name : String}
    (h : p.segments = way ++ [name]) :
    (p.withExtension "F90").segments = way ++ [".."] ∨
      (p.withExtension "F90").segments = way ++ [stem name ++ ".F90"] := by
  have hname : p.name = name := by simp [Path.name, h]
  simp only [withExtension, h, hname, List.dropLast_concat, stem]
  split
  · exact Or.inl rfl
  · right
    simp [String.append_assoc, *]

/-- The place from which a path is followed. -/
def origin (p : Path) (start : List String) : List String := if p.isAbsolute then [] else start

theorem origin_join (p : Path) (name : String) (start : List String) :
    (p.join name).origin start = p.origin start := by
  have hjoin : (p.join name).isAbsolute = p.isAbsolute := by
    obtain ⟨segments⟩ := p
    match segments with
    | [] => simp [join, isAbsolute]
    | [x] => by_cases hx : x = "" <;> simp [join, isAbsolute, hx]
    | x :: y :: rest =>
      rw [join]
      split <;> simp [isAbsolute, List.dropLast_cons_of_ne_nil]
  rw [origin, origin, hjoin]

theorem origin_withExtension {p : Path} {way : List String} {name : String}
    (h : p.segments = way ++ [name]) (start : List String) :
    (p.withExtension "F90").origin start = p.origin start := by
  have hext : (p.withExtension "F90").isAbsolute = p.isAbsolute := by
    rcases segments_withExtension h with h' | h' <;> rw [isAbsolute, isAbsolute, h, h'] <;>
      cases way <;> simp
  rw [origin, origin, hext]

theorem segments_join (p : Path) (name : String) :
    ∃ way, (p.join name).segments = way ++ [name] := by
  rw [join]
  split
  · exact ⟨p.segments.dropLast, rfl⟩
  · exact ⟨p.segments, rfl⟩

end Path

/-! ## Stems of places -/

namespace Place

/-- The place of a file without the extension of its name. -/
def stem (p : Place) : Place := p.dropLast ++ (p.getLast?.map Path.stem).toList

/-- The place beside a file where Fortran source belongs. -/
def source (p : Place) : Place := p.dropLast ++ (p.getLast?.map (Path.stem · ++ ".F90")).toList

@[simp] theorem stem_concat (d : Place) (n : String) : stem (d ++ [n]) = d ++ [Path.stem n] := by
  simp [stem]

@[simp] theorem source_concat (d : Place) (n : String) :
    source (d ++ [n]) = d ++ [Path.stem n ++ ".F90"] := by
  simp [source]

/-- Files have the same place for their results exactly if they have the same stem. -/
theorem source_eq_source_iff (p q : Place) : source p = source q ↔ stem p = stem q := by
  rcases List.eq_nil_or_concat p with rfl | ⟨d, n, rfl⟩ <;>
    rcases List.eq_nil_or_concat q with rfl | ⟨d', m, rfl⟩
  · simp [source, stem]
  · simp [source, stem]
  · simp [source, stem]
  · simp only [List.concat_eq_append, source_concat, stem_concat, List.append_singleton_inj,
      String.append_left_inj]

/-- A result has the stem of its file. -/
theorem stem_source {d : Place} {n : String} (hn : n ≠ "") :
    stem (source (d ++ [n])) = stem (d ++ [n]) := by
  rw [source_concat, stem_concat, stem_concat, Path.stem_append_extension (Path.stem_ne_empty hn)]

end Place

/-! ## Directories -/

namespace FileTree

variable {t u : FileTree} {p q start : Place} {path : Path} {n s : String}

theorem isSome_contents?_iff : (t.contents? p).isSome ↔ ∃ f ∈ t.files, p = f.1 := by
  simp [contents?, List.lookup_isSome_iff]

theorem isDirectory_iff :
    t.isDirectory p ↔ p = [] ∨ (∃ d ∈ t.directories, p <+: d) ∨
      ∃ q, (t.contents? q).isSome ∧ p <+: q ∧ p.length < q.length := by
  have hfiles : (∃ f ∈ t.files, p <+: f.1 ∧ p.length < f.1.length) ↔
      ∃ q, (t.contents? q).isSome ∧ p <+: q ∧ p.length < q.length := by
    simp only [isSome_contents?_iff]
    exact ⟨fun ⟨f, hf, h⟩ => ⟨f.1, ⟨f, hf, rfl⟩, h⟩, fun ⟨_, ⟨f, hf, rfl⟩, h⟩ => ⟨f, hf, h⟩⟩
  rw [← hfiles]
  simp [isDirectory, or_assoc]

/-- What lies on the way to a directory is a directory. -/
theorem isDirectory_of_beginning (h : t.isDirectory q) (hp : p <+: q) : t.isDirectory p := by
  rw [isDirectory_iff] at h ⊢
  rcases h with rfl | ⟨d, hd, hq⟩ | ⟨f, hf, hq, hlt⟩
  · exact Or.inl (List.prefix_nil.mp hp)
  · exact Or.inr (Or.inl ⟨d, hd, hp.trans hq⟩)
  · exact Or.inr (Or.inr ⟨f, hf, hp.trans hq, Nat.lt_of_le_of_lt hp.length_le hlt⟩)

/-- A name that a file or a directory can have. -/
def IsName (n : String) : Prop := n ≠ "" ∧ n ≠ "." ∧ n ≠ ".." ∧ n.utf8ByteSize ≤ nameLimit

instance (n : String) : Decidable (IsName n) :=
  inferInstanceAs (Decidable (n ≠ "" ∧ n ≠ "." ∧ n ≠ ".." ∧ n.utf8ByteSize ≤ nameLimit))

/-- Every file has a place that a path can lead to, and none is a directory. -/
structure WellFormed (t : FileTree) : Prop where
  isName : ∀ f ∈ t.files, ∀ n ∈ f.1, IsName n
  not_isDirectory : ∀ f ∈ t.files, ¬ t.isDirectory f.1

/-- A file lies under its name in a directory. -/
theorem WellFormed.exists_concat (h : t.WellFormed) (hp : (t.contents? p).isSome) :
    ¬ t.isDirectory p ∧ ∃ d n, p = d ++ [n] ∧ IsName n := by
  obtain ⟨f, hf, rfl⟩ := isSome_contents?_iff.mp hp
  have hfile := h.not_isDirectory f hf
  refine ⟨hfile, ?_⟩
  rcases List.eq_nil_or_concat f.1 with hnil | ⟨d, n, hd⟩
  · rw [hnil, isDirectory_iff] at hfile
    exact absurd (Or.inl rfl) hfile
  · rw [List.concat_eq_append] at hd
    exact ⟨d, n, hd, h.isName f hf n (by simp [hd])⟩

/-! ## Following paths -/

theorem follow_of_isName (hp : t.isDirectory p) (hn : IsName n) :
    t.follow p n = some (p ++ [n]) := by
  obtain ⟨hempty, hdot, hdots, hsize⟩ := hn
  simp [follow, hp, hempty, hdot, hdots, Nat.not_lt.mpr hsize]

theorem eq_of_follow (hn : IsName n) (h : t.follow p n = some q) : q = p ++ [n] := by
  by_cases hp : t.isDirectory p
  · rw [follow_of_isName hp hn] at h
    exact (Option.some.inj h).symm
  · simp [follow, hp] at h

/-- A segment that leads to something else than a directory is a name in a directory. -/
theorem follow_eq_some (h : t.follow p n = some q) (hq : ¬ t.isDirectory q) :
    t.isDirectory p ∧ IsName n ∧ q = p ++ [n] := by
  rw [follow] at h
  split at h
  · cases h
  rename_i hcan
  obtain ⟨hp, hsize⟩ : t.isDirectory p ∧ n.utf8ByteSize ≤ nameLimit := by simpa using hcan
  split at h
  · cases h
    exact absurd hp hq
  rename_i hstep
  split at h
  · cases h
    have hlast := List.dropLast_prefix p
    exact absurd (isDirectory_of_beginning hp hlast) hq
  rename_i hdots
  cases h
  obtain ⟨hempty, hdot⟩ : n ≠ "" ∧ n ≠ "." := by simpa using hstep
  exact ⟨hp, ⟨hempty, hdot, hdots, hsize⟩, rfl⟩

/-- The place that segments lead to. -/
def lead? (t : FileTree) (p : Place) (segments : List String) : Option Place :=
  segments.foldlM t.follow p

theorem resolve?_eq (t : FileTree) (start : Place) (path : Path) :
    t.resolve? start path =
      if pathLimit < path.text.utf8ByteSize then none
      else t.lead? (path.origin start) path.segments := rfl

theorem lead?_of_resolve? (h : t.resolve? start path = some p) :
    t.lead? (path.origin start) path.segments = some p := by
  rw [resolve?_eq] at h
  split at h
  · cases h
  · exact h

theorem lead?_concat (t : FileTree) (p : Place) (way : List String) (n : String) :
    t.lead? p (way ++ [n]) = (t.lead? p way).bind (t.follow · n) := by
  simp [lead?, List.foldlM_append]

/-- A path that leads to something else than a directory ends in a name, after the way to a
directory. -/
theorem resolve?_concat {way : List String} (hpath : path.segments = way ++ [n])
    (h : t.resolve? start path = some p) (hp : ¬ t.isDirectory p) :
    ∃ d, t.lead? (path.origin start) way = some d ∧ t.isDirectory d ∧ IsName n ∧ p = d ++ [n] := by
  have h := lead?_of_resolve? h
  rw [hpath, lead?_concat] at h
  obtain ⟨d, hd, hlast⟩ := Option.bind_eq_some_iff.mp h
  exact ⟨d, hd, follow_eq_some hlast hp⟩

/-- Where paths lead depends on the directories only. -/
theorem resolve?_congr (h : u.isDirectory = t.isDirectory) : u.resolve? = t.resolve? := by
  have hfollow : u.follow = t.follow := by
    funext p n
    rw [follow, follow, h]
  funext start path
  rw [resolve?, resolve?, hfollow]

/-- A path that ends in a name is read alike in trees with the same directories and the same files
of that name. -/
theorem read?_join_congr (hdirectory : u.isDirectory = t.isDirectory) (hn : IsName n)
    (hcontents : ∀ d : Place, u.contents? (d ++ [n]) = t.contents? (d ++ [n])) (path : Path) :
    u.read? start (path.join n) = t.read? start (path.join n) := by
  rw [read?, read?, resolve?_congr hdirectory]
  cases hp : t.resolve? start (path.join n) with
  | none => rfl
  | some p =>
    obtain ⟨way, hway⟩ := path.segments_join n
    have hlead := lead?_of_resolve? hp
    rw [hway, lead?_concat] at hlead
    obtain ⟨d, -, hfollow⟩ := Option.bind_eq_some_iff.mp hlead
    rw [eq_of_follow hn hfollow]
    exact hcontents d

/-- A file that is put into a directory adds no directory. -/
theorem isDirectory_setFile {d : Place} (hd : t.isDirectory d) :
    ({ t with files := setFile (d ++ [n]) s t.files } : FileTree).isDirectory = t.isDirectory := by
  funext p
  refine Bool.eq_iff_iff.mpr ⟨fun h => ?_, fun h => ?_⟩
  · rcases isDirectory_iff.mp h with hp | hp | ⟨q, hq, hpq, hlt⟩
    · exact isDirectory_iff.mpr (Or.inl hp)
    · exact isDirectory_iff.mpr (Or.inr (Or.inl hp))
    · rw [contents?, lookup_setFile] at hq
      split at hq
      · rename_i hqd
        rw [hqd, List.prefix_concat_iff] at hpq
        rcases hpq with hpq | hpd
        · rw [hpq, hqd] at hlt
          exact absurd hlt (Nat.lt_irrefl _)
        · exact isDirectory_of_beginning hd hpd
      · exact isDirectory_iff.mpr (Or.inr (Or.inr ⟨q, hq, hpq, hlt⟩))
  · rcases isDirectory_iff.mp h with hp | hp | ⟨q, hq, hpq, hlt⟩
    · exact isDirectory_iff.mpr (Or.inl hp)
    · exact isDirectory_iff.mpr (Or.inr (Or.inl hp))
    · refine isDirectory_iff.mpr (Or.inr (Or.inr ⟨q, ?_, hpq, hlt⟩))
      rw [contents?, lookup_setFile]
      split
      · rfl
      · exact hq

/-! ## Walking through directories -/

theorem lead?_join {d : Place} (h : t.lead? (path.origin start) path.segments = some d)
    (hd : t.isDirectory d) (hn : IsName n) :
    t.lead? ((path.join n).origin start) (path.join n).segments = some (d ++ [n]) := by
  rw [Path.origin_join, Path.join]
  split
  · rename_i hlast
    obtain ⟨way, hway⟩ := List.getLast?_eq_some_iff.mp (eq_of_beq hlast)
    rw [hway, lead?_concat] at h
    obtain ⟨d', hd', hfollow⟩ := Option.bind_eq_some_iff.mp h
    have : d' = d := by
      rw [follow] at hfollow
      split at hfollow
      · cases hfollow
      · simpa using hfollow
    subst this
    simp only [hway, List.dropLast_concat, lead?_concat, hd']
    exact follow_of_isName hd hn
  · simp only [lead?_concat, h]
    exact follow_of_isName hd hn

/-- Names joined to the path of a directory lead on from there. -/
theorem lead?_foldl_join {d below : Place} (h : t.lead? (path.origin start) path.segments = some d)
    (hdirectory : ∀ q, q <+: d ++ below → q.length < (d ++ below).length → t.isDirectory q)
    (hbelow : ∀ n ∈ below, IsName n) :
    t.lead? ((below.foldl Path.join path).origin start) (below.foldl Path.join path).segments =
      some (d ++ below) := by
  induction below generalizing path d with
  | nil => simpa using h
  | cons n below ih =>
    have hd : t.isDirectory d := hdirectory d (List.prefix_append _ _) (by simp)
    have hsplit : d ++ n :: below = d ++ [n] ++ below := by simp
    rw [hsplit] at hdirectory ⊢
    exact ih (lead?_join h hd (hbelow n (by simp))) hdirectory
      fun m hm => hbelow m (List.mem_cons_of_mem _ hm)

/-- The paths that are found in a directory lead to files. -/
theorem exists_of_mem_walk {d : Place} {depth : Nat} {path p : Path} (ht : t.WellFormed)
    (hd : t.directory? start path = some d) (hp : p ∈ t.walk d path depth) :
    ∃ q, t.resolve? start p = some q ∧ (t.contents? q).isSome := by
  obtain ⟨hfound, hsize⟩ := List.mem_filter.mp hp
  obtain ⟨⟨file, text⟩, hfile, hpath⟩ := List.mem_filterMap.mp hfound
  obtain ⟨hbelow, hpath⟩ : (d.isPrefixOf file && 0 < (file.drop d.length).length &&
      (file.drop d.length).length ≤ depth) = true ∧
        (file.drop d.length).foldl Path.join path = p := by
    simpa only [Option.ite_none_right_eq_some, Option.some.injEq] using hpath
  have hprefix : d <+: file := by
    simpa using (Bool.and_eq_true_iff.mp (Bool.and_eq_true_iff.mp hbelow).1).1
  obtain ⟨below, rfl⟩ := hprefix
  rw [List.drop_left] at hpath
  have hcontents : (t.contents? (d ++ below)).isSome := isSome_contents?_iff.mpr ⟨_, hfile, rfl⟩
  obtain ⟨hresolve, -⟩ := Option.filter_eq_some_iff.mp hd
  have hlead : t.lead? (p.origin start) p.segments = some (d ++ below) := by
    rw [← hpath]
    refine lead?_foldl_join (lead?_of_resolve? hresolve) (fun q hq hlt => ?_)
      fun n hn => ht.isName _ hfile n (List.mem_append_right d hn)
    exact isDirectory_iff.mpr (Or.inr (Or.inr ⟨_, hcontents, hq, hlt⟩))
  refine ⟨d ++ below, ?_, hcontents⟩
  rw [resolve?_eq, if_neg (Nat.not_lt.mpr (of_decide_eq_true hsize)), hlead]

end FileTree

/-! ## Files and results of a run -/

namespace Environment

variable {e : Environment} {path : Path} {p r : Place}

/-- The file that a path leads to. -/
def file? (e : Environment) (path : Path) : Option Place :=
  (e.tree.resolve? e.here path).filter fun p => (e.tree.contents? p).isSome

/-- The place at which Fortran source for a path can be written. -/
def result? (e : Environment) (path : Path) : Option Place :=
  (e.tree.resolve? e.here (Emit.fortran.target path)).filter fun p => !e.tree.isDirectory p

/-- Where a result can be written, it is put beside the file, under the stem of its name. -/
theorem eq_source_of_result? (ht : e.tree.WellFormed) (hp : e.file? path = some p)
    (hr : e.result? path = some r) : r = p.source := by
  obtain ⟨hp, hcontents⟩ := Option.filter_eq_some_iff.mp hp
  obtain ⟨hr, hfree⟩ := Option.filter_eq_some_iff.mp hr
  obtain ⟨hfile, -⟩ := ht.exists_concat hcontents
  have hfree : ¬ e.tree.isDirectory r := by simpa using hfree
  rcases List.eq_nil_or_concat path.segments with hnil | ⟨way, n, hpath⟩
  · -- A path without segments leads to where the run takes place; there is no result beside a file.
    obtain ⟨m, hm⟩ : ∃ m, (Emit.fortran.target path).segments = [] ++ [m] :=
      ⟨_, by rw [Emit.target, Path.withExtension, hnil]; rfl⟩
    obtain ⟨d, hd, hdirectory, -⟩ := FileTree.resolve?_concat hm hr hfree
    have hp := FileTree.lead?_of_resolve? hp
    have horigin : path.origin e.here = (Emit.fortran.target path).origin e.here := by
      simp [Path.origin, Path.isAbsolute, hnil, hm]
    rw [hnil, horigin] at hp
    exact absurd (Option.some.inj (hp.symm.trans hd) ▸ hdirectory) hfile
  rw [List.concat_eq_append] at hpath
  obtain ⟨d, hd, -, -, rfl⟩ := FileTree.resolve?_concat hpath hp hfile
  rw [Place.source_concat]
  rw [← Path.origin_withExtension hpath] at hd
  rcases Path.segments_withExtension hpath with hdots | hname
  · obtain ⟨_, _, _, hn, _⟩ := FileTree.resolve?_concat hdots hr hfree
    exact absurd rfl hn.2.2.1
  · obtain ⟨d', hd', -, -, rfl⟩ := FileTree.resolve?_concat hname hr hfree
    rw [Option.some.inj (hd.symm.trans hd')]

/-- A result has the stem of its file. -/
theorem stem_of_result? (ht : e.tree.WellFormed) (hp : e.file? path = some p)
    (hr : e.result? path = some r) : r.stem = p.stem := by
  rw [eq_source_of_result? ht hp hr]
  obtain ⟨-, hcontents⟩ := Option.filter_eq_some_iff.mp hp
  obtain ⟨-, d, n, rfl, hn⟩ := ht.exists_concat hcontents
  exact Place.stem_source hn.1

variable {t : FileTree}

/-- Where a result can be written depends on the directories only. -/
theorem write?_target (hdirectory : t.isDirectory = e.tree.isDirectory) (text : String) :
    t.write? e.here (Emit.fortran.target path) text =
      (e.result? path).map fun p => { t with files := FileTree.setFile p text t.files } := by
  rw [FileTree.write?, result?, FileTree.resolve?_congr hdirectory, hdirectory]
  cases e.tree.resolve? e.here (Emit.fortran.target path) with
  | none => rfl
  | some p => cases hp : e.tree.isDirectory p <;> simp [Option.filter, hp]

/-- Where a result can be written, it can be read. -/
theorem read?_target (hdirectory : t.isDirectory = e.tree.isDirectory)
    (h : (e.result? path).isSome) :
    t.read? e.here (Emit.fortran.target path) = (e.result? path).bind t.contents? := by
  obtain ⟨r, hr⟩ := Option.isSome_iff_exists.mp h
  obtain ⟨hresolve, -⟩ := Option.filter_eq_some_iff.mp hr
  rw [FileTree.read?, FileTree.resolve?_congr hdirectory, hresolve, hr]

/-- A result that is written adds no directory. -/
theorem isDirectory_setFile_result? {text : String} (hr : e.result? path = some r)
    (hdirectory : t.isDirectory = e.tree.isDirectory) :
    ({ t with files := FileTree.setFile r text t.files } : FileTree).isDirectory =
      t.isDirectory := by
  obtain ⟨hr, hfree⟩ := Option.filter_eq_some_iff.mp hr
  have hpath : (Emit.fortran.target path).segments = path.segments.dropLast ++ [_] := rfl
  obtain ⟨d, -, hd, -, rfl⟩ := FileTree.resolve?_concat hpath hr (by simpa using hfree)
  exact FileTree.isDirectory_setFile (hdirectory ▸ hd)

end Environment

namespace Arguments

variable {a : Arguments} {e : Environment}

/-- Every selected path leads to a file. -/
theorem exists_file?_of_mem_files {path : Path} (ht : e.tree.WellFormed) (h : path ∈ a.files e) :
    ∃ p, e.file? path = some p := by
  obtain ⟨input, -, h⟩ := List.mem_flatMap.mp h
  rw [filesFor] at h
  split at h
  · rename_i hfile
    have hpath := (List.mem_filter.mp h).1
    rw [List.mem_singleton] at hpath
    subst hpath
    obtain ⟨text, htext⟩ := Option.isSome_iff_exists.mp hfile
    obtain ⟨p, hp, hcontents⟩ := Option.bind_eq_some_iff.mp htext
    exact ⟨p, Option.filter_eq_some_iff.mpr ⟨hp, by simp [hcontents]⟩⟩
  · split at h
    · cases h
    · rename_i d hd
      obtain ⟨p, hp, hcontents⟩ := FileTree.exists_of_mem_walk ht hd (List.mem_filter.mp h).1
      exact ⟨p, Option.filter_eq_some_iff.mpr ⟨hp, hcontents⟩⟩

/-- Selected files share a place for their results exactly if they share a stem. -/
theorem result?_eq_iff {p q : Path} (ht : e.tree.WellFormed) (hp : p ∈ a.files e)
    (hq : q ∈ a.files e) (hpr : (e.result? p).isSome) (hqr : (e.result? q).isSome) :
    e.result? p = e.result? q ↔ (e.file? p).map Place.stem = (e.file? q).map Place.stem := by
  obtain ⟨r, hr⟩ := Option.isSome_iff_exists.mp hpr
  obtain ⟨r', hr'⟩ := Option.isSome_iff_exists.mp hqr
  obtain ⟨f, hf⟩ := exists_file?_of_mem_files ht hp
  obtain ⟨f', hf'⟩ := exists_file?_of_mem_files ht hq
  rw [hr, hr', hf, hf', Environment.eq_source_of_result? ht hf hr,
    Environment.eq_source_of_result? ht hf' hr']
  simpa using Place.source_eq_source_iff f f'

end Arguments

end FortranLayout
