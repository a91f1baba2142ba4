import OffsideBench.Proofs.Files.Writing

/-!
# Paths to directories

A path that leads to a directory passes directories and links only (`FileTree.Enters`). So it leads
to the same directory for every purpose, in every tree that keeps what stood on its way, and a name
behind it is looked up in that directory.
-/

namespace OffsideBench

namespace FileTree

variable {tree tree' : FileTree} {purpose : Purpose} {links : Nat} {start place : Place}
  {name : Name} {names : List Name}

/-- A name that can stand in a directory and is short enough for one. -/
structure IsProper (name : Name) : Prop where
  ne_nil : name ≠ []
  ne_here : name ≠ Path.here
  ne_above : name ≠ Path.above
  short : name.length ≤ nameLimit

instance (name : Name) : Decidable (IsProper name) :=
  decidable_of_iff
    (name ≠ [] ∧ name ≠ Path.here ∧ name ≠ Path.above ∧ name.length ≤ nameLimit)
    ⟨fun ⟨hnil, hhere, habove, hshort⟩ => ⟨hnil, hhere, habove, hshort⟩,
      fun h => ⟨h.ne_nil, h.ne_here, h.ne_above, h.short⟩⟩

theorem IsProper.of_not (hstay : ¬ (name = [] ∨ name = Path.here)) (habove : name ≠ Path.above)
    (hlong : ¬ nameLimit < name.length) : IsProper name :=
  ⟨fun h => hstay (.inl h), fun h => hstay (.inr h), habove, Nat.not_lt.1 hlong⟩

/-- Following the names from `start` leads to the directory at `place`, over at most `links` symbolic
links. -/
inductive Enters (tree : FileTree) : Nat → Place → List Name → Place → Prop
  | done {links : Nat} {place : Place} (hentry : tree.entry? place = some .directory) :
      Enters tree links place [] place
  | stay {links : Nat} {start place : Place} {name : Name} {names : List Name}
      (hname : name = [] ∨ name = Path.here) (hrest : Enters tree links start names place) :
      Enters tree links start (name :: names) place
  | above {links : Nat} {start place : Place} {names : List Name}
      (hrest : Enters tree links start.dropLast names place) :
      Enters tree links start (Path.above :: names) place
  | down {links : Nat} {start place : Place} {name : Name} {names : List Name}
      (hname : IsProper name) (hentry : tree.entry? (start ++ [name]) = some .directory)
      (hrest : Enters tree links (start ++ [name]) names place) :
      Enters tree links start (name :: names) place
  | link {links : Nat} {start place : Place} {name : Name} {names : List Name} {target : Path}
      (hname : IsProper name) (hentry : tree.entry? (start ++ [name]) = some (.link target))
      (hrest : Enters tree links (if target.isAbsolute then [] else start)
        (target.steps ++ names) place) :
      Enters tree (links + 1) start (name :: names) place

/-! ## Steps of a path -/

theorem locate_stay (hname : name = [] ∨ name = Path.here) :
    tree.locate purpose links start (name :: names) = tree.locate purpose links start names := by
  rw [locate, if_pos hname]

theorem locate_above : tree.locate purpose links start (Path.above :: names) =
    tree.locate purpose links start.dropLast names := by
  rw [locate, if_neg (by decide), if_pos rfl]

theorem locate_down (hname : IsProper name) (hwrite : ¬ (purpose = .write ∧ names = [[]]))
    (hentry : tree.entry? (start ++ [name]) = some .directory) :
    tree.locate purpose links start (name :: names) =
      tree.locate purpose links (start ++ [name]) names := by
  rw [locate, if_neg (not_or.2 ⟨hname.ne_nil, hname.ne_here⟩), if_neg hname.ne_above,
    if_neg hwrite, if_neg (Nat.not_lt.2 hname.short)]
  simp only [hentry]

theorem locate_link {target : Path} (hname : IsProper name)
    (hwrite : ¬ (purpose = .write ∧ names = [[]]))
    (hentry : tree.entry? (start ++ [name]) = some (.link target))
    (hmake : ¬ (purpose = .make ∧ purpose.isLast names = true)) :
    tree.locate purpose (links + 1) start (name :: names) =
      tree.locate purpose links (if target.isAbsolute then [] else start)
        (target.steps ++ names) := by
  rw [locate, if_neg (not_or.2 ⟨hname.ne_nil, hname.ne_here⟩), if_neg hname.ne_above,
    if_neg hwrite, if_neg (Nat.not_lt.2 hname.short)]
  simp only [hentry, if_neg hmake]

theorem locate_link_last {target : Path} (hname : IsProper name)
    (hentry : tree.entry? (start ++ [name]) = some (.link target))
    (hlast : Purpose.make.isLast names = true) :
    tree.locate .make links start (name :: names) = .ok (.entry (start ++ [name]) (.link target)) := by
  rw [locate, if_neg (not_or.2 ⟨hname.ne_nil, hname.ne_here⟩), if_neg hname.ne_above,
    if_neg (by simp), if_neg (Nat.not_lt.2 hname.short)]
  simp only [hentry, hlast, and_self, if_true]

theorem locate_absent (hname : IsProper name) (hentry : tree.entry? (start ++ [name]) = none) :
    tree.locate purpose links start [name] = .ok (.missing (start ++ [name])) := by
  rw [locate, if_neg (not_or.2 ⟨hname.ne_nil, hname.ne_here⟩), if_neg hname.ne_above,
    if_neg (by simp), if_neg (Nat.not_lt.2 hname.short)]
  simp only [hentry]
  exact if_pos rfl

/-! ## Paths to directories -/

theorem enters_of_locate
    (h : tree.locate .look links start names = .ok (.entry place .directory)) :
    Enters tree links start names place := by
  fun_induction locate tree .look links start names with
  | case1 =>
    rename_i hentry
    cases h
    exact .done hentry
  | case3 _ _ _ _ hname ih => exact .stay hname (ih h)
  | case4 _ _ _ _ ih => exact .above (ih h)
  | case9 _ _ _ _ hstay habove _ hlong _ hentry ih =>
    exact .down (.of_not hstay habove hlong) hentry (ih h)
  | case10 => simp at h
  | case12 => simp at h
  | case14 _ _ _ hstay habove _ hlong _ _ hentry _ _ _ ih =>
    refine .link (.of_not hstay habove hlong) hentry ?_
    rw [← dite_eq_ite]
    exact ih h
  | _ => cases h

namespace Enters

/-- Looking at the path finds the directory. -/
theorem locate_look (h : Enters tree links start names place) :
    tree.locate .look links start names = .ok (.entry place .directory) := by
  induction h with
  | done hentry => rw [locate, hentry]
  | stay hname _ ih => rw [locate_stay hname, ih]
  | above _ ih => rw [locate_above, ih]
  | down hname hentry _ ih => rw [locate_down hname (by simp) hentry, ih]
  | link hname hentry _ ih => rw [locate_link hname (by simp) hentry (by simp), ih]

/-- Making the directory finds it, or the link at the end of the path. -/
theorem locate_make (h : Enters tree links start names place) :
    ∃ found e, tree.locate .make links start names = .ok (.entry found e) := by
  induction h with
  | @done links place hentry => exact ⟨place, .directory, by rw [locate, hentry]⟩
  | stay hname _ ih => rwa [locate_stay hname]
  | above _ ih => rwa [locate_above]
  | down hname hentry _ ih => rwa [locate_down hname (by simp) hentry]
  | @link links start place name names target hname hentry _ ih =>
    -- a link behind which nothing stands is found itself, all others are followed
    by_cases hlast : Purpose.make.isLast names = true
    · exact ⟨_, _, locate_link_last hname hentry hlast⟩
    · rwa [locate_link hname (by simp) hentry (by simpa using hlast)]

/-- A name that is absent from the directory is found to be missing there. -/
theorem locate_write (h : Enters tree links start names place) (hname : IsProper name)
    (habsent : tree.entry? (place ++ [name]) = none) :
    tree.locate .write links start (names ++ [name]) = .ok (.missing (place ++ [name])) := by
  have hnames : ∀ names, ¬ (Purpose.write = .write ∧ names ++ [name] = [[]]) := by
    rintro names ⟨-, hsame⟩
    exact hname.ne_nil (List.singleton_inj.1 (List.append_eq_singleton_iff.1 hsame |>.elim
      (fun h => h.2) (fun h => absurd h.2 (by simp))))
  induction h with
  | done hentry => exact locate_absent hname habsent
  | stay hstay _ ih => rw [List.cons_append, locate_stay hstay, ih habsent]
  | above _ ih => rw [List.cons_append, locate_above, ih habsent]
  | down hproper hentry _ ih =>
    rw [List.cons_append, locate_down hproper (hnames _) hentry, ih habsent]
  | link hproper hentry _ ih =>
    rw [List.cons_append, locate_link hproper (hnames _) hentry (by simp), ← List.append_assoc,
      ih habsent]

/-- The way stays open while nothing on it is lost. -/
theorem mono (h : Enters tree links start names place)
    (hkept : ∀ q e, tree.entry? q = some e → tree'.entry? q = some e) :
    Enters tree' links start names place := by
  induction h with
  | done hentry => exact .done (hkept _ _ hentry)
  | stay hname _ ih => exact .stay hname ih
  | above _ ih => exact .above ih
  | down hname hentry _ ih => exact .down hname (hkept _ _ hentry) ih
  | link hname hentry _ ih => exact .link hname (hkept _ _ hentry) ih

theorem dropSlash {all : List Name} (h : Enters tree links start all place)
    (hall : all = names ++ [[]]) : Enters tree links start names place := by
  -- a slash at the end puts an empty name behind all others, and that stays where it is
  induction h generalizing names with
  | done => simp at hall
  | stay hname hrest ih =>
    rcases names with _ | ⟨first, names⟩
    · obtain ⟨-, rfl⟩ := List.cons.inj hall
      exact hrest
    · obtain ⟨rfl, rfl⟩ := List.cons.inj hall
      exact .stay hname (ih rfl)
  | above _ ih =>
    rcases names with _ | ⟨first, names⟩
    · cases (List.cons.inj hall).1
    · obtain ⟨rfl, rfl⟩ := List.cons.inj hall
      exact .above (ih rfl)
  | down hname hentry _ ih =>
    rcases names with _ | ⟨first, names⟩
    · exact absurd (List.cons.inj hall).1 hname.ne_nil
    · obtain ⟨rfl, rfl⟩ := List.cons.inj hall
      exact .down hname hentry (ih rfl)
  | link hname hentry _ ih =>
    rcases names with _ | ⟨first, names⟩
    · exact absurd (List.cons.inj hall).1 hname.ne_nil
    · obtain ⟨rfl, rfl⟩ := List.cons.inj hall
      exact .link hname hentry (ih (List.append_assoc _ _ _).symm)

end Enters

end FileTree

/-! ## Names in a directory -/

namespace Path

theorem split_ne_nil (p : Path) : split p ≠ [] := by
  cases p with
  | nil => simp [split]
  | cons b bs =>
    unfold split
    split
    · exact List.cons_ne_nil _ _
    · split <;> exact List.cons_ne_nil _ _

theorem split_append_slash (p q : Path) : split (p ++ slash :: q) = split p ++ split q := by
  induction p with
  | nil => rfl
  | cons b bs ih =>
    rw [List.cons_append, split, split, ih]
    by_cases hb : b = slash
    · rw [if_pos hb, if_pos hb]
      rfl
    · rw [if_neg hb, if_neg hb]
      obtain ⟨first, rest, hsplit⟩ := List.exists_cons_of_ne_nil (split_ne_nil bs)
      rw [hsplit]
      rfl

theorem names_append_slash (p q : Path) : names (p ++ slash :: q) = names p ++ names q := by
  rw [names, split_append_slash, List.filter_append]
  rfl

theorem split_name {name : Name} (h : slash ∉ name) : split name = [name] := by
  induction name with
  | nil => rfl
  | cons b bs ih =>
    obtain ⟨hb, hbs⟩ := not_or.1 (mt List.mem_cons.2 h)
    rw [split, if_neg (Ne.symm hb), ih hbs]

theorem names_name {name : Name} (hne : name ≠ []) (h : slash ∉ name) : names name = [name] := by
  rw [names, split_name h]
  exact List.filter_cons_of_pos (decide_eq_true hne)

theorem steps_name {name : Name} (hne : name ≠ []) (h : slash ∉ name) : steps name = [name] := by
  have hends : endsInSlash name = false :=
    beq_eq_false_iff_ne.2 fun hlast => h (List.mem_of_getLast? hlast)
  rw [steps, names_name hne h, hends, if_neg Bool.false_ne_true, List.append_nil]

theorem endsInSlash_append {name : Name} (hne : name ≠ []) (h : slash ∉ name) (p : Path) :
    (p ++ name).endsInSlash = false := by
  rw [endsInSlash, List.getLast?_append_of_ne_nil p hne]
  refine beq_eq_false_iff_ne.2 fun hlast => h ?_
  exact List.mem_of_getLast? hlast

theorem isAbsolute_append {p : Path} (hne : p ≠ []) (q : Path) :
    (p ++ q).isAbsolute = p.isAbsolute := by
  obtain ⟨b, bs, rfl⟩ := List.exists_cons_of_ne_nil hne
  rfl

theorem isAbsolute_name {name : Name} (h : slash ∉ name) : Path.isAbsolute name = false :=
  beq_eq_false_iff_ne.2 fun hhead => h (List.mem_of_head? hhead)

theorem not_mem_join {dir : Path} {name : Name} (hslash : slash ∉ name) (hdir : 0 ∉ dir)
    (hname : 0 ∉ name) : 0 ∉ dir.join name := by
  have hbyte : (0 : UInt8) ≠ slash := by decide
  unfold join
  rw [isAbsolute_name hslash, if_neg Bool.false_ne_true]
  split
  · simp [hdir, hname]
  · simp [hdir, hname, hbyte]

section Join

variable {dir : Path} {name : Name} (hdir : dir ≠ []) (hne : name ≠ []) (hslash : slash ∉ name)
include hdir hne hslash

/-- A name in a directory stands behind those of the directory. -/
theorem join_eq : ∃ p : Path, dir.join name = p ++ name ∧ p ≠ [] ∧ p.isAbsolute = dir.isAbsolute ∧
    (p ++ name).names = dir.names ++ [name] := by
  unfold join
  rw [isAbsolute_name hslash, if_neg Bool.false_ne_true]
  by_cases hends : dir.endsInSlash = true
  · obtain ⟨p, rfl⟩ := List.getLast?_eq_some_iff.1 (eq_of_beq hends)
    refine ⟨p ++ [slash], by rw [if_pos (.inr hends)], hdir, rfl, ?_⟩
    have hnames : names (p ++ [slash]) = names p ++ names [] := names_append_slash p []
    rw [hnames, List.append_assoc, List.singleton_append, names_append_slash,
      names_name hne hslash]
    exact congrArg (· ++ [name]) (List.append_nil _).symm
  · refine ⟨dir ++ [slash], ?_, by simp, isAbsolute_append hdir _, ?_⟩
    · rw [if_neg (not_or.2 ⟨hdir, hends⟩), List.append_assoc, List.singleton_append]
    · rw [List.append_assoc, List.singleton_append, names_append_slash, names_name hne hslash]

theorem steps_join : (dir.join name).steps = dir.names ++ [name] := by
  obtain ⟨p, hp, -, -, hnames⟩ := join_eq hdir hne hslash
  rw [hp, steps, hnames, endsInSlash_append hne hslash, if_neg Bool.false_ne_true, List.append_nil]

theorem isAbsolute_join : (dir.join name).isAbsolute = dir.isAbsolute := by
  obtain ⟨p, hp, hpne, habsolute, -⟩ := join_eq hdir hne hslash
  rw [hp, isAbsolute_append hpne, habsolute]

end Join

end Path

namespace FileTree

variable {tree tree' : FileTree} {dir : Path} {place : Place} {name : Name}

/-! ## Directories and what is written into them -/

/-- What it means that a path leads to a directory. -/
structure Opens (tree : FileTree) (dir : Path) (place : Place) : Prop where
  noNull : 0 ∉ dir
  ne_nil : dir ≠ []
  short : dir.length ≤ pathLimit
  enters : Enters tree linkLimit (if dir.isAbsolute then [] else tree.current) dir.steps place

theorem opens_iff : Opens tree dir place ↔ tree.find .look dir = .ok (.entry place .directory) := by
  constructor
  · intro h
    rw [find, if_neg h.noNull, if_neg h.ne_nil, if_neg (Nat.not_lt.2 h.short)]
    exact h.enters.locate_look
  · intro h
    unfold find at h
    split at h
    · cases h
    split at h
    · cases h
    split at h
    · cases h
    rename_i hnull hnil hlong
    exact ⟨hnull, hnil, Nat.not_lt.1 hlong, enters_of_locate h⟩

theorem Opens.enters_names (h : Opens tree dir place) :
    Enters tree linkLimit (if dir.isAbsolute then [] else tree.current) dir.names place := by
  have henters := h.enters
  rw [Path.steps] at henters
  by_cases hends : dir.endsInSlash = true
  · rw [if_pos hends] at henters
    exact henters.dropSlash rfl
  · rwa [if_neg hends, List.append_nil] at henters

theorem Opens.mono (h : Opens tree dir place) (hcurrent : tree'.current = tree.current)
    (hkept : ∀ q e, tree.entry? q = some e → tree'.entry? q = some e) : Opens tree' dir place :=
  ⟨h.noNull, h.ne_nil, h.short, by rw [hcurrent]; exact h.enters.mono hkept⟩

theorem Opens.makeDirectories (h : Opens tree dir place) : tree.makeDirectories dir = .ok tree := by
  have hdirectory : tree.isDirectory dir = true := by
    rw [isDirectory, opens_iff.1 h]
  have hmake : tree.makeDirectory dir = .error .alreadyExists := by
    obtain ⟨found, e, hfound⟩ := h.enters.locate_make
    rw [makeDirectory, find, if_neg h.noNull, if_neg h.ne_nil, if_neg (Nat.not_lt.2 h.short),
      hfound]
  -- what exists already is looked at again, and is a directory
  have hensure : FileM.makeDirectories dir tree = (.ok (), tree) := by
    have hget : (get : FileM FileTree) tree = (.ok tree, tree) := rfl
    rw [FileM.makeDirectories, FileM.ensureDirectories, bind_of_ok hget, if_neg h.ne_nil, hmake]
    simp only
    rw [if_pos hdirectory]
    rfl
  exact FileM.outcome_of_ok hensure

/-- A name alone is looked up in the current directory. -/
theorem find_name (hname : IsProper name) (hslash : Path.slash ∉ name) (hnull : 0 ∉ name) :
    tree.find purpose name = tree.locate purpose linkLimit tree.current [name] := by
  have hshort : name.length ≤ pathLimit := Nat.le_trans hname.short (by decide)
  rw [find, if_neg hnull, if_neg hname.ne_nil, if_neg (Nat.not_lt.2 hshort),
    Path.isAbsolute_name hslash, if_neg Bool.false_ne_true, Path.steps_name hname.ne_nil hslash]

/-- A directory in the current one is opened by its name. -/
theorem Opens.of_name (hname : IsProper name) (hslash : Path.slash ∉ name) (hnull : 0 ∉ name)
    (hentry : tree.entry? (tree.current ++ [name]) = some .directory) :
    Opens tree name (tree.current ++ [name]) := by
  rw [opens_iff, find_name hname hslash hnull, locate_down hname (by simp) hentry, locate, hentry]

/-- A walk from a directory meets what lies below it. -/
theorem Opens.walk (h : Opens tree dir place) : tree.walk dir = tree.walkBelow [] dir place := by
  rw [FileTree.walk, opens_iff.1 h]

/-- Writing a file that is absent from a directory finds the place for it there. -/
theorem Opens.find_write (h : Opens tree dir place) (hname : IsProper name)
    (hslash : Path.slash ∉ name) (hnull : 0 ∉ name) (hshort : (dir.join name).length ≤ pathLimit)
    (habsent : tree.entry? (place ++ [name]) = none) :
    tree.find .write (dir.join name) = .ok (.missing (place ++ [name])) := by
  have hne : dir.join name ≠ [] := by
    obtain ⟨p, hp, hpne, -⟩ := Path.join_eq h.ne_nil hname.ne_nil hslash
    rw [hp]
    exact List.append_ne_nil_of_left_ne_nil hpne name
  rw [find, if_neg (Path.not_mem_join hslash h.noNull hnull), if_neg hne,
    if_neg (Nat.not_lt.2 hshort), Path.steps_join h.ne_nil hname.ne_nil hslash,
    Path.isAbsolute_join h.ne_nil hname.ne_nil hslash]
  exact h.enters_names.locate_write hname habsent

theorem current_put (tree : FileTree) (place : Place) (e : Entry) :
    (tree.put place e).current = tree.current := by
  unfold put
  split <;> rfl

theorem mem_children_of_entry? {e : Entry} (h : tree.entry? (place ++ [name]) = some e) :
    (name, e) ∈ tree.children place := by
  rw [entry?_eq_some_iff (by simp)] at h
  refine List.mem_filterMap.2 ⟨_, h, ?_⟩
  simp

theorem entry?_of_children_nil (hempty : tree.children place = []) (name : Name) :
    tree.entry? (place ++ [name]) = none := by
  refine Option.eq_none_iff_forall_ne_some.2 fun e he => ?_
  have hchild := mem_children_of_entry? he
  rw [hempty] at hchild
  cases hchild

theorem children_put (hempty : tree.children place = []) (e : Entry) :
    children (tree.put (place ++ [name]) e) place = [(name, e)] := by
  have hnew : place ++ [name] ∉ tree.entries.map Prod.fst := by
    intro hmem
    obtain ⟨⟨q, old⟩, hold, rfl⟩ := List.mem_map.1 hmem
    have hsome := (entry?_eq_some_iff (by simp)).2 hold
    rw [entry?_of_children_nil hempty] at hsome
    cases hsome
  unfold put
  rw [dif_neg hnew]
  show List.filterMap _ (tree.entries ++ [(place ++ [name], e)]) = _
  rw [List.filterMap_append]
  show tree.children place ++ _ = _
  rw [hempty]
  simp

end FileTree

end OffsideBench
