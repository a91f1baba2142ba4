import OffsideBench.Proofs.Fixture.Saving

/-!
# Fixtures without a multiplier

A fixture that is saved without a multiplier is read by the same rule as the others: what stands in
front of the first dash of its name is taken for a multiplier. The suffix has no dash, so the first
dash is that of the name which was given. Names without a dash, or that start with one, mean the
multiplier one; another name is scaled by what its first part reads as, or spoils the catalog.

Main statement: `Fixture.unscaled_fixture_is_read_by_its_name`.
-/

namespace OffsideBench

namespace Fixture

/-! ## Names and their first dash -/

/-- There is no multiplier in front of a name without a dash, or of one that starts with a dash. -/
theorem multiplierText?_eq_none {cs : List Char} (h : '-' ∉ cs ∨ cs.head? = some '-') :
    multiplierText? cs = none := by
  rcases h with h | h
  · have hkept : ∀ c ∈ cs, decide (c ≠ '-') = true := by
      intro c hc
      exact decide_eq_true fun e => h (e ▸ hc)
    have hspan : cs.span (· ≠ '-') = (cs, []) := by
      rw [List.span_eq_takeWhile_dropWhile, List.takeWhile_eq_self_iff.2 hkept,
        List.dropWhile_eq_nil_iff.2 hkept]
    rw [multiplierText?, hspan]
    cases cs <;> rfl
  · obtain ⟨rest, rfl⟩ := List.head?_eq_some_iff.1 h
    rw [multiplierText?, List.span_eq_takeWhile_dropWhile]
    rfl

theorem toList_fileName_none (name : String) :
    (fileName none name).toList = name.toList ++ defaultSuffix.toList := by
  simp [fileName]

theorem not_mem_fileName_none {name : String} {c : Char} (hname : c ∉ name.toList)
    (hsuffix : c ∉ defaultSuffix.toList) : c ∉ (fileName none name).toList := by
  rw [toList_fileName_none, List.mem_append]
  exact not_or.2 ⟨hname, hsuffix⟩

/-- A name without a dash, or that starts with one, means the multiplier one. -/
theorem multiplierOf_plain_name {name : String}
    (h : '-' ∉ name.toList ∨ name.toList.head? = some '-') :
    multiplierOf (fileName none name) = .ok (.ofNat 1) := by
  have hfile : '-' ∉ (fileName none name).toList ∨
      (fileName none name).toList.head? = some '-' := by
    rcases h with h | h
    · exact .inl (not_mem_fileName_none h (by decide))
    · refine .inr ?_
      rw [toList_fileName_none, List.head?_append, h]
      rfl
  rw [multiplierOf, multiplierText?_eq_none hfile]

/-- What stands in front of the first dash of a name is read as a multiplier. -/
theorem multiplierOf_dashed_name {name : String} {text rest : List Char}
    (hname : name.toList = text ++ '-' :: rest) (hdash : '-' ∉ text) (hne : text ≠ []) :
    multiplierOf (fileName none name) =
      match Binary64.parse? (String.ofList text) with
      | none => .error (.multiplier (fileName none name) (String.ofList text) .notNumber)
      | some m =>
        if m.isFiniteNonNegative then .ok m
        else .error (.multiplier (fileName none name) (String.ofList text) .outOfRange) := by
  have htext : multiplierText? (fileName none name).toList = some text := by
    rw [toList_fileName_none, hname, List.append_assoc]
    exact multiplierText?_of_dash hdash hne _
  cases hparse : Binary64.parse? (String.ofList text) with
  | none => simp only [multiplierOf, htext, hparse]
  | some m => simp only [multiplierOf, htext, hparse]

/-! ## A catalog of one fixture -/

/-- What a catalog says of a fixture that was saved without a multiplier, when its name is taken to
mean the given one. -/
def unscaled (name : String) (config : Config) (multiplier : Binary64) : Workload :=
  ⟨fileName none name, config.source, multiplier, Sha256.hexDigest config.source.toUTF8⟩

/-- A fixture that is saved into an empty directory is all that a catalog lists there, unless the
catalog refuses its name. -/
theorem list_save {tree : FileTree} {dir : Path} {place : Place} (name : String)
    (config : Config) (hdir : FileTree.Opens tree dir place) (hempty : tree.children place = [])
    (hslash : '/' ∉ name.toList) (hnull : '\x00' ∉ name.toList)
    (hname : (Path.ofString (fileName none name)).length ≤ FileTree.nameLimit)
    (hpath : (filePath dir none name).length ≤ FileTree.pathLimit) :
    ∃ saved, save tree dir none name config = .ok saved ∧
      Catalog.list saved dir defaultSuffix =
        (multiplierOf (fileName none name)).map fun m => [unscaled name config m] := by
  have hslash : Path.slash ∉ Path.ofString (fileName none name) :=
    Path.not_mem_ofString (by decide) rfl (not_mem_fileName_none hslash (by decide))
  have hnull : 0 ∉ Path.ofString (fileName none name) :=
    Path.not_mem_ofString (by decide) rfl (not_mem_fileName_none hnull (by decide))
  have habsent := FileTree.entry?_of_children_nil hempty (Path.ofString (fileName none name))
  have hmissing := hdir.find_write (isProper_fileName hname) hslash hnull hpath habsent
  have hfixture : Catalog.IsFixture defaultSuffix (fileName none name)
      ⟨dir.join (Path.ofString (fileName none name)), Path.ofString (fileName none name),
        .ok config.source.toUTF8⟩ := by
    refine ⟨Utf8.toByteArray_ofString _, ?_⟩
    rw [toList_fileName_none]
    exact List.suffix_append _ _
  refine ⟨tree.put (place ++ [Path.ofString (fileName none name)])
    (.file config.source.toUTF8), save_of_opens config hdir hmissing, ?_⟩
  rw [Catalog.list, FileTree.walk_put hdir hempty hpath, Catalog.ofWalk_one hfixture,
    Workload.ofFile]
  simp only [Utf8.decode_toUTF8]
  cases multiplierOf (fileName none name) with
  | error e => rfl
  | ok m => rfl

/-- **A fixture without a multiplier is read by its name.** When it is saved into an empty directory
it is found there alone. It has the multiplier one if its name has no dash or starts with one.
Otherwise the text in front of the first dash of its name is read as its multiplier, and the whole
catalog fails if that is no finite number from zero on. -/
theorem unscaled_fixture_is_read_by_its_name (tree : FileTree) (dir : Path) (place : Place)
    (name : String) (config : Config)
    (hdir : tree.find .look dir = .ok (.entry place .directory))
    (hempty : tree.children place = []) (hslash : '/' ∉ name.toList)
    (hnull : '\x00' ∉ name.toList)
    (hname : (Path.ofString (fileName none name)).length ≤ FileTree.nameLimit)
    (hpath : (filePath dir none name).length ≤ FileTree.pathLimit) :
    ∃ saved, save tree dir none name config = .ok saved ∧
      ('-' ∉ name.toList ∨ name.toList.head? = some '-' →
        Catalog.list saved dir defaultSuffix = .ok [unscaled name config (.ofNat 1)]) ∧
      ∀ text rest, name.toList = text ++ '-' :: rest → '-' ∉ text → text ≠ [] →
        Catalog.list saved dir defaultSuffix =
          match Binary64.parse? (String.ofList text) with
          | none => .error (.multiplier (fileName none name) (String.ofList text) .notNumber)
          | some m =>
            if m.isFiniteNonNegative then .ok [unscaled name config m]
            else .error (.multiplier (fileName none name) (String.ofList text) .outOfRange) := by
  obtain ⟨saved, hsave, hlist⟩ :=
    list_save name config (FileTree.opens_iff.2 hdir) hempty hslash hnull hname hpath
  refine ⟨saved, hsave, ?_, ?_⟩
  · intro hplain
    rw [hlist, multiplierOf_plain_name hplain]
    rfl
  · intro text rest htext hdash hne
    rw [hlist, multiplierOf_dashed_name htext hdash hne]
    cases Binary64.parse? (String.ofList text) with
    | none => rfl
    | some m =>
      by_cases hm : m.isFiniteNonNegative = true
      · simp only [if_pos hm]
        rfl
      · simp only [if_neg hm]
        rfl

/-- A name that starts with a dash, and one that starts with a number. -/
theorem unscaled_fixture_is_read_by_its_name_dashed :
    (∃ saved, save oneDirectory (Path.ofString "d") none "-é" {} = .ok saved ∧
      Catalog.list saved (Path.ofString "d") defaultSuffix =
        .ok [unscaled "-é" {} (.ofNat 1)]) ∧
    ∃ saved, save oneDirectory (Path.ofString "d") none "2-é" {} = .ok saved ∧
      Catalog.list saved (Path.ofString "d") defaultSuffix =
        .ok [unscaled "2-é" {} (.ofNat 2)] := by
  constructor
  · obtain ⟨saved, hsave, hplain, -⟩ := unscaled_fixture_is_read_by_its_name oneDirectory
      (Path.ofString "d") [Path.ofString "d"] "-é" {} (FileTree.opens_iff.1 opens_oneDirectory) rfl
      (by decide) (by decide)
      (by decide +kernel) (by decide +kernel)
    exact ⟨saved, hsave, hplain (.inr rfl)⟩
  · obtain ⟨saved, hsave, -, hdashed⟩ := unscaled_fixture_is_read_by_its_name oneDirectory
      (Path.ofString "d") [Path.ofString "d"] "2-é" {} (FileTree.opens_iff.1 opens_oneDirectory) rfl
      (by decide) (by decide)
      (by decide +kernel) (by decide +kernel)
    have htwo : Binary64.parse? (String.ofList ['2']) = some (.ofNat 2) := by decide +kernel
    have hrange : (Binary64.ofNat 2).isFiniteNonNegative = true := by decide +kernel
    refine ⟨saved, hsave, (hdashed ['2'] ['é'] rfl (by decide) (by decide)).trans ?_⟩
    simp only [htwo, hrange, if_true]

/-- A fixture that was saved without a multiplier can make the catalog fail. -/
theorem unscaled_fixture_spoils_catalog :
    oneDirectory.children [Path.ofString "d"] = [] ∧
    ∃ saved, save oneDirectory (Path.ofString "d") none "foo-bar" { statements := 0 } = .ok saved ∧
      Catalog.list saved (Path.ofString "d") defaultSuffix =
        .error (.multiplier "foo-bar.benchdent" "foo" .notNumber) := by
  obtain ⟨saved, hsave, hlist⟩ := list_save "foo-bar" { statements := 0 } opens_oneDirectory rfl
    (by decide) (by decide) (by decide +kernel) (by decide +kernel)
  have hrefused : multiplierOf (fileName none "foo-bar") =
      .error (.multiplier "foo-bar.benchdent" "foo" .notNumber) := by decide +kernel
  rw [hrefused] at hlist
  exact ⟨rfl, saved, hsave, hlist⟩

end Fixture

end OffsideBench
