import Mathlib.Data.List.TakeDrop
import OffsideBench.Fixture.File
import OffsideBench.Proofs.Discovery
import OffsideBench.Proofs.Files.Entering
import OffsideBench.Proofs.Number.PrintAndParse

/-!
# Fixtures that are saved and found

The text of a multiplier has no dash, so the name that a fixture is saved under is cut at the right
dash whatever follows it, and the text reads back as the multiplier. A file that is saved into an
empty directory is all that a walk through the directory meets.

Main statement: `Fixture.saved_fixture_is_cataloged`.
-/

namespace OffsideBench

/-! ## Bytes of texts -/

theorem toList_loop_eq (bytes : ByteArray) (i : Nat) (read : List UInt8) :
    ByteArray.toList.loop bytes i read = read.reverse ++ bytes.data.toList.drop i := by
  induction i, read using ByteArray.toList.loop.induct bytes with
  | case1 i read hlt ih =>
    have hi : i < bytes.data.toList.length := hlt
    have hget : bytes.get! i = bytes.data.toList[i] := getElem!_pos bytes.data i hlt
    rw [ByteArray.toList.loop, if_pos hlt, ih, List.drop_eq_getElem_cons hi, hget]
    simp
  | case2 i read hge =>
    have hi : bytes.data.toList.length ≤ i := Nat.not_lt.1 hge
    rw [ByteArray.toList.loop, if_neg hge, List.drop_eq_nil_of_le hi, List.append_nil]

theorem toList_eq (bytes : ByteArray) : bytes.toList = bytes.data.toList := by
  rw [ByteArray.toList, toList_loop_eq]
  rfl

/-- Bytes below 128 stand for characters of their own. -/
theorem eq_of_mem_utf8EncodeChar {c : Char} {b : UInt8} (h : b ∈ String.utf8EncodeChar c)
    (hb : b.toNat < 128) : c.toNat = b.toNat := by
  -- the first byte of a longer character, and each byte behind it, is at least 128
  have hwide : ∀ n, 128 ≤ n → n < 256 → b ≠ UInt8.ofNat n := by
    rintro n hlow hhigh rfl
    rw [UInt8.toNat_ofNat_of_lt' hhigh] at hb
    omega
  have hlater : ∀ n, b ≠ UInt8.ofNat (n % 64 + 128) := fun n => hwide _ (by omega) (by omega)
  unfold String.utf8EncodeChar at h
  simp only at h
  split at h
  · rename_i hc
    rw [List.mem_singleton.1 h]
    exact (UInt8.toNat_ofNat_of_lt' (hc.trans_lt (by decide))).symm
  · split at h
    · have hfirst := hwide (c.val.toNat / 64 % 32 + 192) (by omega) (by omega)
      simp only [List.mem_cons, List.not_mem_nil, hfirst, hlater, or_self] at h
    · split at h
      · have hfirst := hwide (c.val.toNat / 4096 % 16 + 224) (by omega) (by omega)
        simp only [List.mem_cons, List.not_mem_nil, hfirst, hlater, or_self] at h
      · have hfirst := hwide (c.val.toNat / 262144 % 8 + 240) (by omega) (by omega)
        simp only [List.mem_cons, List.not_mem_nil, hfirst, hlater, or_self] at h

theorem Path.ofString_eq (s : String) :
    Path.ofString s = s.toList.flatMap String.utf8EncodeChar := by
  rw [Path.ofString, toList_eq]
  show s.toByteArray.data.toList = _
  rw [← String.utf8Encode_toList, List.utf8Encode, List.toList_data_toByteArray]

theorem Path.not_mem_ofString {s : String} {c : Char} {b : UInt8} (hb : b.toNat < 128)
    (hbc : b.toNat = c.toNat) (hc : c ∉ s.toList) : b ∉ Path.ofString s := by
  intro hmem
  rw [Path.ofString_eq] at hmem
  obtain ⟨c', hc', hbc'⟩ := List.mem_flatMap.1 hmem
  have hsame : c' = c := Char.toNat_inj.1 ((eq_of_mem_utf8EncodeChar hbc' hb).trans hbc)
  exact hc (hsame ▸ hc')

theorem Utf8.toByteArray_ofString (s : String) :
    (⟨(Path.ofString s).toArray⟩ : ByteArray) = s.toUTF8 := by
  rw [Path.ofString, toList_eq]

namespace Fixture

variable {m : Binary64}

/-! ## Names with a multiplier -/

/-- The text in front of the first dash of a name is taken for a multiplier unless it is empty. -/
theorem multiplierText?_of_dash {text : List Char} (hdash : '-' ∉ text) (hne : text ≠ [])
    (rest : List Char) : multiplierText? (text ++ '-' :: rest) = some text := by
  have hkept : ∀ c ∈ text, decide (c ≠ '-') = true := by
    intro c hc
    exact decide_eq_true fun e => hdash (e ▸ hc)
  have hspan : (text ++ '-' :: rest).span (· ≠ '-') = (text, '-' :: rest) := by
    rw [List.span_eq_takeWhile_dropWhile, List.takeWhile_append_of_pos hkept,
      List.dropWhile_append_of_pos hkept]
    simp
  obtain ⟨c, cs, rfl⟩ := List.exists_cons_of_ne_nil hne
  rw [multiplierText?, hspan]

theorem multiplierText?_of_plain {text : List Char} (h : Decimal.IsPlain text) (rest : List Char) :
    multiplierText? (text ++ '-' :: rest) = some text := by
  have hdash : '-' ∉ text := by
    intro hmem
    rcases h.isDigit_or_point _ hmem with hdigit | hpoint
    · cases hdigit
    · cases hpoint
  obtain ⟨c, digits, rfl, -⟩ := h
  exact multiplierText?_of_dash hdash (List.cons_ne_nil c digits) rest

theorem toList_fileName (m : Binary64) (name : String) : (fileName (some m) name).toList =
    m.text.toList ++ '-' :: (name.toList ++ defaultSuffix.toList) := by
  simp [fileName]

/-- The multiplier of a name is the one that it was made with. -/
theorem multiplierOf_fileName (hfinite : m.isFinite = true) (hsign : m.negative = false)
    (name : String) : multiplierOf (fileName (some m) name) = .ok m := by
  obtain ⟨hplain, hparse⟩ := Binary64.parse?_text hfinite hsign
  have hrange : m.isFiniteNonNegative = true := by
    rw [Binary64.isFiniteNonNegative, Binary64.isBelowZero, hfinite, hsign]
    rfl
  unfold multiplierOf
  rw [toList_fileName, multiplierText?_of_plain hplain]
  simp only [String.ofList_toList, hparse, hrange, if_true]

/-- A file name is the name of a file if it fits. -/
theorem isProper_fileName {multiplier : Option Binary64} {name : String}
    (hshort : (Path.ofString (fileName multiplier name)).length ≤ FileTree.nameLimit) :
    FileTree.IsProper (Path.ofString (fileName multiplier name)) := by
  -- the suffix is more than dots
  have hsuffix : (0x62 : UInt8) ∈ Path.ofString (fileName multiplier name) := by
    rw [Path.ofString_eq]
    refine List.mem_flatMap.2 ⟨'b', ?_, by decide⟩
    cases multiplier <;> simp [fileName, defaultSuffix]
  refine .of_not ?_ ?_ (Nat.not_lt.2 hshort)
  · rintro (h | h)
    · rw [h] at hsuffix
      cases hsuffix
    · rw [h] at hsuffix
      exact absurd hsuffix (by decide)
  · intro h
    rw [h] at hsuffix
    exact absurd hsuffix (by decide)

theorem byte_not_mem_fileName {name : String} {c : Char} {b : UInt8} (hbc : b.toNat = c.toNat)
    (hb : b.toNat < 128) (hplain : Decimal.IsPlain m.text.toList) (hdigit : c.isDigit = false)
    (hmarks : c ∉ ['.', '-']) (hsuffix : c ∉ defaultSuffix.toList) (hname : c ∉ name.toList) :
    b ∉ Path.ofString (fileName (some m) name) := by
  refine Path.not_mem_ofString hb hbc ?_
  have htext : c ∉ m.text.toList := by
    intro hmem
    rcases hplain.isDigit_or_point c hmem with h | rfl
    · rw [hdigit] at h
      cases h
    · simp at hmarks
  rw [toList_fileName]
  simp_all

end Fixture

/-! ## A catalog of one file -/

/-- The catalog of one file is its workload, or its fault. -/
theorem Catalog.ofWalk_one {suffix name : String} {file : FoundFile}
    (h : IsFixture suffix name file) :
    ofWalk suffix [.ok file] = (Workload.ofFile name file).map ([·]) := by
  have hname : fixtureName? suffix file = some name := fixtureName?_eq_some_iff.2 h
  rw [ofWalk, List.foldlM_cons, add, met]
  simp only [hname]
  cases Workload.ofFile name file <;> rfl

theorem Catalog.ofWalk_singleton {suffix : String} {file : FoundFile} {w : Workload}
    (hfixture : IsFixture suffix w.name file) (hworkload : IsWorkload w file) :
    ofWalk suffix [.ok file] = .ok [w] := by
  rw [ofWalk_one hfixture, ofFile_eq_ok_iff.2 ⟨rfl, hworkload⟩]
  rfl

/-- A file that was written into an empty directory is all that a walk meets there. -/
theorem FileTree.walk_put {tree : FileTree} {dir : Path} {place : Place} {name : Name}
    {content : ByteArray} (hdir : FileTree.Opens tree dir place) (hempty : tree.children place = [])
    (hshort : (dir.join name).length ≤ pathLimit) :
    walk (tree.put (place ++ [name]) (.file content)) dir =
      [.ok ⟨dir.join name, name, .ok content⟩] := by
  have hne : place ++ [name] ≠ [] := by simp
  -- the new entry takes no other's place, so the way to the directory is still open
  have hkept : ∀ q e, tree.entry? q = some e →
      FileTree.entry? (tree.put (place ++ [name]) (.file content)) q = some e := by
    intro q e hq
    rw [entry?_put_of_ne hne]
    · exact hq
    · rintro rfl
      rw [entry?_of_children_nil hempty] at hq
      cases hq
  rw [(hdir.mono (tree.current_put _ _) hkept).walk, walkBelow_eq, children_put hempty,
    List.flatMap_singleton, visit_file hshort]

namespace Fixture

/-- A fixture whose file is missing from a directory is put there, and nothing else is done. -/
theorem save_of_opens {tree : FileTree} {dir : Path} {place q : Place}
    {multiplier : Option Binary64} {name : String} (config : Config)
    (hdir : FileTree.Opens tree dir place)
    (hmissing : tree.find .write (filePath dir multiplier name) = .ok (.missing q)) :
    save tree dir multiplier name config = .ok (tree.put q (.file config.source.toUTF8)) := by
  have hmake : (FileM.makeDirectories dir).outcome tree = .ok tree := hdir.makeDirectories
  rw [save, saving, FileM.outcome_andThen, hmake, Except.bind, FileTree.write, hmissing]

/-- **A saved fixture is cataloged.** A fixture that is saved with a multiplier into an empty
directory is found there alone, under the name it was saved by, with that multiplier and the text
that was generated. -/
theorem saved_fixture_is_cataloged (tree : FileTree) (dir : Path) (place : Place) (m : Binary64)
    (name : String) (config : Config)
    (hdir : tree.find .look dir = .ok (.entry place .directory))
    (hempty : tree.children place = []) (hslash : '/' ∉ name.toList)
    (hnull : '\x00' ∉ name.toList) (hfinite : m.isFinite = true) (hsign : m.negative = false)
    (hname : (Path.ofString (fileName (some m) name)).length ≤ FileTree.nameLimit)
    (hpath : (filePath dir (some m) name).length ≤ FileTree.pathLimit) :
    ∃ saved w, save tree dir (some m) name config = .ok saved ∧
      Catalog.list saved dir defaultSuffix = .ok [w] ∧ w.name = fileName (some m) name ∧
      w.multiplier = m ∧ w.source = config.source := by
  have hopens := FileTree.opens_iff.2 hdir
  have hplain := (Binary64.parse?_text hfinite hsign).1
  have hproper := isProper_fileName hname
  have hslash : Path.slash ∉ Path.ofString (fileName (some m) name) :=
    byte_not_mem_fileName rfl (by decide) hplain rfl (by decide) (by decide) hslash
  have hnull : 0 ∉ Path.ofString (fileName (some m) name) :=
    byte_not_mem_fileName rfl (by decide) hplain rfl (by decide) (by decide) hnull
  have habsent := FileTree.entry?_of_children_nil hempty (Path.ofString (fileName (some m) name))
  have hmissing := hopens.find_write hproper hslash hnull hpath habsent
  have hsave : save tree dir (some m) name config = .ok (tree.put
      (place ++ [Path.ofString (fileName (some m) name)]) (.file config.source.toUTF8)) :=
    save_of_opens config hopens hmissing
  refine ⟨_, ⟨fileName (some m) name, config.source, m, Sha256.hexDigest config.source.toUTF8⟩,
    hsave, ?_, rfl, rfl, rfl⟩
  rw [Catalog.list, FileTree.walk_put hopens hempty hpath]
  refine Catalog.ofWalk_singleton ⟨Utf8.toByteArray_ofString _, ?_⟩
    ⟨multiplierOf_fileName hfinite hsign name, rfl, rfl⟩
  show defaultSuffix.toList <:+ (fileName (some m) name).toList
  rw [toList_fileName]
  exact ⟨m.text.toList ++ '-' :: name.toList, by simp⟩

/-- The tree with one directory, which is empty. -/
def oneDirectory : FileTree := ⟨[([Path.ofString "d"], .directory)], by decide, []⟩

theorem opens_oneDirectory :
    FileTree.Opens oneDirectory (Path.ofString "d") [Path.ofString "d"] :=
  .of_name (by decide +kernel) (by decide +kernel) (by decide +kernel)
    ((FileTree.entry?_eq_some_iff (List.cons_ne_nil _ _)).2 List.mem_cons_self)

/-- A half, by its bits. -/
def half : Binary64 := ⟨0x3fe0000000000000⟩

/-- A name that starts with a number and a dash itself. -/
theorem saved_fixture_is_cataloged_numeric_name :
    fileName (some half) "2-é" = "0.5-2-é.benchdent" ∧
    ∃ saved w, save oneDirectory (Path.ofString "d") (some half) "2-é" {} = .ok saved ∧
      Catalog.list saved (Path.ofString "d") defaultSuffix = .ok [w] ∧
      w.name = fileName (some half) "2-é" ∧ w.multiplier = half ∧
      w.source = ({} : Config).source :=
  ⟨by decide +kernel,
    saved_fixture_is_cataloged oneDirectory (Path.ofString "d") [Path.ofString "d"] half "2-é" {}
      (FileTree.opens_iff.1 opens_oneDirectory) rfl (by decide) (by decide) (by decide) (by decide)
      (by decide +kernel)
      (by decide +kernel)⟩

end Fixture

end OffsideBench
