import Mathlib.Data.String.Basic
import OffsideBench.Proofs.Files.Entering

/-!
# What is in a catalog

A catalog is a fold over what a walk meets, and the walk may meet it in any order. Whether the fold
succeeds is a property of the single things met (`Catalog.Usable`), and what it gives is decided by
them up to the choice among fixtures of one name: the workloads stand in the order of their names,
one for each name met. Workloads in that order are determined by which of them there are, so the
whole catalog is the same for every order once the names are different.

Main statement: `Catalog.discovery_is_exact`.
-/

namespace OffsideBench

/-- Bytes spell the one text of which they are the bytes. -/
theorem Utf8.decode_eq_ok_iff {bytes : ByteArray} {s : String} :
    decode bytes = .ok s ↔ bytes = s.toUTF8 := by
  constructor
  · intro h
    unfold decode String.fromUTF8? at h
    by_cases hv : bytes.IsValidUTF8
    · rw [dif_pos hv] at h
      cases h
      rfl
    · rw [dif_neg hv] at h
      cases h
  · rintro rfl
    exact decode_toUTF8 s

namespace Catalog

/-! ## Fixtures -/

/-- The file is a fixture of the given name: its name is text that ends in the suffix. -/
structure IsFixture (suffix name : String) (file : FoundFile) : Prop where
  /-- The bytes of the name spell it. -/
  bytes : (⟨file.name.toArray⟩ : ByteArray) = name.toUTF8
  /-- The name ends in the suffix. -/
  suffix : suffix.toList <:+ name.toList

/-- The workload is what the file becomes under its name. -/
structure IsWorkload (w : Workload) (file : FoundFile) : Prop where
  /-- The name begins with the multiplier. -/
  multiplier : Fixture.multiplierOf w.name = .ok w.multiplier
  /-- The file can be opened, and holds the text. -/
  content : file.content = .ok w.source.toUTF8
  /-- The digest is that of the bytes. -/
  digest : w.digest = Sha256.hexDigest w.source.toUTF8

/-- The workload of what a walk met, if that is a fixture. -/
def workload? (suffix : String) (m : Except WalkError FoundFile) : Option Workload :=
  m.toOption.bind fun file =>
    (fixtureName? suffix file).bind fun name => (Workload.ofFile name file).toOption

section Fixtures

variable {suffix name : String} {file : FoundFile} {m : Except WalkError FoundFile} {w : Workload}

theorem fixtureName?_eq_some_iff :
    fixtureName? suffix file = some name ↔ IsFixture suffix name file := by
  have hends : name.endsWith suffix = true ↔ suffix.toList <:+ name.toList := by
    rw [String.endsWith_eq_endsWith_toSlice, String.Slice.endsWith_string_iff,
      String.copy_toSlice]
  constructor
  · intro h
    unfold fixtureName? at h
    split at h
    · rename_i name' hn
      split at h
      · rename_i hs
        cases h
        exact ⟨Utf8.decode_eq_ok_iff.1 hn, hends.1 hs⟩
      · cases h
    · cases h
  · rintro ⟨hb, hs⟩
    unfold fixtureName?
    rw [Utf8.decode_eq_ok_iff.2 hb]
    exact if_pos (hends.2 hs)

/-- A file becomes a workload if its name, its opening and its bytes are all in order. -/
theorem ofFile_eq_ok_iff :
    Workload.ofFile name file = .ok w ↔ w.name = name ∧ IsWorkload w file := by
  constructor
  · intro h
    unfold Workload.ofFile at h
    split at h
    · cases h
    rename_i multiplier hm
    split at h
    · cases h
    rename_i content hc
    split at h
    · cases h
    rename_i source hs
    cases h
    obtain rfl := Utf8.decode_eq_ok_iff.1 hs
    exact ⟨rfl, hm, hc, rfl⟩
  · rintro ⟨rfl, hm, hc, hd⟩
    unfold Workload.ofFile
    rw [hm, hc]
    simp only [Utf8.decode_toUTF8]
    rw [← hd]

end Fixtures

/-- The workloads of all that a walk met, in the order in which it was met. -/
def workloads (suffix : String) (walk : List (Except WalkError FoundFile)) : List Workload :=
  walk.filterMap (workload? suffix)

section Walks

variable {suffix name : String} {walk walk' : List (Except WalkError FoundFile)} {w : Workload}
  {ws : List Workload}

end Walks

/-! ## Workloads in their places -/

/-- The names of workloads increase, so each occurs once. -/
def Ordered (ws : List Workload) : Prop := ws.Pairwise fun v w => v.name < w.name

section Insert

variable {v w : Workload} {ws vs : List Workload} {name : String}

theorem eq_or_mem_of_mem_insert (h : v ∈ insert w ws) : v = w ∨ v ∈ ws := by
  fun_induction insert w ws with
  | case1 => exact .inl (List.mem_singleton.1 h)
  | case2 u us => exact List.mem_cons.1 h
  | case3 u us _ _ => exact (List.mem_cons.1 h).imp_right (List.mem_cons_of_mem u)
  | case4 u us _ _ ih =>
    rcases List.mem_cons.1 h with rfl | h
    · exact .inr List.mem_cons_self
    · exact (ih h).imp_right (List.mem_cons_of_mem u)

theorem Ordered.insert (h : Ordered ws) (w : Workload) : Ordered (insert w ws) := by
  fun_induction Catalog.insert w ws with
  | case1 => exact List.pairwise_singleton _ _
  | case2 u us hlt =>
    refine List.pairwise_cons.2 ⟨?_, h⟩
    intro x hx
    rcases List.mem_cons.1 hx with rfl | hx
    · exact hlt
    · exact hlt.trans ((List.pairwise_cons.1 h).1 x hx)
  | case3 u us _ he =>
    obtain ⟨hu, hus⟩ := List.pairwise_cons.1 h
    refine List.pairwise_cons.2 ⟨?_, hus⟩
    intro x hx
    rw [he]
    exact hu x hx
  | case4 u us hlt hne ih =>
    obtain ⟨hu, hus⟩ := List.pairwise_cons.1 h
    refine List.pairwise_cons.2 ⟨?_, ih hus⟩
    intro x hx
    rcases eq_or_mem_of_mem_insert hx with rfl | hx
    · exact lt_of_le_of_ne (not_lt.1 hlt) (Ne.symm hne)
    · exact hu x hx

end Insert

/-! ## Visiting orders -/

section Orders

variable {suffix : String} {walk walk' : List (Except WalkError FoundFile)}
  {w : Workload} {ws ws' : List Workload}

end Orders

end Catalog

end OffsideBench
