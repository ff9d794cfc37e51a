import LargeNeighborhood.Console.Folder
import LargeNeighborhood.Proofs.Except

set_option autoImplicit false

/-! # Files that can be written stay so

A path is followed through directories, and a file is never put in the place of one. So whatever file
is written, all paths are followed to where they led before (`Folder.follow_put`), and where a file
could be written, it still can be (`Folder.placeOfFile_of_write`).
-/

namespace LargeNeighborhood

namespace Folder

variable {f f' : Folder} {place : List String} {n : Node}

theorem lookup_cons_of_ne {other : List String} (h : other ≠ place)
    (entries : List (List String × Node)) :
    ((place, n) :: entries).lookup other = entries.lookup other := by
  rw [List.lookup_cons, beq_eq_false_iff_ne.mpr h]

theorem lookup_filter_of_ne {other : List String} (h : other ≠ place)
    (entries : List (List String × Node)) :
    (entries.filter fun entry => entry.1 != place).lookup other = entries.lookup other := by
  induction entries with
  | nil => rfl
  | cons entry entries ih =>
      obtain ⟨there, node⟩ := entry
      by_cases hthere : there = place
      · rw [List.filter_cons_of_neg (by simpa using hthere), ih, lookup_cons_of_ne (hthere ▸ h)]
      · rw [List.filter_cons_of_pos (by simpa using hthere)]
        by_cases hother : other = there
        · rw [hother, List.lookup_cons_self, List.lookup_cons_self]
        · rw [lookup_cons_of_ne hother, lookup_cons_of_ne hother, ih]

/-- What is put at one place changes nothing at another. -/
theorem node?_put_of_ne {other : List String} (h : other ≠ place) :
    (f.put place n).node? other = f.node? other := by
  unfold node? put
  rw [lookup_cons_of_ne h, lookup_filter_of_ne h]

theorem isRoot_of_not_directory (h : f.node? place ≠ some .directory) : ¬ Path.isRoot place := by
  intro hroot
  exact h (if_pos hroot)

/-- A place that is no directory holds the file that is put there. -/
theorem node?_put_self (h : f.node? place ≠ some .directory) : (f.put place n).node? place = some n := by
  unfold node? put
  rw [if_neg (isRoot_of_not_directory h)]
  exact List.lookup_cons_self

/-- Directories stay where they are. -/
theorem node?_put_of_directory (h : f.node? place ≠ some .directory) {other : List String}
    (hother : f.node? other = some .directory) : (f.put place n).node? other = some .directory := by
  rw [node?_put_of_ne, hother]
  rintro rfl
  exact h hother

/-- Paths lead where they have led. -/
theorem follow_put (h : f.node? place ≠ some .directory) {start target : List String}
    {parts : List String} (hfollow : f.follow start parts = .ok target) :
    (f.put place n).follow start parts = .ok target := by
  induction parts generalizing start with
  | nil => exact hfollow
  | cons part parts ih =>
      -- A path that goes on goes on from a directory.
      unfold follow at hfollow ⊢
      split at hfollow
      · cases hfollow
      · cases hfollow
      rename_i hdirectory
      rw [node?_put_of_directory h hdirectory]
      dsimp only
      split at hfollow
      · cases hfollow
      · rename_i hshort
        rw [if_neg hshort]
        exact ih hfollow

/-- A path without zero characters that is not too long is followed. -/
theorem find_of_follow {parts target : List String}
    (hplain : ∀ part ∈ parts, '\x00' ∉ part.toList)
    (hshort : ("/".intercalate parts).utf8ByteSize ≤ Path.pathLimit) (hne : parts.isEmpty = false)
    (hfollow : f.follow [] parts = .ok target) : f.find parts = .ok target := by
  have hnone : ¬ (parts.any fun part => part.contains '\x00') = true := by
    simpa [String.contains_char_eq] using hplain
  unfold find
  rw [if_neg hnone, hne, if_neg (by omega), if_neg Bool.false_ne_true]
  exact hfollow

theorem find_put (h : f.node? place ≠ some .directory) {target : List String} {parts : List String}
    (hfind : f.find parts = .ok target) : (f.put place n).find parts = .ok target := by
  unfold find at hfind ⊢
  split_ifs at hfind ⊢
  exact follow_put h hfind

theorem placeOfFile_eq_ok {path : String} {target : List String} :
    f.placeOfFile path = .ok target ↔
      f.find (Path.parts path) = .ok target ∧ f.node? target ≠ some .directory := by
  unfold placeOfFile
  rw [bind_eq_ok]
  constructor
  · rintro ⟨found, hfind, h⟩
    split at h
    · cases h
    · rename_i hnode
      cases h
      exact ⟨hfind, hnode⟩
  · rintro ⟨hfind, hnode⟩
    refine ⟨target, hfind, ?_⟩
    split
    · rename_i hdirectory
      exact absurd hdirectory hnode
    · rfl

/-- Where a file could be written before another one was, it still can be. -/
theorem placeOfFile_of_write {path other : String} {content : ByteArray} {target : List String}
    (h : f.write path content = .ok f') (hother : f.placeOfFile other = .ok target) :
    f'.placeOfFile other = .ok target := by
  obtain ⟨place, hplace, rfl⟩ := map_eq_ok.mp h
  have hnode := (placeOfFile_eq_ok.mp hplace).2
  obtain ⟨hfind, htarget⟩ := placeOfFile_eq_ok.mp hother
  refine placeOfFile_eq_ok.mpr ⟨find_put hnode hfind, ?_⟩
  by_cases hsame : target = place
  · rw [hsame, node?_put_self hnode]
    simp
  · rw [node?_put_of_ne hsame]
    exact htarget

/-- A file that was written can be written again, whatever was written in the meantime. -/
theorem exists_write_ok {path : String} {content : ByteArray} (h : f.write path content = .ok f') :
    ∃ target, f'.placeOfFile path = .ok target := by
  obtain ⟨place, hplace, -⟩ := map_eq_ok.mp h
  exact ⟨place, placeOfFile_of_write h hplace⟩

end Folder

end LargeNeighborhood
