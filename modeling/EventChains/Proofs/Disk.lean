import EventChains.Disk
import EventChains.Proofs.CompiledPattern
import Mathlib.Data.List.Basic

/-!
# What writing changes on a disk

A file that is written changes its own place only (`get?_putFile`). Directories stay directories, so
a path that leads to a new file leads to the same place when the file is there
(`newPlace_putFile`). A device takes an empty text without any change, or refuses it
(`put_empty_of_device`).
-/

namespace EventChains.Disk

variable {disk later : Disk} {place other : FilePlace}

/-- The disk with a file. -/
def putFile (disk : Disk) (place : FilePlace) (contents : String) : Disk :=
  { disk with files := (place, contents) :: disk.files.filter (·.1 != place) }

/-- A place without a device gets a file. -/
theorem put_of_file (h : devices.lookup place = none) (contents : String) :
    disk.put place contents = .ok (disk.putFile place contents) := by
  unfold put
  rw [h]
  rfl

/-- A path that leads to a new file, which is no device, can be written to. -/
theorem writeFile_of_newPlace {path : String} (h : disk.newPlace path = .ok place)
    (hfile : devices.lookup place = none) (contents : String) :
    disk.writeFile path contents = .ok (disk.putFile place contents) :=
  bind_eq_ok_iff.2 ⟨place, h, put_of_file hfile contents⟩

/-- A device that takes the empty text is not changed by it, and neither is anything else. -/
theorem put_empty_of_device {device : Device} (h : devices.lookup place = some device)
    (hput : disk.put place "" = .ok later) : later = disk := by
  unfold put at hput
  rw [h] at hput
  cases device with
  | sink => exact (Except.ok.inj hput).symm
  | full => exact (Except.ok.inj hput).symm
  | input => exact (Except.ok.inj hput).symm
  | output =>
      have hput := Except.ok.inj hput
      rw [String.append_empty] at hput
      exact hput.symm
  | errors =>
      have hput := Except.ok.inj hput
      rw [String.append_empty] at hput
      exact hput.symm
  | terminal => contradiction

theorem lookup_filter_ne (files : List (FilePlace × String)) (h : other ≠ place) :
    (files.filter (·.1 != place)).lookup other = files.lookup other := by
  induction files with
  | nil => rfl
  | cons file rest ih =>
      rw [List.filter_cons, List.lookup_cons]
      split
      · rw [List.lookup_cons, ih]
      · rename_i hplace
        have hplace : file.1 = place := by simpa using hplace
        rw [ih, hplace, beq_eq_false_iff_ne.2 h]

/-- A file that is written has its contents, and all other files keep theirs. -/
theorem get?_putFile (disk : Disk) (place other : FilePlace) (contents : String) :
    (disk.putFile place contents).get? other =
      if other = place then some contents else disk.get? other := by
  show ((place, contents) :: disk.files.filter (·.1 != place)).lookup other = _
  rw [List.lookup_cons]
  split
  · rename_i heq
    rw [if_pos (beq_iff_eq.1 heq)]
  · rename_i hne
    have hne : other ≠ place := beq_eq_false_iff_ne.1 hne
    rw [if_neg hne, lookup_filter_ne _ hne, get?]

/-! ## Directories -/

/-- A disk has the directories of another one, and commands run in the same one. -/
structure Extends (later disk : Disk) : Prop where
  home : later.home = disk.home
  directory : ∀ place, disk.isDirectory place = true → later.isDirectory place = true

/-- A step down a path leads to the same place when there are more directories. -/
theorem Extends.descend_eq (h : Extends later disk) {part : String}
    (hdescend : disk.descend place part = .ok other) : later.descend place part = .ok other := by
  have hlinks : later.links = disk.links := by
    rw [links, links, h.home]
  unfold descend at hdescend ⊢
  split at hdescend
  · rename_i hdirectory
    rw [if_pos (h.directory place hdirectory), follow, hlinks]
    exact hdescend
  · contradiction

theorem Extends.foldlM_descend (h : Extends later disk) (parts : List String)
    (hfold : parts.foldlM disk.descend place = .ok other) :
    parts.foldlM later.descend place = .ok other := by
  induction parts generalizing place with
  | nil => exact hfold
  | cons part rest ih =>
      rw [List.foldlM_cons] at hfold ⊢
      cases hdescend : disk.descend place part with
      | error fault =>
          rw [hdescend] at hfold
          contradiction
      | ok next =>
          rw [hdescend] at hfold
          rw [h.descend_eq hdescend]
          exact ih hfold

/-- A path leads to the same place when there are more directories. -/
theorem Extends.resolve_eq (h : Extends later disk) {path : List Char}
    (hresolve : disk.resolve path = .ok place) : later.resolve path = .ok place := by
  unfold resolve at hresolve ⊢
  split at hresolve
  · contradiction
  · rename_i hempty
    split at hresolve
    · contradiction
    · rename_i hshort
      rw [if_neg hempty, if_neg hshort]
      dsimp only
      rw [h.home]
      exact h.foldlM_descend _ hresolve

/-- A place is a directory after a file has been written if it was one before or lies above the
file. -/
theorem isDirectory_putFile (disk : Disk) (place other : FilePlace) (contents : String) :
    (disk.putFile place contents).isDirectory other =
      (disk.isDirectory other || (other.isPrefixOf place && other != place)) := by
  have hfiles (isAbove : FilePlace → Bool) :
      ((place, contents) :: disk.files.filter (·.1 != place)).any (isAbove ·.1) =
        (isAbove place || disk.files.any (isAbove ·.1)) := by
    rw [List.any_cons, List.any_filter, Bool.eq_iff_iff]
    simp only [Bool.or_eq_true, List.any_eq_true, Bool.and_eq_true, bne_iff_ne]
    constructor
    · rintro (h | ⟨file, hmem, -, h⟩)
      · exact Or.inl h
      · exact Or.inr ⟨file, hmem, h⟩
    · rintro (h | ⟨file, hmem, h⟩)
      · exact Or.inl h
      · by_cases hplace : file.1 = place
        · exact Or.inl (hplace ▸ h)
        · exact Or.inr ⟨file, hmem, hplace, h⟩
  unfold isDirectory putFile
  dsimp only
  rw [hfiles fun above => other.isPrefixOf above && other != above]
  ac_rfl

/-- Directories stay directories when a file is written. -/
theorem extends_putFile (disk : Disk) (place : FilePlace) (contents : String) :
    (disk.putFile place contents).Extends disk where
  home := rfl
  directory other h := by
    rw [isDirectory_putFile, h]
    rfl

/-- A path makes a file at the place it leads to, if it does not end in a stroke, the place is no
directory and not one of the system's own, and lies in a directory. -/
theorem newPlace_eq_ok_iff {path : String} : disk.newPlace path = .ok place ↔
    path.toList.getLast? ≠ some '/' ∧ disk.resolve path.toList = .ok place ∧
      disk.isDirectory place = false ∧ isSystem place = false ∧
      disk.isDirectory place.dropLast = true := by
  unfold newPlace
  dsimp only
  split
  · rename_i hlast
    refine ⟨fun h => ?_, fun h => absurd hlast h.1⟩
    -- a path that ends in a stroke makes no file
    split at h
    · contradiction
    · split at h
      · obtain ⟨_, _, h⟩ := bind_eq_ok_iff.1 h
        contradiction
      · contradiction
  · rename_i hlast
    rw [bind_eq_ok_iff]
    constructor
    · rintro ⟨found, hresolve, h⟩
      split at h
      · contradiction
      · rename_i hfound
        split at h
        · contradiction
        · rename_i hsystem
          split at h
          · rename_i hparent
            obtain rfl : found = place := Except.ok.inj h
            exact ⟨hlast, hresolve, eq_false_of_ne_true hfound,
              eq_false_of_ne_true hsystem, hparent⟩
          · contradiction
    · rintro ⟨-, hresolve, hplace, hsystem, hparent⟩
      exact ⟨place, hresolve, by simp [hplace, hsystem, hparent]⟩

/-- A path that leads to a new file leads to the same place when the file has been written. -/
theorem newPlace_putFile {path : String} (h : disk.newPlace path = .ok place) (contents : String) :
    (disk.putFile place contents).newPlace path = .ok place := by
  have extended := disk.extends_putFile place contents
  obtain ⟨hlast, hresolve, hplace, hsystem, hparent⟩ := newPlace_eq_ok_iff.1 h
  refine newPlace_eq_ok_iff.2
    ⟨hlast, extended.resolve_eq hresolve, ?_, hsystem, extended.directory _ hparent⟩
  rw [isDirectory_putFile, hplace, bne_self_eq_false, Bool.and_false]
  rfl

end EventChains.Disk
