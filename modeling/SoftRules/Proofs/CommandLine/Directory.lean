import SoftRules.CommandLine.Directory

/-!
What a write leaves in a directory: the file holds the text, which can be read again, and the other
files are as before.
-/

set_option autoImplicit false

namespace SoftRules

namespace Directory

variable {directory : Directory} {path : String} {place other : FilePath}

theorem Place.ofPath_name {name : String} (relative : name.toList.head? ≠ some '/')
    (split : name.splitOn "/" = [name]) (isName : step (inside []) name = inside [name]) :
    ofPath name = inside [name] := by
  simp [ofPath, relative, split, isName]

/-- A path at which a file can be created or replaced, and the place that it leads to. -/
structure Creates (directory : Directory) (path : String) (place : FilePath) : Prop where
  leads : Place.ofPath path = .inside place
  isFile : directory.isDirectory place = false
  noSlash : endsInSlash path = false
  reachable : directory.isBlocked place = false
  parent : directory.isDirectory place.dropLast = true

theorem Creates.write_eq (creates : directory.Creates path place) (text : String) :
    directory.write path text = .ok (directory.insert place text.toUTF8) := by
  simp [write, creates.leads, creates.isFile, creates.noSlash, creates.reachable, creates.parent]

theorem content?_insert_self (directory : Directory) (place : FilePath) (bytes : ByteArray) :
    (directory.insert place bytes).content? place = some bytes :=
  List.lookup_cons_self

theorem lookup_filter_of_ne (different : other ≠ place) (files : List (FilePath × ByteArray)) :
    (files.filter fun (file, _) => file != place).lookup other = files.lookup other := by
  induction files with
  | nil => rfl
  | cons entry files inductionHypothesis =>
      obtain ⟨file, content⟩ := entry
      by_cases isPlace : file = place
      · have isOther : (other == file) = false := by simp [isPlace, different]
        rw [List.filter_cons_of_neg (by simp [isPlace]), List.lookup_cons, isOther,
          inductionHypothesis]
      · rw [List.filter_cons_of_pos (by simp [isPlace]), List.lookup_cons, List.lookup_cons,
          inductionHypothesis]

theorem content?_insert_of_ne (different : other ≠ place) (bytes : ByteArray) :
    (directory.insert place bytes).content? other = directory.content? other := by
  have isOther : (other == place) = false := by simp [different]
  unfold content? insert
  rw [List.lookup_cons, isOther]
  exact lookup_filter_of_ne different directory.files

/-- The files below a place are not affected by a file at that place. -/
theorem isDirectory_insert_self (directory : Directory) (place : FilePath) (bytes : ByteArray) :
    (directory.insert place bytes).isDirectory place = directory.isDirectory place := by
  unfold isDirectory insert
  rw [List.any_cons, List.any_filter]
  congr 1
  simp only [bne_self_eq_false, Bool.and_false, Bool.false_or]
  congr 1
  funext entry
  rw [bne_comm, Bool.and_comm, Bool.and_assoc, Bool.and_self]

theorem decode_toUTF8 (text : String) : decode text.toUTF8 = .ok text := by
  have valid : text.toUTF8.IsValidUTF8 := text.isValidUTF8
  unfold decode String.fromUTF8?
  rw [dif_pos valid]
  rfl

theorem read_of_content (leads : Place.ofPath path = .inside place)
    (isFile : directory.isDirectory place = false) (noSlash : endsInSlash path = false)
    {text : String} (content : directory.content? place = some text.toUTF8) :
    directory.read path = .ok text := by
  have bytes : directory.readBytes path = .ok text.toUTF8 := by
    simp only [readBytes, leads, isFile, content, noSlash, Bool.false_eq_true, if_false]
  unfold read
  rw [bytes]
  exact decode_toUTF8 text

/-- What has been written can be read again. -/
theorem Creates.read_insert (creates : directory.Creates path place) (text : String) :
    (directory.insert place text.toUTF8).read path = .ok text := by
  apply read_of_content creates.leads ?_ creates.noSlash (content?_insert_self directory place _)
  rw [isDirectory_insert_self]
  exact creates.isFile

end Directory

end SoftRules
