import Mathlib.Data.List.DropRight
import Vespertine.Object.Vfs

/-!
# Unpacking the ramdisk

The ramdisk is a ustar archive: for each entry a header of 512 bytes and the data of the entry,
padded to a multiple of 512 bytes, up to a header without a name or the end of the data.
`parse_tar` makes an object for each entry and links it into the directory that its path names.
-/

namespace Vespertine
namespace Tar

open Vfs

/-! ## Texts -/

/-- `from_utf8`. -/
def fromUtf8 (bytes : List UInt8) : Option Text :=
  (String.fromUTF8? bytes.toByteArray).map String.toList

/-- What stands before the last slash and behind it. -/
def rsplitSlash (path : Text) : Option (Text × Text) :=
  let back := path.rtakeWhile (· ≠ '/')
  if back.length = path.length then none
  else some (path.take (path.length - back.length - 1), back)

/-! ## The parser -/

/-- The fields of a header that are read. -/
structure TarHeader where
  filename : List UInt8
  size : List UInt8
  typeflag : UInt8

/-- The header at an offset.  Fields behind the end of the data are cut off here; the code would
read on behind the data. -/
def headerAt (data : List UInt8) (offset : Nat) : TarHeader where
  filename := (data.drop offset).take 100
  size := (data.drop (offset + 124)).take 12
  typeflag := (data[offset + 156]?).getD 0

/-- What an entry stands for. -/
inductive Kind
  | directory
  | regular (data : List UInt8)
deriving DecidableEq

/-- The bytes behind the header of an entry. -/
def Kind.data : Kind → List UInt8
  | .directory => []
  | .regular data => data

/-- The object that an entry becomes. -/
def Kind.object : Kind → KernelObject
  | .directory => .directory fun _ => none
  | .regular data => .file ⟨data⟩

/-- The bytes of a text. -/
def utf8 (text : Text) : List UInt8 := (String.ofList text).toByteArray.data.toList

/-- The octal digits of a size. -/
def octalDigit (digit : Fin 8) : Char := Char.ofNat ('0'.toNat + digit)

/-- The number that octal digits stand for. -/
def octalNumber (digits : List (Fin 8)) : Nat :=
  digits.foldl (fun value digit => value * 8 + digit.val) 0

/-- A name other than the two special ones. -/
structure IsComponent (name : Text) : Prop where
  isName : IsName name
  short : byteLen name ≤ 254

/-- An entry of an archive: its path as it is written, and the names that it consists of. -/
structure Entry where
  path : Text
  names : List Text
  kind : Kind

/-- The path spells the names, possibly behind `./` and with any number of slashes. -/
def Spells (path : Text) (names : List Text) : Prop :=
  path ≠ [] ∧ ∃ rest, (path = rest ∨ path = '.' :: '/' :: rest) ∧
    (rest.splitOn '/').filter (· ≠ []) = names

/-- A path of at most 100 bytes, without zeros, that consists of components; only a directory may
have the path of the root. -/
structure Entry.WellFormed (entry : Entry) : Prop where
  spells : Spells entry.path entry.names
  components : ∀ name ∈ entry.names, IsComponent name
  fits : (utf8 entry.path).length ≤ 100
  nulFree : 0 ∉ utf8 entry.path
  named : entry.names = [] → entry.kind = .directory

/-- The bytes of an entry. -/
structure Record (entry : Entry) (bytes : List UInt8) : Prop where
  length_eq : bytes.length = 512 + (entry.kind.data.length + 511) / 512 * 512
  filename : ∃ rest, bytes.take 100 = utf8 entry.path ++ rest ∧
    (rest = [] ∨ rest.head? = some 0)
  size : ∃ digits rest, (bytes.drop 124).take 12 = utf8 (digits.map octalDigit) ++ rest ∧
    digits ≠ [] ∧ octalNumber digits = entry.kind.data.length ∧
    (rest = [] ∨ rest.head? = some 0 ∨ rest.head? = some 0x20)
  typeflag : match entry.kind with
    | .directory => bytes[156]? = some 0x35
    | .regular _ => bytes[156]? = some 0x30 ∨ bytes[156]? = some 0
  data : (bytes.drop 512).take entry.kind.data.length = entry.kind.data

theorem utf8_eq_flatMap (text : Text) : utf8 text = text.flatMap String.utf8EncodeChar := by
  rw [utf8, String.toByteArray_ofList, List.utf8Encode, List.data_toByteArray]

theorem fromUtf8_utf8 (text : Text) : fromUtf8 (utf8 text) = some text := by
  have same : (utf8 text).toByteArray = (String.ofList text).toByteArray := by
    apply ByteArray.ext
    rw [utf8, List.data_toByteArray]
  rw [fromUtf8, same, String.fromUTF8?, dif_pos (String.ofList text).isValidUTF8]
  exact congrArg some String.toList_ofList

theorem length_le_utf8 (text : Text) : text.length ≤ (utf8 text).length := by
  rw [utf8_eq_flatMap]
  induction text with
  | nil => rfl
  | cons char text ih =>
      have positive := char.utf8Size_pos
      rw [List.flatMap_cons, List.length_append, String.length_utf8EncodeChar, List.length_cons]
      omega

/-- The parts of a path that are not empty. -/
def pieces (path : Text) : List Text := (path.splitOn '/').filter (· ≠ [])

theorem pieces_append (front back : Text) :
    pieces (front ++ '/' :: back) = pieces front ++ pieces back := by
  rw [pieces, List.splitOn_append_cons_self, List.filter_append]
  rfl

theorem pieces_eq_singleton {part : Text} (nonempty : part ≠ []) (free : '/' ∉ part) :
    pieces part = [part] := by
  rw [pieces, List.splitOn_eq_singleton free]
  simp [nonempty]

/-- Slashes at the end do not add parts. -/
theorem pieces_trimmed (path : Text) : pieces (path.rdropWhile (· = '/')) = pieces path := by
  induction path using List.reverseRecOn with
  | nil => rfl
  | append_singleton front char ih =>
      rw [List.rdropWhile_concat]
      split
      next slash =>
        obtain rfl := of_decide_eq_true slash
        rw [ih, pieces_append]
        simp [pieces]
      next => rfl

/-- The names that a walk looks up. -/
theorem filter_isName (path : Text) :
    (path.splitOn '/').filter IsName = (pieces path).filter IsName := by
  rw [pieces, List.filter_filter]
  apply List.filter_congr
  intro part _
  by_cases empty : part = []
  · simp [empty, IsName]
  · simp [empty]

/-- A path with a slash ends with the part behind the last one. -/
theorem exists_last_slash {path : Text} (slash : '/' ∈ path) :
    ∃ front back, path = front ++ '/' :: back ∧ '/' ∉ back := by
  obtain ⟨front, back, split_eq, absent⟩ :=
    List.eq_append_cons_of_mem (List.mem_reverse.mpr slash)
  refine ⟨back.reverse, front.reverse, ?_, by rwa [List.mem_reverse]⟩
  rw [← List.reverse_reverse path, split_eq]
  simp

theorem rsplitSlash_append {front back : Text} (free : '/' ∉ back) :
    rsplitSlash (front ++ '/' :: back) = some (front, back) := by
  have behind : (front ++ '/' :: back).rtakeWhile (· ≠ '/') = back := by
    rw [List.rtakeWhile, List.reverse_append, List.reverse_cons, List.append_assoc,
      List.takeWhile_append_of_pos]
    · simp
    · intro char mem
      have ne : char ≠ '/' := fun same => free (same ▸ List.mem_reverse.mp mem)
      simpa using ne
  have length_eq : (front ++ '/' :: back).length = front.length + (back.length + 1) := by simp
  rw [rsplitSlash]
  simp only [behind, length_eq]
  rw [if_neg (by omega)]
  have before : front.length + (back.length + 1) - back.length - 1 = front.length := by omega
  rw [before, List.take_left]

theorem rsplitSlash_eq_none {path : Text} (free : '/' ∉ path) : rsplitSlash path = none := by
  have all_behind : path.rtakeWhile (· ≠ '/') = path := by
    rw [List.rtakeWhile_eq_self_iff]
    intro char mem
    have ne : char ≠ '/' := fun same => free (same ▸ mem)
    simpa using ne
  rw [rsplitSlash, all_behind, if_pos rfl]

/-- Parts of a path that spells names. -/
theorem Spells.pieces_eq {path : Text} {names : List Text} (spells : Spells path names) :
    pieces path = names ∨ pieces path = ['.'] :: names := by
  obtain ⟨-, rest, rfl | rfl, names_eq⟩ := spells
  · exact .inl names_eq
  · refine .inr ?_
    have split_eq : '.' :: '/' :: rest = ['.'] ++ '/' :: rest := rfl
    rw [split_eq, pieces_append, pieces_eq_singleton (by decide) (by decide), ← names_eq]
    rfl

theorem pieces_cons_ne_nil {char : Char} (ne : char ≠ '/') (path : Text) :
    pieces (char :: path) ≠ [] := by
  obtain ⟨first, rest, split_eq⟩ := List.exists_cons_of_ne_nil (List.splitOn_ne_nil '/' path)
  have beq_eq : (char == '/') = false := beq_eq_false_iff_ne.mpr ne
  rw [pieces, List.splitOn_cons_eq_if_modifyHead, beq_eq, split_eq]
  simp

/-- A path that does not end with a slash is split at its last part. -/
theorem split_trimmed {path : Text} (nonempty : path ≠ [])
    (ends : ∀ nonempty : path ≠ [], path.getLast nonempty ≠ '/') :
    ∃ parent child, (rsplitSlash path).getD ([], path) = (parent, child) ∧
      pieces path = pieces parent ++ [child] ∧ parent.length ≤ path.length ∧
      (path = child ∨ path = parent ++ '/' :: child) := by
  by_cases slash : '/' ∈ path
  · obtain ⟨front, back, rfl, free⟩ := exists_last_slash slash
    have back_nonempty : back ≠ [] := by
      rintro rfl
      exact ends nonempty (by simp)
    refine ⟨front, back, ?_, ?_, by simp, .inr rfl⟩
    · rw [rsplitSlash_append free, Option.getD_some]
    · rw [pieces_append, pieces_eq_singleton back_nonempty free]
  · refine ⟨[], path, ?_, ?_, by simp, .inl rfl⟩
    · rw [rsplitSlash_eq_none slash, Option.getD_none]
    · rw [pieces_eq_singleton nonempty slash]
      rfl

/-- The parts of a path, with the dot in front that some paths have. -/
def Spelled (path : Text) (names : List Text) : Prop :=
  pieces path = names ∨ pieces path = ['.'] :: names

theorem Spelled.filter_eq {path : Text} {names : List Text} (spelled : Spelled path names)
    (components : ∀ name ∈ names, IsComponent name) :
    (path.splitOn '/').filter IsName = names := by
  have kept : names.filter IsName = names := by
    rw [List.filter_eq_self]
    exact fun name mem => decide_eq_true (components name mem).isName
  rw [filter_isName]
  cases spelled with
  | inl exact_eq => rw [exact_eq, kept]
  | inr dotted_eq => rw [dotted_eq, List.filter_cons_of_neg (by decide), kept]

theorem Spelled.short {path : Text} {names : List Text} (spelled : Spelled path names)
    (components : ∀ name ∈ names, IsComponent name) :
    ∀ dir ∈ path.splitOn '/', byteLen dir ≤ 254 := by
  intro dir mem
  by_cases empty : dir = []
  · rw [empty]
    decide
  · have piece : dir ∈ pieces path := List.mem_filter.mpr ⟨mem, by simpa using empty⟩
    cases spelled with
    | inl exact_eq => exact (components dir (exact_eq ▸ piece)).short
    | inr dotted_eq =>
        rw [dotted_eq, List.mem_cons] at piece
        obtain rfl | named := piece
        · decide
        · exact (components dir named).short

/-- The path of the root is skipped. -/
theorem Spells.skipped {path : Text} (spells : Spells path []) :
    path.rdropWhile (· = '/') = ['.'] ∨ path.rdropWhile (· = '/') = [] := by
  by_cases nonempty : path.rdropWhile (· = '/') = []
  · exact .inr nonempty
  · refine .inl ?_
    obtain ⟨parent, child, -, pieces_eq, -, written⟩ :=
      split_trimmed nonempty fun nonempty => by
        simpa using List.rdropWhile_last_not _ _ nonempty
    rw [pieces_trimmed] at pieces_eq
    rcases spells.pieces_eq with none_eq | dot_eq
    · rw [none_eq] at pieces_eq
      simp at pieces_eq
    · rw [dot_eq] at pieces_eq
      have parts_eq : [] ++ [['.']] = pieces parent ++ [child] := pieces_eq
      obtain ⟨parent_eq, child_eq⟩ := List.append_inj' parts_eq rfl
      have child_dot : child = ['.'] := (List.singleton_inj.mp child_eq).symm
      rcases written with written | written
      · rw [written, child_dot]
      · obtain ⟨-, rest, rfl | rfl, rest_eq⟩ := spells
        · exact absurd (dot_eq.symm.trans rest_eq) (List.cons_ne_nil _ _)
        · have start := List.rdropWhile_prefix (fun char : Char => decide (char = '/'))
            ('.' :: '/' :: rest)
          rw [written] at start
          cases parent with
          | nil => simp at start
          | cons char parent =>
              rw [List.cons_append, List.cons_prefix_cons] at start
              exact absurd parent_eq.symm (pieces_cons_ne_nil (by rw [start.1]; decide) parent)

/-- The path of another entry is split into its directory and its last name. -/
theorem Spells.split {path name : Text} {dirs : List Text} (spells : Spells path (dirs ++ [name]))
    (isName : IsName name) :
    ¬(path.rdropWhile (· = '/') = ['.'] ∨ path.rdropWhile (· = '/') = ['.', '.'] ∨
      path.rdropWhile (· = '/') = []) ∧
    ∃ parent, (rsplitSlash (path.rdropWhile (· = '/'))).getD ([], path.rdropWhile (· = '/')) =
        (parent, name) ∧ Spelled parent dirs ∧ parent.length ≤ path.length := by
  have parts := spells.pieces_eq
  rw [← pieces_trimmed] at parts
  have other (text : Text) (special : ¬IsName text) (text_eq : pieces text = [text]) :
      path.rdropWhile (· = '/') ≠ text := by
    intro same
    rw [same, text_eq] at parts
    rcases parts with exact_eq | dotted_eq
    · have name_eq : text = name := by simpa using congrArg List.getLast? exact_eq
      exact special (name_eq ▸ isName)
    · have length_eq := congrArg List.length dotted_eq
      simp at length_eq
  have nonempty : path.rdropWhile (· = '/') ≠ [] := by
    intro empty
    rw [empty] at parts
    rcases parts with exact_eq | dotted_eq
    · exact absurd (congrArg List.length exact_eq) (by simp [pieces])
    · exact absurd (congrArg List.length dotted_eq) (by simp [pieces])
  obtain ⟨parent, child, split_eq, pieces_eq, parent_le, -⟩ :=
    split_trimmed nonempty fun nonempty => by
      simpa using List.rdropWhile_last_not _ _ nonempty
  have trimmed_le : (path.rdropWhile (· = '/')).length ≤ path.length :=
    (List.rdropWhile_prefix _ _).length_le
  constructor
  · rintro (dot | dots | empty)
    · exact other ['.'] (by decide) (pieces_eq_singleton (by decide) (by decide)) dot
    · exact other ['.', '.'] (by decide) (pieces_eq_singleton (by decide) (by decide)) dots
    · exact nonempty empty
  · rw [pieces_eq] at parts
    rcases parts with exact_eq | dotted_eq
    · obtain ⟨parent_eq, child_eq⟩ := List.append_inj' exact_eq rfl
      rw [List.singleton_inj] at child_eq
      exact ⟨parent, by rw [split_eq, child_eq], .inl parent_eq, parent_le.trans trimmed_le⟩
    · rw [← List.cons_append] at dotted_eq
      obtain ⟨parent_eq, child_eq⟩ := List.append_inj' dotted_eq rfl
      rw [List.singleton_inj] at child_eq
      exact ⟨parent, by rw [split_eq, child_eq], .inr parent_eq, parent_le.trans trimmed_le⟩

/-! ## Headers -/

section Header

variable {entry : Entry} {bytes rest data : List UInt8} {offset : Nat}

end Header

end Tar
end Vespertine
