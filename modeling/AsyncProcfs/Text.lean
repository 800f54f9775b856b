import Mathlib.Data.List.DropRight
import AsyncProcfs.Words

/-!
# Text, white space and UTF-8

A text is the list of its characters and a file holds bytes. The definitions
follow the standard library calls under their own names: `trim`, the two white
space splitters, `to_str` and `to_string_lossy`; splitting and joining at a
character are `List.splitOn` and `List.intercalate`.
-/

namespace Text

open Words

/-- A string slice: its characters in order. -/
abbrev Str := List Char

abbrev Bytes := List UInt8

instance : Coe String Str := ⟨String.toList⟩

/-- The Unicode property White_Space, the one `trim` and `split_whitespace` use. -/
def isWhitespace (c : Char) : Bool :=
  decide (9 ≤ c.toNat ∧ c.toNat ≤ 13 ∨ c.toNat = 0x20 ∨ c.toNat = 0x85 ∨ c.toNat = 0xA0 ∨
    c.toNat = 0x1680 ∨ 0x2000 ≤ c.toNat ∧ c.toNat ≤ 0x200A ∨ c.toNat = 0x2028 ∨
    c.toNat = 0x2029 ∨ c.toNat = 0x202F ∨ c.toNat = 0x205F ∨ c.toNat = 0x3000)

def trim (s : Str) : Str := (s.dropWhile isWhitespace).rdropWhile isWhitespace

theorem rdropWhile_append_of_pos {α : Type*} {p : α → Bool} {l after : List α}
    (all : ∀ a ∈ after, p a = true) : (l ++ after).rdropWhile p = l.rdropWhile p := by
  rw [List.rdropWhile, List.reverse_append, List.dropWhile_append_of_pos (by simpa using all),
    List.rdropWhile]

/-- White space around a text makes no difference to `trim`. -/
theorem trim_padded {before after : Str} (s : Str)
    (blankBefore : ∀ c ∈ before, isWhitespace c = true)
    (blankAfter : ∀ c ∈ after, isWhitespace c = true) :
    trim (before ++ (s ++ after)) = trim s := by
  rw [trim, trim, List.dropWhile_append_of_pos blankBefore, List.dropWhile_append]
  split
  · rename_i empty
    rw [List.isEmpty_iff.mp empty, List.dropWhile_eq_nil_iff.mpr blankAfter]
  · exact rdropWhile_append_of_pos blankAfter

/-- Behind a text without white space only the end is trimmed. -/
theorem trim_solid_append {s t : Str} (nonempty : s ≠ [])
    (solid : ∀ c ∈ s, isWhitespace c = false) :
    trim (s ++ t) = s ++ t.rdropWhile isWhitespace := by
  have front : (s ++ t).dropWhile isWhitespace = s ++ t := by
    cases s with
    | nil => exact absurd rfl nonempty
    | cons c rest => exact List.dropWhile_cons_of_neg (by simp [solid c List.mem_cons_self])
  have back : (s ++ t.rdropWhile isWhitespace).rdropWhile isWhitespace =
      s ++ t.rdropWhile isWhitespace := by
    rw [List.rdropWhile_eq_self_iff]
    intro whole
    by_cases blank : t.rdropWhile isWhitespace = []
    · simp only [blank, List.append_nil] at whole ⊢
      simp [solid _ (List.getLast_mem whole)]
    · rw [List.getLast_append_of_ne_nil _ blank]
      exact List.rdropWhile_last_not _ _ blank
  have cut : s ++ t = (s ++ t.rdropWhile isWhitespace) ++ t.rtakeWhile isWhitespace := by
    rw [List.append_assoc, List.rdropWhile_append_rtakeWhile]
  rw [trim, front, cut, rdropWhile_append_of_pos fun c mem => List.mem_rtakeWhile_imp mem, back]

theorem trim_solid {s : Str} (solid : ∀ c ∈ s, isWhitespace c = false) : trim s = s := by
  cases s with
  | nil => rfl
  | cons c rest =>
    have whole := @trim_solid_append (c :: rest) [] (List.cons_ne_nil c rest) solid
    rwa [List.append_nil, List.rdropWhile_nil, List.append_nil] at whole

/-- `split_whitespace`. -/
def splitWhitespace (s : Str) : List Str := words isWhitespace s

/-- The blanks of `split_ascii_whitespace`; the vertical tab is none of them. -/
def isAsciiWhitespace (c : Char) : Bool :=
  c == ' ' || c == '\t' || c == '\n' || c == '\x0C' || c == '\r'

def splitAsciiWhitespace (s : Str) : List Str := words isAsciiWhitespace s

theorem isWhitespace_of_ascii {c : Char} (blank : isAsciiWhitespace c = true) :
    isWhitespace c = true := by
  simp only [isAsciiWhitespace, Bool.or_eq_true, beq_iff_eq] at blank
  rcases blank with (((rfl | rfl) | rfl) | rfl) | rfl
  all_goals decide

/-- Trimming first does not change the words of a text whose white space is all blank. -/
theorem words_trim {blank : Char → Bool} {s : Str}
    (covers : ∀ c ∈ s, isWhitespace c = true → blank c = true) :
    words blank (trim s) = words blank s := by
  let middle := s.dropWhile isWhitespace
  have front : ∀ c ∈ s.takeWhile isWhitespace, blank c = true := by
    intro c mem
    exact covers c ((List.takeWhile_prefix _).subset mem) (List.mem_takeWhile_imp mem)
  have back : ∀ c ∈ middle.rtakeWhile isWhitespace, blank c = true := by
    intro c mem
    have inside : c ∈ s :=
      (List.dropWhile_suffix _).subset ((List.rtakeWhile_suffix isWhitespace middle).subset mem)
    exact covers c inside (List.mem_rtakeWhile_imp mem)
  calc
    words blank (trim s) = words blank (trim s ++ middle.rtakeWhile isWhitespace) :=
      (words_append_blanks back _).symm
    _ = words blank middle := by rw [trim, List.rdropWhile_append_rtakeWhile]
    _ = words blank (s.takeWhile isWhitespace ++ middle) :=
      (words_blanks_append front _).symm
    _ = words blank s := by rw [List.takeWhile_append_dropWhile]

/-- `strip_prefix` with a character. -/
def stripPrefix (c : Char) : Str → Option Str
  | [] => none
  | d :: rest => if d = c then some rest else none

theorem stripPrefix_eq_some_iff {c : Char} {s rest : Str} :
    stripPrefix c s = some rest ↔ s = c :: rest := by
  cases s with
  | nil => simp [stripPrefix]
  | cons d s => simp [stripPrefix]

section Utf8

/-- The bytes of a text. -/
def encodeUtf8 (s : Str) : Bytes := s.flatMap String.utf8EncodeChar

/-- `to_str`: the text of some bytes, if they are well-formed UTF-8. -/
def decodeUtf8 (bytes : Bytes) : Option Str :=
  (ByteArray.mk bytes.toArray).utf8Decode?.map Array.toList

@[simp] theorem encodeUtf8_append (s t : Str) :
    encodeUtf8 (s ++ t) = encodeUtf8 s ++ encodeUtf8 t :=
  List.flatMap_append

theorem encodeUtf8_singleton (c : Char) : encodeUtf8 [c] = String.utf8EncodeChar c := by
  simp [encodeUtf8]

theorem utf8Encode_eq (s : Str) : s.utf8Encode = ByteArray.mk (encodeUtf8 s).toArray := by
  have bytes (l : List UInt8) : l.toByteArray = ByteArray.mk l.toArray := by
    apply ByteArray.ext
    simp
  exact bytes _

@[simp] theorem decodeUtf8_encodeUtf8 (s : Str) : decodeUtf8 (encodeUtf8 s) = some s := by
  rw [decodeUtf8, ← utf8Encode_eq, List.utf8Decode?_utf8Encode]
  simp

theorem decodeUtf8_eq_some_iff {bytes : Bytes} {s : Str} :
    decodeUtf8 bytes = some s ↔ bytes = encodeUtf8 s := by
  constructor
  · intro decoded
    obtain ⟨chars, found, rfl⟩ := Option.map_eq_some_iff.mp decoded
    have whole := @ByteArray.utf8Encode_get_utf8Decode? ⟨bytes.toArray⟩ (by simp [found])
    simp only [found, Option.get_some, utf8Encode_eq] at whole
    simpa using congrArg (fun b => b.data.toList) whole.symm
  · rintro rfl
    exact decodeUtf8_encodeUtf8 s

/-- A well-formed start does not change how the rest decodes. -/
theorem decodeUtf8_append_left (s : Str) (bytes : Bytes) :
    decodeUtf8 (encodeUtf8 s ++ bytes) = (decodeUtf8 bytes).map (s ++ ·) := by
  induction s with
  | nil => simp [encodeUtf8]
  | cons c s ih =>
    have step := @ByteArray.utf8Decode?_utf8Encode_singleton_append
      ⟨(encodeUtf8 s ++ bytes).toArray⟩ c
    have glued : [c].utf8Encode ++ ByteArray.mk (encodeUtf8 s ++ bytes).toArray =
        ByteArray.mk (encodeUtf8 (c :: s) ++ bytes).toArray := by
      rw [utf8Encode_eq]
      apply ByteArray.ext
      simp [encodeUtf8]
    rw [glued] at step
    have first : Array.toList ∘ (#[c] ++ ·) = (c :: ·) ∘ Array.toList := by
      funext chars
      simp
    rw [decodeUtf8, step, Option.map_map, first, ← Option.map_map]
    change (decodeUtf8 (encodeUtf8 s ++ bytes)).map (c :: ·) = _
    rw [ih, Option.map_map]
    rfl

/-- The bytes before the last character are found again from the end. -/
theorem dropLast_rdropWhile_append (bytes : Bytes) (c : Char) :
    ((bytes ++ String.utf8EncodeChar c).rdropWhile
      fun b => !decide b.IsUTF8FirstByte).dropLast = bytes := by
  have first := @UInt8.isUTF8FirstByte_getElem_utf8EncodeChar c
  cases encoded : String.utf8EncodeChar c with
  | nil => exact absurd encoded String.utf8EncodeChar_ne_nil
  | cons lead rest =>
    simp only [encoded] at first
    have leads : lead.IsUTF8FirstByte := (@first 0 (by simp)).mpr rfl
    have follow : ∀ b ∈ rest, (!decide b.IsUTF8FirstByte) = true := by
      intro b mem
      obtain ⟨i, bound, rfl⟩ := List.getElem_of_mem mem
      have later := @first (i + 1) (by simpa using bound)
      simpa using later
    rw [← List.singleton_append, ← List.append_assoc, rdropWhile_append_of_pos follow,
      List.rdropWhile_concat_neg _ _ _ (by simp [leads]), List.dropLast_concat]

theorem decodeUtf8_append_char (bytes : Bytes) (c : Char) :
    decodeUtf8 (bytes ++ String.utf8EncodeChar c) = (decodeUtf8 bytes).map (· ++ [c]) := by
  cases decoded : decodeUtf8 bytes with
  | some s =>
    obtain rfl := decodeUtf8_eq_some_iff.mp decoded
    rw [← encodeUtf8_singleton, ← encodeUtf8_append, decodeUtf8_encodeUtf8, Option.map_some]
  | none =>
    rw [Option.map_none, Option.eq_none_iff_forall_ne_some]
    intro t whole
    have whole := decodeUtf8_eq_some_iff.mp whole
    obtain rfl | ⟨t, d, rfl⟩ := t.eq_nil_or_concat
    · simp [encodeUtf8] at whole
    · have cut := congrArg
        (fun l => (l.rdropWhile fun b : UInt8 => !decide b.IsUTF8FirstByte).dropLast) whole
      rw [List.concat_eq_append, encodeUtf8_append, encodeUtf8_singleton,
        dropLast_rdropWhile_append, dropLast_rdropWhile_append] at cut
      rw [cut, decodeUtf8_encodeUtf8] at decoded
      cases decoded

/-- A well-formed end does not change how the rest decodes either. -/
theorem decodeUtf8_append_right (bytes : Bytes) (s : Str) :
    decodeUtf8 (bytes ++ encodeUtf8 s) = (decodeUtf8 bytes).map (· ++ s) := by
  induction s using List.reverseRecOn with
  | nil => simp [encodeUtf8]
  | append_singleton s c ih =>
    rw [encodeUtf8_append, encodeUtf8_singleton, ← List.append_assoc,
      decodeUtf8_append_char, ih, Option.map_map]
    simp [Function.comp_def]

theorem decodeUtf8_padded (before after : Str) (bytes : Bytes) :
    decodeUtf8 (encodeUtf8 before ++ (bytes ++ encodeUtf8 after)) =
      (decodeUtf8 bytes).map fun s => before ++ (s ++ after) := by
  rw [decodeUtf8_append_left, decodeUtf8_append_right, Option.map_map]
  rfl

theorem encodeUtf8_injective : Function.Injective encodeUtf8 := by
  intro s t same
  have decoded := congrArg decodeUtf8 same
  simpa using decoded

/-- The length of the malformed start of some bytes that one replacement character
stands for: the longest prefix of a well-formed sequence, and one byte at least. -/
def malformedLength : Bytes → Nat
  | b₀ :: b₁ :: rest =>
    let tail (b : UInt8) : Bool := 0x80 ≤ b && b ≤ 0xBF
    let second : Bool :=
      if b₀ == 0xE0 then 0xA0 ≤ b₁ && b₁ ≤ 0xBF
      else if b₀ == 0xED then 0x80 ≤ b₁ && b₁ ≤ 0x9F
      else if 0xE1 ≤ b₀ && b₀ ≤ 0xEF then tail b₁
      else if b₀ == 0xF0 then 0x90 ≤ b₁ && b₁ ≤ 0xBF
      else if 0xF1 ≤ b₀ && b₀ ≤ 0xF3 then tail b₁
      else if b₀ == 0xF4 then 0x80 ≤ b₁ && b₁ ≤ 0x8F
      else false
    if !second then 1
    else match rest with
      | b₂ :: _ => if 0xF0 ≤ b₀ && tail b₂ then 3 else 2
      | [] => 2
  | _ => 1

def lossyChunks : Nat → Bytes → Str
  | _, [] => []
  | 0, _ => []
  | fuel + 1, bytes =>
    match (ByteArray.mk bytes.toArray).utf8DecodeChar? 0 with
    | some c => c :: lossyChunks fuel (bytes.drop c.utf8Size)
    | none => '\uFFFD' :: lossyChunks fuel (bytes.drop (malformedLength bytes))

/-- `to_string_lossy`: every malformed piece becomes one replacement character. -/
def toStringLossy (bytes : Bytes) : Str :=
  (decodeUtf8 bytes).getD (lossyChunks bytes.length bytes)

@[simp] theorem toStringLossy_encodeUtf8 (s : Str) : toStringLossy (encodeUtf8 s) = s := by
  simp [toStringLossy]

example : toStringLossy [0x61, 0xE2, 0x82, 0x62, 0xFF] = ['a', '\uFFFD', 'b', '\uFFFD'] := by
  decide

end Utf8

end Text
