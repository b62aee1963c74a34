import ChatHistory.Markup.Attachment
import ChatHistory.Proofs.Markup.Entity

/-!
# Reading the tags of attached files

A text in which tags with encoded file names stand between other characters is read as it was
written: the names come back in order, whatever characters they are made of, and the text between
the tags is left (`parse_textOf`).

A written name has no quote, so the attribute ends where the name does (`name?_attributes`), and no
`>`, so the tag ends where it was closed (`tag_append`).  The text between the tags has no `<`, so
no tag begins there, and the scan goes from one tag to the next (`scan_flatMap_text`).
-/

namespace ChatHistory.Attachment

open Text

/-! ## Tags in a text -/

/-- How a tag ends behind the quote of the name. -/
inductive Ending where
  | slash
  | spacedSlash
  | bracket

namespace Ending

/-- The characters of an ending. -/
def text : Ending → List Char
  | slash => "/>".toList
  | spacedSlash => " />".toList
  | bracket => ">".toList

/-- The characters of an ending in front of the `>`. -/
def inside (ending : Ending) : List Char :=
  ending.text.dropLast

/-- The characters of an ending that belong to the attributes. -/
def gap : Ending → List Char
  | spacedSlash => [' ']
  | _ => []

lemma text_eq (ending : Ending) : ending.text = ending.inside ++ ['>'] := by
  cases ending <;> rfl

lemma bracket_notMem_inside (ending : Ending) : '>' ∉ ending.inside := by
  cases ending <;> decide

end Ending

/-- An attached file, and the text behind its tag, in which no tag begins. -/
structure Tagged where
  name : String
  named : name ≠ ""
  ending : Ending
  behind : String
  plain : '<' ∉ behind.toList

/-- What stands in front of the name in a tag. -/
def front : List Char :=
  "<attached_file_path name=\"".toList

lemma front_eq : front = opening ++ ' ' :: nameAttribute := by
  decide +kernel

namespace Tagged

/-- The tag of an attached file. -/
def text (file : Tagged) : List Char :=
  front ++ Entity.encode file.name.toList ++ '"' :: file.ending.text

/-- The attributes in the tag of an attached file. -/
def attributes (file : Tagged) : List Char :=
  nameAttribute ++ (Entity.encode file.name.toList ++ '"' :: file.ending.gap)

/-- What stands between the tag name and the `>`. -/
def inner (file : Tagged) : List Char :=
  ' ' :: (nameAttribute ++ (Entity.encode file.name.toList ++ '"' :: file.ending.inside))

lemma text_eq (file : Tagged) : file.text = opening ++ (file.inner ++ ['>']) := by
  rw [text, front_eq, Ending.text_eq, inner]
  simp

end Tagged

/-- A text with attached files behind its first characters. -/
def textOf (first : String) (files : List Tagged) : String :=
  String.ofList (first.toList ++ files.flatMap fun file => file.text ++ file.behind.toList)

/-! ## One tag -/

/-- A tag ends at the first `>`. -/
lemma tag_of_inner {inner attributes : List Char} (closed : '>' ∉ inner)
    (h : attributes? inner = some attributes) (rest : List Char) :
    tag (opening ++ (inner ++ '>' :: rest)) = some (attributes, opening.length + inner.length) := by
  have hopen : inner.length ≠ (inner ++ '>' :: rest).length := by simp
  simp only [tag, isPrefixOf?_append, Option.bind_eq_bind, Option.bind_some,
    takeWhile_ne_append_cons closed, if_neg hopen, h]
  rfl

/-- No tag begins with another character than `<`. -/
lemma tag_cons_of_ne {c : Char} (h : c ≠ '<') (rest : List Char) : tag (c :: rest) = none := by
  have hopening : opening = '<' :: opening.tail := by decide +kernel
  rw [tag, hopening, List.isPrefixOf?, if_neg (by simpa using h.symm)]
  rfl

/-- The slash of an ending is not part of the attributes. -/
lemma withoutSlash_append (front : List Char) (ending : Ending) :
    withoutSlash (front ++ '"' :: ending.inside) = front ++ '"' :: ending.gap := by
  cases ending <;> simp [withoutSlash, Ending.inside, Ending.text, Ending.gap]

namespace Tagged

variable (file : Tagged)

lemma bracket_notMem_inner : '>' ∉ file.inner := by
  have hname : '>' ∉ Entity.encode file.name.toList :=
    Entity.notMem_encode (by decide) (by decide) _
  have hattribute : '>' ∉ nameAttribute := by decide
  simp [inner, hname, hattribute, file.ending.bracket_notMem_inside]

lemma attributes?_inner : attributes? file.inner = some file.attributes := by
  have hblanks : file.inner.takeWhile isBlank = [' '] := rfl
  have hrest : file.inner.dropWhile isBlank =
      nameAttribute ++ (Entity.encode file.name.toList ++ '"' :: file.ending.inside) := rfl
  have hslash := withoutSlash_append (nameAttribute ++ Entity.encode file.name.toList) file.ending
  rw [List.append_assoc, List.append_assoc] at hslash
  rw [attributes?, hblanks, hrest, attributes, ← hslash]
  rfl

/-- The tag of a file is matched as a whole. -/
lemma tag_append (rest : List Char) :
    tag (file.text ++ rest) = some (file.attributes, file.text.length - 1) := by
  have htag := tag_of_inner file.bracket_notMem_inner file.attributes?_inner rest
  have hlength : file.text.length - 1 = opening.length + file.inner.length := by
    rw [file.text_eq, List.length_append, List.length_append, List.length_singleton]
    omega
  rw [hlength, ← htag, file.text_eq]
  simp

/-- The attributes in the tag of a file give its name. -/
lemma name?_attributes : name? file.attributes = some file.name := by
  have filled : Entity.encode file.name.toList ≠ [] :=
    Entity.encode_ne_nil (by simpa using file.named)
  have unquoted : '"' ∉ Entity.encode file.name.toList :=
    Entity.notMem_encode (by decide) (by decide) _
  have hvalue : nameValue file.attributes = some (Entity.encode file.name.toList) := by
    simp only [nameValue, attributes, isPrefixOf?_append, Option.bind_eq_bind, Option.bind_some,
      takeWhile_ne_append_cons unquoted]
    simp [filled]
  rw [name?, search_of_match hvalue, Option.map_some, Entity.decode_encode, String.ofList_toList]

end Tagged

/-! ## All tags -/

/-- A text without `<` has no tag. -/
lemma scan_append_of_plain {front : List Char} (plain : '<' ∉ front) (rest : List Char) :
    scan tag (front ++ rest) = front.map .inr ++ scan tag rest :=
  scan_append_of_none (fun _ hc => tag_cons_of_ne (ne_of_mem_of_not_mem hc plain)) rest

/-- The scan goes from one tag to the next. -/
lemma scan_flatMap_text (files : List Tagged) :
    scan tag (files.flatMap fun file => file.text ++ file.behind.toList) =
      files.flatMap fun file => .inl file.attributes :: file.behind.toList.map .inr := by
  induction files with
  | nil => rfl
  | cons file files ih =>
    have filled : file.text ≠ [] := by simp [file.text_eq]
    rw [List.flatMap_cons, List.append_assoc, scan_append_of_match filled (file.tag_append _),
      scan_append_of_plain file.plain, ih]
    rfl

/-- The attributes of all tags give the names of all files. -/
lemma filterMap_name? (files : List Tagged) :
    (files.map Tagged.attributes).filterMap name? = files.map Tagged.name := by
  induction files with
  | nil => rfl
  | cons file files ih =>
    rw [List.map_cons, List.filterMap_cons_some file.name?_attributes, ih, List.map_cons]

lemma found_flatMap (files : List Tagged) :
    found (files.flatMap fun file => .inl file.attributes :: file.behind.toList.map .inr) =
      files.map Tagged.attributes := by
  induction files with
  | nil => rfl
  | cons file files ih =>
    rw [List.flatMap_cons, List.cons_append, found_cons_inl, found_append, found_map_inr, ih]
    rfl

lemma unmatched_flatMap (files : List Tagged) :
    unmatched (files.flatMap fun file => .inl file.attributes :: file.behind.toList.map .inr) =
      files.flatMap fun file => file.behind.toList := by
  induction files with
  | nil => rfl
  | cons file files ih =>
    rw [List.flatMap_cons, List.cons_append, unmatched_cons_inl, unmatched_append,
      unmatched_map_inr, ih, List.flatMap_cons]

/-- A text with tags of attached files gives the names of the files in order, and is otherwise left
as it is but for the blanks around it. -/
theorem parse_textOf {first : String} (plain : '<' ∉ first.toList) (files : List Tagged) :
    parse (textOf first files) = (files.map Tagged.name,
      String.ofList (strip (first.toList ++ files.flatMap fun file => file.behind.toList))) := by
  have hpieces : scan tag (textOf first files).toList = first.toList.map .inr ++
      files.flatMap fun file => .inl file.attributes :: file.behind.toList.map .inr := by
    rw [textOf, String.toList_ofList, scan_append_of_plain plain, scan_flatMap_text]
  have hfound : (found (scan tag (textOf first files).toList)).filterMap name? =
      files.map Tagged.name := by
    rw [hpieces, found_append, found_map_inr, List.nil_append, found_flatMap, filterMap_name?]
  have hunmatched : unmatched (scan tag (textOf first files).toList) =
      first.toList ++ files.flatMap fun file => file.behind.toList := by
    rw [hpieces, unmatched_append, unmatched_map_inr, unmatched_flatMap]
  simp only [parse, hfound, hunmatched]

/-- Names with slashes, with the characters of tags and a line break, and with what looks like an
entity and an attribute. -/
theorem parse_textOf_three :
    parse (" \"see\" <attached_file_path name=\"a/b/\"/> and" ++
        "<attached_file_path name=\"&quot;q&quot; &lt;x&gt;\n\" />" ++
        "<attached_file_path name=\"&amp;quot; name=&quot;y\"> > /> \n") =
      (["a/b/", "\"q\" <x>\n", "&quot; name=\"y"], "\"see\"  and > />") := by
  let files : List Tagged := [⟨"a/b/", by decide, .slash, " and", by decide⟩,
    ⟨"\"q\" <x>\n", by decide, .spacedSlash, "", by decide⟩,
    ⟨"&quot; name=\"y", by decide, .bracket, " > /> \n", by decide⟩]
  have htext : " \"see\" <attached_file_path name=\"a/b/\"/> and" ++
      "<attached_file_path name=\"&quot;q&quot; &lt;x&gt;\n\" />" ++
      "<attached_file_path name=\"&amp;quot; name=&quot;y\"> > /> \n" =
        textOf " \"see\" " files := by decide +kernel
  rw [htext, parse_textOf (by decide) files]
  decide +kernel

end ChatHistory.Attachment
